import Yanero.FscSockets

/-! # A worker of the server

    The handlers that only look at the image, and the turn of
    `procesarPedido`: a request in, and the bytes that its handler sends back.

    What the handlers share is the image and memcached, one request at a time;
    the monitors that keep several workers apart are in `RfsSincro`. -/

namespace Rfs

open Fsc (Pedido Contestacion paqueteRta)

/-- `procesarGetattr`. -/
def procesarGetattr (fs : Ext2) (path : List UInt8) : Option Contestacion := do
  let nroInodo ← buscarPath fs path
  if nroInodo = 0 then some .error
  else
    let inodo := leerInodo fs nroInodo
    some (.getattr inodo.iMode inodo.iLinksCount inodo.iSize)

/-- `procesarReaddir`; the names are sent as C strings. -/
def procesarReaddir (fs : Ext2) (path : List UInt8) : Option Contestacion := do
  let nroInodo ← buscarPath fs path
  if nroInodo = 0 then some .error
  else
    let listaDir ← listar fs nroInodo
    some (.readdir (listaDir.map Dir.nombre))

/-- `procesarOpen`. -/
def procesarOpen (fs : Ext2) (path : List UInt8) : Option Contestacion := do
  let nroInodo ← buscarPath fs path
  some (if nroInodo = 0 then .error else .result 0)

/-- The image and memcached. -/
structure Proceso where
  fs : Ext2
  cache : Cache

/-- The bytes that are sent for the answer of a handler. -/
def Respuesta.enviar (basura : Nat → UInt8) (p : Pedido) : Respuesta → Option (List UInt8)
  | .error => paqueteRta basura p .error
  | .result respuesta => paqueteRta basura p (.result respuesta)
  | .write cantEscrita => paqueteRta basura p (.result cantEscrita)
  | .read paquete => some paquete

/-- A handler that changes the image and sends its answer. -/
def Proceso.con (s : Proceso) (basura : Nat → UInt8) (p : Pedido)
    (r : Option (Ext2 × Respuesta)) : Option (Proceso × List UInt8) := do
  let (fs, respuesta) ← r
  let rta ← respuesta.enviar basura p
  some ({ s with fs := fs }, rta)

/-- A handler that changes nothing. -/
def Proceso.mira (s : Proceso) (basura : Nat → UInt8) (p : Pedido) (r : Option Contestacion) :
    Option (Proceso × List UInt8) := do
  let c ← r
  let rta ← paqueteRta basura p c
  some (s, rta)

/-- `procesarPedido`, one turn of a worker: the state it leaves and what it
    sends.  Offsets are the `uint32_t` they are compared as. -/
def procesarPedido (basura : Nat → UInt8) (p : Pedido) (s : Proceso) :
    Option (Proceso × List UInt8) :=
  match p with
  | .soloPath .getattr path => s.mira basura p (procesarGetattr s.fs path)
  | .soloPath .readdir path => s.mira basura p (procesarReaddir s.fs path)
  | .soloPath .opn path => s.mira basura p (procesarOpen s.fs path)
  | .soloPath .create path => s.con basura p (procesarCreate s.fs path)
  | .soloPath .unlink path => s.con basura p (procesarUnlink s.fs path)
  | .soloPath .mkdir path => s.con basura p (procesarMkdir s.fs path)
  | .soloPath .rmdir path => s.con basura p (procesarRmdir s.fs path)
  | .truncate path offset => s.con basura p (procesarTruncate s.fs path (Fsc.aUint32 offset))
  | .write path size buf offset => do
      let (fs, cache, respuesta) ←
        procesarWrite s.fs s.cache path (Fsc.aUint32 offset) size.toNat buf
      let rta ← respuesta.enviar basura p
      some (⟨fs, cache⟩, rta)
  | .read path offset size => do
      let (cache, respuesta) ←
        procesarRead basura s.fs s.cache path (Fsc.aUint32 offset) size.toNat
      let rta ← respuesta.enviar basura p
      some ({ s with cache := cache }, rta)
  -- the `default` of the switch
  | .soloPath .release _ => some (s, [])

end Rfs
