import Yanero.Guiones
import Yanero.NipcAnchos
import Yanero.NipcProofs

/-! # The operations of the client

    `fsc.c` as programs: each operation gives orders to memcached, to the pool
    of sockets and to a socket, one at a time, and goes on with the answers.  A
    section under a mutex is one order.  FUSE hands over absolute paths without
    empty components (`Ruta`).

    Reading outside a block that came from `malloc`, a packet that does not fit
    the block made for it and a loop that never ends have no defined
    continuation: the program stops at `Orden.indefinido`, which no answer
    completes.  So does `free` of a pointer that was never assigned, which is
    where `fsc_readdir` ends when memcached had the listing
    (`Orden.liberarSinAsignar`). -/

namespace Fsc

open Guiones Bloques

/-- A key of memcached: its bytes. -/
abbrev Clave := List UInt8

/-- `CACHEGETATR`. -/
def cacheGetattr : UInt8 := 97

/-- `CACHEREADDIR`. -/
def cacheReaddir : UInt8 := 100

/-- `cache_armarClave`. -/
def cacheArmarClave (tipoOp : UInt8) (path : List UInt8) : Clave := tipoOp :: path

/-- An absolute path as FUSE builds it from the names of the components. -/
structure Ruta where
  nombres : List (List UInt8)
  bien : ∀ n ∈ nombres, n ≠ [] ∧ 47 ∉ n ∧ 0 ∉ n
deriving DecidableEq

/-- The C string of a path. -/
def Ruta.bytes (q : Ruta) : List UInt8 :=
  if q.nombres = [] then [47] else q.nombres.flatMap (47 :: ·)

/-- The directory of a path; the root is its own. -/
def Ruta.padre (q : Ruta) : Ruta :=
  ⟨q.nombres.dropLast, fun n hn => q.bien n (List.dropLast_subset q.nombres hn)⟩

/-- What an operation orders: the calls of `cacheInterface.c`, of the pool, of
    its semaphore `socketDisp` and of `sockets.c`.  `liberarSinAsignar` is the
    `free(paquete_send)` of `fsc_readdir` after a hit, when `filler` has been
    given the names. -/
inductive Orden where
  | bajarInfo (tipoOp : UInt8) (path : List UInt8)
  | subirInfo (tipoOp : UInt8) (path payload : List UInt8)
  | borrarClave (tipoOp : UInt8) (path : List UInt8)
  | semWait
  | semPost
  | obtenerSocket
  | habilitarSocket (sock : Nat)
  | enviar (sock : Nat) (pedido : Pedido)
  | recvHeader (sock : Nat)
  | recvPayload (sock tamano : Nat)
  | liberarSinAsignar (entregados : List (List UInt8))
  | indefinido

/-- The answers: the cached bytes when the key was there, a socket, the type
    and the length of a header, the bytes of a payload. -/
def Orden.Rta : Orden → Type
  | .bajarInfo _ _ => Option (List UInt8)
  | .subirInfo _ _ _ => Unit
  | .borrarClave _ _ => Unit
  | .semWait => Unit
  | .semPost => Unit
  | .obtenerSocket => Nat
  | .habilitarSocket _ => Unit
  | .enviar _ _ => Unit
  | .recvHeader _ => UInt8 × Nat
  | .recvPayload _ _ => List UInt8
  | .liberarSinAsignar _ => Empty
  | .indefinido => Empty

/-- What an operation gives back to FUSE: its `int`, or on success the `stat`,
    the names passed to `filler` or the bytes read. -/
inductive Resultado where
  | valor (respuesta : Int)
  | atributos (attr : Nipc.Mensaje)
  | nombres (lista : List (List UInt8))
  | leido (lectura : List UInt8)
deriving DecidableEq

abbrev Programa := Guion Orden Orden.Rta Resultado

/-- Undefined behaviour. -/
def indefinido : Programa := .haz .indefinido fun r : Empty => r.elim

/-- `ENOENT`. -/
def enoent : Int := 2

/-- `deserializar_Result_Rta`. -/
def deserializarResultRta (paquete : List UInt8) : Option Int :=
  (sacar paquete 0 4).map Nipc.conSigno

/-- `deserializar_Write_Rta`, the same text. -/
def deserializarWriteRta (paquete : List UInt8) : Option Int := deserializarResultRta paquete

/-- The result of a deserialiser that stays inside the block. -/
def definido {β : Type} (x : Option β) (sigue : β → Programa) : Programa :=
  match x with
  | some b => sigue b
  | none => indefinido

/-- `return deserializar_Result_Rta(paquete_recv);`. -/
def devolver (paqueteRecv : List UInt8) : Programa :=
  definido (deserializarResultRta paqueteRecv) fun respuesta => .fin (.valor respuesta)

/-- Give the socket back and go on. -/
def soltarSocket (sock : Nat) (sigue : Programa) : Programa :=
  .haz (.habilitarSocket sock) fun _ => .haz .semPost fun _ => sigue

/-- Build the packet, take a socket from the pool and send the request. -/
def pedirA (basura : Nat → UInt8) (pedido : Pedido) (sigue : Nat → Programa) : Programa :=
  definido (pedido.paquete basura) fun _ =>
    .haz .semWait fun _ =>
    .haz .obtenerSocket fun sock =>
    .haz (.enviar sock pedido) fun _ => sigue sock

/-- The answer most operations wait for: any other type in the header is an
    error, else the payload follows; the socket is given back. -/
def recibir (pedido : Pedido) (error : Resultado) (exito : List UInt8 → Programa) (sock : Nat) :
    Programa :=
  .haz (.recvHeader sock) fun (tipoRecv, tamanoPaq) =>
    if tipoRecv ≠ Nipc.tipoDe pedido then soltarSocket sock (.fin error)
    else
      .haz (.recvPayload sock tamanoPaq) fun paqueteRecv =>
        soltarSocket sock (exito paqueteRecv)

/-- A request and its answer. -/
def conServidor (basura : Nat → UInt8) (pedido : Pedido) (error : Resultado)
    (exito : List UInt8 → Programa) : Programa :=
  pedirA basura pedido (recibir pedido error exito)

/-- `fsc_getattr` and `fsc_readdir` up to the answer: from the cache, else from
    the server and into the cache. -/
def conCache (basura : Nat → UInt8) (tipoOp : UInt8) (tipo : TipoPath) (path : List UInt8)
    (error : Int) (acierto exito : List UInt8 → Programa) : Programa :=
  .haz (.bajarInfo tipoOp path) fun
    | some paqueteRecv => acierto paqueteRecv
    | none =>
        conServidor basura (.soloPath tipo path) (.valor error) fun paqueteRecv =>
          .haz (.subirInfo tipoOp path paqueteRecv) fun _ => exito paqueteRecv

/-- `attr = deserializar_Gettattr_Rta(paquete_recv);` and the fields of `stbuf`. -/
def llenarStbuf (paqueteRecv : List UInt8) : Programa :=
  definido (Nipc.deserializarGetattr Nipc.fsc32 paqueteRecv) fun attr => .fin (.atributos attr)

/-- `fsc_getattr`. -/
def fscGetattr (basura : Nat → UInt8) (path : List UInt8) : Programa :=
  conCache basura cacheGetattr .getattr path (-enoent) llenarStbuf llenarStbuf

/-- The names of the loop of `fsc_readdir`.  `off` takes 65536 values, so a loop
    that has not ended after as many turns never does. -/
def nombresReaddir (paqueteRecv : List UInt8) : Option (List (List UInt8)) := do
  let listaNombres ← deserializarReaddirRta paqueteRecv.length paqueteRecv
  fillerNombres paqueteRecv.length listaNombres 65537 0

/-- `free` of a pointer that was never assigned. -/
def liberarSinAsignar (entregados : List (List UInt8)) : Programa :=
  .haz (.liberarSinAsignar entregados) fun r : Empty => r.elim

/-- `fsc_readdir`: only a miss assigns `paquete_send`, and both branches free it
    once `filler` has been given the names. -/
def fscReaddir (basura : Nat → UInt8) (path : List UInt8) : Programa :=
  conCache basura cacheReaddir .readdir path (-1)
    (fun paqueteRecv => definido (nombresReaddir paqueteRecv) liberarSinAsignar)
    (fun paqueteRecv => definido (nombresReaddir paqueteRecv) fun lista => .fin (.nombres lista))

/-- `fsc_open`. -/
def fscOpen (basura : Nat → UInt8) (path : List UInt8) : Programa :=
  conServidor basura (.soloPath .opn path) (.valor (-1)) devolver

/-- `fsc_release`: the server does not answer. -/
def fscRelease (basura : Nat → UInt8) (path : List UInt8) : Programa :=
  pedirA basura (.soloPath .release path) fun sock => soltarSocket sock (.fin (.valor 0))

/-- `fsc_read`: an empty payload is not received. -/
def fscRead (basura : Nat → UInt8) (path : List UInt8) (size : UInt32) (offset : Int) : Programa :=
  if 65535 < size.toNat then .fin (.valor (-enoent))
  else
    pedirA basura (.read path offset size) fun sock =>
      .haz (.recvHeader sock) fun (tipoRecv, tamanoPaq) =>
        if tipoRecv ≠ tipoRead then soltarSocket sock (.fin (.valor (-1)))
        else if tamanoPaq = 0 then soltarSocket sock (.fin (.valor 0))
        else
          .haz (.recvPayload sock tamanoPaq) fun paqueteRecv =>
            soltarSocket sock (.fin (.leido paqueteRecv))

/-- `fsc_write`: the key goes whatever the server's count is. -/
def fscWrite (basura : Nat → UInt8) (path buf : List UInt8) (size : UInt32) (offset : Int) :
    Programa :=
  conServidor basura (.write path size buf offset) (.valor (-1)) fun paqueteRecv =>
    definido (deserializarWriteRta paqueteRecv) fun respuesta =>
      .haz (.borrarClave cacheGetattr path) fun _ => .fin (.valor respuesta)

/-- `borrarCacheDirectorios`: both keys of the path and both of its directory. -/
def borrarCacheDirectorios (path : List UInt8) (sigue : Programa) : Programa :=
  .haz (.borrarClave cacheGetattr path) fun _ =>
  .haz (.borrarClave cacheReaddir path) fun _ =>
    definido (separarPathCliente path) fun (pathDir, _) =>
      .haz (.borrarClave cacheGetattr pathDir) fun _ =>
      .haz (.borrarClave cacheReaddir pathDir) fun _ => sigue

/-- `fsc_create`, `fsc_unlink`, `fsc_rmdir` and `fsc_mkdir`. -/
def fscEntrada (basura : Nat → UInt8) (tipo : TipoPath) (path : List UInt8) : Programa :=
  conServidor basura (.soloPath tipo path) (.valor (-1)) fun paqueteRecv =>
    borrarCacheDirectorios path (devolver paqueteRecv)

def fscCreate (basura : Nat → UInt8) (path : List UInt8) : Programa :=
  fscEntrada basura .create path

def fscUnlink (basura : Nat → UInt8) (path : List UInt8) : Programa :=
  fscEntrada basura .unlink path

def fscRmdir (basura : Nat → UInt8) (path : List UInt8) : Programa :=
  fscEntrada basura .rmdir path

def fscMkdir (basura : Nat → UInt8) (path : List UInt8) : Programa :=
  fscEntrada basura .mkdir path

/-- `fsc_truncate`. -/
def fscTruncate (basura : Nat → UInt8) (path : List UInt8) (offset : Int) : Programa :=
  conServidor basura (.truncate path offset) (.valor (-1)) fun paqueteRecv =>
    .haz (.borrarClave cacheGetattr path) fun _ => devolver paqueteRecv

/-- The table `hello_oper`. -/
inductive Operacion where
  | getattr (path : Ruta)
  | readdir (path : Ruta)
  | opn (path : Ruta)
  | release (path : Ruta)
  | read (path : Ruta) (size : UInt32) (offset : Int)
  | write (path : Ruta) (buf : List UInt8) (size : UInt32) (offset : Int)
  | create (path : Ruta)
  | unlink (path : Ruta)
  | truncate (path : Ruta) (offset : Int)
  | rmdir (path : Ruta)
  | mkdir (path : Ruta)
deriving DecidableEq

def Operacion.programa (basura : Nat → UInt8) : Operacion → Programa
  | .getattr path => fscGetattr basura path.bytes
  | .readdir path => fscReaddir basura path.bytes
  | .opn path => fscOpen basura path.bytes
  | .release path => fscRelease basura path.bytes
  | .read path size offset => fscRead basura path.bytes size offset
  | .write path buf size offset => fscWrite basura path.bytes buf size offset
  | .create path => fscCreate basura path.bytes
  | .unlink path => fscUnlink basura path.bytes
  | .truncate path offset => fscTruncate basura path.bytes offset
  | .rmdir path => fscRmdir basura path.bytes
  | .mkdir path => fscMkdir basura path.bytes

/-- The request of an operation. -/
def Operacion.pedido : Operacion → Pedido
  | .getattr path => .soloPath .getattr path.bytes
  | .readdir path => .soloPath .readdir path.bytes
  | .opn path => .soloPath .opn path.bytes
  | .release path => .soloPath .release path.bytes
  | .read path size offset => .read path.bytes offset size
  | .write path buf size offset => .write path.bytes size buf offset
  | .create path => .soloPath .create path.bytes
  | .unlink path => .soloPath .unlink path.bytes
  | .truncate path offset => .truncate path.bytes offset
  | .rmdir path => .soloPath .rmdir path.bytes
  | .mkdir path => .soloPath .mkdir path.bytes

end Fsc
