import Yanero.Bloques

/-! # The client's side of the wire

    The serialisers of `fsc/serializar_y_deserializar.c` and the frames the
    operations of `fsc/fsc.c` send with them.  A frame is a type byte, the
    length of the payload in two bytes and the payload.  Data model of the
    makefiles: 32 bits, little-endian, `size_t` of four bytes and `off_t` of
    eight (`_FILE_OFFSET_BITS=64`).

    Lengths and positions are the source's `uint16_t`, so every sum that is
    stored in one is taken modulo 65536.  Paths are byte lists without their
    terminator. -/

namespace Fsc

open Bloques Palabras

/-- The operations whose request carries only a path. -/
inductive TipoPath where
  | getattr
  | readdir
  | opn
  | release
  | create
  | unlink
  | rmdir
  | mkdir
  deriving DecidableEq, Repr

/-- `TIPOGETATTR`, `TIPOREADDIR`, `TIPOOPEN`, `TIPORELEASE`, `TIPOCREATE`,
    `TIPOUNLINK`, `TIPORMDIR`, `TIPOMKDIR`. -/
def TipoPath.codigo : TipoPath → UInt8
  | .getattr => 1
  | .readdir => 2
  | .opn => 3
  | .release => 4
  | .create => 7
  | .unlink => 8
  | .rmdir => 10
  | .mkdir => 11

def tipoRead : UInt8 := 5
def tipoWrite : UInt8 := 6
def tipoTruncate : UInt8 := 9

/-- One request of the client, with the arguments of its serialiser. -/
inductive Pedido where
  | soloPath (tipo : TipoPath) (path : List UInt8)
  | read (path : List UInt8) (offset : Int) (size : UInt32)
  | write (path : List UInt8) (size : UInt32) (buf : List UInt8) (offset : Int)
  | truncate (path : List UInt8) (offset : Int)
  deriving DecidableEq, Repr

/-- `Nipc`: `payloadLength` is a `uint16_t`. -/
structure Nipc where
  tipo : UInt8
  payloadLength : Nat
  payload : List UInt8

/-- The bytes of an `off_t` of the client (eight, two's complement). -/
def bytesOffT (off : Int) : List UInt8 := bytesDe 8 (off % 2 ^ 64).toNat

/-- `(uint32_t) off`. -/
def aUint32 (off : Int) : Nat := (off % 2 ^ 32).toNat

def serializarNipc (basura : Nat → UInt8) (stNipc : Nipc) : Option (List UInt8) := do
  let paqueteSend := malloc basura (1 + 2 + stNipc.payloadLength)
  let paqueteSend ← poner paqueteSend 0 [stNipc.tipo]
  let offset := 1
  let paqueteSend ← poner paqueteSend offset (bytesDe 2 stNipc.payloadLength)
  let offset := offset + 2
  let datos ← sacar stNipc.payload 0 stNipc.payloadLength
  poner paqueteSend offset datos

def serializarPath (basura : Nat → UInt8) (path : List UInt8) (tipo : UInt8) :
    Option (List UInt8) := do
  let payloadLength := (path.length + 1) % 65536
  let payload := malloc basura payloadLength
  let payload ← poner payload 0 (path ++ [0])
  serializarNipc basura ⟨tipo, payloadLength, payload⟩

def serializarReadPedido (basura : Nat → UInt8) (path : List UInt8) (off : Int) (size : UInt32) :
    Option (List UInt8) := do
  let offRead := aUint32 off
  let payloadLength := (path.length + 1 + 4 + 4) % 65536
  let payload := malloc basura payloadLength
  let payload ← poner payload 0 (path ++ [0])
  let offset := (path.length + 1) % 65536
  let payload ← poner payload offset (bytesDe 4 offRead)
  let offset := (offset + 4) % 65536
  let payload ← poner payload offset (bytesDe 4 size.toNat)
  serializarNipc basura ⟨tipoRead, payloadLength, payload⟩

def serializarWritePedido (basura : Nat → UInt8) (path : List UInt8) (size : UInt32)
    (buf : List UInt8) (off : Int) : Option (List UInt8) := do
  let offWrite := aUint32 off
  let payloadLength := (path.length + 1 + 4 + 4 + size.toNat) % 65536
  let payload := malloc basura payloadLength
  let payload ← poner payload 0 (path ++ [0])
  let offset := (path.length + 1) % 65536
  let payload ← poner payload offset (bytesDe 4 size.toNat)
  let offset := (offset + 4) % 65536
  let datos ← sacar buf 0 size.toNat
  let payload ← poner payload offset datos
  let offset := (offset + size.toNat) % 65536
  let payload ← poner payload offset (bytesDe 4 offWrite)
  serializarNipc basura ⟨tipoWrite, payloadLength, payload⟩

def serializarTruncatePedido (basura : Nat → UInt8) (path : List UInt8) (off : Int) :
    Option (List UInt8) := do
  let payloadLength := (path.length + 1 + 8) % 65536
  let payload := malloc basura payloadLength
  let offset := (path.length + 1) % 65536
  let datos ← sacar (path ++ [0]) 0 offset
  let payload ← poner payload 0 datos
  let payload ← poner payload offset (bytesOffT off)
  serializarNipc basura ⟨tipoTruncate, payloadLength, payload⟩

/-- The packet each operation builds. -/
def Pedido.paquete (basura : Nat → UInt8) : Pedido → Option (List UInt8)
  | .soloPath tipo path => serializarPath basura path tipo.codigo
  | .read path offset size => serializarReadPedido basura path offset size
  | .write path size buf offset => serializarWritePedido basura path size buf offset
  | .truncate path offset => serializarTruncatePedido basura path offset

/-- `tamano_paq`, a `uint16_t` each operation computes on its own. -/
def Pedido.tamanoPaq : Pedido → Nat
  | .soloPath _ path => (3 + path.length + 1) % 65536
  | .read path _ _ => (3 + path.length + 1 + 4 + 4) % 65536
  | .write path size _ _ => (3 + path.length + 1 + 4 + 4 + size.toNat) % 65536
  | .truncate path _ => (3 + path.length + 1 + 8) % 65536

/-- What `sockets_send(sock,paquete_send,tamano_paq)` puts on the socket. -/
def Pedido.enviar (basura : Nat → UInt8) (p : Pedido) : Option (List UInt8) := do
  let paquete ← p.paquete basura
  sacar paquete 0 p.tamanoPaq

/-- The stream of a sequence of requests over one socket. -/
def enviarPedidos (basura : Nat → UInt8) : List Pedido → Option (List UInt8)
  | [] => some []
  | p :: resto => do
      let trama ← p.enviar basura
      let cola ← enviarPedidos basura resto
      some (trama ++ cola)

/-- The two calls with a size and an offset, as FUSE makes them. -/
inductive Llamada where
  | fscRead (path : List UInt8) (size : UInt32) (offset : Int)
  | fscWrite (path buf : List UInt8) (size : UInt32) (offset : Int)
  deriving DecidableEq, Repr

/-- What a call does before it waits for the answer. -/
inductive Envio where
  | enoent
  | enviado (bytes : List UInt8)
  deriving DecidableEq, Repr

/-- The request of a call. -/
def Llamada.pedido : Llamada → Pedido
  | .fscRead path size offset => .read path offset size
  | .fscWrite path buf size offset => .write path size buf offset

/-- `fsc_read` and `fsc_write` up to `sockets_send`: only the first one looks
    at the size. -/
def Llamada.enviar (basura : Nat → UInt8) : Llamada → Option Envio
  | .fscRead path size offset =>
      if 65535 < size.toNat then some .enoent
      else ((Llamada.fscRead path size offset).pedido.enviar basura).map .enviado
  | .fscWrite path buf size offset =>
      ((Llamada.fscWrite path buf size offset).pedido.enviar basura).map .enviado

/-! ## The answers -/

/-- `deserializar_Readdir_Rta`: the client keeps its own copy of the names. -/
def deserializarReaddirRta (payloadLength : Nat) (paquete : List UInt8) : Option (List UInt8) :=
  sacar paquete 0 payloadLength

/-- The loop of `fsc_readdir` over the payload: the names it hands to
    `filler`.  `off` is a `uint16_t`; the name is the C string in `mandar`, a
    block of `tam_dir` bytes.  The loop has no bound of its own, so it runs on
    fuel. -/
def fillerNombres (tamano : Nat) (listaNombres : List UInt8) :
    Nat → Nat → Option (List (List UInt8))
  | 0, _ => none
  | fuel + 1, off =>
      if off < tamano then do
        let tamDir ← listaNombres[off]?
        let off := (off + 1) % 65536
        let mandar ← sacar listaNombres off tamDir.toNat
        let off := (off + tamDir.toNat) % 65536
        let nombre ← cadena mandar
        let resto ← fillerNombres tamano listaNombres fuel off
        some (nombre :: resto)
      else some []

/-- The copies of the loop of `fsc_readdir`, as pairs of a start and a number
    of bytes: the size of a name, then the name.  A copy is not checked against
    the payload, and only the sizes, which are inside it, steer the loop. -/
def copiasReaddir (listaNombres : List UInt8) : Nat → Nat → Option (List (Nat × Nat))
  | 0, _ => none
  | fuel + 1, off =>
      if off < listaNombres.length then
        let tamDir := (listaNombres.getD off 0).toNat
        let offNombre := (off + 1) % 65536
        (copiasReaddir listaNombres fuel ((offNombre + tamDir) % 65536)).map
          ([(off, 1), (offNombre, tamDir)] ++ ·)
      else some []

/-- `fsc_readdir` from the header of the answer on: the names passed to
    `filler` when the bytes `flujo` come in. -/
def readdirRespuesta (fuel : Nat) (flujo : List UInt8) : Option (List (List UInt8)) := do
  let header ← sacar flujo 0 3
  let tamano ← sacar header 1 2
  let tamanoPaq := valor tamano
  let paqueteRecv ← sacar (flujo.drop 3) 0 tamanoPaq
  let listaNombres ← deserializarReaddirRta tamanoPaq paqueteRecv
  fillerNombres tamanoPaq listaNombres fuel 0

/-! ## Paths -/

/-- The loop of `separarPathCliente`, which goes down from the terminator to a
    slash.  Without one at index 0 either, the counter wraps and the scan leaves
    the string. -/
def ultimaBarra (path : List UInt8) : Nat → Option Nat
  | 0 => if path.getD 0 0 = 47 then some 0 else none
  | i + 1 => if path.getD (i + 1) 0 = 47 then some (i + 1) else ultimaBarra path i

/-- `separarPathCliente`: the directory and the name of a path.  The counter is
    a `uint16_t`, the length is not. -/
def separarPathCliente (path : List UInt8) : Option (List UInt8 × List UInt8) :=
  let len := path.length
  (ultimaBarra path (len % 65536)).map fun i =>
    let nombreArch := (path.drop (i + 1)).take (len - i - 1)
    if i = 0 then ([47], nombreArch) else (path.take i, nombreArch)

end Fsc
