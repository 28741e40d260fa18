import Yanero.RfsSerial

/-! # The wire format and the widths of the C types

    The messages that carry numbers, with the widths of `size_t`, `off_t` and
    `nlink_t` as parameters: the READ, WRITE and TRUNCATE requests, from the
    client to the server, and the answer to GETATTR, the other way round.
    `uint32_t`, `mode_t` and the path are the same on every machine.

    With the widths of the client's makefiles (`fsc32`) the serialisers are
    those of `FscSerial`; `lp64` is a 64-bit machine. -/

namespace Nipc

open Bloques Palabras

/-- The bytes of `size_t`, `off_t` and `nlink_t`. -/
structure Anchos where
  sizeT : Nat
  offT : Nat
  nlinkT : Nat

/-- The client of the makefiles: 32 bits with `_FILE_OFFSET_BITS=64`. -/
def fsc32 : Anchos := ⟨4, 8, 4⟩

/-- Both programs on a 64-bit machine. -/
def lp64 : Anchos := ⟨8, 8, 8⟩

/-- The bytes of a signed number of width `w`. -/
def bytesConSigno (w : Nat) (x : Int) : List UInt8 := bytesDe w (x % 2 ^ (8 * w)).toNat

/-- The signed number of some bytes. -/
def conSigno (bytes : List UInt8) : Int :=
  if 2 * valor bytes < 2 ^ (8 * bytes.length) then (valor bytes : Int)
  else (valor bytes : Int) - 2 ^ (8 * bytes.length)

/-- A message with the fields its receiver is to read. -/
inductive Mensaje where
  | read (path : List UInt8) (offset : Int) (size : Nat)
  | write (path : List UInt8) (size : Nat) (buf : List UInt8) (offset : Int)
  | truncate (path : List UInt8) (offset : Int)
  | getattr (modo nlink : Nat) (totalSize : Int)
  deriving DecidableEq, Repr

section Cliente

variable (a : Anchos) (basura : Nat → UInt8)

/-- `serializar_Read_Pedido`. -/
def serializarRead (path : List UInt8) (off : Int) (size : Nat) : Option (List UInt8) := do
  let offRead := Fsc.aUint32 off
  let payloadLength := (path.length + 1 + 4 + a.sizeT) % 65536
  let payload := malloc basura payloadLength
  let payload ← poner payload 0 (path ++ [0])
  let offset := (path.length + 1) % 65536
  let payload ← poner payload offset (bytesDe 4 offRead)
  let offset := (offset + 4) % 65536
  let payload ← poner payload offset (bytesDe a.sizeT size)
  Fsc.serializarNipc basura ⟨Fsc.tipoRead, payloadLength, payload⟩

/-- `serializar_Write_Pedido`. -/
def serializarWrite (path : List UInt8) (size : Nat) (buf : List UInt8) (off : Int) :
    Option (List UInt8) := do
  let offWrite := Fsc.aUint32 off
  let payloadLength := (path.length + 1 + 4 + a.sizeT + size) % 65536
  let payload := malloc basura payloadLength
  let payload ← poner payload 0 (path ++ [0])
  let offset := (path.length + 1) % 65536
  let payload ← poner payload offset (bytesDe a.sizeT size)
  let offset := (offset + a.sizeT) % 65536
  let datos ← sacar buf 0 size
  let payload ← poner payload offset datos
  let offset := (offset + size) % 65536
  let payload ← poner payload offset (bytesDe 4 offWrite)
  Fsc.serializarNipc basura ⟨Fsc.tipoWrite, payloadLength, payload⟩

/-- `serializar_Truncate_Pedido`. -/
def serializarTruncate (path : List UInt8) (off : Int) : Option (List UInt8) := do
  let payloadLength := (path.length + 1 + a.offT) % 65536
  let payload := malloc basura payloadLength
  let offset := (path.length + 1) % 65536
  let datos ← sacar (path ++ [0]) 0 offset
  let payload ← poner payload 0 datos
  let payload ← poner payload offset (bytesConSigno a.offT off)
  Fsc.serializarNipc basura ⟨Fsc.tipoTruncate, payloadLength, payload⟩

/-- `deserializar_Gettattr_Rta`: the size is read as a `uint32_t`. -/
def deserializarGetattr (paquete : List UInt8) : Option Mensaje := do
  let modo ← sacar paquete 0 4
  let off := 4
  let nlink ← sacar paquete off a.nlinkT
  let off := (off + a.nlinkT) % 65536
  let totalSize ← sacar paquete off 4
  some (.getattr (valor modo) (valor nlink) (valor totalSize))

end Cliente

section Servidor

variable (a : Anchos) (basura : Nat → UInt8)

/-- `deserializar_Read_Pedido`. -/
def deserializarRead (payload : List UInt8) : Option Mensaje := do
  let tamPath ← Rfs.tamPath payload
  let off := tamPath
  let path ← cadena (← sacar payload 0 off)
  let offset ← sacar payload off a.offT
  let off := (off + a.offT) % 65536
  let size ← sacar payload off a.sizeT
  some (.read path (conSigno offset) (valor size))

/-- `deserializar_Write_Pedido`: four bytes are copied over the local
    `deserial.offset`, which holds `pila` until then. -/
def deserializarWrite (pila : List UInt8) (payload : List UInt8) : Option Mensaje := do
  let tamPath ← Rfs.tamPath payload
  let off := tamPath
  let path ← cadena (← sacar payload 0 off)
  let size ← sacar payload off a.sizeT
  let size := valor size
  let off := (off + a.sizeT) % 65536
  let buf ← sacar payload off size
  let off := (off + size) % 65536
  let offset ← poner pila 0 (← sacar payload off 4)
  some (.write path size buf (conSigno offset))

/-- `deserializar_Truncate_Pedido`. -/
def deserializarTruncate (payload : List UInt8) : Option Mensaje := do
  let tamPath ← Rfs.tamPath payload
  let off := tamPath
  let path ← cadena (← sacar payload 0 off)
  let offset ← sacar payload off a.offT
  some (.truncate path (conSigno offset))

/-- `serializar_Gettattr_Rta`. -/
def serializarGetattr (modo links : Nat) (totalSize : Int) : Option (List UInt8) := do
  let payloadLength := (4 + a.nlinkT + a.offT) % 65536
  let payload := malloc basura payloadLength
  let payload ← poner payload 0 (bytesDe 4 modo)
  let offset := 4
  let payload ← poner payload offset (bytesDe a.nlinkT links)
  let offset := (offset + a.nlinkT) % 65536
  let payload ← poner payload offset (bytesConSigno a.offT totalSize)
  Fsc.serializarNipc basura ⟨Fsc.TipoPath.getattr.codigo, payloadLength, payload⟩

end Servidor

/-- The packet of a message: requests come from the client, the answer to
    GETATTR from the server. -/
def Mensaje.codificar (cliente servidor : Anchos) (basura : Nat → UInt8) :
    Mensaje → Option (List UInt8)
  | .read path off size => serializarRead cliente basura path off size
  | .write path size buf off => serializarWrite cliente basura path size buf off
  | .truncate path off => serializarTruncate cliente basura path off
  | .getattr modo nlink totalSize => serializarGetattr servidor basura modo nlink totalSize

/-- The deserialiser of the messages of that kind. -/
def Mensaje.deserializar (cliente servidor : Anchos) (pila : List UInt8) :
    Mensaje → List UInt8 → Option Mensaje
  | .read .., payload => deserializarRead servidor payload
  | .write .., payload => deserializarWrite servidor pila payload
  | .truncate .., payload => deserializarTruncate servidor payload
  | .getattr .., payload => deserializarGetattr cliente payload

/-- What the receiver of a packet of that kind reads from it: the payload is
    the bytes the header announces. -/
def Mensaje.decodificar (cliente servidor : Anchos) (pila : List UInt8) (m : Mensaje)
    (paquete : List UInt8) : Option Mensaje := do
  let largo ← sacar paquete 1 2
  let payload ← sacar paquete 3 (valor largo)
  m.deserializar cliente servidor pila payload

/-! ## The makefiles' widths -/

theorem serializarRead_fsc32 (basura : Nat → UInt8) (path : List UInt8) (off : Int)
    (size : UInt32) : serializarRead fsc32 basura path off size.toNat =
      Fsc.serializarReadPedido basura path off size := rfl

theorem serializarWrite_fsc32 (basura : Nat → UInt8) (path : List UInt8) (size : UInt32)
    (buf : List UInt8) (off : Int) : serializarWrite fsc32 basura path size.toNat buf off =
      Fsc.serializarWritePedido basura path size buf off := rfl

theorem serializarTruncate_fsc32 (basura : Nat → UInt8) (path : List UInt8) (off : Int) :
    serializarTruncate fsc32 basura path off =
      Fsc.serializarTruncatePedido basura path off := rfl

end Nipc
