import Yanero.FscSerial

/-! # The server's side of the wire

    `rfs/serial_rfs.c` and the part of the loop of `rfs/Main.c` that takes a
    request from a socket: a header of three bytes, then as many bytes as it
    announces, then the deserialiser of that type.  Here `off_t` has four
    bytes.  The answers are the ones of `serial_rfs.c`, whose `serializar_Nipc`
    is the same text as the client's. -/

namespace Rfs

open Bloques Palabras

/-- `off_t` of the server: four bytes, two's complement. -/
def deOffT (bytes : List UInt8) : Int :=
  if valor bytes < 2 ^ 31 then (valor bytes : Int) else (valor bytes : Int) - 2 ^ 32

/-- The loop `for(tam_path = 1; *p != '\0'; tam_path++) p++;`. -/
def tamPath (payload : List UInt8) : Option Nat := do
  let path ← cadena payload
  some ((path.length + 1) % 65536)

def deserializarReadPedido (payload : List UInt8) : Option Fsc.Pedido := do
  let tamPath ← tamPath payload
  let off := tamPath
  let path ← cadena (← sacar payload 0 off)
  let offset ← sacar payload off 4
  let off := (off + 4) % 65536
  let size ← sacar payload off 4
  some (.read path (deOffT offset) (UInt32.ofNat (valor size)))

def deserializarWritePedido (payload : List UInt8) : Option Fsc.Pedido := do
  let tamPath ← tamPath payload
  let off := tamPath
  let path ← cadena (← sacar payload 0 off)
  let size ← sacar payload off 4
  let size := UInt32.ofNat (valor size)
  let off := (off + 4) % 65536
  let buf ← sacar payload off size.toNat
  let off := (off + size.toNat) % 65536
  let offset ← sacar payload off 4
  some (.write path size buf (deOffT offset))

def deserializarTruncatePedido (payload : List UInt8) : Option Fsc.Pedido := do
  let tamPath ← tamPath payload
  let off := tamPath
  let path ← cadena (← sacar payload 0 off)
  let offset ← sacar payload off 4
  some (.truncate path (deOffT offset))

/-- The path requests: the handlers use the payload itself as the path. -/
def tipoPathDe (tipo : UInt8) : Option Fsc.TipoPath :=
  [.getattr, .readdir, .opn, .release, .create, .unlink, .rmdir, .mkdir].find?
    fun t => t.codigo == tipo

/-- The request a worker reads from a `Pedido` of the queue. -/
def deserializarPedido (tipoPaquete : UInt8) (payload : List UInt8) : Option Fsc.Pedido :=
  if tipoPaquete = Fsc.tipoRead then deserializarReadPedido payload
  else if tipoPaquete = Fsc.tipoWrite then deserializarWritePedido payload
  else if tipoPaquete = Fsc.tipoTruncate then deserializarTruncatePedido payload
  else do
    let tipo ← tipoPathDe tipoPaquete
    let path ← cadena payload
    some (.soloPath tipo path)

/-- One turn of the loop of `main` on the bytes of a client, and what is left
    of them. -/
def recibirPedido (flujo : List UInt8) : Option (Fsc.Pedido × List UInt8) := do
  let buffer ← sacar flujo 0 3
  let tipoPaquete ← buffer[0]?
  let largo ← sacar buffer 1 2
  let payloadLength := valor largo
  let resto := flujo.drop 3
  -- a `recv` of nothing returns 0 and is taken for a closed connection
  if payloadLength = 0 then none
  else do
    let payload ← sacar resto 0 payloadLength
    let pedido ← deserializarPedido tipoPaquete payload
    some (pedido, resto.drop payloadLength)

/-- The turns of the loop until the stream is used up. -/
def recibirPedidos : Nat → List UInt8 → Option (List Fsc.Pedido)
  | _, [] => some []
  | 0, _ :: _ => none
  | fuel + 1, b :: flujo => do
      let (p, resto) ← recibirPedido (b :: flujo)
      let ps ← recibirPedidos fuel resto
      some (p :: ps)

/-! ## The answers -/

/-- First pass of `serializar_readdir_Rta`: `payloadLength` adds up in a
    `uint16_t`. -/
def largoReaddir (lista : List (List UInt8)) : Nat :=
  lista.foldl (fun payloadLength nombre => (payloadLength + nombre.length + 1 + 1) % 65536) 0

/-- Second pass: each name with its size in a `uint8_t` before it.  `offset`
    is a `uint16_t`. -/
def copiarNombres : List (List UInt8) → List UInt8 → Nat → Option (List UInt8)
  | [], payload, _ => some payload
  | nombre :: resto, payload, offset => do
      let size := (nombre.length + 1) % 256
      let payload ← poner payload offset [UInt8.ofNat size]
      let offset := (offset + 1) % 65536
      let datos ← sacar (nombre ++ [0]) 0 size
      let payload ← poner payload offset datos
      copiarNombres resto payload ((offset + size) % 65536)

/-- `serializar_readdir_Rta`: the packet and `tamano`. -/
def serializarReaddirRta (basura : Nat → UInt8) (lista : List (List UInt8)) :
    Option (List UInt8 × Nat) := do
  let payloadLength := largoReaddir lista
  let payload := malloc basura payloadLength
  let payload ← copiarNombres lista payload 0
  let paquete ← Fsc.serializarNipc basura ⟨Fsc.TipoPath.readdir.codigo, payloadLength, payload⟩
  some (paquete, payloadLength)

/-- What `procesarReaddir` sends for a listing. -/
def enviarReaddir (basura : Nat → UInt8) (lista : List (List UInt8)) : Option (List UInt8) := do
  let (paquete, tamano) ← serializarReaddirRta basura lista
  sacar paquete 0 (tamano + 3)

end Rfs
