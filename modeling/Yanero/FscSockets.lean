import Yanero.FscRed
import Yanero.RfsPedidos

/-! # The pool of sockets

    The threads of one client, its pool of sockets, and the server: the loop of
    `main` that reads requests, the queue, and the workers that answer them.
    A socket is a queue in each direction.  FUSE calls with requests of the
    format, whose `tamano_paq` is the length of the packet (`Nipc.enviar_eq`): a
    request goes out as one whole frame and is read as one.  Other requests wrap
    the 16 bits of `tamano_paq` and are not modelled here.  An answer is its
    bytes, and `recv` waits for as many as it asks for (`MSG_WAITALL`).

    What a worker sends is one of the packets of its handler, with any content
    (`Contestacion`): the handlers send exactly one answer on every path, and
    RELEASE falls in the `default` of `procesarPedido`, which sends none.

    Each request carries the number its thread gave it, and `rtas` records the
    answer to each number. -/

namespace Fsc

open Guiones Bloques Palabras

/-! ## The answers of the server -/

/-- `serializar_error`. -/
def serializarError : List UInt8 := [0, 0, 0]

/-- `serializar_Result_Rta`. -/
def serializarResultRta (basura : Nat → UInt8) (rta : Int) (tipo : UInt8) :
    Option (List UInt8) := do
  let payload ← poner (malloc basura 4) 0 (Nipc.bytesConSigno 4 rta)
  serializarNipc basura ⟨tipo, 4, payload⟩

/-- `serializar_Write_Rta`. -/
def serializarWriteRta (basura : Nat → UInt8) (bytesEscritos : Int) : Option (List UInt8) :=
  serializarResultRta basura bytesEscritos tipoWrite

/-- The server's widths: `off_t` has four bytes. -/
def rfs32 : Nipc.Anchos := ⟨4, 4, 4⟩

/-- What a handler puts in its answer: the frame of `procesarError`, the fields of
    GETATTR, the names of a listing, the file's size and the bytes read, or a
    result; nothing for RELEASE. -/
inductive Contestacion where
  | error
  | getattr (modo links : Nat) (totalSize : Int)
  | readdir (lista : List (List UInt8))
  | read (iSize : Nat) (buf : List UInt8)
  | result (respuesta : Int)
  | nada
deriving DecidableEq

/-- The bytes a worker sends for a request.  A READ starts inside the file. -/
def paqueteRta (basura : Nat → UInt8) (p : Pedido) (c : Contestacion) : Option (List UInt8) :=
  match p, c with
  | .soloPath .release _, .nada => some []
  | .soloPath .release _, _ => none
  | _, .error => some serializarError
  | .soloPath .getattr _, .getattr modo links totalSize => do
      let paquete ← Nipc.serializarGetattr rfs32 basura modo links totalSize
      sacar paquete 0 (4 + 4 + 4 + 3)
  | .soloPath .readdir _, .readdir lista => Rfs.enviarReaddir basura lista
  | .soloPath .getattr _, _ => none
  | .soloPath .readdir _, _ => none
  | .soloPath tipo _, .result respuesta => do
      let paquete ← serializarResultRta basura respuesta tipo.codigo
      sacar paquete 0 (4 + 3)
  | .read _ offset size, .read iSize buf =>
      if aUint32 offset ≤ iSize then
        let size := if iSize < Rfs.u32 (aUint32 offset + size.toNat) then
          Rfs.resta32 iSize (aUint32 offset) else size.toNat
        Rfs.enviarRead basura size buf
      else none
  | .write _ _ _ _, .result cantEscrita => do
      let paquete ← serializarWriteRta basura cantEscrita
      sacar paquete 0 (4 + 3)
  | .truncate _ _, .result error => do
      let paquete ← serializarResultRta basura error tipoTruncate
      sacar paquete 0 (4 + 3)
  | _, _ => none

/-! ## The machine -/

/-- A request on its way, with the thread that sent it and its number. -/
structure Encargo (T : Type) where
  hilo : T
  nro : Nat
  pedido : Pedido
deriving DecidableEq

/-- A thread inside an operation, with its local `sock`. -/
structure Llamado where
  op : Operacion
  guion : Programa
  sock : Option Nat := none

/-- The client and the server. -/
structure Enlace (T : Type) where
  poolSock : List Nat
  socketDisp : Nat
  aServidor : Nat → List (Encargo T) := fun _ => []
  colaPedidos : List (Nat × Encargo T) := []
  enCurso : List (Nat × Encargo T) := []
  aCliente : Nat → List UInt8 := fun _ => []
  hilos : T → Option Llamado := fun _ => none
  nroEnvio : T → Nat := fun _ => 0
  rtas : T → Nat → Option (List UInt8) := fun _ _ => none

/-- `main` of the client: `cantSock` connected sockets. -/
def Enlace.inicial (T : Type) (cantSock : Nat) : Enlace T where
  poolSock := List.range cantSock
  socketDisp := cantSock

/-- What happens next: FUSE calls, with a request of the format; a thread goes on
    (`hallado` is what memcached has, if it asks), `main` of the server reads a
    request, a worker takes one, a worker answers, an operation returns. -/
inductive Suceso (T : Type) where
  | llama (t : T) (op : Operacion)
  | orden (t : T) (hallado : Option (List UInt8))
  | lee (sock : Nat)
  | toma
  | contesta (sock : Nat) (e : Encargo T) (c : Contestacion)
  | vuelve (t : T)

variable {T : Type} [DecidableEq T]

/-- The thread `t` changes. -/
def Enlace.con (s : Enlace T) (t : T) (h : Option Llamado) : Enlace T :=
  { s with hilos := Function.update s.hilos t h }

/-- The next order of a thread. -/
def Enlace.orden (s : Enlace T) (t : T) (h : Llamado) (hallado : Option (List UInt8)) :
    Option (Enlace T) :=
  match h.guion with
  | .fin _ => none
  | .haz (.bajarInfo _ _) k => some (s.con t (some { h with guion := k hallado }))
  | .haz (.subirInfo _ _ _) k => some (s.con t (some { h with guion := k () }))
  | .haz (.borrarClave _ _) k => some (s.con t (some { h with guion := k () }))
  | .haz .semWait k =>
      if 0 < s.socketDisp then
        some (({ s with socketDisp := s.socketDisp - 1 } : Enlace T).con t
          (some { h with guion := k () }))
      else none
  | .haz .semPost k =>
      some (({ s with socketDisp := s.socketDisp + 1 } : Enlace T).con t
        (some { h with guion := k () }))
  | .haz .obtenerSocket k =>
      match s.poolSock with
      | [] => none
      | sock :: resto =>
          some (({ s with poolSock := resto } : Enlace T).con t
            (some { h with guion := k sock, sock := some sock }))
  | .haz (.habilitarSocket sock) k =>
      some (({ s with poolSock := s.poolSock ++ [sock] } : Enlace T).con t
        (some { h with guion := k (), sock := none }))
  | .haz (.enviar sock p) k =>
      let nro := s.nroEnvio t + 1
      some (({ s with
          aServidor := Function.update s.aServidor sock (s.aServidor sock ++ [⟨t, nro, p⟩])
          nroEnvio := Function.update s.nroEnvio t nro } : Enlace T).con t
        (some { h with guion := k () }))
  | .haz (.recvHeader sock) k =>
      match s.aCliente sock with
      | tipo :: l₀ :: l₁ :: resto =>
          some (({ s with aCliente := Function.update s.aCliente sock resto } : Enlace T).con t
            (some { h with guion := k (tipo, valor [l₀, l₁]) }))
      | _ => none
  | .haz (.recvPayload sock n) k =>
      if n ≤ (s.aCliente sock).length then
        some (({ s with
            aCliente := Function.update s.aCliente sock ((s.aCliente sock).drop n) } :
              Enlace T).con t
          (some { h with guion := k ((s.aCliente sock).take n) }))
      else none
  | .haz (.liberarSinAsignar _) _ => none
  | .haz .indefinido _ => none

/-- One event; `none` when it cannot happen now. -/
def Enlace.paso (basura : Nat → UInt8) (maxThreads : Nat) (a : Suceso T) (s : Enlace T) :
    Option (Enlace T) :=
  match a with
  | .llama t op =>
      match s.hilos t with
      | none =>
          if Nipc.EnFormato op.pedido then
            some (s.con t (some { op := op, guion := op.programa basura }))
          else none
      | some _ => none
  | .orden t hallado => (s.hilos t).bind fun h => s.orden t h hallado
  | .lee sock =>
      match s.aServidor sock with
      | [] => none
      | e :: resto =>
          some { s with
            aServidor := Function.update s.aServidor sock resto
            colaPedidos := s.colaPedidos ++ [(sock, e)] }
  | .toma =>
      match s.colaPedidos with
      | [] => none
      | x :: resto =>
          if s.enCurso.length < maxThreads then
            some { s with colaPedidos := resto, enCurso := x :: s.enCurso }
          else none
  | .contesta sock e c =>
      if (sock, e) ∈ s.enCurso then
        (paqueteRta basura e.pedido c).map fun rta =>
          { s with
            enCurso := s.enCurso.erase (sock, e)
            aCliente := Function.update s.aCliente sock (s.aCliente sock ++ rta)
            rtas := if e.pedido.conRespuesta then
                Function.update s.rtas e.hilo
                  (Function.update (s.rtas e.hilo) e.nro (some rta))
              else s.rtas }
      else none
  | .vuelve t =>
      match s.hilos t with
      | some ⟨_, .fin _, _⟩ => some (s.con t none)
      | _ => none

end Fsc
