import Yanero.Corridas
import Yanero.FscCliente
import Mathlib.Logic.Function.Basic

/-! # Clients, memcached and the server

    The operations of any number of threads, of one client or several, that
    share one memcached and one server.  An order of a thread, a request handled
    at the server and the loss of a key are one action each, in any order.  The
    request of a thread and the answer to it are the thread's own: that a socket
    of the pool belongs to one exchange at a time is `FscSocketsProofs`.

    The server is any machine that speaks the frames; `SoloCambia` says which
    answers a request may change. -/

namespace Fsc

open Guiones Corridas

/-- The type and the payload of an answer. -/
structure Trama where
  tipo : UInt8
  payload : List UInt8
deriving DecidableEq

/-- The bytes the client reads of a successful answer. -/
def Pedido.minimo : Pedido → Nat
  | .soloPath .getattr _ => 12
  | .soloPath .readdir _ => 0
  | .soloPath _ _ => 4
  | .read _ _ _ => 0
  | .write _ _ _ _ => 4
  | .truncate _ _ => 4

/-- Only RELEASE is not answered, and it does nothing. -/
def Pedido.conRespuesta : Pedido → Bool
  | .soloPath .release _ => false
  | _ => true

/-- The answer `r` is not the error frame: it has the type of the request and at
    least the bytes of its format. -/
def Pedido.Exito (p : Pedido) (r : Trama) : Prop :=
  r.tipo = Nipc.tipoDe p ∧ p.minimo ≤ r.payload.length

/-- A server: what it does with a request and answers. -/
structure Servidor (σ : Type) where
  atender : Pedido → σ → σ × Trama
  formato : ∀ p s, (atender p s).2.tipo = Nipc.tipoDe p → p.Exito (atender p s).2

/-- The two cached requests. -/
inductive Consulta where
  | getattr
  | readdir
deriving DecidableEq

def Consulta.tipo : Consulta → TipoPath
  | .getattr => .getattr
  | .readdir => .readdir

def Consulta.tipoOp : Consulta → UInt8
  | .getattr => cacheGetattr
  | .readdir => cacheReaddir

/-- The key of a request about a path. -/
def Consulta.clave (c : Consulta) (q : Ruta) : Clave := cacheArmarClave c.tipoOp q.bytes

/-- What the server would answer now. -/
def Servidor.responde {σ : Type} (srv : Servidor σ) (s : σ) (c : Consulta) (q : Ruta) : Trama :=
  (srv.atender (.soloPath c.tipo q.bytes) s).2

/-- The requests of an operation change these answers and no others. -/
def Operacion.alcanza : Operacion → Consulta → Ruta → Prop
  | .write path _ _ _, c, q => c = .getattr ∧ q = path
  | .truncate path _, c, q => c = .getattr ∧ q = path
  | .create path, _, q => q = path ∨ q = path.padre
  | .unlink path, _, q => q = path ∨ q = path.padre
  | .rmdir path, _, q => q = path ∨ q = path.padre
  | .mkdir path, _, q => q = path ∨ q = path.padre
  | _, _, _ => False

instance (op : Operacion) (c : Consulta) (q : Ruta) : Decidable (op.alcanza c q) := by
  cases op <;> unfold Operacion.alcanza <;> infer_instance

/-- What the clients rely on: an error changes nothing, WRITE and TRUNCATE change
    the attributes of their path, and CREATE, UNLINK, RMDIR and MKDIR change
    their path and its directory. -/
structure SoloCambia {σ : Type} (srv : Servidor σ) : Prop where
  error : ∀ (op : Operacion) s c q, (srv.atender op.pedido s).2.tipo ≠ Nipc.tipoDe op.pedido →
    srv.responde (srv.atender op.pedido s).1 c q = srv.responde s c q
  lejos : ∀ (op : Operacion) s c q, ¬ op.alcanza c q →
    srv.responde (srv.atender op.pedido s).1 c q = srv.responde s c q

/-- A thread inside an operation: the program it has left, its request and the
    answer to it. -/
structure Hilo where
  op : Operacion
  guion : Programa
  pedido : Option Pedido := none
  rta : Option Trama := none

/-- The server, memcached and the threads. -/
structure Red (σ T : Type) where
  servidor : σ
  cache : Clave → Option (List UInt8) := fun _ => none
  hilos : T → Option Hilo := fun _ => none

/-- What happens next: FUSE calls, a thread goes on, the server handles the
    request of a thread, an operation returns, memcached drops a key. -/
inductive Accion (T : Type) where
  | llama (t : T) (op : Operacion)
  | orden (t : T)
  | atiende (t : T)
  | vuelve (t : T)
  | pierde (c : Clave)
deriving DecidableEq

/-- The next order of a thread, with what it does to memcached; `none` when it
    has to wait. -/
def ordenHilo (cache : Clave → Option (List UInt8)) (h : Hilo) :
    Option ((Clave → Option (List UInt8)) × Hilo) :=
  match h.guion with
  | .fin _ => none
  | .haz (.bajarInfo tipoOp path) k =>
      some (cache, { h with guion := k (cache (cacheArmarClave tipoOp path)) })
  | .haz (.subirInfo tipoOp path payload) k =>
      some (Function.update cache (cacheArmarClave tipoOp path) (some payload),
        { h with guion := k () })
  | .haz (.borrarClave tipoOp path) k =>
      some (Function.update cache (cacheArmarClave tipoOp path) none, { h with guion := k () })
  | .haz .semWait k => some (cache, { h with guion := k () })
  | .haz .semPost k => some (cache, { h with guion := k () })
  | .haz .obtenerSocket k => some (cache, { h with guion := k (0 : Nat) })
  | .haz (.habilitarSocket _) k => some (cache, { h with guion := k () })
  | .haz (.enviar _ p) k => some (cache, { h with guion := k (), pedido := some p, rta := none })
  | .haz (.recvHeader _) k =>
      h.rta.map fun r => (cache, { h with guion := k (r.tipo, r.payload.length) })
  | .haz (.recvPayload _ n) k =>
      h.rta.bind fun r =>
        if n ≤ r.payload.length then some (cache, { h with guion := k (r.payload.take n) })
        else none
  | .haz (.liberarSinAsignar _) _ => none
  | .haz .indefinido _ => none

/-- The server handles the request of a thread. -/
def atenderHilo {σ : Type} (srv : Servidor σ) (servidor : σ) (h : Hilo) : Option (σ × Hilo) :=
  match h.pedido, h.rta with
  | some p, none =>
      if p.conRespuesta then
        some ((srv.atender p servidor).1, { h with rta := some (srv.atender p servidor).2 })
      else none
  | _, _ => none

variable {σ T : Type} [DecidableEq T]

/-- The thread `t` changes. -/
def Red.con (s : Red σ T) (t : T) (h : Option Hilo) : Red σ T :=
  { s with hilos := Function.update s.hilos t h }

/-- One action; `none` when it cannot happen now. -/
def Red.paso (srv : Servidor σ) (basura : Nat → UInt8) (a : Accion T) (s : Red σ T) :
    Option (Red σ T) :=
  match a with
  | .llama t op =>
      match s.hilos t with
      | none => some (s.con t (some { op := op, guion := op.programa basura }))
      | some _ => none
  | .orden t => do
      let h ← s.hilos t
      let (cache, h) ← ordenHilo s.cache h
      some (({ s with cache := cache } : Red σ T).con t (some h))
  | .atiende t => do
      let h ← s.hilos t
      let (servidor, h) ← atenderHilo srv s.servidor h
      some (({ s with servidor := servidor } : Red σ T).con t (some h))
  | .vuelve t =>
      match s.hilos t with
      | some ⟨_, .fin _, _, _⟩ => some (s.con t none)
      | _ => none
  | .pierde c => some { s with cache := Function.update s.cache c none }

end Fsc
