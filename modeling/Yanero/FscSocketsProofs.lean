import Yanero.FscSockets
import Yanero.NipcReaddirProofs
import Yanero.RfsSincroProofs
import Mathlib.Algebra.Order.Group.Multiset

/-! # A socket is lent whole and comes back clean

    A thread goes through the same phases with a socket in all the operations
    (`programa_disciplina`): it takes one, sends, reads a header and as many
    bytes as the header announces, and gives it back.  Every answer of the
    server is a header and those bytes (`paqueteRta_rtaDe`), so a socket in the
    pool has no request that awaits an answer and no unread byte, and a header
    that is read is the one of the thread's own answer (`pool_en_orden`).
    RELEASE awaits none: `fsc_release` gives its socket back with the request
    still on its way. -/

namespace Fsc

open Guiones Corridas Bloques Palabras

/-! ## What an answer is -/

/-- A packet of `serializar_Nipc` is a frame of the announced length. -/
theorem serializarNipc_some {basura : Nat → UInt8} {tipo : UInt8} {n : Nat}
    {payload paquete : List UInt8} (h : serializarNipc basura ⟨tipo, n, payload⟩ = some paquete) :
    ∃ cuerpo, cuerpo.length = n ∧ paquete = Nipc.trama tipo cuerpo := by
  have hdatos := h
  obtain ⟨_, -, hdatos⟩ := Option.bind_eq_some_iff.mp hdatos
  obtain ⟨_, -, hdatos⟩ := Option.bind_eq_some_iff.mp hdatos
  obtain ⟨datos, hsaca, -⟩ := Option.bind_eq_some_iff.mp hdatos
  have hsaca : sacar payload 0 n = some datos := hsaca
  have hn : n ≤ payload.length := by
    by_contra hno
    rw [sacar, if_neg (by omega)] at hsaca
    cases hsaca
  have hlen : (payload.take n).length = n := by simp [hn]
  have hsacar : sacar payload 0 n = sacar (payload.take n) 0 (payload.take n).length := by
    rw [sacar_todo, sacar, if_pos (by omega)]
    rfl
  have heq : serializarNipc basura ⟨tipo, n, payload⟩
      = serializarNipc basura ⟨tipo, (payload.take n).length, payload.take n⟩ := by
    simp only [serializarNipc, hsacar, hlen]
  rw [heq, Nipc.serializarNipc_eq] at h
  exact ⟨payload.take n, hlen, (Option.some.inj h).symm⟩

/-- The whole packet is sent. -/
theorem sacar_trama {tipo : UInt8} {cuerpo rta : List UInt8} {n : Nat} (hn : n = cuerpo.length + 3)
    (h : sacar (Nipc.trama tipo cuerpo) 0 n = some rta) : rta = Nipc.trama tipo cuerpo := by
  rw [show n = (Nipc.trama tipo cuerpo).length by rw [Nipc.length_trama]; omega, sacar_todo] at h
  exact (Option.some.inj h).symm

/-- The bytes are a header and the payload it announces: the error frame, or one
    with the type of the request. -/
def Pedido.RtaDe (p : Pedido) (rta : List UInt8) : Prop :=
  ∃ tipo cuerpo, rta = Nipc.trama tipo cuerpo ∧ cuerpo.length < 65536
    ∧ (tipo = 0 ∧ cuerpo = [] ∨ tipo = Nipc.tipoDe p)

/-- `fsc_read` asks for at most 65535 bytes. -/
def Pedido.Legible : Pedido → Prop
  | .read _ _ size => size.toNat ≤ 65535
  | _ => True

section Respuestas

variable {basura : Nat → UInt8} {p : Pedido} {rta : List UInt8}

/-- An error answers every request. -/
theorem rtaDe_error (p : Pedido) : p.RtaDe serializarError :=
  ⟨0, [], by decide, by decide, Or.inl ⟨rfl, rfl⟩⟩

/-- A packet that is sent whole. -/
theorem rtaDe_paquete {tipo : UInt8} {n : Nat} {payload paquete : List UInt8}
    (hpaquete : serializarNipc basura ⟨tipo, n, payload⟩ = some paquete) (hn : n < 65536)
    (hrta : sacar paquete 0 (n + 3) = some rta) (htipo : tipo = Nipc.tipoDe p) : p.RtaDe rta := by
  obtain ⟨cuerpo, hlen, rfl⟩ := serializarNipc_some hpaquete
  refine ⟨tipo, cuerpo, sacar_trama (by omega) hrta, by omega, Or.inr htipo⟩

/-- A result of the request's own type answers it. -/
theorem rtaDe_result {tipo : UInt8} {n : Int}
    (h : (do let paquete ← serializarResultRta basura n tipo; sacar paquete 0 (4 + 3)) = some rta)
    (htipo : tipo = Nipc.tipoDe p) : p.RtaDe rta := by
  obtain ⟨paquete, hpaquete, hrta⟩ := Option.bind_eq_some_iff.mp h
  unfold serializarResultRta at hpaquete
  obtain ⟨payload, -, hpaquete⟩ := Option.bind_eq_some_iff.mp hpaquete
  exact rtaDe_paquete hpaquete (by decide) hrta htipo

/-- The attributes answer a GETATTR. -/
theorem rtaDe_getattr {path : List UInt8} {modo links : Nat} {totalSize : Int}
    (h : (do
      let paquete ← Nipc.serializarGetattr rfs32 basura modo links totalSize
      sacar paquete 0 (4 + 4 + 4 + 3)) = some rta) :
    (Pedido.soloPath .getattr path).RtaDe rta := by
  obtain ⟨paquete, hpaquete, hrta⟩ := Option.bind_eq_some_iff.mp h
  unfold Nipc.serializarGetattr at hpaquete
  obtain ⟨_, -, hpaquete⟩ := Option.bind_eq_some_iff.mp hpaquete
  obtain ⟨_, -, hpaquete⟩ := Option.bind_eq_some_iff.mp hpaquete
  obtain ⟨_, -, hpaquete⟩ := Option.bind_eq_some_iff.mp hpaquete
  exact rtaDe_paquete hpaquete (by decide) hrta rfl

/-- The names answer a READDIR. -/
theorem rtaDe_readdir {path : List UInt8} {lista : List (List UInt8)}
    (h : Rfs.enviarReaddir basura lista = some rta) :
    (Pedido.soloPath .readdir path).RtaDe rta := by
  obtain ⟨⟨paquete, tamano⟩, hserial, hrta⟩ := Option.bind_eq_some_iff.mp h
  unfold Rfs.serializarReaddirRta at hserial
  obtain ⟨payload, -, hserial⟩ := Option.bind_eq_some_iff.mp hserial
  obtain ⟨paquete', hpaquete, hserial⟩ := Option.bind_eq_some_iff.mp hserial
  cases hserial
  have hlargo : Rfs.largoReaddir lista < 65536 := by
    rw [Nipc.largoReaddir_eq]
    exact Nat.mod_lt _ (by decide)
  exact rtaDe_paquete hpaquete hlargo hrta rfl

/-- The bytes of a READ that starts inside the file. -/
theorem tamano_leido {iSize off size : Nat} (hoff : off ≤ iSize) (hsize : size ≤ 65535) :
    (if iSize < Rfs.u32 (off + size) then Rfs.resta32 iSize off else size) ≤ 65535 := by
  split
  · next hlt =>
    unfold Rfs.u32 at hlt
    unfold Rfs.resta32 Rfs.u32
    omega
  · exact hsize

/-- The bytes answer a READ. -/
theorem rtaDe_read {path : List UInt8} {offset : Int} {size : UInt32} {n : Nat}
    {buf : List UInt8} (hn : n ≤ 65535) (h : Rfs.enviarRead basura n buf = some rta) :
    (Pedido.read path offset size).RtaDe rta := by
  obtain ⟨payload, -, h⟩ := Option.bind_eq_some_iff.mp h
  obtain ⟨paquete, hpaquete, hrta⟩ := Option.bind_eq_some_iff.mp h
  rw [Nat.mod_eq_of_lt (by omega : n < 65536)] at hpaquete
  rw [show Rfs.u32 (n + 3) = n + 3 from Nat.mod_eq_of_lt (by omega)] at hrta
  exact rtaDe_paquete hpaquete (by omega) hrta rfl

/-- **EVERY ANSWER** to a request of the client is a header and the bytes it
    announces. -/
theorem paqueteRta_rtaDe {c : Contestacion} (hp : p.conRespuesta) (hleg : p.Legible)
    (h : paqueteRta basura p c = some rta) : p.RtaDe rta := by
  unfold paqueteRta at h
  split at h
  · cases hp
  · cases hp
  · obtain rfl := Option.some.inj h
    exact rtaDe_error p
  · exact rtaDe_getattr h
  · exact rtaDe_readdir h
  · cases h
  · cases h
  · exact rtaDe_result h rfl
  · split at h
    · next hoff => exact rtaDe_read (tamano_leido hoff hleg) h
    · cases h
  · exact rtaDe_result h rfl
  · exact rtaDe_result h rfl
  · cases h

/-- A request without an answer gets no bytes. -/
theorem paqueteRta_nada {c : Contestacion} (hp : p.conRespuesta = false)
    (h : paqueteRta basura p c = some rta) : rta = [] := by
  obtain ⟨path, rfl⟩ : ∃ path, p = .soloPath .release path := by
    cases p with
    | soloPath tipo path => cases tipo <;> first | exact ⟨path, rfl⟩ | cases hp
    | read _ _ _ => cases hp
    | write _ _ _ _ => cases hp
    | truncate _ _ => cases hp
  cases c <;> simp_all [paqueteRta]

end Respuestas

/-! ## The phases of a thread -/

/-- Where a thread is with its socket: it has none; it may take one; it has one
    with so many bytes of the answer left to read; it waits for a header; it has
    put it back and not posted the semaphore yet. -/
inductive Fase where
  | libre
  | conPermiso
  | conSock (sock resto : Nat)
  | esperando (sock : Nat) (p : Pedido)
  | devuelto

/-- A header that may answer a request. -/
def Pedido.HeaderDe (p : Pedido) (header : UInt8 × Nat) : Prop :=
  header = (0, 0) ∨ header.1 = Nipc.tipoDe p

/-- The header read off an answer leaves the bytes it announces. -/
theorem Pedido.RtaDe.leida {p : Pedido} {tipo l₀ l₁ : UInt8} {resto : List UInt8}
    (h : p.RtaDe (tipo :: l₀ :: l₁ :: resto)) :
    resto.length = valor [l₀, l₁] ∧ p.HeaderDe (tipo, valor [l₀, l₁]) := by
  obtain ⟨tipo', cuerpo, htrama, hlen, hcaso⟩ := h
  obtain ⟨a, b, hab⟩ := List.length_eq_two.mp (length_bytesDe 2 cuerpo.length)
  rw [Nipc.trama, hab] at htrama
  obtain ⟨rfl, rfl, rfl, rfl⟩ : tipo = tipo' ∧ l₀ = a ∧ l₁ = b ∧ resto = cuerpo := by
    simpa using htrama
  have hvalor : valor [l₀, l₁] = resto.length := by
    rw [← hab, valor_bytesDe]
    exact Nat.mod_eq_of_lt hlen
  refine ⟨hvalor.symm, ?_⟩
  rcases hcaso with ⟨rfl, rfl⟩ | rfl
  · exact Or.inl (by rw [hvalor]; rfl)
  · exact Or.inr rfl

/-- An answer has a whole header. -/
theorem Pedido.RtaDe.header {p : Pedido} {rta : List UInt8} (h : p.RtaDe rta) :
    ∃ tipo l₀ l₁ resto, rta = tipo :: l₀ :: l₁ :: resto := by
  obtain ⟨tipo, cuerpo, rfl, -, -⟩ := h
  obtain ⟨a, b, hab⟩ := List.length_eq_two.mp (length_bytesDe 2 cuerpo.length)
  exact ⟨tipo, a, b, cuerpo, by rw [Nipc.trama, hab]; rfl⟩

/-- How a thread uses its socket. -/
def Disciplina : Protocolo Orden Orden.Rta Resultado Fase where
  permite f o :=
    match o, f with
    | .semWait, .libre => True
    | .obtenerSocket, .conPermiso => True
    | .enviar sock p, .conSock sock' resto => sock = sock' ∧ resto = 0 ∧ p.Legible
    | .recvHeader sock, .esperando sock' _ => sock = sock'
    | .recvPayload sock n, .conSock sock' resto => sock = sock' ∧ n = resto
    | .habilitarSocket sock, .conSock sock' resto => sock = sock' ∧ resto = 0
    | .semPost, .devuelto => True
    | .bajarInfo _ _, .libre => True
    | .subirInfo _ _ _, .libre => True
    | .borrarClave _ _, .libre => True
    | .liberarSinAsignar _, .libre => True
    | .indefinido, .libre => True
    | _, _ => False
  posible f o x :=
    match o, f, x with
    | .recvHeader _, .esperando _ p, x => p.HeaderDe x
    | _, _, _ => True
  sigue f o x :=
    match o, x with
    | .semWait, _ => .conPermiso
    | .obtenerSocket, sock => .conSock sock 0
    | .enviar sock p, _ => if p.conRespuesta then .esperando sock p else .conSock sock 0
    | .recvHeader sock, header => .conSock sock (Prod.snd header)
    | .recvPayload sock _, _ => .conSock sock 0
    | .habilitarSocket _, _ => .devuelto
    | .semPost, _ => .libre
    | _, _ => f
  acaba f _ := f = .libre

section Programas

variable {basura : Nat → UInt8} {p : Pedido} {g : Programa} {sock : Nat}

/-- A value that may be undefined breaks no rule. -/
theorem disciplina_definido {β : Type} {x : Option β} {sigue : β → Programa}
    (h : ∀ b, (sigue b).Cumple Disciplina .libre) :
    (definido x sigue).Cumple Disciplina .libre := by
  cases x with
  | none => exact ⟨trivial, fun r _ => Empty.elim r⟩
  | some b => exact h b

/-- A socket with no answer to come may be given back. -/
theorem disciplina_soltarSocket (h : g.Cumple Disciplina .libre) :
    (soltarSocket sock g).Cumple Disciplina (.conSock sock 0) :=
  ⟨⟨rfl, rfl⟩, fun _ _ => ⟨trivial, fun _ _ => h⟩⟩

/-- A request takes the semaphore, a socket and is sent. -/
theorem disciplina_pedirA {sigue : Nat → Programa} (hp : p.Legible)
    (h : ∀ sock, (sigue sock).Cumple Disciplina
      (if p.conRespuesta then .esperando sock p else .conSock sock 0)) :
    (pedirA basura p sigue).Cumple Disciplina .libre :=
  disciplina_definido fun _ =>
    ⟨trivial, fun _ _ => ⟨trivial, fun sock _ => ⟨⟨rfl, rfl, hp⟩, fun _ _ => h sock⟩⟩⟩

/-- The answer is read before the socket is given back. -/
theorem disciplina_recibir {error : Resultado} {exito : List UInt8 → Programa}
    (h : ∀ paquete, (exito paquete).Cumple Disciplina .libre) :
    (recibir p error exito sock).Cumple Disciplina (.esperando sock p) := by
  refine ⟨rfl, fun (tipoRecv, tamanoPaq) hheader => ?_⟩
  show Guion.Cumple _ _ (if tipoRecv ≠ Nipc.tipoDe p then _ else _)
  split
  · next hno =>
    obtain ⟨rfl, rfl⟩ := Prod.mk.inj (Or.resolve_right hheader hno)
    exact disciplina_soltarSocket rfl
  · exact ⟨⟨rfl, rfl⟩, fun paquete _ => disciplina_soltarSocket (h paquete)⟩

/-- A request and its answer. -/
theorem disciplina_conServidor {error : Resultado} {exito : List UInt8 → Programa}
    (hp : p.Legible) (hrta : p.conRespuesta)
    (h : ∀ paquete, (exito paquete).Cumple Disciplina .libre) :
    (conServidor basura p error exito).Cumple Disciplina .libre := by
  refine disciplina_pedirA hp fun sock => ?_
  rw [if_pos hrta]
  exact disciplina_recibir h

/-- The same behind memcached. -/
theorem disciplina_conCache {tipoOp : UInt8} {tipo : TipoPath} {path : List UInt8} {error : Int}
    {acierto exito : List UInt8 → Programa} (hrta : (Pedido.soloPath tipo path).conRespuesta)
    (hacierto : ∀ paquete, (acierto paquete).Cumple Disciplina .libre)
    (h : ∀ paquete, (exito paquete).Cumple Disciplina .libre) :
    (conCache basura tipoOp tipo path error acierto exito).Cumple Disciplina .libre := by
  refine ⟨trivial, fun hallado _ => ?_⟩
  cases hallado with
  | some paquete => exact hacierto paquete
  | none =>
      exact disciplina_conServidor trivial hrta fun paquete => ⟨trivial, fun _ _ => h paquete⟩

/-- A result asks nothing of the pool. -/
theorem disciplina_devolver (paquete : List UInt8) :
    (devolver paquete).Cumple Disciplina .libre :=
  disciplina_definido fun _ => rfl

/-- `fsc_read` keeps the discipline. -/
theorem disciplina_fscRead (path : List UInt8) (size : UInt32) (offset : Int) :
    (fscRead basura path size offset).Cumple Disciplina .libre := by
  unfold fscRead
  split
  · exact rfl
  · next hsize =>
    refine disciplina_pedirA (Nat.le_of_not_lt hsize) fun sock => ?_
    show Guion.Cumple Disciplina (.esperando sock (.read path offset size)) _
    refine ⟨rfl, fun (tipoRecv, tamanoPaq) hheader => ?_⟩
    show Guion.Cumple _ _ (if tipoRecv ≠ tipoRead then _ else _)
    split
    · next hno =>
      obtain ⟨rfl, rfl⟩ := Prod.mk.inj (Or.resolve_right hheader hno)
      exact disciplina_soltarSocket rfl
    · split
      · next hcero =>
        subst hcero
        exact disciplina_soltarSocket rfl
      · exact ⟨⟨rfl, rfl⟩, fun _ _ => disciplina_soltarSocket rfl⟩

/-- So do the operations that change a directory. -/
theorem disciplina_fscEntrada {tipo : TipoPath} {path : List UInt8}
    (hrta : (Pedido.soloPath tipo path).conRespuesta) :
    (fscEntrada basura tipo path).Cumple Disciplina .libre := by
  refine disciplina_conServidor trivial hrta fun paquete =>
    ⟨trivial, fun _ _ => ⟨trivial, fun _ _ => disciplina_definido fun _ => ?_⟩⟩
  exact ⟨trivial, fun _ _ => ⟨trivial, fun _ _ => disciplina_devolver paquete⟩⟩

/-- **EVERY OPERATION** gives its socket back once, with nothing left to read. -/
theorem programa_disciplina (basura : Nat → UInt8) (op : Operacion) :
    (op.programa basura).Cumple Disciplina .libre := by
  cases op with
  | getattr path =>
      have hstbuf : ∀ paquete, (llenarStbuf paquete).Cumple Disciplina .libre :=
        fun _ => disciplina_definido fun _ => rfl
      exact disciplina_conCache rfl hstbuf hstbuf
  | readdir path =>
      exact disciplina_conCache rfl
        (fun _ => disciplina_definido fun _ => ⟨trivial, fun r _ => Empty.elim r⟩)
        fun _ => disciplina_definido fun _ => rfl
  | opn path => exact disciplina_conServidor trivial rfl disciplina_devolver
  | release path => exact disciplina_pedirA trivial fun _ => disciplina_soltarSocket rfl
  | read path size offset => exact disciplina_fscRead path.bytes size offset
  | write path buf size offset =>
      exact disciplina_conServidor trivial rfl fun _ => disciplina_definido fun _ =>
        ⟨trivial, fun _ _ => rfl⟩
  | create path => exact disciplina_fscEntrada rfl
  | unlink path => exact disciplina_fscEntrada rfl
  | truncate path offset =>
      exact disciplina_conServidor trivial rfl fun paquete =>
        ⟨trivial, fun _ _ => disciplina_devolver paquete⟩
  | rmdir path => exact disciplina_fscEntrada rfl
  | mkdir path => exact disciplina_fscEntrada rfl

end Programas

/-! ## What is on its way -/

section Pendientes

variable {T : Type} {j k : Nat} {e : Encargo T} {l : List (Nat × Encargo T)}

/-- The requests of one socket among those the server has read. -/
def deSocket (k : Nat) (l : List (Nat × Encargo T)) : Multiset (Encargo T) :=
  ↑((l.filter fun x => x.1 = k).map Prod.snd)

/-- The requests of a socket that are still to be answered: on the wire, in the
    queue and with the workers.  RELEASE is not answered. -/
def Enlace.pendientes (s : Enlace T) (k : Nat) : Multiset (Encargo T) :=
  (↑(s.aServidor k) + deSocket k s.colaPedidos + deSocket k s.enCurso).filter
    fun e => e.pedido.conRespuesta

/-- The requests of a socket, one more at the head. -/
theorem deSocket_cons (k : Nat) (x : Nat × Encargo T) (l : List (Nat × Encargo T)) :
    deSocket k (x :: l) = deSocket k l + if x.1 = k then {x.2} else 0 := by
  unfold deSocket
  by_cases hk : x.1 = k
  · simp [hk, ← Multiset.cons_coe, Multiset.add_comm]
  · simp [hk]

/-- One more at the end. -/
theorem deSocket_concat (k : Nat) (x : Nat × Encargo T) (l : List (Nat × Encargo T)) :
    deSocket k (l ++ [x]) = deSocket k l + if x.1 = k then {x.2} else 0 := by
  rw [← deSocket_cons]
  exact Multiset.coe_eq_coe.mpr (((List.perm_append_singleton x l).filter _).map _)

/-- One less. -/
theorem deSocket_erase [DecidableEq T] {x : Nat × Encargo T} (hx : x ∈ l) (k : Nat) :
    deSocket k l = deSocket k (l.erase x) + if x.1 = k then {x.2} else 0 := by
  rw [← deSocket_cons]
  exact Multiset.coe_eq_coe.mpr (((List.perm_cons_erase hx).filter _).map _)

end Pendientes

/-! ## The invariant -/

/-- The socket of a phase. -/
def Fase.sock : Fase → Option Nat
  | .conSock sock _ => some sock
  | .esperando sock _ => some sock
  | _ => none

/-- Past `sem_wait` and before `sem_post`. -/
def Fase.permiso : Fase → Bool
  | .libre => false
  | _ => true

section Invariante

variable {T : Type} {s s' s₀ : Enlace T} {t u : T} {h h' : Llamado} {k n : Nat} {f f' : Fase}
  {fs : T → Fase}

/-- The socket a thread holds. -/
def Enlace.sockDe (s : Enlace T) (t : T) : Option Nat := (s.hilos t).bind Llamado.sock

/-- What a phase says of the state: with a socket, the answer bytes left are the
    only thing on it; waiting for a header, either the request is on its way or
    its whole answer is there. -/
def FaseBien (s : Enlace T) (t : T) : Fase → Prop
  | .conSock k resto => s.pendientes k = 0 ∧ (s.aCliente k).length = resto
  | .esperando k p => p.Legible ∧ p.conRespuesta
      ∧ (s.pendientes k = {⟨t, s.nroEnvio t, p⟩} ∧ s.aCliente k = []
        ∨ s.pendientes k = 0 ∧ s.rtas t (s.nroEnvio t) = some (s.aCliente k)
          ∧ p.RtaDe (s.aCliente k))
  | _ => True

/-- A phase looks only at its socket and at the last request of its thread. -/
theorem FaseBien.congr (hf : FaseBien s t f)
    (hsock : ∀ k, f.sock = some k →
      s'.pendientes k = s.pendientes k ∧ s'.aCliente k = s.aCliente k)
    (hnro : s'.nroEnvio t = s.nroEnvio t) (hrtas : s'.rtas t = s.rtas t) :
    FaseBien s' t f := by
  cases f with
  | libre => trivial
  | conPermiso => trivial
  | devuelto => trivial
  | conSock k resto =>
      obtain ⟨hpen, hlen⟩ := hf
      obtain ⟨hp, ha⟩ := hsock k rfl
      exact ⟨hp.trans hpen, (congrArg List.length ha).trans hlen⟩
  | esperando k p =>
      obtain ⟨hleg, hrta, hcaso⟩ := hf
      obtain ⟨hp, ha⟩ := hsock k rfl
      refine ⟨hleg, hrta, ?_⟩
      rw [hp, ha, hnro, hrtas]
      exact hcaso

variable [Fintype T]

/-- The invariant: every thread is in a phase; a socket nobody holds is clean;
    a socket has one holder at most, who took it out of the pool; the pool and the
    semaphore count the threads with a socket and with a permit. -/
structure EnlaceBien (n : Nat) (s : Enlace T) (fs : T → Fase) : Prop where
  guion : ∀ t h, s.hilos t = some h → h.guion.Cumple Disciplina (fs t)
  ocioso : ∀ t, s.hilos t = none → fs t = .libre
  sock : ∀ t, s.sockDe t = (fs t).sock
  fase : ∀ t, FaseBien s t (fs t)
  limpio : ∀ k, (∀ t, (fs t).sock ≠ some k) → s.pendientes k = 0 ∧ s.aCliente k = []
  uno : ∀ t u k, (fs t).sock = some k → (fs u).sock = some k → t = u
  pool : ∀ t k, (fs t).sock = some k → k ∉ s.poolSock
  nodup : s.poolSock.Nodup
  enPool : s.poolSock.length + (Finset.univ.filter fun t => (fs t).sock.isSome = true).card = n
  permisos : s.socketDisp + (Finset.univ.filter fun t => (fs t).permiso = true).card = n

/-- A new pool has all its sockets and nobody waits. -/
theorem EnlaceBien.inicial (n : Nat) :
    EnlaceBien n (Enlace.inicial T n) fun _ => Fase.libre where
  guion := by
    intro t h ht
    cases ht
  ocioso := fun _ _ => rfl
  sock := fun _ => rfl
  fase := fun _ => trivial
  limpio := fun _ _ => ⟨rfl, rfl⟩
  uno := by
    intro t u k ht
    cases ht
  pool := by
    intro t k ht
    cases ht
  nodup := List.nodup_range
  enPool := by simp [Enlace.inicial, Fase.sock]
  permisos := by simp [Enlace.inicial, Fase.permiso]

/-- What happens away from the threads. -/
theorem EnlaceBien.afuera (hb : EnlaceBien n s fs) (hhilos : s'.hilos = s.hilos)
    (hpool : s'.poolSock = s.poolSock) (hdisp : s'.socketDisp = s.socketDisp)
    (hfase : ∀ t, FaseBien s' t (fs t))
    (hlimpio : ∀ k, (∀ t, (fs t).sock ≠ some k) →
      s'.pendientes k = s.pendientes k ∧ s'.aCliente k = s.aCliente k) :
    EnlaceBien n s' fs where
  guion := by rw [hhilos]; exact hb.guion
  ocioso := by rw [hhilos]; exact hb.ocioso
  sock := by
    intro t
    rw [← hb.sock t, Enlace.sockDe, Enlace.sockDe, hhilos]
  fase := hfase
  limpio := by
    intro k hk
    obtain ⟨hp, ha⟩ := hlimpio k hk
    rw [hp, ha]
    exact hb.limpio k hk
  uno := hb.uno
  pool := by rw [hpool]; exact hb.pool
  nodup := by rw [hpool]; exact hb.nodup
  enPool := by rw [hpool]; exact hb.enPool
  permisos := by rw [hdisp]; exact hb.permisos

variable [DecidableEq T]

/-- One thread more or less in a count. -/
theorem card_update {β : Type} (fs : T → β) (t : T) (b : β) (p : β → Bool) :
    (Finset.univ.filter fun u => p (Function.update fs t b u) = true).card + (p (fs t)).toNat
      = (Finset.univ.filter fun u => p (fs u) = true).card + (p b).toNat := by
  have hotros : ∀ u, u ≠ t → p (Function.update fs t b u) = p (fs u) := by
    intro u hu
    rw [Function.update_of_ne hu]
  have hmismo : p (Function.update fs t b t) = p b := by rw [Function.update_self]
  cases hviejo : p (fs t) <;> cases hnuevo : p b
  · rw [Rfs.card_igual (p := fun u => p (fs u)) fun u => ?_]
    by_cases hu : u = t
    · rw [hu, hmismo, hnuevo, hviejo]
    · exact hotros u hu
  · rw [Rfs.card_mas_uno (p := fun u => p (fs u)) hviejo (hmismo.trans hnuevo) hotros]
    rfl
  · rw [Rfs.card_mas_uno (p := fun u => p (Function.update fs t b u))
      (hmismo.trans hnuevo) hviejo fun u hu => (hotros u hu).symm]
    rfl
  · rw [Rfs.card_igual (p := fun u => p (fs u)) fun u => ?_]
    by_cases hu : u = t
    · rw [hu, hmismo, hnuevo, hviejo]
    · exact hotros u hu

omit [Fintype T] in
@[simp] theorem Enlace.con_mismo (s : Enlace T) (t : T) (x : Option Llamado) :
    (s.con t x).hilos t = x := by
  simp [Enlace.con]

omit [Fintype T] in
/-- Every other thread is where it was. -/
theorem Enlace.con_otro (s : Enlace T) (x : Option Llamado) (hu : u ≠ t) :
    (s.con t x).hilos u = s.hilos u := by
  simp [Enlace.con, hu]

/-- A thread goes to another phase; the last four say what that does to the pool
    and to the semaphore. -/
theorem EnlaceBien.cambia (hb : EnlaceBien n s fs) {x : Option Llamado}
    (hhilos : s₀.hilos = s.hilos) (hx : x.bind Llamado.sock = f'.sock)
    (hguion : ∀ h', x = some h' → h'.guion.Cumple Disciplina f') (hnada : x = none → f' = .libre)
    (hfase : FaseBien s₀ t f')
    (hotros : ∀ k, (fs t).sock ≠ some k →
      s₀.pendientes k = s.pendientes k ∧ s₀.aCliente k = s.aCliente k)
    (hnro : ∀ u, u ≠ t → s₀.nroEnvio u = s.nroEnvio u ∧ s₀.rtas u = s.rtas u)
    (hsuelta : ∀ k, (fs t).sock = some k → f'.sock ≠ some k →
      s₀.pendientes k = 0 ∧ s₀.aCliente k = [])
    (hajeno : ∀ u k, u ≠ t → (fs u).sock = some k → f'.sock ≠ some k ∧ k ∉ s₀.poolSock)
    (hsuyo : ∀ k, f'.sock = some k → k ∉ s₀.poolSock) (hnodup : s₀.poolSock.Nodup)
    (henPool : s₀.poolSock.length + f'.sock.isSome.toNat
      = s.poolSock.length + (fs t).sock.isSome.toNat)
    (hpermisos : s₀.socketDisp + f'.permiso.toNat = s.socketDisp + (fs t).permiso.toNat) :
    EnlaceBien n (s₀.con t x) (Function.update fs t f') where
  guion := by
    intro u h' hh'
    by_cases hu : u = t
    · subst hu
      rw [Enlace.con_mismo] at hh'
      rw [Function.update_self]
      exact hguion h' hh'
    · rw [Enlace.con_otro s₀ x hu, hhilos] at hh'
      rw [Function.update_of_ne hu]
      exact hb.guion u h' hh'
  ocioso := by
    intro u hu'
    by_cases hu : u = t
    · subst hu
      rw [Enlace.con_mismo] at hu'
      rw [Function.update_self]
      exact hnada hu'
    · rw [Enlace.con_otro s₀ x hu, hhilos] at hu'
      rw [Function.update_of_ne hu]
      exact hb.ocioso u hu'
  sock := by
    intro u
    by_cases hu : u = t
    · subst hu
      rw [Enlace.sockDe, Enlace.con_mismo, Function.update_self]
      exact hx
    · rw [Enlace.sockDe, Enlace.con_otro s₀ x hu, hhilos, Function.update_of_ne hu]
      exact hb.sock u
  fase := by
    intro u
    by_cases hu : u = t
    · subst hu
      rw [Function.update_self]
      exact hfase
    · rw [Function.update_of_ne hu]
      refine (hb.fase u).congr (fun k hk => hotros k fun ht => ?_) (hnro u hu).1 (hnro u hu).2
      exact hu (hb.uno u t k hk ht)
  limpio := by
    intro k hk
    have hno : f'.sock ≠ some k := by
      have := hk t
      rwa [Function.update_self] at this
    by_cases ht : (fs t).sock = some k
    · exact hsuelta k ht hno
    · obtain ⟨hp, ha⟩ := hotros k ht
      have hnadie : ∀ u, (fs u).sock ≠ some k := by
        intro u
        by_cases hu : u = t
        · rwa [hu]
        · have := hk u
          rwa [Function.update_of_ne hu] at this
      obtain ⟨hp', ha'⟩ := hb.limpio k hnadie
      exact ⟨hp.trans hp', ha.trans ha'⟩
  uno := by
    intro u v k hu hv
    by_cases hut : u = t <;> by_cases hvt : v = t
    · rw [hut, hvt]
    · rw [hut, Function.update_self] at hu
      rw [Function.update_of_ne hvt] at hv
      exact absurd hu (hajeno v k hvt hv).1
    · rw [hvt, Function.update_self] at hv
      rw [Function.update_of_ne hut] at hu
      exact absurd hv (hajeno u k hut hu).1
    · rw [Function.update_of_ne hut] at hu
      rw [Function.update_of_ne hvt] at hv
      exact hb.uno u v k hu hv
  pool := by
    intro u k hk
    by_cases hu : u = t
    · rw [hu, Function.update_self] at hk
      exact hsuyo k hk
    · rw [Function.update_of_ne hu] at hk
      exact (hajeno u k hu hk).2
  nodup := hnodup
  enPool := by
    have hcard := card_update fs t f' fun f => f.sock.isSome
    have hn := hb.enPool
    show s₀.poolSock.length + _ = n
    omega
  permisos := by
    have hcard := card_update fs t f' Fase.permiso
    have hn := hb.permisos
    show s₀.socketDisp + _ = n
    omega

/-- A thread moves on with the socket and the permit it has. -/
theorem EnlaceBien.mueve (hb : EnlaceBien n s fs) (f' : Fase) {x : Option Llamado}
    (hhilos : s₀.hilos = s.hilos) (hpool : s₀.poolSock = s.poolSock)
    (hdisp : s₀.socketDisp = s.socketDisp) (hx : x.bind Llamado.sock = s.sockDe t)
    (hsock : f'.sock = (fs t).sock) (hper : f'.permiso = (fs t).permiso)
    (hguion : ∀ h', x = some h' → h'.guion.Cumple Disciplina f') (hnada : x = none → f' = .libre)
    (hfase : FaseBien s₀ t f')
    (hotros : ∀ k, (fs t).sock ≠ some k →
      s₀.pendientes k = s.pendientes k ∧ s₀.aCliente k = s.aCliente k)
    (hnro : ∀ u, u ≠ t → s₀.nroEnvio u = s.nroEnvio u ∧ s₀.rtas u = s.rtas u) :
    EnlaceBien n (s₀.con t x) (Function.update fs t f') := by
  refine hb.cambia hhilos (hx.trans ((hb.sock t).trans hsock.symm)) hguion hnada hfase hotros hnro
    (fun k hk hno => absurd (hsock.trans hk) hno) (fun u k hu hk => ⟨fun ht => ?_, ?_⟩)
    (fun k hk => ?_) ?_ (by rw [hpool, hsock]) (by rw [hdisp, hper])
  · exact hu (hb.uno u t k hk (hsock.symm.trans ht))
  · rw [hpool]
    exact hb.pool u k hk
  · rw [hpool]
    exact hb.pool t k (hsock.symm.trans hk)
  · rw [hpool]
    exact hb.nodup

/-! ## One event -/

/-- The phase in which an order is given. -/
theorem permite_casos {o : Orden} (h : Disciplina.permite f o) :
    match o with
    | .obtenerSocket => f = .conPermiso
    | .enviar sock p => f = .conSock sock 0 ∧ p.Legible
    | .recvHeader sock => ∃ p, f = .esperando sock p
    | .recvPayload sock tamano => f = .conSock sock tamano
    | .habilitarSocket sock => f = .conSock sock 0
    | .semPost => f = .devuelto
    | _ => f = .libre := by
  cases o <;> cases f <;> first
    | exact False.elim h
    | rfl
    | (obtain ⟨rfl, rfl, hleg⟩ := h; exact ⟨rfl, hleg⟩)
    | (obtain ⟨rfl, rfl⟩ := h; rfl)
    | (obtain rfl : _ = _ := h; exact ⟨_, rfl⟩)

omit [Fintype T] [DecidableEq T] in
/-- A request goes out. -/
theorem pendientes_envia (s : Enlace T) (sock k : Nat) (e : Encargo T) (nros : T → Nat) :
    ({ s with
        aServidor := Function.update s.aServidor sock (s.aServidor sock ++ [e])
        nroEnvio := nros } : Enlace T).pendientes k
      = s.pendientes k + if sock = k ∧ e.pedido.conRespuesta then {e} else 0 := by
  show Multiset.filter _
    ((↑(Function.update s.aServidor sock (s.aServidor sock ++ [e]) k) : Multiset (Encargo T))
      + deSocket k s.colaPedidos + deSocket k s.enCurso) = s.pendientes k + _
  unfold Enlace.pendientes
  by_cases hk : k = sock
  · subst hk
    have happ : (↑(s.aServidor k ++ [e]) : Multiset (Encargo T)) = ↑(s.aServidor k) + {e} := rfl
    rw [Function.update_self, happ, add_right_comm _ {e} (deSocket k s.colaPedidos),
      add_right_comm _ {e} (deSocket k s.enCurso), Multiset.filter_add]
    simp [Multiset.filter_singleton]
  · rw [Function.update_of_ne hk, if_neg fun h => hk h.1.symm, Multiset.add_zero]

/-- A thread goes on without its socket. -/
theorem EnlaceBien.libre (hb : EnlaceBien n s fs) (hh : s.hilos t = some h) (hf : fs t = .libre)
    {g : Programa} (hg : g.Cumple Disciplina .libre) :
    EnlaceBien n (s.con t (some { h with guion := g })) (Function.update fs t .libre) := by
  refine hb.mueve _ rfl rfl rfl (by simp [Enlace.sockDe, hh]) (by rw [hf]) (by rw [hf])
    ?_ ?_ trivial
    (fun _ _ => ⟨rfl, rfl⟩) (fun _ _ => ⟨rfl, rfl⟩)
  · intro h' hh'
    obtain rfl := Option.some.inj hh'
    exact hg
  · intro hno
    cases hno

/-- `sem_wait` and `sem_post`. -/
theorem EnlaceBien.semaforo (hb : EnlaceBien n s fs) (f' : Fase) (hh : s.hilos t = some h)
    {g : Programa} {disp : Nat} (hg : g.Cumple Disciplina f') (hno : (fs t).sock = none)
    (hno' : f'.sock = none)
    (hbien : FaseBien s t f')
    (hcuenta : disp + f'.permiso.toNat = s.socketDisp + (fs t).permiso.toNat) :
    EnlaceBien n (({ s with socketDisp := disp } : Enlace T).con t (some { h with guion := g }))
      (Function.update fs t f') := by
  have hsock : h.sock = none := by
    have := hb.sock t
    rw [Enlace.sockDe, hh, hno] at this
    exact this
  refine hb.cambia rfl (hsock.trans hno'.symm) ?_ ?_ ?_ (fun _ _ => ⟨rfl, rfl⟩)
    (fun _ _ => ⟨rfl, rfl⟩) ?_ (fun u k _ hk => ⟨?_, hb.pool u k hk⟩) ?_ hb.nodup ?_ hcuenta
  · intro h' hh'
    obtain rfl := Option.some.inj hh'
    exact hg
  · intro hnada
    cases hnada
  · exact hbien.congr (fun _ _ => ⟨rfl, rfl⟩) rfl rfl
  · intro k hk
    rw [hno] at hk
    cases hk
  · rw [hno']
    exact fun hk => by cases hk
  · intro k hk
    rw [hno'] at hk
    cases hk
  · rw [hno, hno']

/-- `obtenerSocket`. -/
theorem EnlaceBien.obtiene (hb : EnlaceBien n s fs) (h : Llamado)
    (hf : fs t = .conPermiso) {sock : Nat} {resto : List Nat} (hpool : s.poolSock = sock :: resto)
    {g : Programa} (hg : g.Cumple Disciplina (.conSock sock 0)) :
    EnlaceBien n (({ s with poolSock := resto } : Enlace T).con t
        (some { h with guion := g, sock := some sock }))
      (Function.update fs t (.conSock sock 0)) := by
  have hnodup := hb.nodup
  rw [hpool, List.nodup_cons] at hnodup
  have hnadie : ∀ u, (fs u).sock ≠ some sock := by
    intro u hu
    exact hb.pool u sock hu (by rw [hpool]; exact List.mem_cons_self)
  obtain ⟨hpen, hcli⟩ := hb.limpio sock hnadie
  refine hb.cambia rfl rfl ?_ ?_ ⟨hpen, congrArg List.length hcli⟩ (fun _ _ => ⟨rfl, rfl⟩)
    (fun _ _ => ⟨rfl, rfl⟩) ?_ (fun u k hu hk => ⟨?_, ?_⟩) ?_ hnodup.2 ?_ (by rw [hf]; rfl)
  · intro h' hh'
    obtain rfl := Option.some.inj hh'
    exact hg
  · intro hnada
    cases hnada
  · intro k hk
    rw [hf] at hk
    cases hk
  · intro hsk
    obtain rfl := Option.some.inj hsk
    exact hnadie u hk
  · intro hmem
    exact hb.pool u k hk (by rw [hpool]; exact List.mem_cons_of_mem _ hmem)
  · intro k hk
    obtain rfl := Option.some.inj hk
    exact hnodup.1
  · rw [hpool, hf]
    rfl

/-- `habilitar_socket`. -/
theorem EnlaceBien.habilita (hb : EnlaceBien n s fs) (h : Llamado) {sock : Nat}
    (hf : fs t = .conSock sock 0) {g : Programa} (hg : g.Cumple Disciplina .devuelto) :
    EnlaceBien n (({ s with poolSock := s.poolSock ++ [sock] } : Enlace T).con t
        (some { h with guion := g, sock := none }))
      (Function.update fs t .devuelto) := by
  have hsuyo : (fs t).sock = some sock := by rw [hf]; rfl
  obtain ⟨hpen, hlen⟩ : FaseBien s t (.conSock sock 0) := hf ▸ hb.fase t
  refine hb.cambia rfl rfl ?_ ?_ trivial (fun _ _ => ⟨rfl, rfl⟩) (fun _ _ => ⟨rfl, rfl⟩) ?_
    (fun u k hu hk => ⟨?_, ?_⟩) ?_ ?_ ?_ (by rw [hf]; rfl)
  · intro h' hh'
    obtain rfl := Option.some.inj hh'
    exact hg
  · intro hnada
    cases hnada
  · intro k hk _
    obtain rfl := Option.some.inj (hsuyo.symm.trans hk)
    exact ⟨hpen, List.length_eq_zero_iff.mp hlen⟩
  · intro hno
    cases hno
  · intro hmem
    rcases List.mem_append.mp hmem with hmem | hmem
    · exact hb.pool u k hk hmem
    · obtain rfl := List.mem_singleton.mp hmem
      exact hu (hb.uno u t k hk hsuyo)
  · intro k hk
    cases hk
  · rw [List.nodup_append]
    refine ⟨hb.nodup, List.nodup_singleton sock, fun a ha b hb' hab => ?_⟩
    obtain rfl := List.mem_singleton.mp hb'
    exact hb.pool t b hsuyo (hab ▸ ha)
  · rw [hf]
    simp [Fase.sock]

/-- A request goes out on a clean socket. -/
theorem EnlaceBien.envia (hb : EnlaceBien n s fs) (hh : s.hilos t = some h) {sock : Nat}
    {p : Pedido} (hf : fs t = .conSock sock 0) (hleg : p.Legible) {g : Programa}
    (hg : g.Cumple Disciplina (if p.conRespuesta then .esperando sock p else .conSock sock 0)) :
    EnlaceBien n (({ s with
          aServidor := Function.update s.aServidor sock
            (s.aServidor sock ++ [⟨t, s.nroEnvio t + 1, p⟩])
          nroEnvio := Function.update s.nroEnvio t (s.nroEnvio t + 1) } : Enlace T).con t
        (some { h with guion := g }))
      (Function.update fs t (if p.conRespuesta then .esperando sock p else .conSock sock 0)) := by
  obtain ⟨hpen, hlen⟩ : FaseBien s t (.conSock sock 0) := hf ▸ hb.fase t
  have hcli : s.aCliente sock = [] := List.length_eq_zero_iff.mp hlen
  have hpend := pendientes_envia s sock
  refine hb.mueve _ rfl rfl rfl (by simp [Enlace.sockDe, hh]) ?_ ?_ ?_ ?_ ?_ (fun k hk => ⟨?_, rfl⟩)
    (fun u hu => ⟨Function.update_of_ne hu _ _, rfl⟩)
  · rw [hf]
    split <;> rfl
  · rw [hf]
    split <;> rfl
  · intro h' hh'
    obtain rfl := Option.some.inj hh'
    exact hg
  · intro hnada
    cases hnada
  · cases hrta : p.conRespuesta with
    | true =>
        refine ⟨hleg, hrta, Or.inl ⟨?_, hcli⟩⟩
        rw [hpend, hpen, if_pos ⟨rfl, hrta⟩, zero_add]
        show _ = {(⟨t, Function.update s.nroEnvio t (s.nroEnvio t + 1) t, p⟩ : Encargo T)}
        rw [Function.update_self]
    | false =>
        refine ⟨?_, hlen⟩
        rw [hpend, hpen, if_neg fun h => by simp [hrta] at h, add_zero]
  · rw [hpend, if_neg, add_zero]
    rintro ⟨rfl, -⟩
    exact hk (by rw [hf]; rfl)

/-- Bytes of the answer are read. -/
theorem EnlaceBien.recibe (hb : EnlaceBien n s fs) (hh : s.hilos t = some h) {sock resto : Nat}
    (hsock : (fs t).sock = some sock) {g : Programa} (hpen : s.pendientes sock = 0)
    {bytes : List UInt8} (hlen : bytes.length = resto)
    (hg : g.Cumple Disciplina (.conSock sock resto)) :
    EnlaceBien n (({ s with aCliente := Function.update s.aCliente sock bytes } : Enlace T).con t
        (some { h with guion := g }))
      (Function.update fs t (.conSock sock resto)) := by
  refine hb.mueve _ rfl rfl rfl (by simp [Enlace.sockDe, hh]) hsock.symm ?_ ?_ ?_ ⟨hpen, ?_⟩
    (fun k hk => ⟨rfl, Function.update_of_ne ?_ _ _⟩) (fun _ _ => ⟨rfl, rfl⟩)
  · cases hfs : fs t <;> rw [hfs] at hsock <;> first | rfl | cases hsock
  · intro h' hh'
    obtain rfl := Option.some.inj hh'
    exact hg
  · intro hnada
    cases hnada
  · show (Function.update s.aCliente sock bytes sock).length = resto
    rw [Function.update_self]
    exact hlen
  · rintro rfl
    exact hk hsock

/-- **ONE ORDER** of a thread keeps the invariant. -/
theorem EnlaceBien.orden (hb : EnlaceBien n s fs) (hh : s.hilos t = some h)
    {hallado : Option (List UInt8)} (hp : s.orden t h hallado = some s') :
    ∃ fs', EnlaceBien n s' fs' := by
  have hcum := hb.guion t h hh
  have hcaso := hb.fase t
  unfold Enlace.orden at hp
  split at hp
  · cases hp
  · next k hguion =>
    obtain rfl := Option.some.inj hp
    rw [hguion] at hcum
    have hf := permite_casos hcum.permite
    rw [hf] at hcum
    exact ⟨_, hb.libre hh hf (hcum.sigue (r := hallado) trivial)⟩
  · next k hguion =>
    obtain rfl := Option.some.inj hp
    rw [hguion] at hcum
    have hf := permite_casos hcum.permite
    rw [hf] at hcum
    exact ⟨_, hb.libre hh hf (hcum.sigue (r := ()) trivial)⟩
  · next k hguion =>
    obtain rfl := Option.some.inj hp
    rw [hguion] at hcum
    have hf := permite_casos hcum.permite
    rw [hf] at hcum
    exact ⟨_, hb.libre hh hf (hcum.sigue (r := ()) trivial)⟩
  · next k hguion =>
    split at hp
    · next hdisp =>
      obtain rfl := Option.some.inj hp
      rw [hguion] at hcum
      have hf := permite_casos hcum.permite
      rw [hf] at hcum
      refine ⟨_, hb.semaforo .conPermiso hh (hcum.sigue (r := ()) trivial)
        (by rw [hf]; rfl) rfl trivial ?_⟩
      rw [hf]
      show s.socketDisp - 1 + 1 = s.socketDisp + 0
      omega
    · cases hp
  · next k hguion =>
    obtain rfl := Option.some.inj hp
    rw [hguion] at hcum
    have hf := permite_casos hcum.permite
    rw [hf] at hcum
    refine ⟨_, hb.semaforo .libre hh (hcum.sigue (r := ()) trivial) (by rw [hf]; rfl) rfl
      trivial ?_⟩
    rw [hf]
    rfl
  · next k hguion =>
    split at hp
    · cases hp
    · next sock resto hpool =>
      obtain rfl := Option.some.inj hp
      rw [hguion] at hcum
      have hf := permite_casos hcum.permite
      rw [hf] at hcum
      exact ⟨_, hb.obtiene h hf hpool (hcum.sigue (r := sock) trivial)⟩
  · next sock k hguion =>
    obtain rfl := Option.some.inj hp
    rw [hguion] at hcum
    have hf := permite_casos hcum.permite
    rw [hf] at hcum
    exact ⟨_, hb.habilita h hf (hcum.sigue (r := ()) trivial)⟩
  · next sock p k hguion =>
    obtain rfl := Option.some.inj hp
    rw [hguion] at hcum
    obtain ⟨hf, hleg⟩ := permite_casos hcum.permite
    rw [hf] at hcum
    exact ⟨_, hb.envia hh hf hleg (hcum.sigue (r := ()) trivial)⟩
  · next sock k hguion =>
    rw [hguion] at hcum
    obtain ⟨p, hf⟩ := permite_casos hcum.permite
    rw [hf] at hcum hcaso
    split at hp
    · next tipo l₀ l₁ resto hbytes =>
      obtain rfl := Option.some.inj hp
      obtain ⟨-, -, ⟨-, hnada⟩ | ⟨hpen, -, hrta⟩⟩ := hcaso
      · rw [hbytes] at hnada
        cases hnada
      · rw [hbytes] at hrta
        obtain ⟨hlen, hheader⟩ := hrta.leida
        exact ⟨_, hb.recibe hh (by rw [hf]; rfl) hpen hlen
          (hcum.sigue (r := (tipo, valor [l₀, l₁])) hheader)⟩
    · cases hp
  · next sock tamano k hguion =>
    rw [hguion] at hcum
    have hf := permite_casos hcum.permite
    rw [hf] at hcum hcaso
    split at hp
    · obtain rfl := Option.some.inj hp
      obtain ⟨hpen, hlen⟩ := hcaso
      refine ⟨_, hb.recibe hh (by rw [hf]; rfl) hpen ?_ (hcum.sigue trivial)⟩
      rw [List.length_drop, hlen, Nat.sub_self]
    · cases hp
  · cases hp
  · cases hp

omit [Fintype T] in
/-- The answer to a request leaves one less on its way. -/
theorem pendientes_contesta {x : Nat × Encargo T} (hx : x ∈ s.enCurso)
    (hservidor : s'.aServidor = s.aServidor) (hcola : s'.colaPedidos = s.colaPedidos)
    (hcurso : s'.enCurso = s.enCurso.erase x) (k : Nat) :
    s.pendientes k
      = s'.pendientes k + if x.1 = k ∧ x.2.pedido.conRespuesta then {x.2} else 0 := by
  rw [Enlace.pendientes, Enlace.pendientes, hservidor, hcola, hcurso, deSocket_erase hx,
    ← add_assoc, Multiset.filter_add]
  congr 1
  by_cases hk : x.1 = k <;> simp [hk, Multiset.filter_singleton]

/-- **ONE ANSWER** reaches the thread that waits for it. -/
theorem EnlaceBien.contesta (hb : EnlaceBien n s fs) {basura : Nat → UInt8} {sock : Nat}
    {e : Encargo T} {c : Contestacion} {rta : List UInt8} (hmem : (sock, e) ∈ s.enCurso)
    (hrta : paqueteRta basura e.pedido c = some rta)
    (hs' : s' = { s with
      enCurso := s.enCurso.erase (sock, e)
      aCliente := Function.update s.aCliente sock (s.aCliente sock ++ rta)
      rtas := if e.pedido.conRespuesta then
          Function.update s.rtas e.hilo (Function.update (s.rtas e.hilo) e.nro (some rta))
        else s.rtas }) : EnlaceBien n s' fs := by
  have hservidor : s'.aServidor = s.aServidor := by rw [hs']
  have hpend := pendientes_contesta hmem hservidor (by rw [hs']) (by rw [hs'])
  have hcli : s'.aCliente = Function.update s.aCliente sock (s.aCliente sock ++ rta) := by rw [hs']
  have hrtas : s'.rtas = if e.pedido.conRespuesta then
      Function.update s.rtas e.hilo (Function.update (s.rtas e.hilo) e.nro (some rta))
    else s.rtas := by rw [hs']
  have hnro : s'.nroEnvio = s.nroEnvio := by rw [hs']
  -- the other sockets do not see it
  have hotros : ∀ k, k ≠ sock → s'.pendientes k = s.pendientes k
    ∧ s'.aCliente k = s.aCliente k := by
    intro k hk
    rw [hpend k, if_neg fun h => hk h.1.symm, add_zero, hcli, Function.update_of_ne hk]
    exact ⟨rfl, rfl⟩
  by_cases hcon : e.pedido.conRespuesta = true
  · have hsum := hpend sock
    rw [if_pos ⟨rfl, hcon⟩, add_comm, Multiset.singleton_add] at hsum
    obtain ⟨t, p, hft, ⟨rfl, hcero⟩, hnada, hleg⟩ : ∃ t p, fs t = .esperando sock p
        ∧ ((⟨t, s.nroEnvio t, p⟩ : Encargo T) = e ∧ s'.pendientes sock = 0)
        ∧ s.aCliente sock = [] ∧ p.Legible := by
      obtain ⟨t, ht⟩ : ∃ t, (fs t).sock = some sock := by
        by_contra hnadie
        rw [(hb.limpio sock fun t ht => hnadie ⟨t, ht⟩).1] at hsum
        exact Multiset.cons_ne_zero hsum.symm
      have hfase := hb.fase t
      cases hft : fs t with
      | esperando k p =>
          rw [hft] at hfase ht
          obtain rfl := Option.some.inj ht
          obtain ⟨hleg, -, ⟨hpen, hnada⟩ | ⟨hpen, -, -⟩⟩ := hfase
          · rw [hpen] at hsum
            exact ⟨t, p, hft, (Multiset.singleton_eq_cons_iff _).mp hsum, hnada, hleg⟩
          · rw [hpen] at hsum
            exact absurd hsum.symm Multiset.cons_ne_zero
      | conSock k resto =>
          rw [hft] at hfase ht
          obtain rfl := Option.some.inj ht
          rw [hfase.1] at hsum
          exact absurd hsum.symm Multiset.cons_ne_zero
      | libre => rw [hft] at ht; cases ht
      | conPermiso => rw [hft] at ht; cases ht
      | devuelto => rw [hft] at ht; cases ht
    have hsuyo : (fs t).sock = some sock := by rw [hft]; rfl
    have hbytes : s'.aCliente sock = rta := by rw [hcli, Function.update_self, hnada]; rfl
    rw [if_pos hcon] at hrtas
    refine hb.afuera (by rw [hs']) (by rw [hs']) (by rw [hs']) (fun u => ?_)
      fun k hk => hotros k ?_
    · by_cases hu : u = t
      · subst hu
        rw [hft]
        refine ⟨hleg, hcon, Or.inr ⟨hcero, ?_, ?_⟩⟩
        · rw [hrtas, hnro, hbytes, Function.update_self, Function.update_self]
        · rw [hbytes]
          exact paqueteRta_rtaDe hcon hleg hrta
      · refine (hb.fase u).congr (fun k hk => hotros k ?_) (by rw [hnro]) ?_
        · rintro rfl
          exact hu (hb.uno u t k hk hsuyo)
        · rw [hrtas]
          exact Function.update_of_ne hu _ _
    · rintro rfl
      exact hk t hsuyo
  · -- a request without an answer gets no bytes
    obtain rfl := paqueteRta_nada (Bool.eq_false_iff.mpr hcon) hrta
    rw [if_neg hcon] at hrtas
    have hmismo : ∀ k, s'.pendientes k = s.pendientes k ∧ s'.aCliente k = s.aCliente k := by
      intro k
      rw [hpend k, if_neg fun h => hcon h.2, add_zero, hcli, List.append_nil,
        Function.update_eq_self]
      exact ⟨rfl, rfl⟩
    exact hb.afuera (by rw [hs']) (by rw [hs']) (by rw [hs'])
      (fun t => (hb.fase t).congr (fun k _ => hmismo k) (by rw [hnro]) (by rw [hrtas]))
      fun k _ => hmismo k

omit [Fintype T] [DecidableEq T] in
/-- A request goes from one place to the next. -/
theorem pendientes_lee {sock : Nat} {e : Encargo T} {resto : List (Encargo T)}
    (hservidor : s.aServidor sock = e :: resto) (k : Nat) :
    ({ s with
        aServidor := Function.update s.aServidor sock resto
        colaPedidos := s.colaPedidos ++ [(sock, e)] } : Enlace T).pendientes k
      = s.pendientes k := by
  show Multiset.filter _ ((↑(Function.update s.aServidor sock resto k) : Multiset (Encargo T))
    + deSocket k (s.colaPedidos ++ [(sock, e)]) + deSocket k s.enCurso) = s.pendientes k
  rw [Enlace.pendientes, deSocket_concat]
  by_cases hk : sock = k
  · subst hk
    have hcons : (↑(e :: resto) : Multiset (Encargo T)) = {e} + ↑resto := rfl
    rw [Function.update_self, hservidor, hcons, if_pos rfl]
    congr 2
    rw [add_comm (deSocket sock s.colaPedidos), ← add_assoc]
    exact congrArg (· + deSocket sock s.colaPedidos) (add_comm _ _)
  · rw [Function.update_of_ne fun h => hk h.symm, if_neg hk, add_zero]

omit [Fintype T] [DecidableEq T] in
/-- A request the server takes is still on its way. -/
theorem pendientes_toma {x : Nat × Encargo T} {resto : List (Nat × Encargo T)}
    (hcola : s.colaPedidos = x :: resto) (k : Nat) :
    ({ s with colaPedidos := resto, enCurso := x :: s.enCurso } : Enlace T).pendientes k
      = s.pendientes k := by
  show Multiset.filter _ ((↑(s.aServidor k) : Multiset (Encargo T)) + deSocket k resto
    + deSocket k (x :: s.enCurso)) = s.pendientes k
  rw [Enlace.pendientes, hcola, deSocket_cons, deSocket_cons]
  congr 1
  rw [add_assoc, add_assoc, add_comm (deSocket k s.enCurso), ← add_assoc (deSocket k resto)]

/-- **ONE EVENT** keeps the invariant. -/
theorem EnlaceBien.paso {basura : Nat → UInt8} {maxThreads : Nat} {a : Suceso T}
    (hb : EnlaceBien n s fs) (hp : Enlace.paso basura maxThreads a s = some s') :
    ∃ fs', EnlaceBien n s' fs' := by
  cases a with
  | llama t op =>
      simp only [Enlace.paso] at hp
      split at hp
      · next hno =>
        split at hp
        · obtain rfl := Option.some.inj hp
          have hf := hb.ocioso t hno
          refine ⟨_, hb.mueve .libre rfl rfl rfl (by simp [Enlace.sockDe, hno]) (by rw [hf])
            (by rw [hf]) ?_ ?_ trivial (fun _ _ => ⟨rfl, rfl⟩) (fun _ _ => ⟨rfl, rfl⟩)⟩
          · intro h' hh'
            obtain rfl := Option.some.inj hh'
            exact programa_disciplina basura op
          · intro hnada
            cases hnada
        · cases hp
      · cases hp
  | orden t hallado =>
      obtain ⟨h, hh, hp⟩ := Option.bind_eq_some_iff.mp hp
      exact hb.orden hh hp
  | lee sock =>
      simp only [Enlace.paso] at hp
      split at hp
      · cases hp
      · next e resto hservidor =>
        obtain rfl := Option.some.inj hp
        have hpend := pendientes_lee hservidor
        exact ⟨fs, hb.afuera rfl rfl rfl
          (fun t => (hb.fase t).congr (fun k _ => ⟨hpend k, rfl⟩) rfl rfl)
          fun k _ => ⟨hpend k, rfl⟩⟩
  | toma =>
      simp only [Enlace.paso] at hp
      split at hp
      · cases hp
      · next x resto hcola =>
        split at hp
        · obtain rfl := Option.some.inj hp
          have hpend := pendientes_toma hcola
          exact ⟨fs, hb.afuera rfl rfl rfl
            (fun t => (hb.fase t).congr (fun k _ => ⟨hpend k, rfl⟩) rfl rfl)
            fun k _ => ⟨hpend k, rfl⟩⟩
        · cases hp
  | contesta sock e c =>
      simp only [Enlace.paso] at hp
      split at hp
      · next hmem =>
        obtain ⟨rta, hrta, hs'⟩ := Option.map_eq_some_iff.mp hp
        exact ⟨fs, hb.contesta hmem hrta hs'.symm⟩
      · cases hp
  | vuelve t =>
      simp only [Enlace.paso] at hp
      split at hp
      · next op r sock hh =>
        obtain rfl := Option.some.inj hp
        have hf : fs t = .libre := hb.guion t _ hh
        have hsock := hb.sock t
        refine ⟨_, hb.mueve .libre rfl rfl rfl ?_ (by rw [hf]) (by rw [hf]) ?_
          (fun _ => rfl) trivial (fun _ _ => ⟨rfl, rfl⟩) (fun _ _ => ⟨rfl, rfl⟩)⟩
        · rw [hsock, hf]
          rfl
        · intro h' hh'
          cases hh'
      · cases hp

/-! ## Whole runs -/

/-- The invariant along every run. -/
theorem EnlaceBien.corrida {basura : Nat → UInt8} {maxThreads : Nat} (l : List (Suceso T))
    (hrun : corrida (Enlace.paso basura maxThreads) l (Enlace.inicial T n) = some s) :
    ∃ fs, EnlaceBien n s fs :=
  corrida_preserva (P := fun s => ∃ fs, EnlaceBien n s fs)
    (fun _ _ _ ⟨_, hb⟩ hp => hb.paso hp) l ⟨_, EnlaceBien.inicial n⟩ hrun

/-- **THE POOL IS IN ORDER**: whatever the order in which the threads, the reader
    and the workers go, a socket of the pool has no request that awaits an answer
    and no unread byte; a socket is held by one thread at most and not in the pool;
    pooled and held sockets add up; and the bytes a thread finds when it reads a
    header are the answer to its last request. -/
theorem pool_en_orden (basura : Nat → UInt8) (maxThreads n : Nat) (l : List (Suceso T))
    (hrun : Corridas.corrida (Enlace.paso basura maxThreads) l (Enlace.inicial T n) = some s) :
    (∀ k ∈ s.poolSock, s.pendientes k = 0 ∧ s.aCliente k = [])
    ∧ (∀ t u k, s.sockDe t = some k → s.sockDe u = some k → t = u)
    ∧ (∀ t k, s.sockDe t = some k → k ∉ s.poolSock)
    ∧ s.poolSock.length + (Finset.univ.filter fun t => (s.sockDe t).isSome = true).card = n
    ∧ ∀ t h sock sigue, s.hilos t = some h → h.guion = .haz (.recvHeader sock) sigue →
        s.aCliente sock ≠ [] → s.rtas t (s.nroEnvio t) = some (s.aCliente sock) := by
  obtain ⟨fs, hb⟩ := EnlaceBien.corrida l hrun
  refine ⟨fun k hk => hb.limpio k fun t ht => hb.pool t k ht hk, fun t u k ht hu => ?_,
    fun t k ht => hb.pool t k ((hb.sock t).symm.trans ht), ?_, ?_⟩
  · exact hb.uno t u k ((hb.sock t).symm.trans ht) ((hb.sock u).symm.trans hu)
  · rw [← hb.enPool]
    exact congrArg (s.poolSock.length + ·) (Rfs.card_igual fun u => by rw [hb.sock u])
  · intro t h sock sigue hh hguion hbytes
    have hcum := hb.guion t h hh
    rw [hguion] at hcum
    obtain ⟨p, hf⟩ := permite_casos hcum.permite
    have hfase := hb.fase t
    rw [hf] at hfase
    obtain ⟨-, -, ⟨-, hnada⟩ | ⟨-, hrta, -⟩⟩ := hfase
    · exact absurd hnada hbytes
    · exact hrta

/-- The file "/t". -/
def rutaT : Ruta := ⟨[[116]], by decide⟩

/-- One thread opens "/t" and waits while another releases it and gives its
    socket back. -/
def dosHilos : List (Suceso Bool) :=
  [.llama true (.opn rutaT), .llama false (.release rutaT),
    .orden true none, .orden false none, .orden true none, .orden false none,
    .orden true none, .orden false none, .lee 1, .lee 0, .toma, .toma,
    .contesta 0 ⟨true, 1, .soloPath .opn rutaT.bytes⟩ (.result 0), .orden false none]

theorem pool_en_orden_dosHilos :
    ∃ s h sigue, Corridas.corrida (Enlace.paso (fun _ => 0) 2) dosHilos (Enlace.inicial Bool 2)
        = some s
      ∧ s.hilos true = some h ∧ h.guion = .haz (.recvHeader 0) sigue ∧ s.poolSock = [1]
      ∧ s.rtas true (s.nroEnvio true) = some (s.aCliente 0) :=
  ⟨_, _, _, rfl, rfl, rfl, rfl,
    (pool_en_orden (fun _ => 0) 2 2 dosHilos rfl).2.2.2.2 true _ 0 _ rfl rfl (List.cons_ne_nil _ _)⟩

/-! ## Somebody can always go on -/

omit [DecidableEq T] in
/-- A thread with a permit and no socket finds one in the pool. -/
theorem EnlaceBien.hay_socket (hb : EnlaceBien n s fs) (hf : fs t = .conPermiso) :
    s.poolSock ≠ [] := by
  intro hvacio
  have hpool := hb.enPool
  have hperm := hb.permisos
  rw [hvacio, List.length_nil] at hpool
  have hmenos : (Finset.univ.filter fun u => (fs u).sock.isSome = true).card
      < (Finset.univ.filter fun u => (fs u).permiso = true).card := by
    refine Finset.card_lt_card ⟨fun u hu => ?_, fun hsub => ?_⟩
    · have hu := (Finset.mem_filter.mp hu).2
      refine Finset.mem_filter.mpr ⟨Finset.mem_univ u, ?_⟩
      cases hfu : fs u <;> rw [hfu] at hu <;> first | rfl | cases hu
    · have ht := hsub (Finset.mem_filter.mpr ⟨Finset.mem_univ t, by rw [hf]; rfl⟩)
      have ht := (Finset.mem_filter.mp ht).2
      rw [hf] at ht
      cases ht
  omega

omit [Fintype T] [DecidableEq T] in
/-- The worker always has an answer to give. -/
theorem hay_rta (basura : Nat → UInt8) (p : Pedido) :
    ∃ c rta, paqueteRta basura p c = some rta := by
  cases p with
  | soloPath tipo path =>
      cases tipo with
      | release => exact ⟨.nada, _, rfl⟩
      | getattr => exact ⟨.error, _, rfl⟩
      | readdir => exact ⟨.error, _, rfl⟩
      | opn => exact ⟨.error, _, rfl⟩
      | create => exact ⟨.error, _, rfl⟩
      | unlink => exact ⟨.error, _, rfl⟩
      | mkdir => exact ⟨.error, _, rfl⟩
      | rmdir => exact ⟨.error, _, rfl⟩
  | read _ _ _ => exact ⟨.error, _, rfl⟩
  | write _ _ _ _ => exact ⟨.error, _, rfl⟩
  | truncate _ _ => exact ⟨.error, _, rfl⟩

/-- FUSE calls an operation. -/
def Suceso.esLlamada : Suceso T → Bool
  | .llama _ _ => true
  | _ => false

/-- An event that is not a new call can happen. -/
def Enlace.Avanza (basura : Nat → UInt8) (maxThreads : Nat) (s : Enlace T) : Prop :=
  ∃ a, Suceso.esLlamada a = false ∧ (Enlace.paso basura maxThreads a s).isSome

omit [Fintype T] in
/-- A thread whose order is not blocked can go on. -/
theorem avanza_orden (basura : Nat → UInt8) (maxThreads : Nat) (hh : s.hilos t = some h)
    (hs : (s.orden t h none).isSome) : s.Avanza basura maxThreads := by
  refine ⟨.orden t none, rfl, ?_⟩
  rwa [Enlace.paso, hh]

omit [Fintype T] in
/-- A request the server has can be answered. -/
theorem avanza_contesta (basura : Nat → UInt8) (maxThreads : Nat) {x : Nat × Encargo T}
    (hx : x ∈ s.enCurso) : s.Avanza basura maxThreads := by
  obtain ⟨c, rta, hrta⟩ := hay_rta basura x.2.pedido
  refine ⟨.contesta x.1 x.2 c, rfl, ?_⟩
  simp [Enlace.paso, hx, hrta]

omit [Fintype T] in
/-- A request that is on its way can go on. -/
theorem avanza_pendiente (basura : Nat → UInt8) {maxThreads : Nat} (hmax : 0 < maxThreads)
    {e : Encargo T} (he : e ∈ s.pendientes k) : s.Avanza basura maxThreads := by
  have he := (Multiset.mem_filter.mp he).1
  rw [Multiset.mem_add, Multiset.mem_add] at he
  obtain (he | he) | he := he
  · -- on the wire: the reader takes what is first
    cases hservidor : s.aServidor k with
    | nil => rw [hservidor] at he; cases he
    | cons e' resto =>
        refine ⟨.lee k, rfl, ?_⟩
        simp [Enlace.paso, hservidor]
  · -- in the queue: a worker takes it, or all of them are answering
    cases hcola : s.colaPedidos with
    | nil => rw [hcola] at he; cases he
    | cons x resto =>
        by_cases hlibre : s.enCurso.length < maxThreads
        · refine ⟨.toma, rfl, ?_⟩
          simp [Enlace.paso, hcola, hlibre]
        · obtain ⟨y, hy⟩ := List.exists_mem_of_length_pos (l := s.enCurso) (by omega)
          exact avanza_contesta basura maxThreads hy
  · have he : e ∈ (s.enCurso.filter fun x => x.1 = k).map Prod.snd := he
    obtain ⟨x, hx, -⟩ := List.mem_map.mp he
    exact avanza_contesta basura maxThreads (List.mem_filter.mp hx).1

/-- A thread past the semaphore can go on, or its request can. -/
theorem EnlaceBien.avanza (hb : EnlaceBien n s fs) (basura : Nat → UInt8) {maxThreads : Nat}
    (hmax : 0 < maxThreads) (ht : (fs t).permiso = true) : s.Avanza basura maxThreads := by
  have hno : fs t ≠ .libre := by
    intro hf
    rw [hf] at ht
    cases ht
  cases hh : s.hilos t with
  | none => exact absurd (hb.ocioso t hh) hno
  | some h =>
      have hcum := hb.guion t h hh
      have hfase := hb.fase t
      have hsale := avanza_orden basura maxThreads hh
      cases hguion : h.guion with
      | fin r =>
          rw [hguion] at hcum
          exact absurd hcum hno
      | haz o k =>
          rw [hguion] at hcum
          have hf := permite_casos hcum.permite
          cases o with
          | bajarInfo _ _ => exact absurd hf hno
          | subirInfo _ _ _ => exact absurd hf hno
          | borrarClave _ _ => exact absurd hf hno
          | semWait => exact absurd hf hno
          | liberarSinAsignar _ => exact absurd hf hno
          | indefinido => exact absurd hf hno
          | semPost => exact hsale (by simp [Enlace.orden, hguion])
          | habilitarSocket sock => exact hsale (by simp [Enlace.orden, hguion])
          | enviar sock p => exact hsale (by simp [Enlace.orden, hguion])
          | obtenerSocket =>
              obtain ⟨sock, resto, hpool⟩ := List.exists_cons_of_ne_nil (hb.hay_socket hf)
              exact hsale (by simp [Enlace.orden, hguion, hpool])
          | recvPayload sock tamano =>
              rw [hf] at hfase
              exact hsale (by simp [Enlace.orden, hguion, hfase.2])
          | recvHeader sock =>
              obtain ⟨p, hf⟩ := hf
              rw [hf] at hfase
              obtain ⟨-, -, ⟨hpen, -⟩ | ⟨-, -, hrta⟩⟩ := hfase
              · exact avanza_pendiente basura hmax
                  (by rw [hpen]; exact Multiset.mem_singleton_self _)
              · obtain ⟨tipo, l₀, l₁, resto, hbytes⟩ := hrta.header
                exact hsale (by simp [Enlace.orden, hguion, hbytes])

/-- **NO DEADLOCK**: in every reachable state with a thread inside an operation,
    and not at undefined behaviour (an order without answers), some thread, the
    reader or a worker can go on. -/
theorem alguno_avanza (basura : Nat → UInt8) (maxThreads n : Nat) (l : List (Suceso T))
    (hrun : Corridas.corrida (Enlace.paso basura maxThreads) l (Enlace.inicial T n) = some s)
    (hn : 0 < n) (hmax : 0 < maxThreads) {t : T} {h : Llamado} (hh : s.hilos t = some h)
    (hdef : ∀ o k, h.guion = .haz o k → Nonempty o.Rta) : s.Avanza basura maxThreads := by
  obtain ⟨fs, hb⟩ := EnlaceBien.corrida l hrun
  by_cases hperm : (fs t).permiso = true
  · exact hb.avanza basura hmax hperm
  · have hf : fs t = .libre := by
      cases hft : fs t <;> first | rfl | (rw [hft] at hperm; exact absurd rfl hperm)
    have hcum := hb.guion t h hh
    rw [hf] at hcum
    have hsale := avanza_orden basura maxThreads hh
    cases hguion : h.guion with
    | fin r =>
        refine ⟨.vuelve t, rfl, ?_⟩
        obtain ⟨op, guion, sock⟩ := h
        obtain rfl : guion = .fin r := hguion
        simp [Enlace.paso, hh]
    | haz o k =>
        rw [hguion] at hcum
        have hfo := permite_casos hcum.permite
        cases o with
        | bajarInfo _ _ => exact hsale (by simp [Enlace.orden, hguion])
        | subirInfo _ _ _ => exact hsale (by simp [Enlace.orden, hguion])
        | borrarClave _ _ => exact hsale (by simp [Enlace.orden, hguion])
        | liberarSinAsignar _ => exact (hdef _ k hguion).elim Empty.elim
        | indefinido => exact (hdef _ k hguion).elim Empty.elim
        | semWait =>
            by_cases hdisp : 0 < s.socketDisp
            · exact hsale (by simp [Enlace.orden, hguion, hdisp])
            · -- all the permits are out: somebody has one
              have hcuenta := hb.permisos
              obtain ⟨u, hu⟩ := Finset.card_pos.mp
                (by omega : 0 < (Finset.univ.filter fun u => (fs u).permiso = true).card)
              exact hb.avanza basura hmax (Finset.mem_filter.mp hu).2
        | obtenerSocket => cases hfo
        | habilitarSocket _ => cases hfo
        | enviar _ _ => cases hfo.1
        | recvHeader _ => obtain ⟨p, hfo⟩ := hfo; cases hfo
        | recvPayload _ _ => cases hfo
        | semPost => cases hfo

theorem alguno_avanza_dosHilos :
    ∃ s, Corridas.corrida (Enlace.paso (fun _ => 0) 2) dosHilos (Enlace.inicial Bool 2) = some s
      ∧ s.Avanza (fun _ => 0) 2 :=
  ⟨_, rfl, alguno_avanza _ 2 2 dosHilos rfl (by decide) (by decide) (t := true) rfl
    fun o k hguion => by cases hguion; exact ⟨((0 : UInt8), 0)⟩⟩

end Invariante

end Fsc
