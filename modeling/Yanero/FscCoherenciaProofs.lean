import Yanero.FscCacheProofs

/-! # What the client sees

    A thread that asks for an answer keeps to what the server would say, as long
    as that does not change under it and no key is owed (`AlDia.paso`).  One
    client on its own meets both (`cliente_coherente`).  With several threads,
    after a write or a truncation has returned, a new GETATTR sees the size the
    server has (`tamano_al_dia`) when no thread stores an answer grown old:
    `tamano_viejo` is a run where one does. -/

namespace Fsc

open Guiones Corridas Bloques

/-! ## One question -/

/-- A successful result is the one of the answer `r`. -/
def Consulta.Veraz (r : Trama) : Consulta → Resultado → Prop
  | .getattr, .atributos attr => r.tipo = TipoPath.getattr.codigo
      ∧ Nipc.deserializarGetattr Nipc.fsc32 r.payload = some attr
  | .readdir, .nombres lista => r.tipo = TipoPath.readdir.codigo
      ∧ nombresReaddir r.payload = some lista
  | _, _ => True

/-- A program that asks `co` about `q` while the server's answer is `r`: what it
    stores is `r`, and what it has given to `filler` are the names of `r`. -/
def Vigila (co : Consulta) (q : Ruta) (r : Trama) :
    Protocolo Orden Orden.Rta Resultado Unit where
  permite _ o :=
    match o with
    | .bajarInfo tipoOp path => cacheArmarClave tipoOp path = co.clave q
    | .subirInfo tipoOp path payload =>
        cacheArmarClave tipoOp path = co.clave q ∧ r = ⟨co.tipo.codigo, payload⟩
    | .liberarSinAsignar entregados => co.Veraz r (.nombres entregados)
    | _ => True
  posible _ o x :=
    match o, x with
    | .bajarInfo _ _, x => ∀ payload, x = some payload → r = ⟨co.tipo.codigo, payload⟩
    | .recvHeader _, x => x = (r.tipo, r.payload.length)
    | .recvPayload _ n, x => x = r.payload.take n
    | _, _ => True
  sigue _ _ _ := ()
  acaba _ res := co.Veraz r res

section Consultas

variable {co : Consulta} {q : Ruta} {r : Trama} {g : Programa}

theorem vigila_definido {β : Type} {x : Option β} {sigue : β → Programa}
    (h : ∀ b, x = some b → (sigue b).Cumple (Vigila co q r) ()) :
    (definido x sigue).Cumple (Vigila co q r) () := by
  cases x with
  | none => exact ⟨trivial, fun x _ => Empty.elim x⟩
  | some b => exact h b rfl

theorem vigila_soltarSocket {sock : Nat} (h : g.Cumple (Vigila co q r) ()) :
    (soltarSocket sock g).Cumple (Vigila co q r) () :=
  ⟨trivial, fun _ _ => ⟨trivial, fun _ _ => h⟩⟩

/-- A cached operation keeps to the answer, wherever it takes it from. -/
theorem conCache_vigila (co : Consulta) {q : Ruta} {r : Trama} {basura : Nat → UInt8}
    {error : Int} {acierto exito : List UInt8 → Programa}
    (herror : co.Veraz r (.valor error))
    (hacierto : ∀ payload, r = ⟨co.tipo.codigo, payload⟩ →
      (acierto payload).Cumple (Vigila co q r) ())
    (hexito : ∀ payload, r = ⟨co.tipo.codigo, payload⟩ →
      (exito payload).Cumple (Vigila co q r) ()) :
    (conCache basura co.tipoOp co.tipo q.bytes error acierto exito).Cumple
      (Vigila co q r) () := by
  refine ⟨rfl, fun hallado hposible => ?_⟩
  cases hallado with
  | some payload => exact hacierto payload (hposible payload rfl)
  | none =>
      refine vigila_definido fun _ _ =>
        ⟨trivial, fun _ _ => ⟨trivial, fun sock _ => ⟨trivial, fun _ _ => ⟨trivial, ?_⟩⟩⟩⟩
      rintro _ rfl
      show Guion.Cumple _ _ (if r.tipo ≠ co.tipo.codigo then _ else _)
      split
      · exact vigila_soltarSocket herror
      · next htipo =>
        refine ⟨trivial, ?_⟩
        rintro _ rfl
        have hr : r = ⟨co.tipo.codigo, r.payload.take r.payload.length⟩ := by
          rw [List.take_length, ← not_not.mp htipo]
        exact vigila_soltarSocket ⟨⟨rfl, hr⟩, fun _ _ => hexito _ hr⟩

/-- **A QUESTION** on its own gives the server's answer. -/
theorem programa_vigila (basura : Nat → UInt8) (co : Consulta) (q : Ruta) (r : Trama) :
    ((co.op q).programa basura).Cumple (Vigila co q r) () := by
  cases co with
  | getattr =>
      have hstbuf : ∀ payload, r = ⟨Consulta.getattr.tipo.codigo, payload⟩ →
          (llenarStbuf payload).Cumple (Vigila .getattr q r) () := by
        refine fun payload hr => vigila_definido fun attr hattr => ?_
        exact ⟨congrArg Trama.tipo hr, (congrArg Trama.payload hr).symm ▸ hattr⟩
      exact conCache_vigila .getattr trivial hstbuf hstbuf
  | readdir =>
      have hveraz : ∀ payload lista, r = ⟨Consulta.readdir.tipo.codigo, payload⟩ →
          nombresReaddir payload = some lista → Consulta.readdir.Veraz r (.nombres lista) := by
        intro payload lista hr hlista
        exact ⟨congrArg Trama.tipo hr, (congrArg Trama.payload hr).symm ▸ hlista⟩
      refine conCache_vigila .readdir trivial (fun payload hr => ?_) fun payload hr => ?_
      · exact vigila_definido fun lista hlista =>
          ⟨hveraz payload lista hr hlista, fun r _ => Empty.elim r⟩
      · exact vigila_definido fun lista hlista => hveraz payload lista hr hlista

end Consultas

/-! ## A question among other threads -/

/-- If the thread is asking something, it keeps to what the server would answer
    now, and so is the answer it has. -/
def Red.AlDia {σ T : Type} (srv : Servidor σ) (s : Red σ T) (t : T) : Prop :=
  ∀ h co q, s.hilos t = some h → h.op = Consulta.op co q →
    h.guion.Cumple (Vigila co q (srv.responde s.servidor co q)) ()
      ∧ ∀ r, h.rta = some r → r = srv.responde s.servidor co q

section Redes

variable {σ T : Type} {srv : Servidor σ} {basura : Nat → UInt8} {s s' : Red σ T}
  {t u : T} {a : Accion T} {h h' : Hilo}

/-- A key belongs to one question. -/
theorem clave_inj {co co' : Consulta} {q q' : Ruta} (heq : co.clave q = co'.clave q') :
    co = co' ∧ q = q' := by
  obtain ⟨htipo, hbytes⟩ := List.cons.inj heq
  refine ⟨?_, Ruta.bytes_inj hbytes⟩
  cases co <;> cases co' <;> first | rfl | cases htipo

variable [DecidableEq T]

/-- **ONE ACTION** while nobody owes the key and the answer does not change. -/
theorem Red.AlDia.paso (hc : Coherente srv s) (hal : s.AlDia srv t)
    (hp : Red.paso srv basura a s = some s')
    (hsin : ∀ h co q, s.hilos t = some h → h.op = Consulta.op co q → ¬ s.PorBorrar (co.clave q))
    (higual : ∀ h co q, s.hilos t = some h → h.op = Consulta.op co q →
      srv.responde s'.servidor co q = srv.responde s.servidor co q) :
    s'.AlDia srv t := by
  intro h' co q hh' hop'
  rcases paso_casos hp with ⟨u, op, rfl, hn, rfl⟩ | ⟨u, h, o, k, x, rfl, hh, hg, hx, rfl⟩
    | ⟨u, h, p, rfl, hh, hpe, hr, rfl⟩ | ⟨u, h, r, rfl, hh, hg, rfl⟩ | ⟨c, rfl, rfl⟩
  · rcases con_casos hh' with ⟨rfl, hx⟩ | ⟨-, ht⟩
    · obtain rfl := Option.some.inj hx
      have hop' : op = co.op q := hop'
      subst hop'
      exact ⟨programa_vigila basura co q _, fun r hr => by cases hr⟩
    · exact hal h' co q ht hop'
  · rcases con_casos hh' with ⟨rfl, hx'⟩ | ⟨-, ht⟩
    · obtain rfl := Option.some.inj hx'
      obtain ⟨hcum, hrta⟩ := hal h co q hh hop'
      rw [hg] at hcum
      have hresto : ∀ r, (canalTras h o).2 = some r → r = srv.responde s.servidor co q := by
        intro r hr
        cases o with
        | enviar _ _ => cases hr
        | _ => exact hrta r hr
      refine ⟨hcum.sigue ?_, hresto⟩
      cases o with
      | bajarInfo tipoOp path =>
          intro payload hpay
          have hclave : cacheArmarClave tipoOp path = co.clave q := hcum.permite
          have hcache : s.cache (co.clave q) = some payload := by
            rw [← hclave]
            exact Eq.trans (Eq.symm hx) hpay
          exact (hc.fresca co q payload hcache).resolve_right (hsin h co q hh hop')
      | recvHeader _ =>
          obtain ⟨r, hr, rfl⟩ := hx
          rw [hrta r hr]
          rfl
      | recvPayload _ n =>
          obtain ⟨r, hr, rfl⟩ := hx
          rw [hrta r hr]
          rfl
      | _ => trivial
    · exact hal h' co q ht hop'
  · rcases con_casos hh' with ⟨rfl, hx'⟩ | ⟨-, ht⟩
    · obtain rfl := Option.some.inj hx'
      obtain ⟨hcum, -⟩ := hal h co q hh hop'
      have hig := higual h co q hh hop'
      refine ⟨hig.symm ▸ hcum, fun r hr => ?_⟩
      obtain rfl := Option.some.inj hr
      have hpedido : p = .soloPath co.tipo q.bytes := by
        rw [((hc.hilos _ h hh).pedido p hpe).1, show h.op = co.op q from hop']
        cases co <;> rfl
      rw [hig, hpedido]
      rfl
    · have hig := higual h' co q ht hop'
      obtain ⟨hcum, hrta⟩ := hal h' co q ht hop'
      exact ⟨hig.symm ▸ hcum, fun r hr => (hrta r hr).trans hig.symm⟩
  · rcases con_casos hh' with ⟨-, hx'⟩ | ⟨-, ht⟩
    · cases hx'
    · exact hal h' co q ht hop'
  · exact hal h' co q hh' hop'

/-- An operation that returns is done. -/
theorem paso_vuelve (hp : Red.paso srv basura (.vuelve t) s = some s') (hh : s.hilos t = some h) :
    ∃ r, h.guion = .fin r := by
  simp only [Red.paso] at hp
  split at hp
  · next hh' =>
    obtain rfl := Option.some.inj (hh.symm.trans hh')
    exact ⟨_, rfl⟩
  · cases hp

end Redes

/-! ## A server with one file -/

/-- The path "/a". -/
def unaRuta : Ruta := ⟨[[97]], by decide⟩

/-- The answer to GETATTR for a file of `n` bytes. -/
def atributosDe (n : Nat) : Trama :=
  ⟨TipoPath.getattr.codigo,
    Palabras.bytesDe 4 0o100444 ++ Palabras.bytesDe 4 1 ++ Palabras.bytesDe 4 n⟩

/-- The requests about "/a", on a file of `n` bytes. -/
def exitoUnico (p : Pedido) (n : Nat) : Option (Nat × Trama) :=
  match p with
  | .soloPath .getattr path => if path = unaRuta.bytes then some (n, atributosDe n) else none
  | .write path size _ offset =>
      if path = unaRuta.bytes then
        some (max n (offset.toNat + size.toNat), ⟨tipoWrite, Palabras.bytesDe 4 size.toNat⟩)
      else none
  | .truncate path offset =>
      if path = unaRuta.bytes then some (offset.toNat, ⟨tipoTruncate, Palabras.bytesDe 4 0⟩)
      else none
  | _ => none

/-- The frame of `procesarError`. -/
def tramaError : Trama := ⟨0, []⟩

/-- A server with one file, "/a": its state is the size. -/
def atenderUnico (p : Pedido) (n : Nat) : Nat × Trama := (exitoUnico p n).getD (n, tramaError)

theorem exitoUnico_exito {p : Pedido} {n : Nat} {x : Nat × Trama} (h : exitoUnico p n = some x) :
    p.Exito x.2 := by
  unfold exitoUnico at h
  split at h
  · split at h
    · cases h
      exact ⟨rfl, by simp [Pedido.minimo, atributosDe]⟩
    · cases h
  · split at h
    · cases h
      exact ⟨rfl, by simp [Pedido.minimo]⟩
    · cases h
  · split at h
    · cases h
      exact ⟨rfl, by simp [Pedido.minimo]⟩
    · cases h
  · cases h

theorem tipoDe_ne_error (p : Pedido) : Nipc.tipoDe p ≠ tramaError.tipo := by
  cases p with
  | soloPath tipo path => cases tipo <;> rw [Nipc.tipoDe] <;> decide
  | read path offset size =>
      rw [Nipc.tipoDe]
      decide
  | write path size buf offset =>
      rw [Nipc.tipoDe]
      decide
  | truncate path offset =>
      rw [Nipc.tipoDe]
      decide

/-- An error leaves the size alone. -/
theorem atenderUnico_error {p : Pedido} {n : Nat}
    (h : (atenderUnico p n).2.tipo ≠ Nipc.tipoDe p) : (atenderUnico p n).1 = n := by
  unfold atenderUnico at h ⊢
  cases he : exitoUnico p n with
  | none => rfl
  | some x =>
      rw [he] at h
      exact absurd (exitoUnico_exito he).1 h

def servidorUnico : Servidor Nat where
  atender := atenderUnico
  formato := by
    intro p n h
    unfold atenderUnico at h ⊢
    cases he : exitoUnico p n with
    | none =>
        rw [he] at h
        exact absurd h.symm (tipoDe_ne_error p)
    | some x => exact exitoUnico_exito he

theorem responde_unico (n : Nat) (co : Consulta) (q : Ruta) :
    servidorUnico.responde n co q =
      if co = .getattr ∧ q = unaRuta then atributosDe n else tramaError := by
  cases co with
  | getattr =>
      show ((if q.bytes = unaRuta.bytes then some (n, atributosDe n) else none).getD _).2 = _
      by_cases hq : q = unaRuta
      · simp [hq]
      · rw [if_neg fun h => hq (Ruta.bytes_inj h), if_neg fun h => hq h.2]
        rfl
  | readdir => rfl

/-- Only writing and truncating "/a" change the size. -/
theorem atenderUnico_lejos {op : Operacion} {n : Nat} (h : ¬ op.alcanza .getattr unaRuta) :
    (atenderUnico op.pedido n).1 = n := by
  cases op with
  | write path buf size offset =>
      have hno : path.bytes ≠ unaRuta.bytes := fun heq => h ⟨rfl, (Ruta.bytes_inj heq).symm⟩
      simp [atenderUnico, exitoUnico, Operacion.pedido, hno]
  | truncate path offset =>
      have hno : path.bytes ≠ unaRuta.bytes := fun heq => h ⟨rfl, (Ruta.bytes_inj heq).symm⟩
      simp [atenderUnico, exitoUnico, Operacion.pedido, hno]
  | getattr path =>
      simp only [atenderUnico, exitoUnico, Operacion.pedido]
      split <;> rfl
  | _ => rfl

theorem soloCambia_unico : SoloCambia servidorUnico where
  error := by
    intro op n co q h
    rw [show (servidorUnico.atender op.pedido n).1 = n from atenderUnico_error h]
  lejos := by
    intro op n co q h
    rw [responde_unico, responde_unico]
    split
    · next hq =>
      obtain ⟨rfl, rfl⟩ := hq
      exact congrArg atributosDe (atenderUnico_lejos h)
    · rfl
/-- Where a thread is: its operation and, when it is done, the result. -/
def Hilo.vista (h : Hilo) : Operacion × Option Resultado :=
  (h.op, match h.guion with
    | .fin r => some r
    | .haz _ _ => none)

/-- The size and the thread `t` after a run. -/
def vistaTras {T : Type} [DecidableEq T] (l : List (Accion T)) (t : T) :
    Option (Nat × Option (Operacion × Option Resultado)) :=
  (corrida (Red.paso servidorUnico fun _ => 0) l { servidor := 0 }).map fun s =>
    (s.servidor, (s.hilos t).map Hilo.vista)

theorem vistaTras_casos {T : Type} [DecidableEq T] {l : List (Accion T)} {t : T} {n : Nat}
    {op : Operacion} {r : Resultado} (h : vistaTras l t = some (n, some (op, some r))) :
    ∃ s h, corrida (Red.paso servidorUnico fun _ => 0) l { servidor := 0 } = some s
      ∧ s.servidor = n ∧ s.hilos t = some h ∧ h.op = op ∧ h.guion = .fin r := by
  obtain ⟨s, hs, hv⟩ := Option.map_eq_some_iff.mp h
  obtain ⟨hn, hhilo⟩ := Prod.mk.inj hv
  obtain ⟨⟨op', guion, pedido, rta⟩, hh, hv⟩ := Option.map_eq_some_iff.mp hhilo
  cases guion with
  | fin r' =>
      cases hv
      exact ⟨s, _, hs, hn, hh, rfl, rfl⟩
  | haz o k => cases hv

/-- `fsc_write` of one byte to "/a". -/
def escribir : Operacion := .write unaRuta [7] 1 0

/-- An exchange of a thread: `n` orders, the server, and `m` orders. -/
def intercambio {T : Type} (t : T) (op : Operacion) (n m : Nat) : List (Accion T) :=
  .llama t op :: (List.replicate n (.orden t) ++ .atiende t :: List.replicate m (.orden t))

/-! ## One client on its own -/

section Solo

variable {σ : Type} {srv : Servidor σ} {basura : Nat → UInt8} {s s' : Red σ Unit}
  {a : Accion Unit}

/-- Nobody owes the key of a question of the only client. -/
theorem solo_sin_deuda {h : Hilo} {co : Consulta} {q : Ruta} (hh : s.hilos () = some h)
    (hop : h.op = co.op q) (c : Clave) : ¬ s.PorBorrar c := by
  rintro ⟨t, h', hh', hc, -⟩
  obtain rfl := Option.some.inj (hh.symm.trans hh')
  rw [hop] at hc
  exact not_borra_consulta co q c hc

/-- No request but the client's own changes an answer, and a question changes
    none. -/
theorem solo_igual (hsrv : SoloCambia srv) (hc : Coherente srv s)
    (hp : Red.paso srv basura a s = some s') {h : Hilo} {co : Consulta} {q : Ruta}
    (hh : s.hilos () = some h) (hop : h.op = co.op q) :
    srv.responde s'.servidor co q = srv.responde s.servidor co q := by
  rcases paso_casos hp with ⟨-, -, -, -, rfl⟩ | ⟨-, -, -, -, -, -, -, -, -, rfl⟩
    | ⟨t, h', p, -, hh', hpe, -, rfl⟩ | ⟨-, -, -, -, -, -, rfl⟩ | ⟨-, -, rfl⟩
  · rfl
  · rfl
  · obtain rfl := Option.some.inj (hh.symm.trans hh')
    obtain ⟨rfl, -⟩ := (hc.hilos () h hh).pedido p hpe
    refine hsrv.lejos h.op s.servidor co q ?_
    rw [hop]
    cases co <;> exact id
  · rfl
  · rfl

/-- What the only client stores is what the server would say. -/
theorem solo_guarda (hc : Coherente srv s) (hal : s.AlDia srv ()) : GuardaAlDia srv a s := by
  cases a with
  | orden t =>
      intro h tipoOp path payload k hh hg co q hclave
      have hcuida := (hc.hilos t h hh).cuida
      rw [hg] at hcuida
      obtain ⟨co', q', hop, hclave'⟩ := hcuida.orden
      obtain ⟨hcum, -⟩ := hal h co' q' hh hop
      rw [hg] at hcum
      obtain ⟨rfl, rfl⟩ := clave_inj (hclave.symm.trans hclave')
      exact Or.inl hcum.permite.2
  | _ => trivial

theorem solo_paso (hsrv : SoloCambia srv) (h : Coherente srv s ∧ s.AlDia srv ())
    (hp : Red.paso srv basura a s = some s') : Coherente srv s' ∧ s'.AlDia srv () :=
  ⟨h.1.paso hsrv (solo_guarda h.1 h.2) hp,
    h.2.paso h.1 hp (fun _ _ _ hh hop => solo_sin_deuda hh hop _)
      fun _ _ _ hh hop => solo_igual hsrv h.1 hp hh hop⟩

/-- Everything along the runs of one client. -/
theorem solo_corrida (hsrv : SoloCambia srv) {servidor : σ} (l : List (Accion Unit))
    (hrun : corrida (Red.paso srv basura) l { servidor := servidor } = some s) :
    Coherente srv s ∧ s.AlDia srv () := by
  exact corrida_preserva (P := fun s => Coherente srv s ∧ s.AlDia srv ())
    (fun a s s' h hp => solo_paso hsrv h hp) l
    ⟨Coherente.inicial servidor, fun _ _ _ hh => by cases hh⟩ hrun

/-- `fsc_getattr`, `fsc_write` and `fsc_getattr`, each from beginning to end. -/
def pideEscribePide : List (Accion Unit) :=
  intercambio () (.getattr unaRuta) 4 5 ++ .vuelve () ::
    (intercambio () escribir 3 5 ++ .vuelve () :: intercambio () (.getattr unaRuta) 4 5)

end Solo

/-! ## Several threads -/

/-- The file whose attributes alone the operation changes. -/
def Operacion.escribe : Operacion → Option Ruta
  | .write path _ _ _ => some path
  | .truncate path _ => some path
  | _ => none

/-- Stored answers are not old, and when a write or a truncation returns no other
    operation that changed the attributes of the file has them still to drop. -/
def CierraAlDia {σ T : Type} (srv : Servidor σ) (a : Accion T) (s : Red σ T) : Prop :=
  GuardaAlDia srv a s ∧
    match a with
    | .vuelve t => ∀ h q, s.hilos t = some h → h.op.escribe = some q →
        ¬ s.PorBorrar (Consulta.getattr.clave q)
    | _ => True

/-- The action is not the handling of a request that changes the attributes of
    `q`; an error changes none. -/
def NoModifica {σ T : Type} (srv : Servidor σ) (q : Ruta) (a : Accion T) (s : Red σ T) : Prop :=
  match a with
  | .atiende t => ∀ h ∈ s.hilos t, h.op.alcanza .getattr q →
      (srv.atender h.op.pedido s.servidor).2.tipo ≠ Nipc.tipoDe h.op.pedido
  | _ => True

instance {σ T : Type} (srv : Servidor σ) (q : Ruta) (a : Accion T) (s : Red σ T) :
    Decidable (NoModifica srv q a s) := by
  cases a <;> unfold NoModifica <;> infer_instance

section Varios

variable {σ T : Type} [DecidableEq T] {srv : Servidor σ} {basura : Nat → UInt8} {s s' : Red σ T}
  {t u : T} {a : Accion T} {q : Ruta}

/-- The keys owed before a thread moves on are those owed after, when it did not
    begin to owe one. -/
theorem Red.PorBorrar.de_con {x : Option Hilo} {c : Clave} (hb : (s.con t x).PorBorrar c)
    (ht : ∀ h', x = some h' → h'.PorBorrar c → ∃ h, s.hilos t = some h ∧ h.PorBorrar c) :
    s.PorBorrar c := by
  obtain ⟨u, h, hh, hc⟩ := hb
  rcases con_casos hh with ⟨rfl, hx⟩ | ⟨-, hu⟩
  · obtain ⟨h₀, hh₀, hc₀⟩ := ht h hx hc
    exact ⟨u, h₀, hh₀, hc₀⟩
  · exact ⟨u, h, hu, hc⟩

/-- No action that leaves the attributes of a file alone makes anybody owe them. -/
theorem sin_deuda_paso (hc : Coherente srv s) (hp : Red.paso srv basura a s = some s')
    (hno : NoModifica srv q a s) (hsin : ¬ s.PorBorrar (Consulta.getattr.clave q)) :
    ¬ s'.PorBorrar (Consulta.getattr.clave q) := by
  intro hb
  refine hsin ?_
  rcases paso_casos hp with ⟨t, op, rfl, hn, rfl⟩ | ⟨t, h, o, k, x, rfl, hh, hg, hx, rfl⟩
    | ⟨t, h, p, rfl, hh, hpe, hr, rfl⟩ | ⟨t, h, r, rfl, hh, hg, rfl⟩ | ⟨c, rfl, rfl⟩
  · refine hb.de_con fun h' hx hb' => ?_
    obtain rfl := Option.some.inj hx
    obtain ⟨-, r, hr, -⟩ := hb'
    cases hr
  · refine Red.PorBorrar.de_con (s := { s with cache := _ }) hb fun h' hx' hb' => ?_
    obtain rfl := Option.some.inj hx'
    exact ⟨h, hh, hb'.antes (hc.hilos t h hh) hg hx⟩
  · refine Red.PorBorrar.de_con (s := { s with servidor := _ }) hb fun h' hx' hb' => ?_
    obtain rfl := Option.some.inj hx'
    obtain ⟨⟨co, q', ha, hclave⟩, r, hr', hex, -⟩ := hb'
    obtain rfl := Option.some.inj hr'
    obtain ⟨rfl, rfl⟩ := clave_inj hclave
    obtain ⟨rfl, -⟩ := (hc.hilos t h hh).pedido p hpe
    exact absurd hex.1 (hno h hh ha)
  · exact hb.de_con fun h' hx => by cases hx
  · exact hb

/-- Nor does it change them. -/
theorem igual_paso (hsrv : SoloCambia srv) (hc : Coherente srv s)
    (hp : Red.paso srv basura a s = some s') (hno : NoModifica srv q a s) :
    srv.responde s'.servidor .getattr q = srv.responde s.servidor .getattr q := by
  rcases paso_casos hp with ⟨-, -, -, -, rfl⟩ | ⟨-, -, -, -, -, -, -, -, -, rfl⟩
    | ⟨t, h, p, rfl, hh, hpe, -, rfl⟩ | ⟨-, -, -, -, -, -, rfl⟩ | ⟨-, -, rfl⟩
  · rfl
  · rfl
  · obtain ⟨rfl, -⟩ := (hc.hilos t h hh).pedido p hpe
    by_cases ha : h.op.alcanza .getattr q
    · exact hsrv.error h.op s.servidor .getattr q (hno h hh ha)
    · exact hsrv.lejos h.op s.servidor .getattr q ha
  · rfl
  · rfl

/-- A thread that moves on stays in its operation. -/
theorem op_con {h h₀ h₁ : Hilo} (hh : s.hilos u = some h) (ht : s.hilos t = some h₀)
    (hop : h₁.op = h₀.op) : ∃ h', (s.con t (some h₁)).hilos u = some h' ∧ h'.op = h.op := by
  by_cases hu : u = t
  · subst hu
    obtain rfl := Option.some.inj (hh.symm.trans ht)
    exact ⟨h₁, con_mismo s u (some h₁), hop⟩
  · exact ⟨h, (con_otro s (some h₁) hu).trans hh, rfl⟩

/-- A thread stays in its operation until it returns. -/
theorem op_paso {h : Hilo} (hp : Red.paso srv basura a s = some s') (hh : s.hilos u = some h)
    (ha : a ≠ .vuelve u) : ∃ h', s'.hilos u = some h' ∧ h'.op = h.op := by
  rcases paso_casos hp with ⟨t, op, rfl, hn, rfl⟩ | ⟨t, h₀, o, k, x, rfl, ht, -, -, rfl⟩
    | ⟨t, h₀, p, rfl, ht, -, -, rfl⟩ | ⟨t, h₀, r, rfl, ht, -, rfl⟩ | ⟨c, rfl, rfl⟩
  · have hu : u ≠ t := by
      rintro rfl
      rw [hn] at hh
      cases hh
    exact ⟨h, (con_otro s _ hu).trans hh, rfl⟩
  · exact op_con (s := { s with cache := _ }) hh ht rfl
  · exact op_con (s := { s with servidor := _ }) hh ht rfl
  · have hu : u ≠ t := by
      rintro rfl
      exact ha rfl
    exact ⟨h, (con_otro s none hu).trans hh, rfl⟩
  · exact ⟨h, hh, rfl⟩

/-- Nobody owes the attributes of the file. -/
structure Asentado (srv : Servidor σ) (q : Ruta) (s : Red σ T) : Prop where
  coherente : Coherente srv s
  sinDeuda : ¬ s.PorBorrar (Consulta.getattr.clave q)

theorem Asentado.paso (hsrv : SoloCambia srv) (hq : Asentado srv q s)
    (ha : CierraAlDia srv a s ∧ NoModifica srv q a s) (hp : Red.paso srv basura a s = some s') :
    Asentado srv q s' :=
  ⟨hq.coherente.paso hsrv ha.1.1 hp, sin_deuda_paso hq.coherente hp ha.2 hq.sinDeuda⟩

/-- A thread asks for the attributes of the file, and nobody owes them. -/
structure Pregunta (srv : Servidor σ) (q : Ruta) (u : T) (s : Red σ T) : Prop where
  asentado : Asentado srv q s
  alDia : s.AlDia srv u
  op : ∃ h, s.hilos u = some h ∧ h.op = .getattr q

theorem Pregunta.paso (hsrv : SoloCambia srv) (hu : Pregunta srv q u s)
    (ha : CierraAlDia srv a s ∧ NoModifica srv q a s) (hno : a ≠ .vuelve u)
    (hp : Red.paso srv basura a s = some s') : Pregunta srv q u s' := by
  obtain ⟨h, hh, hop⟩ := hu.op
  have hsola : ∀ h' co q', s.hilos u = some h' → h'.op = Consulta.op co q' →
      co = .getattr ∧ q' = q := by
    intro h' co q' hh' hop'
    obtain rfl := Option.some.inj (hh.symm.trans hh')
    rw [hop] at hop'
    cases co <;> cases hop'
    exact ⟨rfl, rfl⟩
  refine ⟨hu.asentado.paso hsrv ha hp, hu.alDia.paso hu.asentado.coherente hp ?_ ?_, ?_⟩
  · intro h' co q' hh' hop'
    obtain ⟨rfl, rfl⟩ := hsola h' co q' hh' hop'
    exact hu.asentado.sinDeuda
  · intro h' co q' hh' hop'
    obtain ⟨rfl, rfl⟩ := hsola h' co q' hh' hop'
    exact igual_paso hsrv hu.asentado.coherente hp ha.2
  · obtain ⟨h', hh', hop'⟩ := op_paso hp hh hno
    exact ⟨h', hh', hop'.trans hop⟩

/-- A call begins. -/
theorem paso_llama {op : Operacion} (hp : Red.paso srv basura (.llama u op) s = some s') :
    s.hilos u = none ∧ s' = s.con u (some { op := op, guion := op.programa basura }) := by
  simp only [Red.paso] at hp
  split at hp
  · next hn => exact ⟨hn, (Option.some.inj hp).symm⟩
  · cases hp

/-- The question begins. -/
theorem Asentado.pregunta (hsrv : SoloCambia srv) (hq : Asentado srv q s)
    (hp : Red.paso srv basura (.llama u (.getattr q)) s = some s') : Pregunta srv q u s' := by
  have hq' : Asentado srv q s' :=
    hq.paso (a := .llama u (.getattr q)) hsrv ⟨⟨trivial, trivial⟩, trivial⟩ hp
  obtain ⟨hn, rfl⟩ := paso_llama hp
  refine ⟨hq', ?_, ⟨_, con_mismo s u _, rfl⟩⟩
  refine Red.AlDia.paso hq.coherente ?_ hp ?_ ?_
  · intro h co q' hh
    rw [hn] at hh
    cases hh
  · intro h co q' hh
    rw [hn] at hh
    cases hh
  · intro h co q' hh
    rw [hn] at hh
    cases hh

/-- **THE SIZE AFTER A WRITE**: once a write or a truncation of a file has
    returned, and while no request changes its attributes, an `fsc_getattr` that
    begins then gives what the server has, when no thread stores an answer that
    has grown old. -/
theorem tamano_al_dia (hsrv : SoloCambia srv) (servidor : σ) {l₁ l₂ l₃ : List (Accion T)}
    {s₁ : Red σ T} {h h' : Hilo} {attr : Nipc.Mensaje}
    (hrun₁ : corrida (Red.paso srv basura) l₁ { servidor := servidor } = some s₁)
    (hrun₂ : corrida (Red.paso srv basura) (.vuelve t :: (l₂ ++ .llama u (.getattr q) :: l₃)) s₁
      = some s)
    (hcond : EnCadaPaso (Red.paso srv basura) (CierraAlDia srv)
      (l₁ ++ .vuelve t :: (l₂ ++ .llama u (.getattr q) :: l₃)) { servidor := servidor })
    (hh : s₁.hilos t = some h) (hop : h.op.escribe = some q)
    (hquieto : EnCadaPaso (Red.paso srv basura) (NoModifica srv q)
      (.vuelve t :: (l₂ ++ .llama u (.getattr q) :: l₃)) s₁)
    (hu : ∀ a ∈ l₃, a ≠ .vuelve u) (hh' : s.hilos u = some h')
    (hfin : h'.guion = .fin (.atributos attr)) :
    ∃ payload, srv.responde s.servidor .getattr q = ⟨TipoPath.getattr.codigo, payload⟩
      ∧ Nipc.deserializarGetattr Nipc.fsc32 payload = some attr := by
  obtain ⟨hcond₁, hcond₂⟩ := EnCadaPaso.append.mp hcond
  have hc₁ : Coherente srv s₁ :=
    corrida_invariante (fun a s s' hc ha hp => hc.paso hsrv ha.1 hp) l₁
      (Coherente.inicial servidor) hcond₁ hrun₁
  have hjunto := (hcond₂ s₁ hrun₁).and hquieto
  have hq₁ : Asentado srv q s₁ := ⟨hc₁, hjunto.1.1.2 h q hh hop⟩
  obtain ⟨s₂, hvuelve, hrun₂⟩ := Option.bind_eq_some_iff.mp hrun₂
  have hq₂ := hq₁.paso hsrv hjunto.1 hvuelve
  rw [corrida_append] at hrun₂
  obtain ⟨s₃, hrun₃, hrun₄⟩ := Option.bind_eq_some_iff.mp hrun₂
  obtain ⟨hc₂, hc₃⟩ := EnCadaPaso.append.mp (hjunto.2 s₂ hvuelve)
  have hq₃ : Asentado srv q s₃ :=
    corrida_invariante (fun a s s' hq ha hp => hq.paso hsrv ha hp) l₂ hq₂ hc₂ hrun₃
  obtain ⟨s₄, hllama, hrun₅⟩ := Option.bind_eq_some_iff.mp hrun₄
  have hp₄ : Pregunta srv q u s₄ := hq₃.pregunta hsrv hllama
  have hp : Pregunta srv q u s :=
    corrida_invariante (fun a s s' hp ha hs => hp.paso hsrv ha.1 ha.2 hs) l₃ hp₄
      (((hc₃ s₃ hrun₃).2 s₄ hllama).and (EnCadaPaso.de_mem hu)) hrun₅
  obtain ⟨h₀, hh₀, hop₀⟩ := hp.op
  obtain rfl := Option.some.inj (hh'.symm.trans hh₀)
  obtain ⟨hcum, -⟩ := hp.alDia h' .getattr q hh' hop₀
  rw [hfin] at hcum
  exact ⟨_, congrArg (Trama.mk · _) hcum.1, hcum.2⟩

end Varios

/-! ## Two threads -/

/-- A thread that only asks, or that has its result, owes no key. -/
def Hilo.sinDeuda (h : Hilo) : Bool :=
  match h.op, h.guion with
  | .getattr _, _ => true
  | .readdir _, _ => true
  | _, .fin _ => true
  | _, .haz _ _ => false

theorem Hilo.sinDeuda_no {h : Hilo} (hs : h.sinDeuda = true) (c : Clave) : ¬ h.PorBorrar c := by
  rintro ⟨hb, r, -, -, hcum⟩
  rcases h with ⟨op, guion, pedido, rta⟩
  cases guion with
  | fin res => cases hcum
  | haz o k =>
      cases op with
      | getattr q => exact not_borra_consulta .getattr q c hb
      | readdir q => exact not_borra_consulta .readdir q c hb
      | _ => cases hs

/-- An answer is stored while the server says it, and a call returns when nobody
    owes a key: `CierraAlDia` for two threads, as a test. -/
def revisa (a : Accion Bool) (s : Red Nat Bool) : Bool :=
  match a with
  | .orden t => (s.hilos t).all fun h =>
      match h.guion with
      | .haz (.subirInfo tipoOp path payload) _ =>
          decide ((tipoOp = cacheGetattr ∧ path = unaRuta.bytes) ∧
            servidorUnico.responde s.servidor .getattr unaRuta = ⟨TipoPath.getattr.codigo, payload⟩)
      | _ => true
  | .vuelve _ => (s.hilos false).all Hilo.sinDeuda && (s.hilos true).all Hilo.sinDeuda
  | _ => true

theorem revisa_cierra {a : Accion Bool} {s : Red Nat Bool} (hr : revisa a s = true) :
    CierraAlDia servidorUnico a s := by
  cases a with
  | orden t =>
      refine ⟨?_, trivial⟩
      intro h tipoOp path payload k hh hg co q hclave
      simp only [revisa, hh, Option.all_some, hg] at hr
      obtain ⟨⟨rfl, rfl⟩, hresp⟩ := of_decide_eq_true hr
      obtain ⟨rfl, rfl⟩ := @clave_inj co .getattr q unaRuta hclave.symm
      exact Or.inl hresp
  | vuelve t =>
      refine ⟨trivial, ?_⟩
      rintro - q - - ⟨u, h, hh, hb⟩
      obtain ⟨hfalse, htrue⟩ := Bool.and_eq_true_iff.mp hr
      cases u with
      | false =>
          rw [hh] at hfalse
          exact Hilo.sinDeuda_no hfalse _ hb
      | true =>
          rw [hh] at htrue
          exact Hilo.sinDeuda_no htrue _ hb
  | _ => exact ⟨trivial, trivial⟩

/-- The orders of the two threads in turn. -/
def aTurnos (n : Nat) : List (Accion Bool) :=
  (List.replicate n [.orden false, .orden true]).flatten

/-- Thread `false` asks while thread `true` writes: the answer is stored before the
    server has the write, and dropped after it. -/
def escrituraCruzada : List (Accion Bool) :=
  .llama false (.getattr unaRuta) :: .llama true escribir :: (aTurnos 3 ++ .orden false ::
    .atiende false :: (List.replicate 5 (.orden false) ++ .atiende true ::
      List.replicate 5 (.orden true)))

/-- The orders of two questions that run at once. -/
def preguntasCruzadas : List (Accion Bool) :=
  aTurnos 3 ++ [.orden false, .orden true, .atiende true, .atiende false] ++ aTurnos 5

/-- Both calls return, and both threads ask. -/
def trasEscribir : List (Accion Bool) :=
  .vuelve true :: ([.vuelve false, .llama true (.getattr unaRuta)] ++
    .llama false (.getattr unaRuta) :: preguntasCruzadas)

/-- The two threads cross twice, and the second answer of thread `false` is the
    size written. -/
theorem tamano_al_dia_cruzado :
    ∃ payload, servidorUnico.responde 1 .getattr unaRuta = ⟨TipoPath.getattr.codigo, payload⟩
      ∧ Nipc.deserializarGetattr Nipc.fsc32 payload = some (.getattr 0o100444 1 1) := by
  have hv₁ : vistaTras escrituraCruzada true = some (1, some (escribir, some (.valor 1))) := by
    decide
  have hv : vistaTras (escrituraCruzada ++ trasEscribir) false = some (1, some (.getattr unaRuta,
      some (.atributos (.getattr 0o100444 1 1)))) := by decide
  have hrevisa : EnCadaPaso (Red.paso servidorUnico fun _ => 0) (fun a s => revisa a s = true)
      (escrituraCruzada ++ trasEscribir) { servidor := 0 } := by decide +kernel
  have hquieto : ∀ s₁ ∈ corrida (Red.paso servidorUnico fun _ => 0) escrituraCruzada
      { servidor := 0 }, EnCadaPaso (Red.paso servidorUnico fun _ => 0)
        (NoModifica servidorUnico unaRuta) trasEscribir s₁ := by decide
  obtain ⟨s₁, h₁, hs₁, -, hh₁, hop₁, -⟩ := vistaTras_casos hv₁
  obtain ⟨s, h, hs, hn, hh, -, hg⟩ := vistaTras_casos hv
  rw [corrida_append, hs₁, Option.bind_some] at hs
  have hcond : EnCadaPaso (Red.paso servidorUnico fun _ => 0) (CierraAlDia servidorUnico)
      (escrituraCruzada ++ trasEscribir) { servidor := 0 } :=
    EnCadaPaso.imp (P := fun _ => True) (fun _ _ _ hr => revisa_cierra hr)
      (fun _ _ _ _ _ _ => trivial) _ trivial hrevisa
  have hres := tamano_al_dia soloCambia_unico 0 hs₁ hs hcond hh₁ (hop₁ ▸ rfl) (hquieto s₁ hs₁)
    (by decide) hh hg
  rw [hn] at hres
  exact hres

/-- Thread `false` asks and has the answer, and thread `true` writes from beginning
    to end. -/
def lecturaLenta : List (Accion Bool) :=
  intercambio false (.getattr unaRuta) 4 4 ++ intercambio true escribir 3 5

/-- Thread `true` returns, thread `false` stores the old answer and returns, and
    thread `true` asks. -/
def preguntaDespues : List (Accion Bool) :=
  .vuelve true :: ([.orden false, .vuelve false] ++
    .llama true (.getattr unaRuta) :: [.orden true])

/-- The write has returned and nothing changes the file, but the size is the one
    of before. -/
theorem tamano_viejo :
    ∃ s₁ s h h', corrida (Red.paso servidorUnico fun _ => 0) lecturaLenta { servidor := 0 }
      = some s₁
      ∧ s₁.hilos true = some h ∧ h.op = escribir ∧ h.guion = .fin (.valor 1)
      ∧ corrida (Red.paso servidorUnico fun _ => 0) preguntaDespues s₁ = some s
      ∧ EnCadaPaso (Red.paso servidorUnico fun _ => 0) (NoModifica servidorUnico unaRuta)
          preguntaDespues s₁
      ∧ s.hilos true = some h' ∧ h'.op = .getattr unaRuta
      ∧ h'.guion = .fin (.atributos (.getattr 0o100444 1 0))
      ∧ ¬ ∃ payload, servidorUnico.responde s.servidor .getattr unaRuta
            = ⟨TipoPath.getattr.codigo, payload⟩
          ∧ Nipc.deserializarGetattr Nipc.fsc32 payload = some (.getattr 0o100444 1 0) := by
  have hv₁ : vistaTras lecturaLenta true = some (1, some (escribir, some (.valor 1))) := by decide
  have hv : vistaTras (lecturaLenta ++ preguntaDespues) true = some (1, some (.getattr unaRuta,
      some (.atributos (.getattr 0o100444 1 0)))) := by decide
  have hquieto : ∀ s₁ ∈ corrida (Red.paso servidorUnico fun _ => 0) lecturaLenta
      { servidor := 0 }, EnCadaPaso (Red.paso servidorUnico fun _ => 0)
        (NoModifica servidorUnico unaRuta) preguntaDespues s₁ := by decide
  obtain ⟨s₁, h₁, hs₁, -, hh₁, hop₁, hg₁⟩ := vistaTras_casos hv₁
  obtain ⟨s, h, hs, hn, hh, hop, hg⟩ := vistaTras_casos hv
  rw [corrida_append, hs₁] at hs
  refine ⟨s₁, s, h₁, h, hs₁, hh₁, hop₁, hg₁, hs, hquieto s₁ hs₁, hh, hop, hg, ?_⟩
  rintro ⟨payload, hresp, hdes⟩
  rw [hn, responde_unico, if_pos ⟨rfl, rfl⟩] at hresp
  obtain rfl := congrArg Trama.payload hresp
  revert hdes
  decide

end Fsc
