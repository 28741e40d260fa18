import Yanero.FscRed
import Yanero.RfsSepararProofs

/-! # The client's cache follows the server

    An operation that may have changed an answer drops the key of that answer
    before it returns (`programa_cuida`), whatever the order of the others.  So
    a cached answer is what the server would say now, or some operation is still
    to drop it (`Red.Fresca`), as long as no thread stores an answer that has
    grown old (`RellenoAlDia`).  One client on its own never does
    (`cliente_coherente`); two threads can (`tamano_viejo`). -/

namespace Fsc

open Guiones Corridas Bloques

/-! ## Keys that are still to be dropped -/

/-- A program that is to drop key `c` after the answer `r`: the phase says
    whether it has. -/
def Borra (c : Clave) (r : Trama) : Protocolo Orden Orden.Rta Resultado Bool where
  permite f o := f = true ∨
    match o with
    | .enviar _ _ => False
    | .liberarSinAsignar _ => False
    | .indefinido => False
    | _ => True
  posible _ o x :=
    match o, x with
    | .obtenerSocket, x => x = (0 : Nat)
    | .recvHeader _, x => x = (r.tipo, r.payload.length)
    | .recvPayload _ n, x => x = r.payload.take n
    | _, _ => True
  sigue f o _ := f ||
    match o with
    | .borrarClave tipoOp path => decide (cacheArmarClave tipoOp path = c)
    | _ => false
  acaba f _ := f = true

/-- Once the key is gone nothing more is asked. -/
theorem borra_hecho (c : Clave) (r : Trama) : ∀ g : Programa, g.Cumple (Borra c r) true := by
  intro g
  induction g with
  | fin a => rfl
  | haz o k ih => exact ⟨Or.inl rfl, fun x _ => ih x⟩

/-- The keys of the answers an operation may have changed. -/
def Operacion.borra (op : Operacion) (c : Clave) : Prop :=
  ∃ co q, op.alcanza co q ∧ c = Consulta.clave co q

/-- The operation that asks for an answer. -/
def Consulta.op : Consulta → Ruta → Operacion
  | .getattr, q => .getattr q
  | .readdir, q => .readdir q

/-- Before the answer: with a successful one, every key the operation has to
    drop is dropped. -/
def Espera (op : Operacion) (g : Programa) : Prop :=
  ∀ c, op.borra c → (∃ sock k, g = .haz (.recvHeader sock) k) ∧
    ∀ r, op.pedido.Exito r → g.Cumple (Borra c r) false

/-- What the orders of an operation are: it sends its own request, and only the
    two cached operations look anything up or store it, under their own key. -/
def Cuida (op : Operacion) : (o : Orden) → (o.Rta → Programa) → Prop
  | .enviar _ p, k => p = op.pedido ∧ Espera op (k ())
  | .bajarInfo tipoOp path, _ =>
      ∃ co q, op = Consulta.op co q ∧ cacheArmarClave tipoOp path = co.clave q
  | .subirInfo tipoOp path _, _ =>
      ∃ co q, op = Consulta.op co q ∧ cacheArmarClave tipoOp path = co.clave q
  | _, _ => True

section Programas

variable {op : Operacion} {basura : Nat → UInt8} {p : Pedido} {error : Resultado}
  {exito : List UInt8 → Programa} {sigue : Nat → Programa} {g : Programa} {sock : Nat}

theorem cuida_definido {β : Type} {x : Option β} {sigue : β → Programa}
    (h : ∀ b, x = some b → (sigue b).Siempre (Cuida op)) :
    (definido x sigue).Siempre (Cuida op) := by
  cases x with
  | none => exact ⟨trivial, fun r => Empty.elim r⟩
  | some b => exact h b rfl

theorem cuida_soltarSocket (h : g.Siempre (Cuida op)) :
    (soltarSocket sock g).Siempre (Cuida op) :=
  ⟨trivial, fun _ => ⟨trivial, fun _ => h⟩⟩

theorem cuida_pedirA (hp : p = op.pedido)
    (hespera : ∀ b, p.paquete basura = some b → ∀ sock, Espera op (sigue sock))
    (h : ∀ b, p.paquete basura = some b → ∀ sock, (sigue sock).Siempre (Cuida op)) :
    (pedirA basura p sigue).Siempre (Cuida op) :=
  cuida_definido fun b hb =>
    ⟨trivial, fun _ => ⟨trivial, fun sock => ⟨⟨hp, hespera b hb sock⟩, fun _ => h b hb sock⟩⟩⟩

theorem cuida_recibir (h : ∀ paquete, (exito paquete).Siempre (Cuida op)) :
    (recibir p error exito sock).Siempre (Cuida op) := by
  refine ⟨trivial, fun (tipoRecv, tamanoPaq) => ?_⟩
  dsimp only
  split
  · exact cuida_soltarSocket trivial
  · exact ⟨trivial, fun paquete => cuida_soltarSocket (h paquete)⟩

theorem cuida_devolver (paquete : List UInt8) : (devolver paquete).Siempre (Cuida op) :=
  cuida_definido fun _ _ => trivial

/-- An operation that drops nothing waits for anything. -/
theorem espera_nada (h : ∀ co q, ¬ op.alcanza co q) : Espera op g := by
  rintro c ⟨co, q, ha, -⟩
  exact absurd ha (h co q)

/-- After a successful answer the program goes on with its payload. -/
theorem espera_recibir (hp : p = op.pedido)
    (h : ∀ r, p.Exito r → ∀ c, op.borra c → (exito r.payload).Cumple (Borra c r) false) :
    Espera op (recibir p error exito sock) := by
  intro c hc
  refine ⟨⟨sock, _, rfl⟩, fun r hr => ?_⟩
  rw [← hp] at hr
  refine ⟨Or.inr trivial, ?_⟩
  rintro _ rfl
  show Guion.Cumple _ _ (if r.tipo ≠ Nipc.tipoDe p then _ else _)
  rw [if_neg (not_not.mpr hr.1)]
  refine ⟨Or.inr trivial, ?_⟩
  rintro _ rfl
  refine ⟨Or.inr trivial, fun _ _ => ⟨Or.inr trivial, fun _ _ => ?_⟩⟩
  rw [List.take_length]
  exact h r hr c hc

end Programas

/-! ## Paths and packets -/

/-- `separarPathCliente` gives the directory of a path. -/
theorem separarPathCliente_padre (q : Ruta) (hlen : q.bytes.length < 65536) :
    ∃ nombreArch, separarPathCliente q.bytes = some (q.padre.bytes, nombreArch) := by
  rcases List.eq_nil_or_concat q.nombres with hnil | ⟨ns, n, hq⟩
  · have hb : q.bytes = [] ++ 47 :: [] := by rw [Ruta.bytes, if_pos hnil]; rfl
    have hp : q.padre.bytes = [47] := by simp [Ruta.bytes, Ruta.padre, hnil]
    rw [hp, hb]
    exact ⟨[], Rfs.separarPathCliente_corte (by simp) (by simp)⟩
  · rw [List.concat_eq_append] at hq
    have hn := q.bien n (by rw [hq]; simp)
    have hb : q.bytes = ns.flatMap (47 :: ·) ++ 47 :: n := by
      rw [Ruta.bytes, if_neg (by simp [hq]), hq]
      simp
    have hdir : q.padre.bytes = Rfs.dirDeCorte (ns.flatMap (47 :: ·)) := by
      have hdrop : q.padre.nombres = ns := by simp [Ruta.padre, hq]
      rw [Ruta.bytes, Rfs.dirDeCorte, hdrop]
      cases ns <;> simp
    rw [hdir]
    refine ⟨n, ?_⟩
    rw [hb] at hlen ⊢
    exact Rfs.separarPathCliente_corte hn.2.1 hlen

/-- The components of a path are the names it was built from. -/
theorem componentes_bytes (q : Ruta) : Rfs.componentes q.bytes = q.nombres := by
  have hnombres : ∀ ns : List (List UInt8), (∀ n ∈ ns, n ≠ [] ∧ 47 ∉ n ∧ 0 ∉ n) →
      Rfs.componentes (ns.flatMap (47 :: ·)) = ns := by
    intro ns
    induction ns using List.reverseRecOn with
    | nil => exact fun _ => rfl
    | append_singleton ns n ih =>
        intro h
        have hn := h n (by simp)
        rw [List.flatMap_append, show [n].flatMap (47 :: ·) = 47 :: n by simp,
          Rfs.componentes_barra, Rfs.componentes_nombre hn.2.1 hn.1,
          ih fun m hm => h m (List.mem_append_left _ hm)]
  unfold Ruta.bytes
  split
  · next h =>
    rw [h]
    rfl
  · exact hnombres q.nombres q.bien

theorem Ruta.bytes_inj {q q' : Ruta} (h : q.bytes = q'.bytes) : q = q' := by
  obtain ⟨ns, hns⟩ := q
  obtain ⟨ns', hns'⟩ := q'
  have heq := congrArg Rfs.componentes h
  rw [componentes_bytes, componentes_bytes] at heq
  obtain rfl : ns = ns' := heq
  rfl

/-- A path whose packet could be built is inside the 16 bits of its length. -/
theorem paquete_corto {basura : Nat → UInt8} {tipo : TipoPath} {path b : List UInt8}
    (h : (Pedido.soloPath tipo path).paquete basura = some b) : path.length < 65536 := by
  obtain ⟨payload, hpayload, -⟩ := Option.bind_eq_some_iff.mp h
  have hcabe : 0 + (path ++ [0]).length ≤ (malloc basura ((path.length + 1) % 65536)).length := by
    by_contra hno
    rw [poner, if_neg hno] at hpayload
    cases hpayload
  rw [length_malloc, List.length_append, List.length_singleton] at hcabe
  omega

/-- Four bytes are enough for a result. -/
theorem deserializarResultRta_some {paquete : List UInt8} (h : 4 ≤ paquete.length) :
    ∃ n, deserializarResultRta paquete = some n :=
  ⟨_, by rw [deserializarResultRta, sacar, if_pos (by omega)]; rfl⟩

/-! ## Every operation drops its keys -/

section Borrados

variable {basura : Nat → UInt8} {c : Clave} {r : Trama} {g : Programa}

/-- A key is dropped now or later. -/
theorem borra_borrarClave {tipoOp : UInt8} {path : List UInt8} {k : Unit → Programa}
    (h : cacheArmarClave tipoOp path = c ∨ (k ()).Cumple (Borra c r) false) :
    (Guion.haz (Orden.borrarClave tipoOp path) k : Programa).Cumple (Borra c r) false := by
  refine ⟨Or.inr trivial, fun _ _ => ?_⟩
  show Guion.Cumple _ (false || decide (cacheArmarClave tipoOp path = c)) _
  by_cases heq : cacheArmarClave tipoOp path = c
  · rw [decide_eq_true heq]
    exact borra_hecho c r _
  · rw [decide_eq_false heq]
    exact h.resolve_left heq

theorem borra_definido {β : Type} {x : Option β} {sigue : β → Programa} {b : β}
    (hx : x = some b) (h : (sigue b).Cumple (Borra c r) false) :
    (definido x sigue).Cumple (Borra c r) false := by
  rw [hx]
  exact h

/-- `borrarCacheDirectorios` drops both keys of the path and of its directory. -/
theorem borra_directorios {q q' : Ruta} {co : Consulta} (hlen : q.bytes.length < 65536)
    (hq : q' = q ∨ q' = q.padre) :
    (borrarCacheDirectorios q.bytes g).Cumple (Borra (co.clave q') r) false := by
  obtain ⟨nombreArch, hdir⟩ := separarPathCliente_padre q hlen
  rcases hq with rfl | rfl
  · cases co with
    | getattr => exact borra_borrarClave (Or.inl rfl)
    | readdir => exact borra_borrarClave (Or.inr (borra_borrarClave (Or.inl rfl)))
  · refine borra_borrarClave (Or.inr (borra_borrarClave (Or.inr (borra_definido hdir ?_))))
    cases co with
    | getattr => exact borra_borrarClave (Or.inl rfl)
    | readdir => exact borra_borrarClave (Or.inr (borra_borrarClave (Or.inl rfl)))

end Borrados

section Operaciones

variable {basura : Nat → UInt8}

/-- The four operations on entries. -/
theorem fscEntrada_cuida {op : Operacion} {tipo : TipoPath} {q : Ruta}
    (hp : op.pedido = .soloPath tipo q.bytes)
    (halcanza : ∀ co q', op.alcanza co q' → q' = q ∨ q' = q.padre) :
    (fscEntrada basura tipo q.bytes).Siempre (Cuida op) := by
  refine cuida_pedirA hp.symm (fun b hb sock => ?_) fun b hb sock => ?_
  · refine espera_recibir hp.symm fun r _ c hc => ?_
    obtain ⟨co, q', ha, rfl⟩ := hc
    exact borra_directorios (paquete_corto hb) (halcanza co q' ha)
  · refine cuida_recibir fun paquete => ⟨trivial, fun _ => ⟨trivial, fun _ => ?_⟩⟩
    exact cuida_definido fun _ _ =>
      ⟨trivial, fun _ => ⟨trivial, fun _ => cuida_devolver paquete⟩⟩

/-- The two cached operations. -/
theorem conCache_cuida (co : Consulta) {q : Ruta} {error : Int}
    {acierto exito : List UInt8 → Programa}
    (hacierto : ∀ paquete, (acierto paquete).Siempre (Cuida (co.op q)))
    (h : ∀ paquete, (exito paquete).Siempre (Cuida (co.op q))) :
    (conCache basura co.tipoOp co.tipo q.bytes error acierto exito).Siempre
      (Cuida (co.op q)) := by
  refine ⟨⟨co, q, rfl, rfl⟩, fun hallado => ?_⟩
  cases hallado with
  | some paquete => exact hacierto paquete
  | none =>
      refine cuida_pedirA (by cases co <;> rfl)
        (fun _ _ _ => espera_nada (by cases co <;> exact fun _ _ => id)) fun _ _ _ => ?_
      exact cuida_recibir fun paquete => ⟨⟨co, q, rfl, rfl⟩, fun _ => h paquete⟩

/-- **EVERY OPERATION** sends one request, its own; stores nothing but the answer
    to it under its key; and drops, after a successful answer, each key whose
    answer the request may have changed. -/
theorem programa_cuida (basura : Nat → UInt8) (op : Operacion) :
    (op.programa basura).Siempre (Cuida op) := by
  cases op with
  | getattr path =>
      have hstbuf : ∀ paquete, (llenarStbuf paquete).Siempre (Cuida (.getattr path)) :=
        fun _ => cuida_definido fun _ _ => trivial
      exact conCache_cuida .getattr hstbuf hstbuf
  | readdir path =>
      exact conCache_cuida .readdir
        (fun _ => cuida_definido fun _ _ => ⟨trivial, fun r => Empty.elim r⟩)
        fun _ => cuida_definido fun _ _ => trivial
  | opn path =>
      exact cuida_pedirA rfl (fun _ _ _ => espera_nada fun _ _ => id)
        fun _ _ _ => cuida_recibir cuida_devolver
  | release path =>
      exact cuida_pedirA rfl (fun _ _ _ => espera_nada fun _ _ => id)
        fun _ _ _ => cuida_soltarSocket trivial
  | read path size offset =>
      show Guion.Siempre _ (fscRead basura path.bytes size offset)
      unfold fscRead
      split
      · exact trivial
      · refine cuida_pedirA rfl (fun _ _ _ => espera_nada fun _ _ => id) fun _ _ _ => ?_
        refine ⟨trivial, fun (tipoRecv, tamanoPaq) => ?_⟩
        dsimp only
        split
        · exact cuida_soltarSocket trivial
        · split
          · exact cuida_soltarSocket trivial
          · exact ⟨trivial, fun _ => cuida_soltarSocket trivial⟩
  | write path buf size offset =>
      refine cuida_pedirA rfl (fun _ _ _ => ?_) fun _ _ _ => ?_
      · refine espera_recibir rfl fun r hr c hc => ?_
        obtain ⟨co, q, ⟨rfl, rfl⟩, rfl⟩ := hc
        obtain ⟨n, hn⟩ := deserializarResultRta_some hr.2
        exact borra_definido hn (borra_borrarClave (Or.inl rfl))
      · exact cuida_recibir fun _ => cuida_definido fun _ _ => ⟨trivial, fun _ => trivial⟩
  | truncate path offset =>
      refine cuida_pedirA rfl (fun _ _ _ => ?_) fun _ _ _ => ?_
      · refine espera_recibir rfl fun r hr c hc => ?_
        obtain ⟨co, q, ⟨rfl, rfl⟩, rfl⟩ := hc
        exact borra_borrarClave (Or.inl rfl)
      · exact cuida_recibir fun paquete => ⟨trivial, fun _ => cuida_devolver paquete⟩
  | create path => exact fscEntrada_cuida rfl fun _ _ => id
  | unlink path => exact fscEntrada_cuida rfl fun _ _ => id
  | rmdir path => exact fscEntrada_cuida rfl fun _ _ => id
  | mkdir path => exact fscEntrada_cuida rfl fun _ _ => id

end Operaciones

/-! ## One order -/

/-- The answer to an order of a thread. -/
def Contesta (cache : Clave → Option (List UInt8)) (h : Hilo) : (o : Orden) → o.Rta → Prop
  | .bajarInfo tipoOp path, x => x = cache (cacheArmarClave tipoOp path)
  | .obtenerSocket, x => x = (0 : Nat)
  | .recvHeader _, x => ∃ r, h.rta = some r ∧ x = (r.tipo, r.payload.length)
  | .recvPayload _ n, x => ∃ r, h.rta = some r ∧ x = r.payload.take n
  | .liberarSinAsignar _, _ => False
  | .indefinido, _ => False
  | _, _ => True

/-- What an order does to memcached. -/
def cacheTras (cache : Clave → Option (List UInt8)) : Orden → Clave → Option (List UInt8)
  | .subirInfo tipoOp path payload =>
      Function.update cache (cacheArmarClave tipoOp path) (some payload)
  | .borrarClave tipoOp path => Function.update cache (cacheArmarClave tipoOp path) none
  | _ => cache

/-- What an order does to the request and the answer of its thread. -/
def canalTras (h : Hilo) : Orden → Option Pedido × Option Trama
  | .enviar _ p => (some p, none)
  | _ => (h.pedido, h.rta)

/-- Everything one order does. -/
theorem ordenHilo_casos {cache cache' : Clave → Option (List UInt8)} {h h' : Hilo}
    (hord : ordenHilo cache h = some (cache', h')) :
    ∃ o k x, h.guion = .haz o k ∧ Contesta cache h o x ∧ cache' = cacheTras cache o
      ∧ h' = { h with guion := k x, pedido := (canalTras h o).1, rta := (canalTras h o).2 } := by
  obtain ⟨op, guion, pedido, rta⟩ := h
  cases guion with
  | fin a => cases hord
  | haz o k =>
      cases o with
      | recvHeader sock =>
          obtain ⟨r, rfl, hr⟩ := Option.map_eq_some_iff.mp hord
          cases hr
          exact ⟨_, k, _, rfl, ⟨r, rfl, rfl⟩, rfl, rfl⟩
      | recvPayload sock n =>
          obtain ⟨r, rfl, hr⟩ := Option.bind_eq_some_iff.mp hord
          split at hr
          · cases hr
            exact ⟨_, k, _, rfl, ⟨r, rfl, rfl⟩, rfl, rfl⟩
          · cases hr
      | liberarSinAsignar entregados => cases hord
      | indefinido => cases hord
      | bajarInfo tipoOp path =>
          cases hord
          exact ⟨_, k, _, rfl, rfl, rfl, rfl⟩
      | subirInfo tipoOp path payload =>
          cases hord
          exact ⟨_, k, _, rfl, trivial, rfl, rfl⟩
      | borrarClave tipoOp path =>
          cases hord
          exact ⟨_, k, _, rfl, trivial, rfl, rfl⟩
      | semWait =>
          cases hord
          exact ⟨_, k, _, rfl, trivial, rfl, rfl⟩
      | semPost =>
          cases hord
          exact ⟨_, k, _, rfl, trivial, rfl, rfl⟩
      | obtenerSocket =>
          cases hord
          exact ⟨_, k, _, rfl, rfl, rfl, rfl⟩
      | habilitarSocket sock =>
          cases hord
          exact ⟨_, k, _, rfl, trivial, rfl, rfl⟩
      | enviar sock p =>
          cases hord
          exact ⟨_, k, _, rfl, trivial, rfl, rfl⟩

/-- The server's turn. -/
theorem atenderHilo_casos {σ : Type} {srv : Servidor σ} {servidor servidor' : σ} {h h' : Hilo}
    (hat : atenderHilo srv servidor h = some (servidor', h')) :
    ∃ p, h.pedido = some p ∧ h.rta = none ∧ servidor' = (srv.atender p servidor).1
      ∧ h' = { h with rta := some (srv.atender p servidor).2 } := by
  obtain ⟨op, guion, pedido, rta⟩ := h
  cases pedido with
  | none => cases hat
  | some p =>
      cases rta with
      | some r => cases hat
      | none =>
          simp only [atenderHilo] at hat
          split at hat
          · cases hat
            exact ⟨p, rfl, rfl, rfl, rfl⟩
          · cases hat

/-! ## The invariant -/

/-- A thread inside an operation. -/
structure HiloBien (h : Hilo) : Prop where
  cuida : h.guion.Siempre (Cuida h.op)
  pedido : ∀ p, h.pedido = some p → p = h.op.pedido ∧ (h.rta = none → Espera h.op h.guion)

/-- The thread is to drop key `c`, whose answer its request has changed. -/
def Hilo.PorBorrar (h : Hilo) (c : Clave) : Prop :=
  h.op.borra c ∧ ∃ r, h.rta = some r ∧ h.op.pedido.Exito r ∧ h.guion.Cumple (Borra c r) false

/-- Some thread is to drop key `c`. -/
def Red.PorBorrar {σ T : Type} (s : Red σ T) (c : Clave) : Prop :=
  ∃ t h, s.hilos t = some h ∧ h.PorBorrar c

/-- The bytes are those of the answer the server would give now. -/
def Red.Vigente {σ T : Type} (srv : Servidor σ) (s : Red σ T) (co : Consulta) (q : Ruta)
    (payload : List UInt8) : Prop :=
  srv.responde s.servidor co q = ⟨co.tipo.codigo, payload⟩

/-- A cached answer holds now, or it is to be dropped. -/
def Red.Fresca {σ T : Type} (srv : Servidor σ) (s : Red σ T) : Prop :=
  ∀ co q payload, s.cache (Consulta.clave co q) = some payload →
    s.Vigente srv co q payload ∨ s.PorBorrar (co.clave q)

/-- The invariant of the threads and of memcached. -/
structure Coherente {σ T : Type} (srv : Servidor σ) (s : Red σ T) : Prop where
  hilos : ∀ t h, s.hilos t = some h → HiloBien h
  fresca : s.Fresca srv

/-- A thread that stores an answer stores what the server would say now, unless
    the key is to be dropped anyway. -/
def GuardaAlDia {σ T : Type} (srv : Servidor σ) (a : Accion T) (s : Red σ T) : Prop :=
  match a with
  | .orden t => ∀ h tipoOp path payload k, s.hilos t = some h →
      h.guion = .haz (.subirInfo tipoOp path payload) k →
      ∀ co q, cacheArmarClave tipoOp path = Consulta.clave co q →
        s.Vigente srv co q payload ∨ s.PorBorrar (co.clave q)
  | _ => True

section Hilos

variable {h : Hilo} {o : Orden} {k : o.Rta → Programa} {x : o.Rta}
  {cache : Clave → Option (List UInt8)} {c : Clave}

/-- The thread after an order. -/
def Hilo.tras (h : Hilo) (o : Orden) (guion : Programa) : Hilo :=
  { h with guion := guion, pedido := (canalTras h o).1, rta := (canalTras h o).2 }

/-- The request goes out with everything in place for its answer. -/
theorem HiloBien.orden (hb : HiloBien h) (hg : h.guion = .haz o k) (hx : Contesta cache h o x) :
    HiloBien (h.tras o (k x)) := by
  have hc : (Guion.haz o k : Programa).Siempre (Cuida h.op) := hg ▸ hb.cuida
  refine ⟨hc.sigue x, fun p hp => ?_⟩
  -- a thread that waits with keys to drop cannot go on before the answer
  have hquieto : ∀ p, h.pedido = some p →
      p = h.op.pedido ∧ (h.rta = none → Espera h.op (k x)) := by
    intro p hp
    refine ⟨(hb.pedido p hp).1, fun hrta c hcb => ?_⟩
    obtain ⟨⟨sock, k', hr⟩, -⟩ := (hb.pedido p hp).2 hrta c hcb
    rw [hg] at hr
    obtain ⟨rfl, -⟩ := Guion.haz.inj hr
    obtain ⟨r, hsome, -⟩ := hx
    rw [hrta] at hsome
    cases hsome
  cases o with
  | enviar sock p' =>
      obtain rfl := Option.some.inj hp
      exact ⟨hc.orden.1, fun _ => hc.orden.2⟩
  | bajarInfo _ _ => exact hquieto p hp
  | subirInfo _ _ _ => exact hquieto p hp
  | borrarClave _ _ => exact hquieto p hp
  | semWait => exact hquieto p hp
  | semPost => exact hquieto p hp
  | obtenerSocket => exact hquieto p hp
  | habilitarSocket _ => exact hquieto p hp
  | recvHeader _ => exact hquieto p hp
  | recvPayload _ _ => exact hquieto p hp
  | liberarSinAsignar _ => exact hquieto p hp
  | indefinido => exact hquieto p hp

/-- A key is still to be dropped after an order that leaves it. -/
theorem Hilo.PorBorrar.orden (hb : h.PorBorrar c) (hg : h.guion = .haz o k)
    (hx : Contesta cache h o x) {payload : List UInt8}
    (hqueda : cacheTras cache o c = some payload) :
    (h.tras o (k x)).PorBorrar c := by
  obtain ⟨hc, r, hr, hex, hcum⟩ := hb
  rw [hg] at hcum
  cases o with
  | enviar _ _ => exact absurd hcum.permite (by rintro (hno | hno) <;> cases hno)
  | liberarSinAsignar _ => exact hx.elim
  | indefinido => exact hx.elim
  | recvHeader _ =>
      obtain ⟨r', hr', rfl⟩ := hx
      obtain rfl := Option.some.inj (hr.symm.trans hr')
      exact ⟨hc, r, hr, hex, hcum.sigue rfl⟩
  | recvPayload _ _ =>
      obtain ⟨r', hr', rfl⟩ := hx
      obtain rfl := Option.some.inj (hr.symm.trans hr')
      exact ⟨hc, r, hr, hex, hcum.sigue rfl⟩
  | borrarClave tipoOp path =>
      have hne : cacheArmarClave tipoOp path ≠ c := by
        rintro rfl
        simp [cacheTras] at hqueda
      have hsig := hcum.sigue (r := x) trivial
      rw [show (Borra c r).sigue false (.borrarClave tipoOp path) x = false from
        decide_eq_false hne] at hsig
      exact ⟨hc, r, hr, hex, hsig⟩
  | bajarInfo _ _ => exact ⟨hc, r, hr, hex, hcum.sigue trivial⟩
  | subirInfo _ _ _ => exact ⟨hc, r, hr, hex, hcum.sigue trivial⟩
  | semWait => exact ⟨hc, r, hr, hex, hcum.sigue trivial⟩
  | semPost => exact ⟨hc, r, hr, hex, hcum.sigue trivial⟩
  | obtenerSocket => exact ⟨hc, r, hr, hex, hcum.sigue hx⟩
  | habilitarSocket _ => exact ⟨hc, r, hr, hex, hcum.sigue trivial⟩

/-- A question drops nothing. -/
theorem not_borra_consulta (co : Consulta) (q : Ruta) (c : Clave) : ¬ (co.op q).borra c := by
  rintro ⟨co', q', ha, -⟩
  cases co <;> exact ha

/-- No order makes a thread start to owe a key. -/
theorem Hilo.PorBorrar.antes (hb : HiloBien h) (hg : h.guion = .haz o k)
    (hx : Contesta cache h o x) (hc : (h.tras o (k x)).PorBorrar c) : h.PorBorrar c := by
  obtain ⟨hc, r, hr, hex, hcum⟩ := hc
  have hcuida : (Guion.haz o k : Programa).Siempre (Cuida h.op) := hg ▸ hb.cuida
  suffices hsuf : h.rta = some r ∧ (Guion.haz o k : Programa).Cumple (Borra c r) false from
    ⟨hc, r, hsuf.1, hex, hg ▸ hsuf.2⟩
  have hr : (canalTras h o).2 = some r := hr
  have hcum : (k x).Cumple (Borra c r) false := hcum
  cases o with
  | enviar _ _ => cases hr
  | liberarSinAsignar _ => exact hx.elim
  | indefinido => exact hx.elim
  | bajarInfo _ _ =>
      obtain ⟨co, q, hop, -⟩ := hcuida.orden
      have hc : h.op.borra c := hc
      rw [hop] at hc
      exact absurd hc (not_borra_consulta co q c)
  | subirInfo _ _ _ => exact ⟨hr, Or.inr trivial, fun _ _ => hcum⟩
  | borrarClave _ _ => exact ⟨hr, borra_borrarClave (Or.inr hcum)⟩
  | obtenerSocket =>
      refine ⟨hr, Or.inr trivial, fun y hy => ?_⟩
      rw [show y = x from Eq.trans hy (Eq.symm hx)]
      exact hcum
  | recvHeader _ =>
      obtain ⟨r', hr', rfl⟩ := hx
      obtain rfl := Option.some.inj (hr.symm.trans hr')
      refine ⟨hr, Or.inr trivial, ?_⟩
      rintro y rfl
      exact hcum
  | recvPayload _ _ =>
      obtain ⟨r', hr', rfl⟩ := hx
      obtain rfl := Option.some.inj (hr.symm.trans hr')
      refine ⟨hr, Or.inr trivial, ?_⟩
      rintro y rfl
      exact hcum
  | semWait => exact ⟨hr, Or.inr trivial, fun _ _ => hcum⟩
  | semPost => exact ⟨hr, Or.inr trivial, fun _ _ => hcum⟩
  | habilitarSocket _ => exact ⟨hr, Or.inr trivial, fun _ _ => hcum⟩

end Hilos

section Pasos

variable {σ T : Type} [DecidableEq T] {srv : Servidor σ} {basura : Nat → UInt8} {s s' : Red σ T}
  {t u : T} {a : Accion T} {h h' : Hilo} {c : Clave}

@[simp] theorem con_mismo (s : Red σ T) (t : T) (x : Option Hilo) : (s.con t x).hilos t = x := by
  simp [Red.con]

theorem con_otro (s : Red σ T) (x : Option Hilo) (hu : u ≠ t) :
    (s.con t x).hilos u = s.hilos u := by
  simp [Red.con, hu]

/-- A thread of the new state is the changed one or one of before. -/
theorem con_casos {x : Option Hilo} (hh : (s.con t x).hilos u = some h) :
    (u = t ∧ x = some h) ∨ (u ≠ t ∧ s.hilos u = some h) := by
  by_cases hu : u = t
  · subst hu
    exact Or.inl ⟨rfl, (con_mismo s u x).symm.trans hh⟩
  · exact Or.inr ⟨hu, (con_otro s x hu).symm.trans hh⟩

/-- What one action does. -/
theorem paso_casos (hp : Red.paso srv basura a s = some s') :
    (∃ t op, a = .llama t op ∧ s.hilos t = none
      ∧ s' = s.con t (some { op := op, guion := op.programa basura }))
    ∨ (∃ t h o k x, a = .orden t ∧ s.hilos t = some h ∧ h.guion = .haz o k
      ∧ Contesta s.cache h o x
      ∧ s' = ({ s with cache := cacheTras s.cache o } : Red σ T).con t (some (h.tras o (k x))))
    ∨ (∃ t h p, a = .atiende t ∧ s.hilos t = some h ∧ h.pedido = some p ∧ h.rta = none
      ∧ s' = ({ s with servidor := (srv.atender p s.servidor).1 } : Red σ T).con t
          (some { h with rta := some (srv.atender p s.servidor).2 }))
    ∨ (∃ t h r, a = .vuelve t ∧ s.hilos t = some h ∧ h.guion = .fin r ∧ s' = s.con t none)
    ∨ ∃ c, a = .pierde c ∧ s' = { s with cache := Function.update s.cache c none } := by
  cases a with
  | llama t op =>
      simp only [Red.paso] at hp
      split at hp
      · next hn => exact Or.inl ⟨t, op, rfl, hn, (Option.some.inj hp).symm⟩
      · cases hp
  | orden t =>
      obtain ⟨h, hh, hp⟩ := Option.bind_eq_some_iff.mp hp
      obtain ⟨⟨cache, h'⟩, hord, hp⟩ := Option.bind_eq_some_iff.mp hp
      obtain ⟨o, k, x, hg, hx, rfl, rfl⟩ := ordenHilo_casos hord
      exact Or.inr (Or.inl ⟨t, h, o, k, x, rfl, hh, hg, hx, (Option.some.inj hp).symm⟩)
  | atiende t =>
      obtain ⟨h, hh, hp⟩ := Option.bind_eq_some_iff.mp hp
      obtain ⟨⟨servidor, h'⟩, hat, hp⟩ := Option.bind_eq_some_iff.mp hp
      obtain ⟨p, hpe, hr, rfl, rfl⟩ := atenderHilo_casos hat
      exact Or.inr (Or.inr (Or.inl ⟨t, h, p, rfl, hh, hpe, hr, (Option.some.inj hp).symm⟩))
  | vuelve t =>
      simp only [Red.paso] at hp
      split at hp
      · next hh =>
          exact Or.inr (Or.inr (Or.inr (Or.inl
            ⟨t, _, _, rfl, hh, rfl, (Option.some.inj hp).symm⟩)))
      · cases hp
  | pierde c =>
      exact Or.inr (Or.inr (Or.inr (Or.inr ⟨c, rfl, (Option.some.inj hp).symm⟩)))

/-- A key to be dropped stays so when its thread still has to. -/
theorem Red.PorBorrar.con {x : Option Hilo} (hb : s.PorBorrar c)
    (ht : ∀ h, s.hilos t = some h → h.PorBorrar c → ∃ h', x = some h' ∧ h'.PorBorrar c) :
    (s.con t x).PorBorrar c := by
  obtain ⟨u, h, hh, hc⟩ := hb
  by_cases hu : u = t
  · subst hu
    obtain ⟨h', rfl, hc'⟩ := ht h hh hc
    exact ⟨u, h', con_mismo s u (some h'), hc'⟩
  · exact ⟨u, h, (con_otro s x hu).trans hh, hc⟩

/-- The threads stay in order when the changed one is. -/
theorem hilos_con {x : Option Hilo} (hs : ∀ t h, s.hilos t = some h → HiloBien h)
    (hx : ∀ h, x = some h → HiloBien h) :
    ∀ u h, (s.con t x).hilos u = some h → HiloBien h := by
  intro u h hh
  rcases con_casos hh with ⟨-, hx'⟩ | ⟨-, hu⟩
  · exact hx h hx'
  · exact hs u h hu

theorem Coherente.llama {op : Operacion} (hc : Coherente srv s) (hn : s.hilos t = none) :
    Coherente srv (s.con t (some { op := op, guion := op.programa basura })) where
  hilos := by
    refine hilos_con hc.hilos fun h hh => ?_
    obtain rfl := Option.some.inj hh
    exact ⟨programa_cuida basura op, fun p hp => by cases hp⟩
  fresca := by
    intro co q payload hpay
    refine (hc.fresca co q payload hpay).imp id fun hb => hb.con fun h hh _ => ?_
    rw [hn] at hh
    cases hh

theorem Coherente.orden {o : Orden} {k : o.Rta → Programa} {x : o.Rta} (hc : Coherente srv s)
    (hh : s.hilos t = some h) (hg : h.guion = .haz o k) (hx : Contesta s.cache h o x)
    (hguarda : GuardaAlDia srv (.orden t) s) :
    Coherente srv
      (({ s with cache := cacheTras s.cache o } : Red σ T).con t (some (h.tras o (k x)))) where
  hilos := by
    refine hilos_con (s := { s with cache := cacheTras s.cache o }) hc.hilos fun h' hh' => ?_
    obtain rfl := Option.some.inj hh'
    exact (hc.hilos t h hh).orden hg hx
  fresca := by
    intro co q payload hpay
    have hpay : cacheTras s.cache o (co.clave q) = some payload := hpay
    have hdespues : s.PorBorrar (co.clave q) →
        Red.PorBorrar (({ s with cache := cacheTras s.cache o } : Red σ T).con t
          (some (h.tras o (k x)))) (co.clave q) := by
      intro hb
      refine Red.PorBorrar.con (s := { s with cache := cacheTras s.cache o })
        hb fun h₀ hh₀ hb₀ => ?_
      obtain rfl := Option.some.inj (hh.symm.trans hh₀)
      exact ⟨_, rfl, hb₀.orden hg hx hpay⟩
    have hvieja : s.cache (co.clave q) = some payload →
        s.Vigente srv co q payload ∨ s.PorBorrar (co.clave q) := hc.fresca co q payload
    cases o with
    | subirInfo tipoOp path payload' =>
        by_cases heq : co.clave q = cacheArmarClave tipoOp path
        · rw [cacheTras, heq, Function.update_self] at hpay
          obtain rfl := Option.some.inj hpay
          exact (hguarda h tipoOp path payload' k hh hg co q heq.symm).imp id hdespues
        · rw [cacheTras, Function.update_of_ne heq] at hpay
          exact (hvieja hpay).imp id hdespues
    | borrarClave tipoOp path =>
        by_cases heq : co.clave q = cacheArmarClave tipoOp path
        · rw [cacheTras, heq, Function.update_self] at hpay
          cases hpay
        · rw [cacheTras, Function.update_of_ne heq] at hpay
          exact (hvieja hpay).imp id hdespues
    | bajarInfo _ _ => exact (hvieja hpay).imp id hdespues
    | semWait => exact (hvieja hpay).imp id hdespues
    | semPost => exact (hvieja hpay).imp id hdespues
    | obtenerSocket => exact (hvieja hpay).imp id hdespues
    | habilitarSocket _ => exact (hvieja hpay).imp id hdespues
    | enviar _ _ => exact (hvieja hpay).imp id hdespues
    | recvHeader _ => exact (hvieja hpay).imp id hdespues
    | recvPayload _ _ => exact (hvieja hpay).imp id hdespues
    | liberarSinAsignar _ => exact hx.elim
    | indefinido => exact hx.elim

/-- What the server changed is now to be dropped. -/
theorem Coherente.atiende {p : Pedido} (hsrv : SoloCambia srv) (hc : Coherente srv s)
    (hh : s.hilos t = some h) (hp : h.pedido = some p) (hr : h.rta = none) :
    Coherente srv
      (({ s with servidor := (srv.atender p s.servidor).1 } : Red σ T).con t
        (some { h with rta := some (srv.atender p s.servidor).2 })) := by
  obtain ⟨rfl, hesp⟩ := (hc.hilos t h hh).pedido p hp
  constructor
  · refine hilos_con (s := { s with servidor := _ }) hc.hilos fun h' hh' => ?_
    obtain rfl := Option.some.inj hh'
    exact ⟨(hc.hilos t h hh).cuida, fun p' hp' =>
      ⟨((hc.hilos t h hh).pedido p' hp').1, fun hno => by cases hno⟩⟩
  · intro co q payload hpay
    have hpay : s.cache (co.clave q) = some payload := hpay
    -- an answer the request leaves alone stays as it was
    have hlejos : srv.responde (srv.atender h.op.pedido s.servidor).1 co q
        = srv.responde s.servidor co q →
        (s.Vigente srv co q payload → Red.Vigente srv
          (({ s with servidor := (srv.atender h.op.pedido s.servidor).1 } : Red σ T).con t
            (some { h with rta := some (srv.atender h.op.pedido s.servidor).2 })) co q payload) :=
      fun heq hv => heq.trans hv
    have hdespues : s.PorBorrar (co.clave q) → Red.PorBorrar
        (({ s with servidor := (srv.atender h.op.pedido s.servidor).1 } : Red σ T).con t
          (some { h with rta := some (srv.atender h.op.pedido s.servidor).2 })) (co.clave q) := by
      intro hb
      refine Red.PorBorrar.con (s := { s with servidor := _ }) hb fun h₀ hh₀ hb₀ => ?_
      obtain rfl := Option.some.inj (hh.symm.trans hh₀)
      obtain ⟨-, r, hr₀, -, -⟩ := hb₀
      rw [hr] at hr₀
      cases hr₀
    by_cases herr : (srv.atender h.op.pedido s.servidor).2.tipo = Nipc.tipoDe h.op.pedido
    · by_cases ha : h.op.alcanza co q
      · have hex := srv.formato _ _ herr
        have hcum := (hesp hr (co.clave q) ⟨co, q, ha, rfl⟩).2 _ hex
        exact Or.inr ⟨t, _, con_mismo _ t _, ⟨co, q, ha, rfl⟩, _, rfl, hex, hcum⟩
      · exact (hc.fresca co q payload hpay).imp (hlejos (hsrv.lejos _ _ _ _ ha)) hdespues
    · exact (hc.fresca co q payload hpay).imp (hlejos (hsrv.error _ _ _ _ herr)) hdespues

theorem Coherente.vuelve {r : Resultado} (hc : Coherente srv s) (hh : s.hilos t = some h)
    (hg : h.guion = .fin r) : Coherente srv (s.con t none) where
  hilos := hilos_con hc.hilos fun h' hh' => by cases hh'
  fresca := by
    intro co q payload hpay
    refine (hc.fresca co q payload hpay).imp id fun hb => hb.con fun h₀ hh₀ hb₀ => ?_
    obtain rfl := Option.some.inj (hh.symm.trans hh₀)
    obtain ⟨-, r, -, -, hcum⟩ := hb₀
    rw [hg] at hcum
    cases hcum

omit [DecidableEq T] in
theorem Coherente.pierde (hc : Coherente srv s) (c : Clave) :
    Coherente srv { s with cache := Function.update s.cache c none } where
  hilos := hc.hilos
  fresca := by
    intro co q payload hpay
    have hpay : Function.update s.cache c none (co.clave q) = some payload := hpay
    by_cases heq : co.clave q = c
    · rw [heq, Function.update_self] at hpay
      cases hpay
    · rw [Function.update_of_ne heq] at hpay
      exact hc.fresca co q payload hpay

/-- **ONE ACTION** keeps the invariant. -/
theorem Coherente.paso (hsrv : SoloCambia srv) (hc : Coherente srv s)
    (hguarda : GuardaAlDia srv a s) (hp : Red.paso srv basura a s = some s') :
    Coherente srv s' := by
  rcases paso_casos hp with ⟨t, op, rfl, hn, rfl⟩ | ⟨t, h, o, k, x, rfl, hh, hg, hx, rfl⟩
    | ⟨t, h, p, rfl, hh, hpe, hr, rfl⟩ | ⟨t, h, r, rfl, hh, hg, rfl⟩ | ⟨c, rfl, rfl⟩
  · exact hc.llama hn
  · exact hc.orden hh hg hx hguarda
  · exact hc.atiende hsrv hh hpe hr
  · exact hc.vuelve hh hg
  · exact hc.pierde c

omit [DecidableEq T] in
theorem Coherente.inicial (servidor : σ) : Coherente srv ({ servidor := servidor } : Red σ T) where
  hilos := fun _ _ hh => by cases hh
  fresca := fun _ _ _ hpay => by cases hpay

end Pasos

end Fsc
