import Yanero.RcAsasProofs
import Yanero.RcConexionesProofs

/-! # Handles over whole runs

    What a step of one connection does to the handles of the others.
    `SinMover` asks of every section that it leave the slots of the
    outstanding handles in their places; in every run that keeps it each
    handle stays good from `item_allocate` to `store_info`. -/

namespace Rc

open Bucles Bytes Corridas

/-! ## The condition of a step -/

/-- A placement of `m` bytes under `key` leaves slot `pos` in its place. -/
def colocaLejos (cfg : Config) (e : Entorno) (t : TableInfo) (key : Clave) (m pos : Nat) : Prop :=
  ((micacheSearchElement t key).isSome = true → bajaLejos t key pos) ∧
    ∀ t' ∈ quitarPrevio t key,
      (cfg.esquema = .particionesDinamicas →
        EnCadaVuelta cfg e m (fun t p k _ => huecoLejos t p k pos) (fun t => barridoLejos t pos)
          (fun t k => bajaLejos t k pos) e.vueltas 0 t') ∧
      (cfg.esquema = .buddySystem →
        EnCadaVueltaBuddy e m (fun t i => mitadLejos t m i pos) (fun t => unionLejos t pos)
          (fun t k => bajaLejos t k pos) e.vueltas 0 t')

instance (cfg : Config) (e : Entorno) (t : TableInfo) (key : Clave) (m pos : Nat) :
    Decidable (colocaLejos cfg e t key m pos) :=
  inferInstanceAs (Decidable (_ ∧ ∀ t' ∈ quitarPrevio t key, (_ → _) ∧ (_ → _)))

/-- `item_release` of the handle `q` leaves slot `pos` in its place. -/
def sueltaLejos (t : TableInfo) (q pos : Nat) : Prop :=
  let it := (t.elements.getD q Particion.vacia).item
  it.stored = true ∨ bajaLejos t it.key pos

instance (t : TableInfo) (q pos : Nat) : Decidable (sueltaLejos t q pos) :=
  inferInstanceAs (Decidable (_ ∨ _))

/-- The slot a connection has been given and the bytes it asked for, between
    its two sections. -/
def Fase.lugar : Fase → Option (Nat × Nat)
  | .colocada _ pos n => some (pos, n)
  | _ => none

/-- The action of a connection in phase `f` leaves slot `pos` in its place. -/
def respeta (cfg : Config) (e : Entorno) (t : TableInfo) (pos : Nat) (accion : Accion)
    (f : Option Fase) : Prop :=
  match accion with
  | .colocar key m => f = some .libre → m ≤ cfg.blockSizeMax → colocaLejos cfg e t key m pos
  | .crear => ∀ x ∈ f, ∀ y ∈ x.lugar, creaLejos cfg t y.1 y.2 pos
  | .soltar => ∀ x ∈ f, ∀ q ∈ x.asa, sueltaLejos t q pos
  | .limpiar => f ≠ some .libre
  | .copiar _ | .guardar | .buscar _ | .usar | .borrar _ | .marcar => True

instance (cfg : Config) (e : Entorno) (t : TableInfo) (pos : Nat) (accion : Accion)
    (f : Option Fase) : Decidable (respeta cfg e t pos accion f) :=
  match accion with
  | .colocar key m => inferInstanceAs
      (Decidable (f = some .libre → m ≤ cfg.blockSizeMax → colocaLejos cfg e t key m pos))
  | .crear => inferInstanceAs
      (Decidable (∀ x ∈ f, ∀ y ∈ Fase.lugar x, creaLejos cfg t y.1 y.2 pos))
  | .soltar => inferInstanceAs (Decidable (∀ x ∈ f, ∀ q ∈ Fase.asa x, sueltaLejos t q pos))
  | .limpiar => inferInstanceAs (Decidable (f ≠ some .libre))
  | .copiar _ | .guardar | .buscar _ | .usar | .borrar _ | .marcar =>
      inferInstanceAs (Decidable True)

/-- The slot of a handle that waits for its `store_info`. -/
def Fase.pendiente : Fase → Option Nat
  | .asignada _ pos _ _ => some pos
  | _ => none

/-- The step leaves the slot of every other pending handle in its place. -/
def SinMover (cfg : Config) (x : Nat × Accion × Entorno) (s : Sistema) : Prop :=
  ∀ f ∈ s.ajenas x.1, ∀ pos ∈ f.pendiente,
    respeta cfg x.2.2 s.tabla pos x.2.1 s.fases[x.1]?

instance (cfg : Config) (x : Nat × Accion × Entorno) (s : Sistema) :
    Decidable (SinMover cfg x s) :=
  inferInstanceAs (Decidable (∀ f ∈ s.ajenas x.1, ∀ pos ∈ f.pendiente,
    respeta cfg x.2.2 s.tabla pos x.2.1 s.fases[x.1]?))

/-! ## Steps and runs -/

section Pasos

variable {cfg : Config} {e : Entorno} {t t' : TableInfo} {pos n a : Nat} {key : Clave}

/-- The removal before a SET keeps a handle away from its slot. -/
theorem quitarPrevio_asa {k : Clave} (h : Asa t.elements pos key n a)
    (hl : (micacheSearchElement t k).isSome = true → bajaLejos t k pos)
    (hr : quitarPrevio t k = some t') : Asa t'.elements pos key n a := by
  unfold quitarPrevio at hr
  cases hs : micacheSearchElement t k with
  | none =>
      rw [hs] at hr
      rw [← Option.some.inj hr]
      exact h
  | some q =>
      rw [hs] at hr
      exact micacheRemove_asa h (hl (by rw [hs]; rfl)) hr

/-- So does a placement. -/
theorem colocar_asa {k : Clave} {m i : Nat} (h : Asa t.elements pos key n a)
    (hl : colocaLejos cfg e t k m pos) (hr : colocar cfg e t k m = some (t', i)) :
    Asa t'.elements pos key n a := by
  obtain ⟨t₁, hq, hr⟩ := Option.bind_eq_some_iff.mp hr
  have h₁ := quitarPrevio_asa h hl.1 hq
  obtain ⟨hdin, hbud⟩ := hl.2 t₁ hq
  cases hesq : cfg.esquema with
  | particionesDinamicas =>
      simp only [hesq] at hr
      exact compactacion_asa _ _ h₁ (hdin hesq) hr
  | buddySystem =>
      simp only [hesq] at hr
      exact buddysystem_asa _ _ h₁ (hbud hesq) hr

/-- A placement keeps the size and answers a slot of the table. -/
theorem colocar_lt {k : Clave} {m i : Nat} (hr : colocar cfg e t k m = some (t', i)) :
    t'.tableMaxSize = t.tableMaxSize ∧ i < t.tableMaxSize := by
  obtain ⟨t₁, hq, hr⟩ := Option.bind_eq_some_iff.mp hr
  have h₁ : t₁.tableMaxSize = t.tableMaxSize := by
    rcases quitarPrevio_casos hq with ⟨rfl, -⟩ | hrem
    · rfl
    · exact micacheRemove_tableMaxSize hrem
  rw [← h₁]
  cases hesq : cfg.esquema with
  | particionesDinamicas =>
      simp only [hesq] at hr
      exact compactacion_lt _ _ hr
  | buddySystem =>
      simp only [hesq] at hr
      exact buddysystem_lt _ _ hr

/-- A release of a stored slot does nothing; any other is a removal. -/
theorem itemRelease_casos {q : Nat} (hr : itemRelease t q = some t') :
    ((t.elements.getD q Particion.vacia).item.stored = true ∧ t' = t)
      ∨ ((t.elements.getD q Particion.vacia).item.stored = false
        ∧ micacheRemove t (t.elements.getD q Particion.vacia).item.key = some t') := by
  unfold itemRelease at hr
  dsimp only at hr
  split at hr
  · rename_i hs
    exact Or.inl ⟨hs, (Option.some.inj hr).symm⟩
  · rename_i hs
    exact Or.inr ⟨by simpa using hs, hr⟩

/-- A release away from the slot keeps the handle. -/
theorem itemRelease_asa {q : Nat} (h : Asa t.elements pos key n a) (hl : sueltaLejos t q pos)
    (hr : itemRelease t q = some t') : Asa t'.elements pos key n a := by
  rcases itemRelease_casos hr with ⟨-, rfl⟩ | ⟨hs, hrem⟩
  · exact h
  · rcases hl with hst | hl
    · rw [hs] at hst
      exact nomatch hst
    · exact micacheRemove_asa h hl hrem

theorem itemRelease_tableMaxSize {q : Nat} (hr : itemRelease t q = some t') :
    t'.tableMaxSize = t.tableMaxSize := by
  rcases itemRelease_casos hr with ⟨-, rfl⟩ | ⟨-, hrem⟩
  · rfl
  · exact micacheRemove_tableMaxSize hrem

theorem micacheClean_tableMaxSize (t : TableInfo) :
    (micacheClean t).tableMaxSize = t.tableMaxSize := by
  simp [micacheClean, TableInfo.modificar, TableInfo.tableMaxSize]

variable {s s' : Sistema} {c : Nat} {accion : Accion}

/-- A step keeps the size of the table. -/
theorem Paso.tableMaxSize (h : Paso cfg c e s accion s') :
    s'.tabla.tableMaxSize = s.tabla.tableMaxSize := by
  cases h with
  | nada | copiar | buscar | borrar => rfl
  | colocar _ _ ht => exact (colocar_lt ht).1
  | crear => exact crear_tableMaxSize
  | guardar | marcar => exact modificar_tableMaxSize _ _ _
  | soltar _ _ ht => exact itemRelease_tableMaxSize ht
  | usar _ ht =>
      rcases ht with rfl | rfl
      · exact modificar_tableMaxSize _ _ _
      · rfl
  | limpiar => exact micacheClean_tableMaxSize _

/-- **STEP**: an action that respects slot `pos` keeps the handle on it. -/
theorem Paso.asa (h : Paso cfg c e s accion s') (ha : Asa s.tabla.elements pos key n a)
    (hl : respeta cfg e s.tabla pos accion s.fases[c]?) :
    Asa s'.tabla.elements pos key n a := by
  cases h with
  | nada | copiar | buscar | borrar => exact ha
  | colocar hf hn ht =>
      exact colocar_asa ha (hl hf hn) ht
  | crear hf =>
      exact crear_asa ha (hl _ hf _ rfl)
  | guardar | marcar => exact ha.modify (Or.inr (ignora_stored _))
  | soltar hf hp ht =>
      exact itemRelease_asa ha (hl _ hf _ hp) ht
  | usar _ ht =>
      rcases ht with rfl | rfl
      · exact lruGet_asa ha
      · exact ha
  | limpiar hf => exact absurd hf hl

/-- Every placed slot is in the table and every pending handle is good. -/
structure AsasBien (s : Sistema) : Prop where
  colocadas : ∀ key pos n, Fase.colocada key pos n ∈ s.fases → pos < s.tabla.tableMaxSize
  asignadas : ∀ key pos n a, Fase.asignada key pos n a ∈ s.fases →
    Asa s.tabla.elements pos key n a

/-- The phase connection `c` moves to: a slot it gets is in the table, a handle
    it gets or keeps is good. -/
theorem Paso.propia (h : Paso cfg c e s accion s') (hb : AsasBien s) :
    ∃ f, (∀ f' ∈ s'.fases, f' = f ∨ f' ∈ s.ajenas c)
      ∧ (∀ key pos n, f = .colocada key pos n → pos < s.tabla.tableMaxSize)
      ∧ (∀ key pos n a, f = .asignada key pos n a → Asa s'.tabla.elements pos key n a) := by
  cases h with
  | nada hf => exact ⟨_, fun _ => mem_fases hf, nofun, nofun⟩
  | colocar _ _ ht =>
      refine ⟨_, fun _ => mem_set_fase, ?_, nofun⟩
      rintro _ _ _ ⟨⟩
      exact (colocar_lt ht).2
  | crear hf =>
      refine ⟨_, fun _ => mem_set_fase, nofun, ?_⟩
      rintro _ _ _ _ ⟨⟩
      have hlt := hb.colocadas _ _ _ (List.mem_of_getElem? hf)
      obtain ⟨a, ha⟩ : ∃ a, Asa (Rc.crear cfg e s.tabla _ _ _).elements _ _ _ a :=
        crear_propia hlt
      rw [(ha.getD _).2]
      exact ha
  | copiar hf =>
      refine ⟨_, fun _ => mem_fases hf, nofun, ?_⟩
      rintro _ _ _ _ ⟨⟩
      exact hb.asignadas _ _ _ _ (List.mem_of_getElem? hf)
  | limpiar hf => exact ⟨_, fun _ => mem_fases hf, nofun, nofun⟩
  | guardar | soltar | buscar | usar | borrar | marcar =>
      exact ⟨_, fun _ => mem_set_fase, nofun, nofun⟩

/-- **ONE STEP** of any connection keeps the handles of all. -/
theorem AsasBien.paso {x : Nat × Accion × Entorno} (hb : AsasBien s) (hl : SinMover cfg x s)
    (h : paso cfg x s = some s') : AsasBien s' := by
  obtain ⟨c, accion, e⟩ := x
  replace h := paso_casos h
  obtain ⟨f, hfases, hcol, hasig⟩ := h.propia hb
  constructor
  · intro key pos n hm
    rw [h.tableMaxSize]
    rcases hfases _ hm with hf | hm'
    · exact hcol key pos n hf.symm
    · exact hb.colocadas key pos n (List.mem_of_mem_eraseIdx hm')
  · intro key pos n a hm
    rcases hfases _ hm with hf | hm'
    · exact hasig key pos n a hf.symm
    · exact h.asa (hb.asignadas key pos n a (List.mem_of_mem_eraseIdx hm')) (hl _ hm' pos rfl)

/-- At the start nobody has one. -/
theorem sistemaInicial_asasBien (m : Nat) : AsasBien (sistemaInicial cfg m) := by
  constructor
  · intro key pos n h
    exact nomatch List.eq_of_mem_replicate h
  · intro key pos n a h
    exact nomatch List.eq_of_mem_replicate h

end Pasos

/-- What a pending handle is good for: its slot is the one it was given, the
    value copied through it lands at that address, and `store_info` marks that
    slot and no other. -/
structure AsaFirme (t : TableInfo) (key : Clave) (pos n a : Nat) : Prop where
  slot : Asa t.elements pos key n a
  copia : ∀ valor, (copiarValor t pos valor).memoria = escribir t.memoria a valor
  marca : ∃ s, (storeInfo t pos).elements[pos]? = some s ∧ s.ocupado = true ∧ s.item.key = key
    ∧ s.item.stored = true
  otras : ∀ q ≠ pos, (storeInfo t pos).elements[q]? = t.elements[q]?

theorem Asa.firme {t : TableInfo} {key : Clave} {pos n a : Nat}
    (h : Asa t.elements pos key n a) : AsaFirme t key pos n a := by
  refine ⟨h, fun valor => ?_, ?_, fun q hq => getElem?_modify_otra _ _ hq.symm⟩
  · rw [copiarValor, (h.getD _).2]
  · obtain ⟨s, hs, ho, hk, -⟩ := h
    refine ⟨{ s with item := { s.item with stored := true } }, ?_, ho, hk, rfl⟩
    show (t.elements.modify pos _)[pos]? = _
    rw [List.getElem?_modify, hs]
    simp

/-- **HANDLES ARE STABLE** in every run with keys that fit their cells whose
    sections leave the slots of the others in their places: a handle that
    waits for `store_info` points at the slot `item_allocate` gave it, under
    its key as the area holds it, its length and its address. -/
theorem asas_firmes {cfg : Config} {m : Nat} {claves : Nat → UInt8}
    {acciones : List (Nat × Accion × Entorno)} {s : SistemaPlano}
    (hx : ∀ x ∈ acciones, PasoCorto x)
    (hcond : EnCadaPaso (pasoPlano cfg) (fun x s => SinMover cfg x s.actual) acciones
      (sistemaPlanoInicial cfg m claves))
    (hr : corrida (pasoPlano cfg) acciones (sistemaPlanoInicial cfg m claves) = some s) :
    ∀ (c : Nat) key pos n a, s.fases[c]? = some (.asignada key pos n a) →
      AsaFirme s.plana.actual key pos n a := by
  have hr' : corrida (paso cfg) acciones (sistemaInicial cfg m) = some s.actual := by
    rw [← corridaPlana_refina claves hx, hr, Option.map_some]
  have hb : AsasBien s.actual := corrida_invariante (P := AsasBien)
    (fun _ _ _ hb hl h => hb.paso hl h) acciones (sistemaInicial_asasBien m)
    ((enCadaPasoPlano_iff claves hx).mp hcond) hr'
  intro c key pos n a hf
  exact (hb.asignadas key pos n a (List.mem_of_getElem? hf)).firme

/-- Ten bytes in chunks of two, dynamic partitions. -/
def cacheAsas : Config :=
  { esquema := .particionesDinamicas, algBusqueda := .firstFit, algReemplazo := .lru
    frecuenciaCompactacion := 0, blockSizeMax := 10, chunkSize := 2, ptrdata := 100 }

/-- Surroundings with nothing past the table. -/
def entornoAsas : Entorno :=
  { fuera := fun _ => Particion.vacia, antes := fun _ => Particion.vacia
    relojLru := fun n => 10 + n, relojGet := 5, vueltas := 20 }

theorem antesCorta_asas : AntesCorta entornoAsas := fun _ h => nomatch h

/-- The steps of a complete SET. -/
def setCompleto (c : Nat) (key : Clave) (valor : List UInt8) : List (Nat × Accion × Entorno) :=
  [.colocar key valor.length, .crear, .copiar valor, .guardar, .soltar].map
    fun accion => (c, accion, entornoAsas)

/-- Connection 0 allocates after a SET of connection 1, which then sets another
    key and reads the first one. -/
def intercalada : List (Nat × Accion × Entorno) :=
  setCompleto 1 [1] [7, 7, 7, 7] ++ [(0, .colocar [2] 2, entornoAsas), (0, .crear, entornoAsas)] ++
    setCompleto 1 [3] [8, 8] ++ [(1, .buscar [1], entornoAsas), (1, .usar, entornoAsas),
      (1, .soltar, entornoAsas)]

theorem intercalada_corta : ∀ x ∈ intercalada, PasoCorto x := by
  simp [intercalada, setCompleto, PasoCorto, Accion.Corta, antesCorta_asas]

/-- Two connections whose steps interleave, the handle of the first one open. -/
theorem asas_firmes_intercalada : ∃ s,
    corrida (pasoPlano cacheAsas) intercalada (sistemaPlanoInicial cacheAsas 2 fun _ => 0) = some s
      ∧ s.fases[0]? = some (.asignada [2] 1 2 104) ∧ AsaFirme s.plana.actual [2] 1 2 104 := by
  have hfase : (corrida (paso cacheAsas) intercalada (sistemaInicial cacheAsas 2)).map
      (fun s => s.fases[0]?) = some (some (.asignada [2] 1 2 104)) := by decide
  obtain ⟨s, hs, hf⟩ := Option.map_eq_some_iff.mp hfase
  obtain ⟨p, hp, rfl⟩ := corridaPlana_de (fun _ => 0) intercalada_corta hs
  exact ⟨p, hp, hf, asas_firmes intercalada_corta
    ((enCadaPasoPlano_iff _ intercalada_corta).mpr (by decide)) hp 0 [2] 1 2 104 hf⟩

/-- Connection 1 deletes the key before the slot of connection 0 and puts a
    shorter item in its place, which shifts that slot. -/
def corrimiento : List (Nat × Accion × Entorno) :=
  setCompleto 1 [1] [7, 7, 7, 7] ++ [(0, .colocar [2] 2, entornoAsas), (0, .crear, entornoAsas)] ++
    [(1, .borrar [1], entornoAsas), (1, .marcar, entornoAsas), (1, .soltar, entornoAsas)] ++
    setCompleto 1 [3] [8, 8]

instance (es : List Particion) (pos : Nat) (key : Clave) (n a : Nat) :
    Decidable (Asa es pos key n a) :=
  inferInstanceAs (Decidable (∃ s ∈ es[pos]?, s.ocupado = true ∧ s.item.key = key
    ∧ s.item.ndata = n ∧ s.item.data = a))

/-- Without that condition a handle is lost: connection 0 still holds slot 1,
    which is now a free slot elsewhere. -/
theorem asas_firmes_falla : ∃ s,
    corrida (pasoPlano cacheAsas) corrimiento (sistemaPlanoInicial cacheAsas 2 fun _ => 0) = some s
      ∧ s.fases[0]? = some (.asignada [2] 1 2 104)
      ∧ ¬ Asa s.plana.actual.elements 1 [2] 2 104 := by
  have h : (corrida (paso cacheAsas) corrimiento (sistemaInicial cacheAsas 2)).map
      (fun s => (s.fases[0]?, decide (Asa s.tabla.elements 1 [2] 2 104)))
      = some (some (.asignada [2] 1 2 104), false) := by decide
  obtain ⟨s, hs, heq⟩ := Option.map_eq_some_iff.mp h
  obtain ⟨hf, ha⟩ := Prod.mk.inj heq
  have hcorto : ∀ x ∈ corrimiento, PasoCorto x := by
    simp [corrimiento, setCompleto, PasoCorto, Accion.Corta, antesCorta_asas]
  obtain ⟨p, hp, rfl⟩ := corridaPlana_de (fun _ => 0) hcorto hs
  exact ⟨p, hp, hf, of_decide_eq_false ha⟩

end Rc
