import Yanero.RcCuidadoProofs
import Yanero.RcViejosProofs
import Yanero.RcDesalojoProofs

/-! # Which keys are asked to be removed

    `micache_remove_element` has no answer for a key that is not there: its
    `pos` is then never assigned.  It is called from four places:
    `item_allocate` on a stored key, `lru` on its victim, and `item_release`,
    by its own connection or inside `delete_one`, on a slot that is not
    stored.  This file lists the calls of each step of a run, and follows the
    slot of every outstanding handle next to a record of the item it was
    obtained for.

    A run is safe as long as every step is careful (`Cuidado`): it leaves the
    slots the other connections refer to in their places, or empties them by a
    flush once they are stored; a placement finds its hole at the first search
    or starts with enough stored items that its clock readings can evict; and
    no key is created, read or deleted while two occupied slots hold it. -/

namespace Rc

open Bucles Corridas

/-! ## The calls of a step -/

/-- A call of `micache_remove_element`: on a key the caller has, or on the one
    the scan of `lru` has left at clock reading `ahora`. -/
inductive PedidoBaja where
  | clave (t : TableInfo) (key : Clave)
  | desalojo (t : TableInfo) (ahora : Nat)

/-- The table a call works on. -/
def PedidoBaja.tabla : PedidoBaja → TableInfo
  | .clave t _ => t
  | .desalojo t _ => t

/-- The key of a call; `none` when `lru` has assigned none. -/
def PedidoBaja.key : PedidoBaja → Option Clave
  | .clave _ key => some key
  | .desalojo t ahora => victima ahora t

/-- The calls the placement loop of the dynamic scheme makes. -/
def pedidosCompactacion (cfg : Config) (e : Entorno) (nbytesData : Nat) :
    Nat → Nat → TableInfo → List PedidoBaja
  | 0, _, _ => []
  | vueltas + 1, fallidas, self =>
      if (buscarLugar cfg.algBusqueda self nbytesData).isSome then []
      else if ((fallidas + 1 : Nat) : Int) ≠ cfg.frecuenciaCompactacion
          ∧ self.elementsAmount ≠ 0 then
        .desalojo self (e.relojLru (fallidas + 1)) ::
          (reemplazar (e.relojLru (fallidas + 1)) self).elim []
            (pedidosCompactacion cfg e nbytesData vueltas (fallidas + 1))
      else
        (barrer e.fuera e.vueltas 0 self).elim []
          (pedidosCompactacion cfg e nbytesData vueltas (fallidas + 1))

/-- The calls the placement loop of the buddy scheme makes. -/
def pedidosBuddy (e : Entorno) (nbytesData : Nat) : Nat → Nat → TableInfo → List PedidoBaja
  | 0, _, _ => []
  | vueltas + 1, n, self =>
      match buscarHueco e self nbytesData, unirTodasLasHermanas e.fuera e.vueltas self with
      | some none, some self =>
          match buscarHueco e self nbytesData with
          | some none =>
              if self.elementsAmount ≠ 0 then
                .desalojo self (e.relojLru n) ::
                  (reemplazar (e.relojLru n) self).elim []
                    (pedidosBuddy e nbytesData vueltas (n + 1))
              else pedidosBuddy e nbytesData vueltas (n + 1) self
          | _ => []
      | _, _ => []

/-- The calls of the placement section of `item_allocate`. -/
def pedidosColocar (cfg : Config) (e : Entorno) (self : TableInfo) (key : Clave)
    (nbytes : Nat) : List PedidoBaja :=
  (if (micacheSearchElement self key).isSome then [.clave self key] else []) ++
    (quitarPrevio self key).elim [] fun self =>
      match cfg.esquema with
      | .particionesDinamicas => pedidosCompactacion cfg e nbytes e.vueltas 0 self
      | .buddySystem => pedidosBuddy e nbytes e.vueltas 0 self

/-- The call of `item_release` on the handle `pos`. -/
def pedidosSoltar (self : TableInfo) (pos : Nat) : List PedidoBaja :=
  let it := (self.elements.getD pos Particion.vacia).item
  if it.stored then [] else [.clave self it.key]

/-- The calls of a step, whether it returns or not. -/
def pedidos (cfg : Config) (x : Nat × Accion × Entorno) (s : Sistema) : List PedidoBaja :=
  let (c, accion, e) := x
  match accion, s.fases[c]? with
  | .colocar key n, some .libre =>
      if cfg.blockSizeMax < n then [] else pedidosColocar cfg e s.tabla key n
  | .soltar, some f => f.asa.elim [] (pedidosSoltar s.tabla)
  | _, _ => []

/-- The call has a key, an occupied slot holds it, and the scan assigns
    `pos`. -/
def PedidoBaja.Atendible (p : PedidoBaja) : Prop :=
  ∃ key ∈ p.key, (∃ s ∈ p.tabla.elements, s.ocupado = true ∧ s.item.key = key)
    ∧ (ultimoIndice (coincide key) p.tabla.elements).isSome = true

instance (p : PedidoBaja) : Decidable p.Atendible :=
  inferInstanceAs (Decidable (∃ key ∈ p.key, (∃ s ∈ p.tabla.elements, s.ocupado = true
    ∧ s.item.key = key) ∧ (ultimoIndice (coincide key) p.tabla.elements).isSome = true))

/-! ## The handles and what they were obtained for -/

/-- The slot a connection refers to, from the moment it has found or created
    it. -/
def Fase.mira : Fase → Option Nat
  | .libre | .colocada _ _ _ => none
  | .asignada _ pos _ _ => some pos
  | .guardada pos | .hallada pos | .leida pos | .borrando pos | .marcada pos => some pos

/-- The system with a history variable: the item each connection obtained its
    slot for, as it was then. -/
structure Vigilado where
  sistema : Sistema
  obtenidos : Nat → Option CacheItem

/-- The item in the slot connection `c` refers to. -/
def Sistema.itemDe (s : Sistema) (c : Nat) : Option CacheItem :=
  ((s.fases[c]?).bind Fase.mira).map fun pos =>
    (s.tabla.elements.getD pos Particion.vacia).item

/-- A creation and a search of connection `c` that have led to `s` record the
    item. -/
def recordar (c : Nat) (accion : Accion) (s : Sistema) (obtenidos : Nat → Option CacheItem) :
    Nat → Option CacheItem :=
  match accion with
  | .crear | .buscar _ | .borrar _ => fun d => if d = c then s.itemDe c else obtenidos d
  | _ => obtenidos

/-- One step, with its record. -/
def pasoVigilado (cfg : Config) (x : Nat × Accion × Entorno) (v : Vigilado) : Option Vigilado :=
  (paso cfg x v.sistema).map fun s =>
    { sistema := s, obtenidos := recordar x.1 x.2.1 s v.obtenidos }

/-- `m` connections over a fresh cache. -/
def vigiladoInicial (cfg : Config) (m : Nat) : Vigilado :=
  { sistema := sistemaInicial cfg m, obtenidos := fun _ => none }

/-- `item_release` of connection `c` frees nothing, or its own slot: the one
    it refers to, not stored, with the item it was obtained for. -/
def SueltaLaSuya (c : Nat) (accion : Accion) (v : Vigilado) : Prop :=
  accion = .soltar → ∀ f ∈ v.sistema.fases[c]?, ∀ pos ∈ f.asa,
    let it := (v.sistema.tabla.elements.getD pos Particion.vacia).item
    it.stored = false → ultimoIndice (coincide it.key) v.sistema.tabla.elements = some pos
      ∧ ∃ it' ∈ v.obtenidos c, it.key = it'.key ∧ it.ndata = it'.ndata ∧ it.data = it'.data

/-- What a step owes: every key it asks to remove is there, and a release
    frees its own slot only. -/
def BajaSegura (cfg : Config) (x : Nat × Accion × Entorno) (v : Vigilado) : Prop :=
  (∀ p ∈ pedidos cfg x v.sistema, p.Atendible) ∧ SueltaLaSuya x.1 x.2.1 v

instance (c : Nat) (accion : Accion) (v : Vigilado) : Decidable (SueltaLaSuya c accion v) :=
  match accion with
  | .soltar => decidable_of_iff
      (∀ f ∈ v.sistema.fases[c]?, ∀ pos ∈ Fase.asa f,
        (v.sistema.tabla.elements.getD pos Particion.vacia).item.stored = false →
          ultimoIndice (coincide (v.sistema.tabla.elements.getD pos Particion.vacia).item.key)
              v.sistema.tabla.elements = some pos
            ∧ ∃ it' ∈ v.obtenidos c,
              (v.sistema.tabla.elements.getD pos Particion.vacia).item.key = it'.key
              ∧ (v.sistema.tabla.elements.getD pos Particion.vacia).item.ndata = it'.ndata
              ∧ (v.sistema.tabla.elements.getD pos Particion.vacia).item.data = it'.data)
      ⟨fun h _ => h, fun h => h rfl⟩
  | .colocar _ _ | .crear | .copiar _ | .guardar | .buscar _ | .usar | .borrar _ | .marcar
  | .limpiar => isTrue nofun

instance (cfg : Config) (x : Nat × Accion × Entorno) (v : Vigilado) :
    Decidable (BajaSegura cfg x v) :=
  inferInstanceAs (Decidable (_ ∧ _))

/-! ## The condition of a step -/

/-- A phase from which a connection neither stores nor marks its item. -/
def Fase.pasiva : Fase → Bool
  | .guardada _ | .hallada _ | .leida _ => true
  | .libre | .colocada _ _ _ | .asignada _ _ _ _ | .borrando _ | .marcada _ => false

/-- The action of a connection in phase `f` leaves slot `pos`, to which another
    one refers in phase `g`, in its place; a flush may empty it once it is
    stored, and a slot that is empty only has to stay so. -/
def cuida (cfg : Config) (e : Entorno) (t : TableInfo) (pos : Nat) (g : Fase) (accion : Accion)
    (f : Option Fase) : Prop :=
  let s := t.elements.getD pos Particion.vacia
  match accion with
  | .colocar key m => f = some .libre → m ≤ cfg.blockSizeMax →
      if s.ocupado then colocaLejos cfg e t key m pos ∧ colocaAparte cfg e t key m pos
      else colocaEnseguida cfg t key m pos
  | .limpiar => f = some .libre → s.ocupado = true → g.pasiva = true ∧ s.item.stored = true
  | .soltar => s.ocupado = true → respeta cfg e t pos .soltar f
  | .crear => respeta cfg e t pos .crear f
  | .copiar _ | .guardar | .buscar _ | .usar | .borrar _ | .marcar => True

instance (cfg : Config) (e : Entorno) (t : TableInfo) (pos : Nat) (g : Fase) (accion : Accion)
    (f : Option Fase) : Decidable (cuida cfg e t pos g accion f) :=
  match accion with
  | .colocar key m => inferInstanceAs (Decidable (f = some .libre → m ≤ cfg.blockSizeMax →
      if (t.elements.getD pos Particion.vacia).ocupado then
        colocaLejos cfg e t key m pos ∧ colocaAparte cfg e t key m pos
      else colocaEnseguida cfg t key m pos))
  | .limpiar => inferInstanceAs (Decidable (f = some .libre →
      (t.elements.getD pos Particion.vacia).ocupado = true →
        g.pasiva = true ∧ (t.elements.getD pos Particion.vacia).item.stored = true))
  | .soltar => inferInstanceAs (Decidable ((t.elements.getD pos Particion.vacia).ocupado = true →
      respeta cfg e t pos .soltar f))
  | .crear => inferInstanceAs (Decidable (respeta cfg e t pos .crear f))
  | .copiar _ | .guardar | .buscar _ | .usar | .borrar _ | .marcar =>
      inferInstanceAs (Decidable True)

/-- The first search of a placement of `m` bytes under `key` finds a hole. -/
def hayLugar (cfg : Config) (t : TableInfo) (key : Clave) (m : Nat) : Prop :=
  ∀ t' ∈ quitarPrevio t key, match cfg.esquema with
    | .particionesDinamicas => (hueco cfg.algBusqueda t' m).isSome = true
    | .buddySystem => (huecoBuddy t' m).isSome = true

instance (cfg : Config) (t : TableInfo) (key : Clave) (m : Nat) :
    Decidable (hayLugar cfg t key m) :=
  have : ∀ t' : TableInfo, Decidable (match cfg.esquema with
      | .particionesDinamicas => (hueco cfg.algBusqueda t' m).isSome = true
      | .buddySystem => (huecoBuddy t' m).isSome = true) := fun t' =>
    match cfg.esquema with
    | .particionesDinamicas =>
        inferInstanceAs (Decidable ((hueco cfg.algBusqueda t' m).isSome = true))
    | .buddySystem => inferInstanceAs (Decidable ((huecoBuddy t' m).isSome = true))
  inferInstanceAs (Decidable (∀ t' ∈ quitarPrevio t key, _))

/-- A placement finds a hole at once, or the items `lru` can choose at every
    clock reading of the call cover the amount of elements. -/
def alcanza (cfg : Config) (e : Entorno) (t : TableInfo) (accion : Accion) (f : Option Fase) :
    Prop :=
  match accion with
  | .colocar key m => f = some .libre → m ≤ cfg.blockSizeMax → hayLugar cfg t key m ∨
      (Cubierta e t ∧ Direccionada t
        ∧ ((micacheSearchElement t key).isSome = true → t.elementsAmount ≠ 0))
  | _ => True

instance (cfg : Config) (e : Entorno) (t : TableInfo) (accion : Accion) (f : Option Fase) :
    Decidable (alcanza cfg e t accion f) :=
  match accion with
  | .colocar key m => inferInstanceAs (Decidable (f = some .libre → m ≤ cfg.blockSizeMax →
      hayLugar cfg t key m ∨ (Cubierta e t ∧ Direccionada t
        ∧ ((micacheSearchElement t key).isSome = true → t.elementsAmount ≠ 0))))
  | .crear | .copiar _ | .guardar | .soltar | .buscar _ | .usar | .borrar _ | .marcar | .limpiar =>
      inferInstanceAs (Decidable True)

/-- No other occupied slot holds the key of a creation, and no two hold that of
    a search. -/
def claveSola (t : TableInfo) (accion : Accion) (f : Option Fase) : Prop :=
  match accion with
  | .crear => ∀ g ∈ f, match g with
      | .colocada key pos _ => ∀ s ∈ t.elements.eraseIdx pos, coincide key s = false
      | _ => True
  | .buscar key | .borrar key => f = some .libre → t.elements.countP (coincide key) ≤ 1
  | _ => True

instance (t : TableInfo) (accion : Accion) (f : Option Fase) :
    Decidable (claveSola t accion f) :=
  have : ∀ g : Fase, Decidable (match g with
      | .colocada key pos _ => ∀ s ∈ t.elements.eraseIdx pos, coincide key s = false
      | _ => True) := fun g =>
    match g with
    | .colocada key pos _ =>
        inferInstanceAs (Decidable (∀ s ∈ t.elements.eraseIdx pos, coincide key s = false))
    | .libre | .asignada _ _ _ _ | .guardada _ | .hallada _ | .leida _ | .borrando _
    | .marcada _ => inferInstanceAs (Decidable True)
  match accion with
  | .crear => inferInstanceAs (Decidable (∀ g ∈ f, _))
  | .buscar key | .borrar key =>
      inferInstanceAs (Decidable (f = some .libre → t.elements.countP (coincide key) ≤ 1))
  | .colocar _ _ | .copiar _ | .guardar | .soltar | .usar | .marcar | .limpiar =>
      inferInstanceAs (Decidable True)

/-- The condition of a step, on the state before it. -/
structure Cuidado (cfg : Config) (x : Nat × Accion × Entorno) (s : Sistema) : Prop where
  ajenas : ∀ g ∈ s.ajenas x.1, ∀ pos ∈ g.mira,
    cuida cfg x.2.2 s.tabla pos g x.2.1 s.fases[x.1]?
  alcanza : alcanza cfg x.2.2 s.tabla x.2.1 s.fases[x.1]?
  sola : claveSola s.tabla x.2.1 s.fases[x.1]?

instance (cfg : Config) (x : Nat × Accion × Entorno) (s : Sistema) :
    Decidable (Cuidado cfg x s) :=
  decidable_of_iff
    ((∀ g ∈ s.ajenas x.1, ∀ pos ∈ g.mira, cuida cfg x.2.2 s.tabla pos g x.2.1 s.fases[x.1]?)
      ∧ Rc.alcanza cfg x.2.2 s.tabla x.2.1 s.fases[x.1]?
      ∧ claveSola s.tabla x.2.1 s.fases[x.1]?)
    ⟨fun ⟨h₁, h₂, h₃⟩ => ⟨h₁, h₂, h₃⟩, fun ⟨h₁, h₂, h₃⟩ => ⟨h₁, h₂, h₃⟩⟩

/-! ## A call that is answered -/

section Pedidos

variable {cfg : Config} {e : Entorno} {t : TableInfo} {key : Clave} {p : PedidoBaja}

theorem mem_elim {α : Type} {o : Option α} {f : α → List PedidoBaja} (h : p ∈ o.elim [] f) :
    ∃ x, o = some x ∧ p ∈ f x := by
  cases o with
  | none => cases h
  | some x => exact ⟨x, rfl, h⟩

theorem atendible_of_slot {s : Particion} (hk : key ∈ p.key) (hs : s ∈ p.tabla.elements)
    (ho : s.ocupado = true) (hkey : s.item.key = key) : p.Atendible := by
  refine ⟨key, hk, ⟨s, hs, ho, hkey⟩, ?_⟩
  cases h : ultimoIndice (coincide key) p.tabla.elements with
  | some _ => rfl
  | none =>
      have := ultimoIndice_eq_none.mp h s hs
      simp [coincide, ho, hkey] at this

/-- A slot that a search finds is occupied. -/
theorem micacheSearchElement_some {pos : Nat} (h : micacheSearchElement t key = some pos) :
    ∃ s, t.elements[pos]? = some s ∧ s.ocupado = true ∧ s.item.key = key := by
  obtain ⟨A, s, B, hes, rfl, hs, -⟩ := findIdx?_parte h
  simp only [coincideStored, Bool.and_eq_true, beq_iff_eq] at hs
  exact ⟨s, by rw [hes]; simp, hs.1.1, hs.2⟩

/-- **THE VICTIM** of `lru` holds its key, as soon as one stored item is older
    than the clock reading. -/
theorem atendible_desalojo {ahora : Nat} (h : ∃ s ∈ t.elements, s.ocupado = true
    ∧ s.item.stored = true ∧ s.ultimaVezUsada < ahora) :
    (PedidoBaja.desalojo t ahora).Atendible := by
  obtain ⟨u, hu, huo, hus, hlt⟩ := h
  obtain ⟨-, hmin, hcase⟩ := foldl_masViejo t.elements ahora none
  rcases hcase with hno | ⟨s, hs, ho, -, heq⟩
  · have := hmin u hu huo hus
    rw [hno] at this
    exact absurd hlt (Nat.not_lt.mpr this)
  · have hv : victima ahora t = some s.item.key := by rw [victima, heq]
    exact atendible_of_slot hv hs ho rfl

/-- The calls of the dynamic loop, from a table whose amount is covered. -/
theorem atendible_compactacion {m : Nat} : ∀ (vueltas fallidas : Nat) {t : TableInfo},
    Cubierta e t → Direccionada t → vueltas + fallidas = e.vueltas →
      p ∈ pedidosCompactacion cfg e m vueltas fallidas t → p.Atendible := by
  intro vueltas
  induction vueltas with
  | zero => intro _ _ _ _ _ h; cases h
  | succ v ih =>
      intro fallidas t hcub hdir hv h
      have hbarrer : p ∈ (barrer e.fuera e.vueltas 0 t).elim []
          (pedidosCompactacion cfg e m v (fallidas + 1)) → p.Atendible := by
        intro h
        obtain ⟨t', ht', h⟩ := mem_elim h
        exact ih _ (hcub.barrer hdir ht') (barrer_viejos (e := e) hdir ht').1 (by omega) h
      rw [pedidosCompactacion] at h
      split at h
      · cases h
      · split at h
        · rename_i hcond
          rcases List.mem_cons.mp h with rfl | h
          · exact atendible_desalojo (hcub.hay hcond.2 (by omega))
          · obtain ⟨t', ht', h⟩ := mem_elim h
            exact ih _ (hcub.reemplazar hcond.2 ht') (hdir.reemplazar ht') (by omega) h
        · exact hbarrer h

/-- The calls of the buddy loop, from a table whose amount is covered. -/
theorem atendible_buddy {m : Nat} : ∀ (vueltas n : Nat) {t : TableInfo},
    Cubierta e t → vueltas + n = e.vueltas → p ∈ pedidosBuddy e m vueltas n t →
      p.Atendible := by
  intro vueltas
  induction vueltas with
  | zero => intro _ _ _ _ h; cases h
  | succ v ih =>
      intro n t hcub hv h
      rw [pedidosBuddy] at h
      split at h
      · rename_i t₁ _ hunir
        have hcub₁ := hcub.unir hunir
        split at h
        · split at h
          · rename_i hcant
            rcases List.mem_cons.mp h with rfl | h
            · exact atendible_desalojo (hcub₁.hay hcant (by omega))
            · obtain ⟨t', ht', h⟩ := mem_elim h
              exact ih _ (hcub₁.reemplazar hcant ht') (by omega) h
          · exact ih _ hcub₁ (by omega) h
        · cases h
      · cases h

/-- The drop of an older item of the key. -/
theorem cubierta_quitarPrevio {t' : TableInfo} (hcub : Cubierta e t) (hdir : Direccionada t)
    (hcant : (micacheSearchElement t key).isSome = true → t.elementsAmount ≠ 0)
    (hq : quitarPrevio t key = some t') : Cubierta e t' ∧ Direccionada t' := by
  unfold quitarPrevio at hq
  cases hs : micacheSearchElement t key with
  | none =>
      rw [hs] at hq
      obtain rfl := Option.some.inj hq
      exact ⟨hcub, hdir⟩
  | some pos =>
      rw [hs] at hq
      exact ⟨hcub.remove (hcant (by rw [hs]; rfl)) hq, hdir.remove hq⟩

/-- A placement that finds its hole at once calls nothing from its loop. -/
theorem sinPedidos_hayLugar {m : Nat} {t' : TableInfo} (h : hayLugar cfg t key m)
    (hq : quitarPrevio t key = some t') : (match cfg.esquema with
      | .particionesDinamicas => pedidosCompactacion cfg e m e.vueltas 0 t'
      | .buddySystem => pedidosBuddy e m e.vueltas 0 t') = [] := by
  have ht' := h t' hq
  cases hesq : cfg.esquema with
  | particionesDinamicas =>
      simp only [hesq] at ht'
      show pedidosCompactacion cfg e m e.vueltas 0 t' = []
      cases e.vueltas with
      | zero => rfl
      | succ v =>
          rw [pedidosCompactacion, buscarLugar_hueco, Option.isSome_map, ht']
          rfl
  | buddySystem =>
      simp only [hesq] at ht'
      obtain ⟨i, hi⟩ := Option.isSome_iff_exists.mp ht'
      show pedidosBuddy e m e.vueltas 0 t' = []
      have hno : buscarHueco e t' m ≠ some none := by
        intro hb
        rw [buscarHueco_none hb] at hi
        cases hi
      cases e.vueltas with
      | zero => rfl
      | succ v =>
          rw [pedidosBuddy]
          split
          · rename_i hb _
            exact absurd hb hno
          · rfl

/-- **THE CALLS OF A PLACEMENT** are answered. -/
theorem atendible_colocar {m : Nat} (hal : hayLugar cfg t key m ∨
    (Cubierta e t ∧ Direccionada t
      ∧ ((micacheSearchElement t key).isSome = true → t.elementsAmount ≠ 0)))
    (hp : p ∈ pedidosColocar cfg e t key m) : p.Atendible := by
  rcases List.mem_append.mp hp with h | h
  · split at h
    · rename_i hs
      obtain ⟨pos, hs⟩ := Option.isSome_iff_exists.mp hs
      obtain ⟨s, hs, ho, hk⟩ := micacheSearchElement_some hs
      cases List.mem_singleton.mp h
      exact atendible_of_slot rfl (List.mem_of_getElem? hs) ho hk
    · cases h
  · obtain ⟨t₁, hq, h⟩ := mem_elim h
    rcases hal with hlugar | ⟨hcub, hdir, hcant⟩
    · rw [sinPedidos_hayLugar hlugar hq] at h
      cases h
    · obtain ⟨hcub₁, hdir₁⟩ := cubierta_quitarPrevio hcub hdir hcant hq
      split at h
      · exact atendible_compactacion _ _ hcub₁ hdir₁ (Nat.add_zero _) h
      · exact atendible_buddy _ _ hcub₁ (Nat.add_zero _) h

end Pedidos

/-! ## Steps -/

section Pasos

variable {cfg : Config} {e : Entorno} {c : Nat} {accion : Accion} {s s' : Sistema}

theorem Fase.mira_of_asa {f : Fase} {pos : Nat} (h : f.asa = some pos) : f.mira = some pos := by
  cases f <;> first | exact h | cases h

/-- A step moves its own connection only. -/
theorem Paso.fases_otra (h : Paso cfg c e s accion s') {d : Nat} (hd : d ≠ c) :
    s'.fases[d]? = s.fases[d]? := by
  cases h with
  | nada | copiar | limpiar => rfl
  | colocar | crear | guardar | soltar | buscar | usar | borrar | marcar =>
      exact List.getElem?_set_ne hd.symm

/-- A handle is good for the item its slot holds. -/
theorem Asa.item {es : List Particion} {pos n a : Nat} {key : Clave} (h : Asa es pos key n a) :
    (es.getD pos Particion.vacia).item.key = key
      ∧ Asa es pos (es.getD pos Particion.vacia).item.key (es.getD pos Particion.vacia).item.ndata
        (es.getD pos Particion.vacia).item.data := by
  obtain ⟨s, hs, ho, hk, -⟩ := h
  have hg : es.getD pos Particion.vacia = s := by rw [List.getD_eq_getElem?_getD, hs]; rfl
  rw [hg]
  exact ⟨hk, s, hs, ho, rfl, rfl, rfl⟩

/-- Connection `c` refers to a slot that still holds the item it obtained, and
    no later slot repeats its key. -/
def AsaViva (v : Vigilado) (c pos : Nat) : Prop :=
  ∃ it, v.obtenidos c = some it ∧ Asa v.sistema.tabla.elements pos it.key it.ndata it.data
    ∧ SinDespues v.sistema.tabla.elements pos it.key

/-- What keeps the handle of connection `c` safe in phase `f`: its item, or the
    stored mark of a slot a flush has emptied. -/
def AsaSegura (v : Vigilado) (c : Nat) (f : Fase) (pos : Nat) : Prop :=
  AsaViva v c pos ∨ (f.pasiva = true ∧ Vacante v.sistema.tabla.elements pos)

/-- Every placed slot is in the table, and every slot a connection refers to is
    safe for it. -/
structure AsasSeguras (v : Vigilado) : Prop where
  colocadas : ∀ (c : Nat) key pos n, v.sistema.fases[c]? = some (.colocada key pos n) →
    pos < v.sistema.tabla.tableMaxSize
  asas : ∀ (c : Nat) f pos, v.sistema.fases[c]? = some f → f.mira = some pos →
    AsaSegura v c f pos

theorem recordar_otra (s : Sistema) (o : Nat → Option CacheItem) {d : Nat} (hd : d ≠ c) :
    recordar c accion s o d = o d := by
  cases accion <;> first | rfl | exact if_neg hd

theorem Sistema.itemDe_of {f : Fase} {pos : Nat} (hf : s.fases[c]? = some f)
    (hm : f.mira = some pos) :
    s.itemDe c = some (s.tabla.elements.getD pos Particion.vacia).item := by
  rw [Sistema.itemDe, hf, Option.bind_some, hm, Option.map_some]

theorem fase_set {l : List Fase} {f g f' : Fase} (hf : l[c]? = some g)
    (h : (l.set c f)[c]? = some f') : f = f' := by
  rw [List.getElem?_set_self (List.getElem?_eq_some_iff.mp hf).1] at h
  exact Option.some.inj h

/-- What a flush leaves in a slot. -/
theorem micacheClean_slot {t : TableInfo} {pos : Nat} {s : Particion}
    (hs : t.elements[pos]? = some s) : ∃ s', (micacheClean t).elements[pos]? = some s'
      ∧ s'.ocupado = false ∧ s'.item.stored = s.item.stored := by
  have hlim : (limpiada s).ocupado = false ∧ (limpiada s).item.stored = s.item.stored := by
    cases ho : s.ocupado <;> simp [limpiada, ho]
  simp only [micacheClean, TableInfo.modificar, List.getElem?_modify, List.getElem?_map, hs]
  refine ⟨_, rfl, ?_⟩
  dsimp only
  split <;> exact hlim

/-- **STEP**, another connection: its action repeats no key after the slot. -/
theorem Paso.sinDespues {g : Fase} {pos n a : Nat} {key : Clave} (h : Paso cfg c e s accion s')
    (ha : Asa s.tabla.elements pos key n a) (hd : SinDespues s.tabla.elements pos key)
    (hl : cuida cfg e s.tabla pos g accion s.fases[c]?)
    (hs : claveSola s.tabla accion s.fases[c]?) : SinDespues s'.tabla.elements pos key := by
  cases h with
  | nada | copiar | buscar | borrar => exact hd
  | colocar hf hn ht =>
      have hl' := hl hf hn
      rw [if_pos (ha.getD _).1] at hl'
      exact colocar_tras hd hl'.2 ht
  | crear hf =>
      have hlejos : creaLejos cfg s.tabla _ _ pos := hl _ hf _ rfl
      refine crear_tras hd ha.lt (fun _ hk => ?_) (Or.inr hlejos)
      subst hk
      obtain ⟨u, hu, ho, hk, -⟩ := ha
      have hu' : u ∈ s.tabla.elements.eraseIdx _ :=
        List.mem_eraseIdx_iff_getElem?.mpr ⟨pos, hlejos.1.symm, hu⟩
      have hno := hs _ hf u hu'
      simp [coincide, ho, hk] at hno
  | guardar | marcar =>
      refine ClavesDonde.toca hd ?_ _
      exact fun _ h => ⟨h, rfl⟩
  | soltar hf hp ht =>
      rcases itemRelease_casos ht with ⟨-, rfl⟩ | ⟨-, hrem⟩
      · exact hd
      · exact micacheRemove_claves hd hrem
  | usar hf ht =>
      rcases ht with rfl | rfl
      · exact ClavesDonde.toca hd (noOcupa_usar _) _
      · exact hd
  | limpiar hf =>
      intro j u hu _ ho
      have hno := micacheClean_contenido s.tabla
      rw [contenido, List.map_eq_nil_iff] at hno
      have hmem : u ∈ ocupadas (micacheClean s.tabla).elements :=
        mem_ocupadas.mpr ⟨List.mem_of_getElem? hu, ho⟩
      rw [hno] at hmem
      cases hmem

/-- **STEP**, another connection: its action leaves an emptied slot as it is,
    if it is not the one it clears the mark of. -/
theorem Paso.vacante {g : Fase} {pos : Nat} (h : Paso cfg c e s accion s')
    (hv : Vacante s.tabla.elements pos)
    (hl : cuida cfg e s.tabla pos g accion s.fases[c]?)
    (hb : s.fases[c]? ≠ some (.borrando pos)) : Vacante s'.tabla.elements pos := by
  have ho : (s.tabla.elements.getD pos Particion.vacia).ocupado = false := by
    obtain ⟨u, hu, ho, -⟩ := hv
    rw [List.getD_eq_getElem?_getD, hu]
    exact ho
  cases h with
  | nada | copiar | buscar | borrar => exact hv
  | colocar hf hn ht =>
      have hl' := hl hf hn
      rw [ho, if_neg (by simp)] at hl'
      exact colocar_vacante hv hl' ht
  | crear hf =>
      have hlejos : creaLejos cfg s.tabla _ _ pos := hl _ hf _ rfl
      exact crear_vacante hv hlejos
  | guardar => exact hv.modify (Or.inr ⟨fun _ h => h, fun _ _ => rfl⟩)
  | soltar hf hp ht =>
      rcases itemRelease_casos ht with ⟨-, rfl⟩ | ⟨-, hrem⟩
      · exact hv
      · exact micacheRemove_vacante hv hrem
  | usar hf ht =>
      rcases ht with rfl | rfl
      · exact hv.modify (Or.inr (noLlena_usada _))
      · exact hv
  | marcar hf =>
      refine hv.modify (Or.inl ?_)
      rintro rfl
      exact hb hf
  | limpiar hf =>
      obtain ⟨u, hu, -, hst⟩ := hv
      obtain ⟨u', hu', ho', hst'⟩ := micacheClean_slot hu
      exact ⟨u', hu', ho', hst'.trans hst⟩

theorem cuida_respeta {t : TableInfo} {g : Fase} {pos : Nat} {f : Option Fase}
    (hl : cuida cfg e t pos g accion f)
    (ho : (t.elements.getD pos Particion.vacia).ocupado = true)
    (hno : accion = .limpiar → f ≠ some .libre) : respeta cfg e t pos accion f := by
  cases accion with
  | colocar key m =>
      intro hf hm
      have hl' := hl hf hm
      rw [if_pos ho] at hl'
      exact hl'.1
  | crear => exact hl
  | soltar => exact hl ho
  | limpiar => exact hno rfl
  | copiar | guardar | buscar | usar | borrar | marcar => trivial

variable {v : Vigilado}

/-- **STEP**, another connection: a handle stays safe. -/
theorem Paso.segura_otra (h : Paso cfg c e v.sistema accion s') (hv : AsasSeguras v)
    (hc : Cuidado cfg (c, accion, e) v.sistema) {d pos : Nat} {g : Fase} (hd : d ≠ c)
    (hg : v.sistema.fases[d]? = some g) (hm : g.mira = some pos) :
    AsaSegura ⟨s', recordar c accion s' v.obtenidos⟩ d g pos := by
  have hajena : g ∈ v.sistema.ajenas c := List.mem_eraseIdx_iff_getElem?.mpr ⟨d, hd, hg⟩
  have hl : cuida cfg e v.sistema.tabla pos g accion v.sistema.fases[c]? :=
    hc.ajenas g hajena pos hm
  rcases hv.asas d g pos hg hm with ⟨it, hit, ha, hdesp⟩ | ⟨hpas, hvac⟩
  · have ho := (ha.getD Particion.vacia).1
    by_cases hlim : accion = .limpiar ∧ v.sistema.fases[c]? = some .libre
    · obtain ⟨rfl, hf⟩ := hlim
      obtain ⟨hpas, hst⟩ := hl hf ho
      cases h with
      | nada => exact Or.inl ⟨it, hit, ha, hdesp⟩
      | limpiar =>
          obtain ⟨u, hu, -⟩ := ha
          obtain ⟨u', hu', ho', hst'⟩ := micacheClean_slot hu
          refine Or.inr ⟨hpas, u', hu', ho', hst'.trans ?_⟩
          rwa [List.getD_eq_getElem?_getD, hu] at hst
    · have hresp := cuida_respeta hl ho fun h hf => hlim ⟨h, hf⟩
      exact Or.inl ⟨it, (recordar_otra s' _ hd).trans hit, h.asa ha hresp,
        h.sinDespues ha hdesp hl hc.sola⟩
  · refine Or.inr ⟨hpas, h.vacante hvac hl fun hb => ?_⟩
    -- a connection that is deleting an item holds an occupied slot
    rcases hv.asas c _ pos hb rfl with ⟨it, -, ha, -⟩ | ⟨hpas', -⟩
    · obtain ⟨u, hu, ho, -⟩ := hvac
      have := (ha.getD Particion.vacia).1
      rw [List.getD_eq_getElem?_getD, hu] at this
      exact absurd (ho.symm.trans this) (by simp)
    · cases hpas'

/-- The handle connection `c` has just been given. -/
theorem asaViva_recordada {f : Fase} {pos n a : Nat} {key : Clave} (hf : s'.fases[c]? = some f)
    (hm : f.mira = some pos) (ha : Asa s'.tabla.elements pos key n a)
    (hd : SinDespues s'.tabla.elements pos key)
    (hr : recordar c accion s' v.obtenidos c = s'.itemDe c) :
    AsaViva ⟨s', recordar c accion s' v.obtenidos⟩ c pos := by
  obtain ⟨hk, ha'⟩ := ha.item
  refine ⟨_, hr.trans (s'.itemDe_of hf hm), ha', ?_⟩
  rw [hk]
  exact hd

/-- With one slot under a key, the slot a search finds is the last. -/
theorem sinDespues_buscada {t : TableInfo} {key : Clave} {pos : Nat}
    (hs : micacheSearchElement t key = some pos) (h1 : t.elements.countP (coincide key) ≤ 1) :
    (∃ a n, Asa t.elements pos key n a) ∧ SinDespues t.elements pos key := by
  obtain ⟨A, u, B, hes, rfl, hu, -⟩ := findIdx?_parte hs
  simp only [coincideStored, Bool.and_eq_true, beq_iff_eq] at hu
  have hget : t.elements[A.length]? = some u := by rw [hes]; simp
  refine ⟨⟨_, _, u, hget, hu.1.1, hu.2, rfl, rfl⟩, ?_⟩
  intro j w hw hj ho hk
  have huc : coincide key u = true := by simp [coincide, hu.1.1, hu.2]
  have hwB : w ∈ B := by
    rw [hes, List.getElem?_append_right (by omega)] at hw
    obtain ⟨i, hi⟩ : ∃ i, j - A.length = i + 1 := ⟨j - A.length - 1, by omega⟩
    rw [hi, List.getElem?_cons_succ] at hw
    exact List.mem_of_getElem? hw
  have hB : 0 < B.countP (coincide key) :=
    List.countP_pos_iff.mpr ⟨w, hwB, by simp [coincide, ho, hk]⟩
  rw [hes, List.countP_append, List.countP_cons, if_pos huc] at h1
  omega

/-- **STEP**, own connection: what it refers to afterwards is safe. -/
theorem Paso.segura_propia (h : Paso cfg c e v.sistema accion s') (hv : AsasSeguras v)
    (hc : Cuidado cfg (c, accion, e) v.sistema) {f : Fase} {pos : Nat}
    (hf' : s'.fases[c]? = some f) (hm : f.mira = some pos) :
    AsaSegura ⟨s', recordar c accion s' v.obtenidos⟩ c f pos := by
  cases h with
  | nada hf | limpiar hf =>
      cases hf.symm.trans hf'
      cases hm
  | colocar hf =>
      cases fase_set hf hf'
      cases hm
  | crear hf =>
      have hlt := hv.colocadas _ _ _ _ hf
      cases fase_set hf hf'
      cases hm
      obtain ⟨a, ha⟩ : ∃ a, Asa (Rc.crear cfg e v.sistema.tabla _ _ _).elements _ _ _ a :=
        crear_propia hlt
      refine Or.inl (asaViva_recordada hf' rfl ha ?_ (if_pos rfl))
      refine crear_tras (fun j u hu hj ho hk => ?_) hlt (fun h => absurd h (Nat.lt_irrefl _))
        (Or.inl rfl)
      have hno := hc.sola _ hf u (List.mem_eraseIdx_iff_getElem?.mpr ⟨j, by omega, hu⟩)
      simp [coincide, ho, hk] at hno
  | copiar hf =>
      exact hv.asas _ _ _ hf' hm
  | guardar hf =>
      cases fase_set hf hf'
      cases hm
      rcases hv.asas _ _ _ hf rfl with ⟨it, hit, ha, hd⟩ | ⟨hpas, -⟩
      · refine Or.inl ⟨it, hit, ha.modify (Or.inr (ignora_stored _)), ClavesDonde.toca hd ?_ _⟩
        exact fun _ h => ⟨h, rfl⟩
      · cases hpas
  | soltar hf =>
      cases fase_set hf hf'
      cases hm
  | buscar hf hs | borrar hf hs =>
      obtain ⟨⟨a, n, ha⟩, hd⟩ := sinDespues_buscada hs (hc.sola hf)
      cases fase_set hf hf'
      cases hm
      exact Or.inl (asaViva_recordada hf' rfl ha hd (if_pos rfl))
  | usar hf ht =>
      cases fase_set hf hf'
      cases hm
      rcases hv.asas _ _ _ hf rfl with ⟨it, hit, ha, hd⟩ | ⟨-, hvac⟩
      · rcases ht with rfl | rfl
        · exact Or.inl ⟨it, hit, lruGet_asa ha, ClavesDonde.toca hd (noOcupa_usar _) _⟩
        · exact Or.inl ⟨it, hit, ha, hd⟩
      · rcases ht with rfl | rfl
        · exact Or.inr ⟨rfl, hvac.modify (Or.inr (noLlena_usada _))⟩
        · exact Or.inr ⟨rfl, hvac⟩
  | marcar hf =>
      cases fase_set hf hf'
      cases hm
      rcases hv.asas _ _ _ hf rfl with ⟨it, hit, ha, hd⟩ | ⟨hpas, -⟩
      · refine Or.inl ⟨it, hit, ha.modify (Or.inr (ignora_stored _)), ClavesDonde.toca hd ?_ _⟩
        exact fun _ h => ⟨h, rfl⟩
      · cases hpas

/-- A slot that connection `c` has just been given is in the table. -/
theorem Paso.colocada_propia (h : Paso cfg c e v.sistema accion s') (hv : AsasSeguras v)
    {key : Clave} {pos n : Nat} (hf' : s'.fases[c]? = some (.colocada key pos n)) :
    pos < v.sistema.tabla.tableMaxSize := by
  cases h with
  | nada hf | copiar hf | limpiar hf => exact hv.colocadas _ _ _ _ hf'
  | colocar hf _ ht =>
      cases fase_set hf hf'
      exact (colocar_lt ht).2
  | crear hf | guardar hf | soltar hf | buscar hf | usar hf | borrar hf | marcar hf =>
      cases fase_set hf hf'

/-- **STEP**: a careful step keeps every handle safe. -/
theorem AsasSeguras.paso {x : Nat × Accion × Entorno} {v' : Vigilado} (hv : AsasSeguras v)
    (hc : Cuidado cfg x v.sistema) (h : pasoVigilado cfg x v = some v') : AsasSeguras v' := by
  obtain ⟨c, accion, e⟩ := x
  obtain ⟨s', hs', rfl⟩ := Option.map_eq_some_iff.mp h
  have hp : Paso cfg c e v.sistema accion s' := paso_casos hs'
  constructor
  · intro d key pos n hf
    show pos < s'.tabla.tableMaxSize
    rw [hp.tableMaxSize]
    by_cases hd : d = c
    · subst hd
      exact hp.colocada_propia hv hf
    · exact hv.colocadas d key pos n ((hp.fases_otra hd).symm.trans hf)
  · intro d f pos hf hm
    by_cases hd : d = c
    · subst hd
      exact hp.segura_propia hv hc hf hm
    · exact hp.segura_otra hv hc hd ((hp.fases_otra hd).symm.trans hf) hm

theorem vigiladoInicial_asasSeguras (cfg : Config) (m : Nat) :
    AsasSeguras (vigiladoInicial cfg m) := by
  have hlibre : ∀ (c : Nat) f, (vigiladoInicial cfg m).sistema.fases[c]? = some f →
      f = .libre := fun c f h => List.eq_of_mem_replicate (List.mem_of_getElem? h)
  constructor
  · intro c key pos n h
    cases hlibre c _ h
  · intro c f pos h hm
    cases hlibre c f h
    cases hm

/-- The slot of a safe handle that is given back, not stored: it holds its key,
    and the removal under that key frees it. -/
theorem AsaSegura.suelta {f : Fase} {pos : Nat} (h : AsaSegura v c f pos) :
    let it := (v.sistema.tabla.elements.getD pos Particion.vacia).item
    it.stored = false →
      (PedidoBaja.clave v.sistema.tabla it.key).Atendible
      ∧ ultimoIndice (coincide it.key) v.sistema.tabla.elements = some pos
      ∧ ∃ it' ∈ v.obtenidos c, it.key = it'.key ∧ it.ndata = it'.ndata ∧ it.data = it'.data := by
  intro it hst
  rcases h with ⟨it', hit', ha, hdesp⟩ | ⟨-, u, hu, -, hst'⟩
  · have hultimo := hdesp.ultimo ha
    obtain ⟨s, hs, ho, hk, hn, hd⟩ := ha
    have hit : it = s.item := by
      show (v.sistema.tabla.elements.getD pos Particion.vacia).item = _
      rw [List.getD_eq_getElem?_getD, hs]
      rfl
    rw [hit]
    refine ⟨atendible_of_slot rfl (List.mem_of_getElem? hs) ho rfl, ?_, it', hit', hk, hn, hd⟩
    rw [hk]
    exact hultimo
  · have hit : it = u.item := by
      show (v.sistema.tabla.elements.getD pos Particion.vacia).item = _
      rw [List.getD_eq_getElem?_getD, hu]
      rfl
    rw [hit, hst'] at hst
    cases hst

/-- **SAFE STEP**: with every handle safe, a careful step asks for keys that
    are there and frees its own slot only. -/
theorem AsasSeguras.bajaSegura {x : Nat × Accion × Entorno} (hv : AsasSeguras v)
    (hc : Cuidado cfg x v.sistema) : BajaSegura cfg x v := by
  obtain ⟨c, accion, e⟩ := x
  have hsuelta : ∀ f ∈ v.sistema.fases[c]?, ∀ pos ∈ f.asa, AsaSegura v c f pos :=
    fun f hf pos hp => hv.asas c f pos hf (Fase.mira_of_asa hp)
  constructor
  · intro p hp
    unfold pedidos at hp
    dsimp only at hp
    split at hp
    · rename_i key m hf
      split at hp
      · cases hp
      · exact atendible_colocar (hc.alcanza hf (by omega)) hp
    · rename_i f hf
      obtain ⟨pos, hpos, hp⟩ := mem_elim hp
      unfold pedidosSoltar at hp
      dsimp only at hp
      split at hp
      · cases hp
      · rename_i hst
        cases List.mem_singleton.mp hp
        exact ((hsuelta f hf pos hpos).suelta (by simpa using hst)).1
    · cases hp
  · rintro rfl f hf pos hpos it hst
    exact ((hsuelta f hf pos hpos).suelta hst).2

end Pasos

/-! ## Over the key area -/

/-- The engine with its key area and the history variable. -/
structure VigiladoPlano where
  sistema : SistemaPlano
  obtenidos : Nat → Option CacheItem

/-- The state as a comparison sees it. -/
def VigiladoPlano.actual (v : VigiladoPlano) : Vigilado :=
  { sistema := v.sistema.actual, obtenidos := v.obtenidos }

/-- One step over the key area, with its record. -/
def pasoVigiladoPlano (cfg : Config) (x : Nat × Accion × Entorno) (v : VigiladoPlano) :
    Option VigiladoPlano :=
  (pasoPlano cfg x v.sistema).map fun s =>
    { sistema := s, obtenidos := recordar x.1 x.2.1 s.actual v.obtenidos }

/-- `m` connections over a fresh cache and key area. -/
def vigiladoPlanoInicial (cfg : Config) (m : Nat) (claves : Nat → UInt8) : VigiladoPlano :=
  { sistema := sistemaPlanoInicial cfg m claves, obtenidos := fun _ => none }

section Plana

variable {cfg : Config} {m : Nat} {claves : Nat → UInt8} {acciones : List (Nat × Accion × Entorno)}

/-- **ONE STEP** over the key area is the step over the table. -/
theorem pasoVigiladoPlano_refina (cfg : Config) (x : Nat × Accion × Entorno) (v : VigiladoPlano)
    (h : v.sistema.Bien) (hx : PasoCorto x) :
    (pasoVigiladoPlano cfg x v).map VigiladoPlano.actual = pasoVigilado cfg x v.actual
      ∧ ∀ v' ∈ pasoVigiladoPlano cfg x v, v'.sistema.Bien := by
  obtain ⟨hig, hb⟩ := pasoPlano_refina cfg x v.sistema h hx
  constructor
  · show _ = (paso cfg x v.sistema.actual).map _
    rw [← hig, pasoVigiladoPlano, Option.map_map, Option.map_map]
    rfl
  · intro v' hv'
    obtain ⟨s, hs, rfl⟩ := Option.map_eq_some_iff.mp hv'
    exact hb s hs

theorem vigiladoPlanoInicial_actual (cfg : Config) (m : Nat) (claves : Nat → UInt8) :
    (vigiladoPlanoInicial cfg m claves).actual = vigiladoInicial cfg m := by
  rw [VigiladoPlano.actual, vigiladoPlanoInicial, sistemaPlanoInicial_actual]
  rfl

/-- A condition of every step of a run over the key area. -/
theorem enCadaPasoVigilado_iff {D : Nat × Accion × Entorno → Vigilado → Prop}
    (hx : ∀ x ∈ acciones, PasoCorto x) :
    EnCadaPaso (pasoVigiladoPlano cfg) (fun x v => D x v.actual) acciones
        (vigiladoPlanoInicial cfg m claves)
      ↔ EnCadaPaso (pasoVigilado cfg) D acciones (vigiladoInicial cfg m) := by
  rw [← vigiladoPlanoInicial_actual cfg m claves]
  exact EnCadaPaso.proyecta (pasoVigiladoPlano_refina cfg) acciones
    (sistemaPlanoInicial_bien cfg m claves) hx

/-- Every run over the table with short keys is one over the key area. -/
theorem corridaVigilada_isSome (hx : ∀ x ∈ acciones, PasoCorto x)
    (h : (corrida (pasoVigilado cfg) acciones (vigiladoInicial cfg m)).isSome = true) :
    (corrida (pasoVigiladoPlano cfg) acciones (vigiladoPlanoInicial cfg m claves)).isSome
      = true := by
  rw [← vigiladoPlanoInicial_actual cfg m claves, ← (corrida_proyecta
    (pasoVigiladoPlano_refina cfg) acciones (sistemaPlanoInicial_bien cfg m claves) hx).1,
    Option.isSome_map] at h
  exact h

end Plana

/-- **REMOVAL IS ASKED FOR KEYS THAT ARE THERE** in every run of careful steps
    with keys that fit their cells: each call of `micache_remove_element` has a
    key that an occupied slot holds, and `item_release` frees no slot but the
    one its own handle was obtained for. -/
theorem bajas_seguras {cfg : Config} {m : Nat} {claves : Nat → UInt8}
    {acciones : List (Nat × Accion × Entorno)} (hx : ∀ x ∈ acciones, PasoCorto x)
    (hcond : EnCadaPaso (pasoVigiladoPlano cfg) (fun x v => Cuidado cfg x v.actual.sistema)
      acciones (vigiladoPlanoInicial cfg m claves)) :
    EnCadaPaso (pasoVigiladoPlano cfg) (fun x v => BajaSegura cfg x v.actual) acciones
      (vigiladoPlanoInicial cfg m claves) := by
  refine (enCadaPasoVigilado_iff hx).mpr ?_
  refine EnCadaPaso.imp (P := AsasSeguras) (C := fun x v => Cuidado cfg x v.sistema)
    (fun _ _ hv hc => hv.bajaSegura hc) (fun _ _ _ hv hc h => hv.paso hc h) acciones
    (vigiladoInicial_asasSeguras cfg m) ?_
  exact (enCadaPasoVigilado_iff (D := fun x v => Cuidado cfg x v.sistema) hx).mp hcond

/-- Complete SETs that end in an eviction; a GET that is still open while the
    other connection deletes a second key, gives a SET up, flushes the cache
    and sets a new key. -/
def cuidadosa : List (Nat × Accion × Entorno) :=
  setCompleto 1 [1] [7, 7] ++ setCompleto 1 [2] [8, 8] ++ setCompleto 1 [3] [9, 9] ++
    setCompleto 1 [4] [7, 7] ++ setCompleto 1 [5] [8, 8] ++ setCompleto 1 [6] [9, 9] ++
    [(0, .buscar [2], entornoAsas), (0, .usar, entornoAsas)] ++
    [(1, .borrar [4], entornoAsas), (1, .marcar, entornoAsas), (1, .soltar, entornoAsas)] ++
    [(1, .colocar [7] 2, entornoAsas), (1, .crear, entornoAsas), (1, .soltar, entornoAsas)] ++
    [(1, .limpiar, entornoAsas)] ++ setCompleto 1 [8] [7, 7] ++ [(0, .soltar, entornoAsas)]

theorem cuidadosa_corta : ∀ x ∈ cuidadosa, PasoCorto x := by
  simp [cuidadosa, setCompleto, PasoCorto, Accion.Corta, antesCorta_asas]

theorem bajas_seguras_cuidadosa :
    (corrida (pasoVigiladoPlano cacheAsas) cuidadosa
        (vigiladoPlanoInicial cacheAsas 2 fun _ => 0)).isSome = true
      ∧ EnCadaPaso (pasoVigiladoPlano cacheAsas) (fun x v => BajaSegura cacheAsas x v.actual)
        cuidadosa (vigiladoPlanoInicial cacheAsas 2 fun _ => 0) :=
  ⟨corridaVigilada_isSome cuidadosa_corta (by decide), bajas_seguras cuidadosa_corta
    ((enCadaPasoVigilado_iff (D := fun x v => Cuidado cacheAsas x v.sistema)
      cuidadosa_corta).mpr (by decide))⟩

/-- Connection 0 holds a handle from its GET while connection 1 deletes the
    key; the release of connection 0 then asks for it again. -/
def doblada : List (Nat × Accion × Entorno) :=
  setCompleto 1 [1] [7, 7] ++ [(0, .buscar [1], entornoAsas), (0, .usar, entornoAsas)] ++
    [(1, .borrar [1], entornoAsas), (1, .marcar, entornoAsas), (1, .soltar, entornoAsas)] ++
    [(0, .soltar, entornoAsas)]

theorem bajas_seguras_falla :
    ¬ EnCadaPaso (pasoVigiladoPlano cacheAsas) (fun x v => BajaSegura cacheAsas x v.actual)
      doblada (vigiladoPlanoInicial cacheAsas 2 fun _ => 0) := by
  have hcorta : ∀ x ∈ doblada, PasoCorto x := by
    simp [doblada, setCompleto, PasoCorto, Accion.Corta, antesCorta_asas]
  rw [enCadaPasoVigilado_iff hcorta]
  decide

end Rc
