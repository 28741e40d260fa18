import Yanero.RcAsasRunProofs
import Yanero.RcRetoqueProofs

/-! # Two-section allocation

    `item_allocate` chooses a slot in one section and fills it in the next,
    and nothing marks the slot in between.  When no other connection places,
    creates, removes or flushes between the two, each item it has returned
    keeps a slot of its own, apart from the others. -/

namespace Rc

open Bucles Bytes Corridas Teselado

/-! ## A table, and a table with a placed slot -/

/-- The labels of the items of a table. -/
def etiquetas (t : TableInfo) : List (Clave × Nat) := (ocupadas t.elements).map etiqueta

/-- The table keeps the layout of its scheme. -/
structure Sana (cfg : Config) (t : TableInfo) : Prop where
  din : cfg.esquema = .particionesDinamicas → Din cfg False t
  buddy : cfg.esquema = .buddySystem → Buddy cfg False t

/-- Slot `i` of the table has been placed for `n` bytes, beside items with the
    labels `E`. -/
structure Reserva (cfg : Config) (t : TableInfo) (n i : Nat) (E : List (Clave × Nat)) :
    Prop where
  din : cfg.esquema = .particionesDinamicas → ∃ t₀ A a F B D,
    LugarDin cfg False t₀ t n i A a F B D ∧ E = (ocupadas A ++ ocupadas B).map etiqueta
  buddy : cfg.esquema = .buddySystem → ∃ t₀ A a F B D,
    Lugar cfg False t₀ t n i A a F B D ∧ E = (ocupadas A ++ ocupadas B).map etiqueta

section Tablas

variable {cfg : Config} {e : Entorno} {t t' : TableInfo} {n i : Nat} {E : List (Clave × Nat)}

/-- A place, without the table it came from. -/
theorem LugarDin.propio {A B D : List Particion} {a : Nat} {F : Int}
    (hinv : DinInv cfg False t (A ++ libre a F :: B) D) (hpos : A.length = i) (hn : (n : Int) ≤ F)
    (hresto : ∀ b B', B = b :: B' → b.ocupado = false →
      F - ocupa cfg.chunkSize n = 0 ∨ (cfg.chunkSize : Int) ≤ F - ocupa cfg.chunkSize n) :
    ∃ t₀, LugarDin cfg False t₀ t n i A a F B D := by
  have hcon : contenido t = (Rc.ocupadas A ++ Rc.ocupadas B).map (entrada t.memoria) := by
    rw [contenido, hinv.ocupadas_eq, ocupadas_append, ocupadas_libre]
  exact ⟨t, hinv, hpos, hn, hresto, by rw [hcon],
    Registra.of_subset rfl (by rw [hcon]; exact fun _ hx => hx)⟩

/-- The slot a placement found, seen on the table with its own handle released. -/
theorem Lugar.propio {A B D : List Particion} {a : Nat} {F : Int}
    (hinv : BuddyInv cfg False (soltar i t) (A ++ libre a F :: B) D) (hpos : A.length = i)
    (hn : (n : Int) ≤ F) : ∃ t₀, Lugar cfg False t₀ t n i A a F B D := by
  have hoc : Rc.ocupadas (soltar i t).elements = Rc.ocupadas A ++ Rc.ocupadas B := by
    rw [hinv.ocupadas_eq, ocupadas_append, ocupadas_libre]
  exact ⟨soltar i t, hinv, hpos, hn, False.elim, by rw [hoc], rfl,
    Registra.of_subset rfl (by rw [hoc]; exact fun _ hx => hx)⟩

/-- A copy of bytes changes no slot. -/
theorem Sana.memoria (h : Sana cfg t) (m : Nat → UInt8) : Sana cfg { t with memoria := m } := by
  refine ⟨fun hd => (h.din hd).memoria m, fun hb => ?_⟩
  obtain ⟨L, D, hinv⟩ := h.buddy hb
  exact ⟨L, D, hinv.memoria m⟩

/-- A reservation does not see the data area. -/
theorem Reserva.memoria (h : Reserva cfg t n i E) (m : Nat → UInt8) :
    Reserva cfg { t with memoria := m } n i E := by
  refine ⟨fun hd => ?_, fun hb => ?_⟩
  · obtain ⟨t₀, A, a, F, B, D, hl, hE⟩ := h.din hd
    have hinv := hl.inv
    obtain ⟨t₁, hl'⟩ := LugarDin.propio (t := { t with memoria := m })
      ⟨hinv.chunk, hinv.tabla, hinv.muertas, hinv.bien, hinv.cabe, hinv.slots, hinv.suma⟩
      hl.pos hl.cabe hl.resto
    exact ⟨t₁, A, a, F, B, D, hl', hE⟩
  · obtain ⟨t₀, A, a, F, B, D, hl, hE⟩ := h.buddy hb
    obtain ⟨t₁, hl'⟩ := Lugar.propio (t := { t with memoria := m })
      (show BuddyInv cfg False (soltar i { t with memoria := m }) _ D from hl.inv.memoria m)
      hl.pos hl.cabe
    exact ⟨t₁, A, a, F, B, D, hl', hE⟩

/-- A retouch of any slot. -/
theorem Sana.retoca (h : Sana cfg t) {f : Particion → Particion} (hf : Retoque f) (q : Nat) :
    Sana cfg (t.modificar q f) := by
  refine ⟨fun hd => ?_, fun hb => ?_⟩
  · obtain ⟨L, D, hinv⟩ := h.din hd
    exact ⟨_, D, hinv.retoca hf q⟩
  · obtain ⟨L, D, hinv⟩ := h.buddy hb
    exact ⟨_, D, hinv.retoca hf q⟩

/-- The labels do not change with a touch. -/
theorem etiquetas_modificar {f : Particion → Particion} (hf : Retoque f) (q : Nat) :
    etiquetas (t.modificar q f) = etiquetas t := by
  rw [etiquetas, etiquetas, ← ocupadas_vista, ← ocupadas_vista t, vista_retoque hf,
    etiquetas_retoque hf]

/-- A touch of any slot keeps a reservation. -/
theorem Reserva.retoca (h : Reserva cfg t n i E) {f : Particion → Particion} (hf : Retoque f)
    (q : Nat) : Reserva cfg (t.modificar q f) n i E := by
  refine ⟨fun hd => ?_, fun hb => ?_⟩
  · obtain ⟨t₀, A, a, F, B, D, hl, hE⟩ := h.din hd
    obtain ⟨A', B', heq, hlen, hoc, het⟩ := modify_hueco hf A B a F q
    have hinv := hl.inv.retoca hf q
    rw [heq] at hinv
    obtain ⟨t₁, hl'⟩ := LugarDin.propio hinv (hlen.trans hl.pos) hl.cabe
      (by
        rintro b B₁ rfl hbo
        cases B with
        | nil => exact nomatch hoc
        | cons b₀ B₀ =>
            rw [List.map_cons, List.map_cons, List.cons.injEq] at hoc
            exact hl.resto b₀ B₀ rfl (hoc.1.symm.trans hbo))
    exact ⟨t₁, A', a, F, B', D, hl', by rw [het]; exact hE⟩
  · obtain ⟨t₀, A, a, F, B, D, hl, hE⟩ := h.buddy hb
    obtain ⟨A', B', heq, hlen, -, het⟩ := modify_hueco hf A B a F q
    have hinv := hl.inv.retoca hf q
    rw [heq, ← soltar_modificar hf] at hinv
    obtain ⟨t₁, hl'⟩ := Lugar.propio hinv (hlen.trans hl.pos) hl.cabe
    exact ⟨t₁, A', a, F, B', D, hl', by rw [het]; exact hE⟩

/-! ## Removal, cleaning and the fresh cache -/

/-- A configuration with an address and room for one chunk. -/
structure ConfigCache (cfg : Config) : Prop where
  area : 0 < cfg.ptrdata
  chunk : 0 < cfg.chunkSize
  entra : cfg.chunkSize ≤ cfg.blockSizeMax

/-- A removal keeps a sound table. -/
theorem Sana.quita {key : Clave} (hcfg : ConfigCache cfg) (h : Sana cfg t)
    (hr : micacheRemove t key = some t') : Sana cfg t' :=
  ⟨fun hd => micacheRemove_din' (h.din hd) False.elim hr,
    fun hb => micacheRemove_buddy hcfg.area (h.buddy hb) hr⟩

/-- A removal takes the labels of its key and no other. -/
theorem etiquetas_quita {key : Clave} (hr : micacheRemove t key = some t') :
    ∀ x ∈ etiquetas t, x.1 = key ∨ x ∈ etiquetas t' := by
  intro x hx
  obtain ⟨s, hs, rfl⟩ := List.mem_map.mp hx
  rcases micacheRemove_quedan hr s hs with hk | hs'
  · exact Or.inl hk
  · exact Or.inr (List.mem_map_of_mem hs')

/-- A flush keeps a sound table. -/
theorem Sana.limpia (hcfg : ConfigCache cfg) (h : Sana cfg t) : Sana cfg (micacheClean t) :=
  ⟨fun hd => micacheClean_din hcfg.chunk (h.din hd) False.elim,
    fun hb => micacheClean_buddy False.elim (h.buddy hb)⟩

/-- A new cache is sound. -/
theorem cacheInitialize_sana (hcfg : ConfigCache cfg) : Sana cfg (cacheInitialize cfg) :=
  ⟨fun hd => cacheInitialize_din ⟨hd, hcfg.chunk, hcfg.entra⟩,
    fun _ => cacheInitialize_buddy hcfg.chunk hcfg.entra False.elim⟩

/-! ## The two sections -/

/-- The placement takes no branch that makes partitions overlap. -/
def colocaSegura (cfg : Config) (e : Entorno) (t : TableInfo) (key : Clave) (m : Nat) : Prop :=
  (cfg.esquema = .particionesDinamicas → ∀ t' ∈ quitarPrevio t key,
    EnCadaVuelta cfg e m
      (fun t p k total => huecoSeguro t p k ∧ altaSegura cfg.chunkSize t p k total m)
      barridoSeguro (fun _ _ => True) e.vueltas 0 t') ∧
  (cfg.esquema = .buddySystem → 0 < m)

instance (cfg : Config) (e : Entorno) (t : TableInfo) (key : Clave) (m : Nat) :
    Decidable (colocaSegura cfg e t key m) :=
  inferInstanceAs (Decidable ((_ → ∀ t' ∈ quitarPrevio t key, EnCadaVuelta cfg e m
      (fun t p k total => huecoSeguro t p k ∧ altaSegura cfg.chunkSize t p k total m)
      barridoSeguro (fun _ _ => True) e.vueltas 0 t') ∧ (_ → _)))

/-- The entries of `t₀` survive under their labels unless their keys are
    logged. -/
theorem etiquetas_registra {t₀ : TableInfo} {b : List Clave} {l : List Particion}
    {m : Nat → UInt8}
    (h : Registra (·.1) t₀.bitacora (contenido t₀) b (l.map (entrada m))) :
    ∃ evs, b = t₀.bitacora ++ evs ∧ ∀ x ∈ etiquetas t₀, x.1 ∈ evs ∨ x ∈ l.map etiqueta := by
  obtain ⟨evs, hb, hx⟩ := h
  refine ⟨evs, hb, ?_⟩
  intro x hxm
  obtain ⟨s, hs, rfl⟩ := List.mem_map.mp hxm
  rcases hx _ (List.mem_map_of_mem hs) with hk | hin
  · exact Or.inl hk
  · -- equal entries have equal labels
    obtain ⟨s', hs', heq⟩ := List.mem_map.mp hin
    refine Or.inr (List.mem_map.mpr ⟨s', hs', ?_⟩)
    have hk : s'.item.key = s.item.key := congrArg Prod.fst heq
    have hn := congrArg (fun y => y.2.2.length) heq
    simp only [entrada, length_leer] at hn
    simp [etiqueta, hk, hn]

/-- A placement takes the labels it records and no other. -/
theorem Lugar.etiquetas {t₀ : TableInfo} {A B D : List Particion} {a : Nat} {F : Int}
    (h : Lugar cfg False t₀ t n i A a F B D) :
    ∃ evs, t.bitacora = t₀.bitacora ++ evs ∧ ∀ x ∈ Rc.etiquetas t₀,
      x.1 ∈ evs ∨ x ∈ (Rc.ocupadas A ++ Rc.ocupadas B).map etiqueta := by
  obtain ⟨evs, hb, hx⟩ := h.registra
  refine ⟨evs, hb, ?_⟩
  intro x hxm
  obtain ⟨s, hs, rfl⟩ := List.mem_map.mp hxm
  rcases hx s hs with hk | hin
  · exact Or.inl hk
  · exact Or.inr (List.mem_map_of_mem hin)

/-- **PLACEMENT** finds a slot, and keeps every item but those it removes. -/
theorem colocar_reserva {key : Clave} (hcfg : ConfigCache cfg) (h : Sana cfg t)
    (hseg : colocaSegura cfg e t key n) (hr : colocar cfg e t key n = some (t', i)) :
    ∃ E, Reserva cfg t' n i E ∧ ∀ x ∈ etiquetas t, x.1 ∈ desalojadas t t' key ∨ x ∈ E := by
  obtain ⟨t₁, hq, hr⟩ := Option.bind_eq_some_iff.mp hr
  -- the drop of an older item
  obtain ⟨h₁, hb₁, hx₁⟩ : Sana cfg t₁ ∧ t₁.bitacora = t.bitacora
      ∧ ∀ x ∈ etiquetas t, x.1 ∈ desalojadas t t' key ∨ x ∈ etiquetas t₁ := by
    cases hs : micacheSearchElement t key with
    | none =>
        rw [quitarPrevio, hs] at hq
        obtain rfl := Option.some.inj hq
        exact ⟨h, rfl, fun x hx => Or.inr hx⟩
    | some q =>
        rw [quitarPrevio, hs] at hq
        obtain ⟨-, -, -, -, -, -, -, -, -, -, -, -, hb⟩ := micacheRemove_vista hq
        refine ⟨h.quita hcfg hq, hb, fun x hx => ?_⟩
        rcases etiquetas_quita hq x hx with hk | hx'
        · left
          simp [desalojadas, hs, hk]
        · exact Or.inr hx'
  -- what the loop logs is what is gone
  have hfin : ∀ {E : List (Clave × Nat)},
      (∃ evs, t'.bitacora = t₁.bitacora ++ evs ∧ ∀ x ∈ etiquetas t₁, x.1 ∈ evs ∨ x ∈ E) →
      ∀ x ∈ etiquetas t, x.1 ∈ desalojadas t t' key ∨ x ∈ E := by
    rintro E ⟨evs, hb, hx⟩ x hxm
    rcases hx₁ x hxm with hk | hx'
    · exact Or.inl hk
    · rcases hx x hx' with hk | hE
      · left
        rw [desalojadas, hb, hb₁, List.drop_left]
        exact List.mem_append_right _ hk
      · exact Or.inr hE
  cases hesq : cfg.esquema with
  | particionesDinamicas =>
      simp only [hesq] at hr
      obtain ⟨A, a, F, B, D, hl⟩ := compactacion_din hcfg.chunk (h₁.din hesq)
        (hseg.1 hesq t₁ hq) False.elim hr
      refine ⟨_, ⟨fun _ => ⟨t₁, A, a, F, B, D, hl, rfl⟩, fun hb => ?_⟩,
        hfin (etiquetas_registra hl.registra)⟩
      rw [hesq] at hb
      exact nomatch hb
  | buddySystem =>
      simp only [hesq] at hr
      obtain ⟨A, a, F, B, D, hl⟩ := buddysystem_buddy hcfg.area hcfg.chunk (hseg.2 hesq)
        e.vueltas 0 (h₁.buddy hesq) hr
      refine ⟨_, ⟨fun hd => ?_, fun _ => ⟨t₁, A, a, F, B, D, hl, rfl⟩⟩, hfin hl.etiquetas⟩
      rw [hesq] at hd
      exact nomatch hd

/-- A new element adds its own label. -/
theorem etiquetas_alta {t' : TableInfo} {A₀ R A B D : List Particion} {o : Particion}
    {key : Clave} (hes : t'.elements = A₀ ++ o :: R) (hA : A₀.map limpia = A)
    (hR : R.map limpia = B ++ D) (hD : ∀ s ∈ D, muerta s) (ho : o.ocupado = true)
    (hk : o.item.key = key) (hn : o.item.ndata = n) :
    ∀ x ∈ (ocupadas A ++ ocupadas B).map etiqueta ++ [(key, n)], x ∈ etiquetas t' := by
  have hoA : ocupadas A₀ = ocupadas A := by rw [← hA, ocupadas_map_limpia]
  have hoR : ocupadas R = ocupadas B := by
    rw [← ocupadas_map_limpia, hR, ocupadas_append, ocupadas_muertas hD, List.append_nil]
  have heo : etiqueta o = (key, n) := by simp [etiqueta, hk, hn]
  intro x hx
  rw [etiquetas, hes, ocupadas_append, ocupadas_cons_of_true ho, hoA, hoR]
  simp only [List.map_append, List.map_cons, List.mem_append, List.mem_cons, heo] at hx ⊢
  tauto

/-- **CREATION** on a placed slot adds its item to the others. -/
theorem Reserva.crea {key : Clave} (hcfg : ConfigCache cfg) (h : Reserva cfg t n i E) :
    Sana cfg (crear cfg e t key i n)
      ∧ ∀ x ∈ E ++ [(key, n)], x ∈ etiquetas (crear cfg e t key i n) := by
  unfold crear
  cases hesq : cfg.esquema with
  | particionesDinamicas =>
      obtain ⟨t₀, A, a, F, B, D, hl, rfl⟩ := h.din hesq
      obtain ⟨A₀, o, R, B', D', hes, -, hA, hR, ho, hk, hn, hoB, hinv⟩ :=
        (micacheCreateElement_din e.fuera e.relojGet key hcfg.chunk hl).tabla
      refine ⟨⟨fun _ => ⟨_, _, hinv⟩, fun hb => ?_⟩, ?_⟩
      · rw [hesq] at hb
        exact nomatch hb
      · have := etiquetas_alta hes hA hR hinv.muertas ho hk hn
        rwa [hoB] at this
  | buddySystem =>
      obtain ⟨t₀, A, a, F, B, D, hl, rfl⟩ := h.buddy hesq
      obtain ⟨A₀, x, R₀, hes, rfl, hA, hR, -, -, hinv⟩ :=
        buddyCreateElement_buddy e.relojGet key hl
      refine ⟨⟨fun hd => ?_, fun _ => ⟨_, _, hinv⟩⟩, ?_⟩
      · rw [hesq] at hd
        exact nomatch hd
      · refine etiquetas_alta (o := creadaBuddy e.relojGet key n x)
          ?_ hA hR hinv.muertas rfl rfl rfl
        dsimp only
        rw [buddyCreateElement_eq _ _ _ hes]

/-! ## Different slots, apart -/

/-- Items `x` and `y` hold different slots with disjoint data ranges. -/
def Separadas (t : TableInfo) (x y : Clave × Nat) : Prop :=
  ∃ i j a b, i ≠ j ∧ Asa t.elements i x.1 x.2 a ∧ Asa t.elements j y.1 y.2 b
    ∧ (a + x.2 ≤ b ∨ b + y.2 ≤ a)

/-- An item of the layout `L` and the slot it holds. -/
theorem asa_de_vista {L D : List Particion} {j : Nat} {s : Particion} (hv : vista t = L ++ D)
    (hj : L[j]? = some s) (ho : s.ocupado = true) : t.elements[j]? = some s := by
  have hlt : j < L.length := (List.getElem?_eq_some_iff.mp hj).1
  have hvj : (vista t)[j]? = some s := by rw [hv, List.getElem?_append_left hlt]; exact hj
  rw [vista, List.getElem?_map] at hvj
  obtain ⟨s₀, hs₀, rfl⟩ := Option.map_eq_some_iff.mp hvj
  rw [hs₀, limpia_of_ocupado (by simpa using ho)]

/-- Items of a layout that fits do not overlap. -/
theorem separadas_de_cabe {len : Particion → Int} {p q : Int} {L D : List Particion}
    {x y : Clave × Nat} (hv : vista t = L ++ D) (hcabe : Cabe inicio len p L q)
    (hnn : ∀ s ∈ L, 0 ≤ len s)
    (hnd : ∀ s ∈ L, s.ocupado = true → (s.item.ndata : Int) ≤ len s)
    (hx : x ∈ (ocupadas L).map etiqueta) (hy : y ∈ (ocupadas L).map etiqueta)
    (hne : x.1 ≠ y.1) : Separadas t x y := by
  obtain ⟨s, hs, rfl⟩ := List.mem_map.mp hx
  obtain ⟨u, hu, rfl⟩ := List.mem_map.mp hy
  obtain ⟨hsL, hso⟩ := mem_ocupadas.mp hs
  obtain ⟨huL, huo⟩ := mem_ocupadas.mp hu
  obtain ⟨i, hi, his⟩ := List.getElem_of_mem hsL
  obtain ⟨j, hj, hju⟩ := List.getElem_of_mem huL
  have hij : i ≠ j := by
    rintro rfl
    rw [his] at hju
    exact hne (by rw [hju])
  have hpar := List.pairwise_iff_getElem.mp (cabe_pairwise hcabe hnn)
  refine ⟨i, j, s.item.data, u.item.data, hij,
    ⟨s, asa_de_vista hv (by rw [← his]; exact List.getElem?_eq_getElem hi) hso, hso, rfl, rfl, rfl⟩,
    ⟨u, asa_de_vista hv (by rw [← hju]; exact List.getElem?_eq_getElem hj) huo, huo, rfl, rfl, rfl⟩,
    ?_⟩
  have hns := hnd s hsL hso
  have hnu := hnd u huL huo
  simp only [etiqueta]
  rcases Nat.lt_or_gt_of_ne hij with hlt | hgt
  · have := hpar i j hi hj hlt
    rw [his, hju] at this
    simp only [inicio] at this
    omega
  · have := hpar j i hj hi hgt
    rw [his, hju] at this
    simp only [inicio] at this
    omega

/-- In a sound table two keys have separate items. -/
theorem Sana.separadas {x y : Clave × Nat} (h : Sana cfg t) (hx : x ∈ etiquetas t)
    (hy : y ∈ etiquetas t) (hne : x.1 ≠ y.1) : Separadas t x y := by
  cases hesq : cfg.esquema with
  | particionesDinamicas =>
      obtain ⟨L, D, hinv⟩ := h.din hesq
      rw [etiquetas, hinv.ocupadas_eq] at hx hy
      exact separadas_de_cabe hinv.tabla hinv.cabe hinv.no_negativa
        (fun s hs ho => (hinv.bien s hs).ndata_le ho) hx hy hne
  | buddySystem =>
      obtain ⟨L, D, hinv⟩ := h.buddy hesq
      rw [etiquetas, hinv.ocupadas_eq] at hx hy
      exact separadas_de_cabe hinv.tabla hinv.cabe hinv.no_negativa
        (fun s hs ho => ((hinv.bien s hs).ocupada ho).2) hx hy hne

/-- The placed slot shows its stale flags in the table, and no item in it. -/
theorem asa_de_soltar {j a : Nat} {key : Clave} (h : Asa (soltar i t).elements j key n a) :
    Asa t.elements j key n a := by
  obtain ⟨s, hs, ho, hr⟩ := h
  have hij : i ≠ j := by
    rintro rfl
    rw [soltar, TableInfo.modificar, List.getElem?_modify] at hs
    obtain ⟨s₀, -, heq⟩ := Option.map_eq_some_iff.mp hs
    rw [← heq] at ho
    simp at ho
  refine ⟨s, ?_, ho, hr⟩
  rw [← hs]
  exact (getElem?_modify_otra _ _ hij).symm

/-- While a slot is reserved two keys have separate items too. -/
theorem Reserva.separadas {x y : Clave × Nat} (h : Reserva cfg t n i E) (hx : x ∈ E)
    (hy : y ∈ E) (hne : x.1 ≠ y.1) : Separadas t x y := by
  have hoc : ∀ (A B : List Particion) (a : Nat) (F : Int),
      ocupadas A ++ ocupadas B = ocupadas (A ++ libre a F :: B) := by
    intro A B a F
    rw [ocupadas_append, ocupadas_libre]
  cases hesq : cfg.esquema with
  | particionesDinamicas =>
      obtain ⟨t₀, A, a, F, B, D, hl, rfl⟩ := h.din hesq
      rw [hoc A B a F] at hx hy
      exact separadas_de_cabe hl.inv.tabla hl.inv.cabe hl.inv.no_negativa
        (fun s hs ho => (hl.inv.bien s hs).ndata_le ho) hx hy hne
  | buddySystem =>
      obtain ⟨t₀, A, a, F, B, D, hl, rfl⟩ := h.buddy hesq
      rw [hoc A B a F] at hx hy
      obtain ⟨j, k, b, d, hjk, hj, hk, hd⟩ := separadas_de_cabe hl.inv.tabla hl.inv.cabe
        hl.inv.no_negativa (fun s hs ho => ((hl.inv.bien s hs).ocupada ho).2) hx hy hne
      exact ⟨j, k, b, d, hjk, asa_de_soltar hj, asa_de_soltar hk, hd⟩

end Tablas

/-! ## The condition of a step -/

/-- The action of a connection in phase `f` places, creates, removes and
    flushes nothing. -/
def intacta (cfg : Config) (t : TableInfo) (accion : Accion) (f : Option Fase) : Prop :=
  match accion with
  | .colocar _ m => f = some .libre → cfg.blockSizeMax < m
  | .crear => ∀ x ∈ f, x.lugar = none
  | .soltar => ∀ x ∈ f, ∀ q ∈ x.asa, (t.elements.getD q Particion.vacia).item.stored = true
  | .limpiar => f ≠ some .libre
  | .copiar _ | .guardar | .buscar _ | .usar | .borrar _ | .marcar => True

instance (cfg : Config) (t : TableInfo) (accion : Accion) (f : Option Fase) :
    Decidable (intacta cfg t accion f) :=
  match accion with
  | .colocar _ m => inferInstanceAs (Decidable (f = some .libre → cfg.blockSizeMax < m))
  | .crear => inferInstanceAs (Decidable (∀ x ∈ f, Fase.lugar x = none))
  | .soltar => inferInstanceAs (Decidable (∀ x ∈ f, ∀ q ∈ Fase.asa x,
      (t.elements.getD q Particion.vacia).item.stored = true))
  | .limpiar => inferInstanceAs (Decidable (f ≠ some .libre))
  | .copiar _ | .guardar | .buscar _ | .usar | .borrar _ | .marcar =>
      inferInstanceAs (Decidable True)

/-- The connection is between its two sections. -/
def Fase.entreSecciones (f : Fase) : Bool := f.lugar.isSome

/-- A placement takes no branch that makes partitions overlap. -/
def sinSolapar (cfg : Config) (e : Entorno) (t : TableInfo) (accion : Accion) : Prop :=
  match accion with
  | .colocar key m => m ≤ cfg.blockSizeMax → colocaSegura cfg e t key m
  | .crear | .copiar _ | .guardar | .soltar | .buscar _ | .usar | .borrar _ | .marcar
  | .limpiar => True

instance (cfg : Config) (e : Entorno) (t : TableInfo) (accion : Accion) :
    Decidable (sinSolapar cfg e t accion) :=
  match accion with
  | .colocar key m => inferInstanceAs
      (Decidable (m ≤ cfg.blockSizeMax → colocaSegura cfg e t key m))
  | .crear | .copiar _ | .guardar | .soltar | .buscar _ | .usar | .borrar _ | .marcar
  | .limpiar => inferInstanceAs (Decidable True)

/-- No step comes between the two sections of another call that places,
    creates, removes or flushes, and a placement takes no branch that makes
    partitions overlap. -/
def SinCruce (cfg : Config) (x : Nat × Accion × Entorno) (s : Sistema) : Prop :=
  (∀ f ∈ s.ajenas x.1, f.entreSecciones = true → intacta cfg s.tabla x.2.1 s.fases[x.1]?) ∧
    sinSolapar cfg x.2.2 s.tabla x.2.1

instance (cfg : Config) (x : Nat × Accion × Entorno) (s : Sistema) :
    Decidable (SinCruce cfg x s) :=
  inferInstanceAs (Decidable ((∀ f ∈ s.ajenas x.1, f.entreSecciones = true →
    intacta cfg s.tabla x.2.1 s.fases[x.1]?) ∧ sinSolapar cfg x.2.2 s.tabla x.2.1))

/-! ## Steps and runs -/

/-- The table has the layout of its scheme, or it has one slot placed by the
    one connection between its sections; every item of the history is in it. -/
structure AsignarInv (cfg : Config) (s : Sistema) : Prop where
  unica : ∀ (c d : Nat) f g, s.fases[c]? = some f → s.fases[d]? = some g →
    f.entreSecciones = true → g.entreSecciones = true → c = d
  quieta : (∀ f ∈ s.fases, f.entreSecciones = false) →
    Sana cfg s.tabla ∧ ∀ x ∈ s.vigentes, x ∈ etiquetas s.tabla
  reservada : ∀ (c : Nat) key pos n, s.fases[c]? = some (.colocada key pos n) →
    ∃ E, Reserva cfg s.tabla n pos E ∧ ∀ x ∈ s.vigentes, x ∈ E

/-- A change of the table that leaves its layout and its items. -/
structure Suave (cfg : Config) (t t' : TableInfo) : Prop where
  sana : Sana cfg t → Sana cfg t'
  iguales : etiquetas t' = etiquetas t
  reserva : ∀ n i E, Reserva cfg t n i E → Reserva cfg t' n i E

section Pasos

variable {cfg : Config} {e : Entorno} {t : TableInfo} {s s' : Sistema} {c : Nat} {f g : Fase}

/-- Nothing happens. -/
theorem Suave.refl (t : TableInfo) : Suave cfg t t := ⟨id, rfl, fun _ _ _ h => h⟩

/-- A write to the data area is harmless. -/
theorem suave_memoria (m : Nat → UInt8) : Suave cfg t { t with memoria := m } :=
  ⟨fun h => h.memoria m, rfl, fun _ _ _ h => h.memoria m⟩

/-- A touch of a slot is harmless. -/
theorem suave_retoque {k : Particion → Particion} (hk : Retoque k) (q : Nat) :
    Suave cfg t (t.modificar q k) :=
  ⟨fun h => h.retoca hk q, etiquetas_modificar hk q, fun _ _ _ h => h.retoca hk q⟩

/-- A connection between its sections after `c` has moved outside them is
    another one, and was there before. -/
theorem entre_set {d : Nat} {f' : Fase} (hg : g.entreSecciones = false)
    (h : (s.fases.set c g)[d]? = some f') (hf' : f'.entreSecciones = true) :
    c ≠ d ∧ s.fases[d]? = some f' := by
  by_cases hcd : c = d
  · subst hcd
    rw [List.getElem?_set_self'] at h
    obtain ⟨f₀, -, heq⟩ := Option.map_eq_some_iff.mp h
    rw [show f' = g from heq.symm, hg] at hf'
    exact nomatch hf'
  · rw [List.getElem?_set_ne hcd] at h
    exact ⟨hcd, h⟩

/-- `f` among the other phases, from its index. -/
theorem mem_ajenas {d : Nat} (hcd : c ≠ d) (h : s.fases[d]? = some f) : f ∈ s.ajenas c := by
  obtain ⟨hlt, rfl⟩ := List.getElem?_eq_some_iff.mp h
  rw [Sistema.ajenas, List.mem_eraseIdx_iff_getElem]
  exact ⟨d, hlt, fun heq => hcd heq.symm, rfl⟩

/-- A harmless step outside the two sections keeps the invariant. -/
theorem AsignarInv.suave (h : AsignarInv cfg s) (hold : s.fases[c]? = some f)
    (hf : f.entreSecciones = false) (hg : g.entreSecciones = false)
    (hfases : s'.fases = s.fases.set c g) (ht : Suave cfg s.tabla s'.tabla)
    (hv : s'.vigentes = s.vigentes) : AsignarInv cfg s' := by
  refine ⟨?_, ?_, ?_⟩
  · intro d d' f' g' hd hd' hf' hg'
    rw [hfases] at hd hd'
    exact h.unica d d' f' g' (entre_set hg hd hf').2 (entre_set hg hd' hg').2 hf' hg'
  · intro hall
    rw [hfases] at hall
    obtain ⟨hs, hvig⟩ := h.quieta (by
      intro f' hf'
      obtain ⟨d, hd⟩ := List.getElem?_of_mem hf'
      by_cases hcd : c = d
      · subst hcd
        rw [hold] at hd
        rw [← Option.some.inj hd]
        exact hf
      · exact hall f' (List.mem_of_getElem? ((List.getElem?_set_ne hcd).trans hd)))
    rw [hv, ht.iguales]
    exact ⟨ht.sana hs, hvig⟩
  · intro d key pos n hd
    rw [hfases] at hd
    obtain ⟨E, hE, hvig⟩ := h.reservada d key pos n (entre_set hg hd rfl).2
    rw [hv]
    exact ⟨E, ht.reserva n pos E hE, hvig⟩

/-- With nobody between sections, the table has its layout. -/
theorem AsignarInv.sana (h : AsignarInv cfg s) (hold : s.fases[c]? = some f)
    (hf : f.entreSecciones = false) (haj : ∀ g ∈ s.ajenas c, g.entreSecciones = false) :
    Sana cfg s.tabla ∧ ∀ x ∈ s.vigentes, x ∈ etiquetas s.tabla := by
  refine h.quieta fun g hg => ?_
  rcases mem_fases hold hg with rfl | hg'
  · exact hf
  · exact haj g hg'

/-- A step to a table with its layout, nobody between sections. -/
theorem AsignarInv.de_sana (hall : ∀ f ∈ s.fases, f.entreSecciones = false)
    (hs : Sana cfg s.tabla) (hv : ∀ x ∈ s.vigentes, x ∈ etiquetas s.tabla) :
    AsignarInv cfg s := by
  refine ⟨fun d d' f' g' hd hd' hf' hg' => ?_, fun _ => ⟨hs, hv⟩, fun d key pos n hd => ?_⟩
  · rw [hall f' (List.mem_of_getElem? hd)] at hf'
    exact nomatch hf'
  · exact nomatch hall _ (List.mem_of_getElem? hd)

/-- The labels that are left. -/
theorem mem_sinClaves {ks : List Clave} {v : List (Clave × Nat)} {x : Clave × Nat} :
    x ∈ sinClaves ks v ↔ x ∈ v ∧ x.1 ∉ ks := by
  simp [sinClaves]

/-- The first section of `item_allocate`, alone: the slot it places is the one
    of its connection. -/
theorem AsignarInv.colocar {key : Clave} {n pos : Nat} {t' : TableInfo} (hcfg : ConfigCache cfg)
    (h : AsignarInv cfg s) (hf : s.fases[c]? = some .libre)
    (haj : ∀ g ∈ s.ajenas c, g.entreSecciones = false) (hseg : colocaSegura cfg e s.tabla key n)
    (ht : colocar cfg e s.tabla key n = some (t', pos)) :
    AsignarInv cfg { tabla := t', fases := s.fases.set c (.colocada key pos n)
                     vigentes := sinClaves (desalojadas s.tabla t' key) s.vigentes } := by
  obtain ⟨hs, hv⟩ := h.sana hf rfl haj
  obtain ⟨E, hE, hx⟩ := colocar_reserva hcfg hs hseg ht
  have hsolo : ∀ d f', (s.fases.set c (.colocada key pos n))[d]? = some f' →
      f'.entreSecciones = true → d = c ∧ f' = .colocada key pos n := by
    intro d f' hd hf'
    by_cases hcd : c = d
    · subst hcd
      rw [List.getElem?_set_self'] at hd
      obtain ⟨_, _, rfl⟩ := Option.map_eq_some_iff.mp hd
      exact ⟨rfl, rfl⟩
    · rw [List.getElem?_set_ne hcd] at hd
      rw [haj f' (mem_ajenas hcd hd)] at hf'
      exact nomatch hf'
  refine ⟨?_, ?_, ?_⟩
  · intro d d' f' g' hd hd' hf' hg'
    exact (hsolo d f' hd hf').1.trans (hsolo d' g' hd' hg').1.symm
  · intro hall
    have hlt := (List.getElem?_eq_some_iff.mp hf).1
    exact nomatch hall (.colocada key pos n) (List.mem_set hlt _)
  · intro d key' pos' n' hd
    obtain ⟨-, heq⟩ := hsolo d _ hd rfl
    obtain ⟨rfl, rfl, rfl⟩ := Fase.colocada.inj heq
    refine ⟨E, hE, ?_⟩
    intro y hy
    obtain ⟨hyv, hyk⟩ := mem_sinClaves.mp hy
    rcases hx y (hv y hyv) with hk | hyE
    · exact absurd hk hyk
    · exact hyE

/-- The second section: the placed slot becomes an item of the history. -/
theorem AsignarInv.crear {key : Clave} {n pos : Nat} (hcfg : ConfigCache cfg)
    (h : AsignarInv cfg s) (hf : s.fases[c]? = some (.colocada key pos n))
    (hg : g.entreSecciones = false) :
    AsignarInv cfg { tabla := Rc.crear cfg e s.tabla key pos n, fases := s.fases.set c g
                     vigentes := s.vigentes ++ [(key, n)] } := by
  obtain ⟨E, hE, hv⟩ := h.reservada c key pos n hf
  obtain ⟨hs, hx⟩ : Sana cfg (Rc.crear cfg e s.tabla key pos n)
      ∧ ∀ x ∈ E ++ [(key, n)], x ∈ etiquetas (Rc.crear cfg e s.tabla key pos n) := hE.crea hcfg
  refine AsignarInv.de_sana ?_ hs ?_
  · intro f' hf'
    by_contra hne
    have hne' : f'.entreSecciones = true := by simpa using hne
    obtain ⟨d, hd⟩ := List.getElem?_of_mem hf'
    obtain ⟨hcd, hd'⟩ := entre_set hg hd hne'
    exact hcd (h.unica c d _ f' hf hd' rfl hne')
  · intro y hy
    refine hx y ?_
    rcases List.mem_append.mp hy with hy | hy
    · exact List.mem_append_left _ (hv y hy)
    · exact List.mem_append_right _ hy

/-- A handle let go whose slot was not stored, alone: the item goes. -/
theorem AsignarInv.quitar {key : Clave} {t' : TableInfo} (hcfg : ConfigCache cfg)
    (h : AsignarInv cfg s) (hf : s.fases[c]? = some f) (hfe : f.entreSecciones = false)
    (haj : ∀ g ∈ s.ajenas c, g.entreSecciones = false)
    (hrem : micacheRemove s.tabla key = some t') :
    AsignarInv cfg { tabla := t', fases := s.fases.set c .libre
                     vigentes := sinClaves [key] s.vigentes } := by
  obtain ⟨hs, hv⟩ := h.sana hf hfe haj
  refine AsignarInv.de_sana ?_ (hs.quita hcfg hrem) ?_
  · intro f' hf'
    rcases mem_set_fase hf' with rfl | hf'
    · rfl
    · exact haj f' hf'
  · intro y hy
    obtain ⟨hyv, hyk⟩ := mem_sinClaves.mp hy
    rcases etiquetas_quita hrem y (hv y hyv) with hk | hy'
    · exact absurd (List.mem_singleton.mpr hk) hyk
    · exact hy'

/-- `flush_all`, alone. -/
theorem AsignarInv.limpiar (hcfg : ConfigCache cfg) (h : AsignarInv cfg s)
    (hf : s.fases[c]? = some .libre) (haj : ∀ g ∈ s.ajenas c, g.entreSecciones = false) :
    AsignarInv cfg { s with tabla := micacheClean s.tabla, vigentes := [] } := by
  obtain ⟨hs, -⟩ := h.sana hf rfl haj
  refine AsignarInv.de_sana ?_ (hs.limpia hcfg) nofun
  intro f' hf'
  rcases mem_fases hf hf' with rfl | hf'
  · rfl
  · exact haj f' hf'

/-- Nobody else is between sections when that would be a crossing. -/
theorem nadie_entre {P : Prop} (hcruce : ∀ g ∈ s.ajenas c, g.entreSecciones = true → P)
    (hno : ¬ P) : ∀ g ∈ s.ajenas c, g.entreSecciones = false :=
  fun g hg => Bool.eq_false_iff.mpr fun hne => hno (hcruce g hg hne)

/-- **STEP**: an uncrossed step keeps the invariant. -/
theorem AsignarInv.paso {x : Nat × Accion × Entorno} (hcfg : ConfigCache cfg)
    (h : AsignarInv cfg s) (hl : SinCruce cfg x s) (hr : paso cfg x s = some s') :
    AsignarInv cfg s' := by
  obtain ⟨c, accion, e⟩ := x
  obtain ⟨hcruce, hseg⟩ := hl
  have hp := paso_casos hr
  dsimp only at hcruce hseg
  cases hp with
  | nada hf => exact h
  | copiar hf hv =>
      obtain ⟨hc, heq⟩ := List.getElem?_eq_some_iff.mp hf
      exact h.suave hf rfl (by rw [heq]; rfl) (List.set_getElem_self hc).symm (suave_memoria _) rfl
  | guardar hf => exact h.suave hf rfl rfl rfl (suave_retoque (retoque_marcar true) _) rfl
  | marcar hf => exact h.suave hf rfl rfl rfl (suave_retoque (retoque_marcar false) _) rfl
  | buscar hf => exact h.suave hf rfl rfl rfl (Suave.refl _) rfl
  | borrar hf => exact h.suave hf rfl rfl rfl (Suave.refl _) rfl
  | usar hf ht =>
      rcases ht with rfl | rfl
      · exact h.suave hf rfl rfl rfl (suave_retoque (retoque_usar _) _) rfl
      · exact h.suave hf rfl rfl rfl (Suave.refl _) rfl
  | colocar hf hn ht =>
      have haj := nadie_entre hcruce fun hmal => Nat.not_lt.mpr hn (hmal hf)
      exact h.colocar hcfg hf haj (hseg hn) ht
  | crear hf => exact h.crear hcfg hf rfl
  | @soltar f pos t' hf hpos ht =>
      have hfe : f.entreSecciones = false := by
        cases f with
        | colocada => exact nomatch hpos
        | _ => rfl
      rcases itemRelease_casos ht with ⟨hst, rfl⟩ | ⟨hst, hrem⟩
      · exact h.suave hf hfe rfl rfl (Suave.refl _) (by simp only [hst, if_true])
      · have haj := nadie_entre hcruce fun hmal => by
          have hst' := hmal f hf pos hpos
          rw [hst] at hst'
          exact nomatch hst'
        simp only [hst, Bool.false_eq_true, if_false]
        exact h.quitar hcfg hf hfe haj hrem
  | limpiar hf => exact h.limpiar hcfg hf (nadie_entre hcruce fun hmal => hmal hf)

/-- The invariant holds at the start. -/
theorem sistemaInicial_asignarInv (hcfg : ConfigCache cfg) (m : Nat) :
    AsignarInv cfg (sistemaInicial cfg m) := by
  refine AsignarInv.de_sana ?_ (cacheInitialize_sana hcfg) nofun
  intro f hf
  rw [List.eq_of_mem_replicate hf]
  rfl

end Pasos

/-- **NO DOUBLE ALLOCATION** in a run without crossings whose keys fit their
    cells: two items that are still allocated under different keys hold
    different slots with disjoint data ranges. -/
theorem sin_dobles {cfg : Config} {m : Nat} {claves : Nat → UInt8}
    {acciones : List (Nat × Accion × Entorno)} {s : SistemaPlano} (hcfg : ConfigCache cfg)
    (hcortos : ∀ x ∈ acciones, PasoCorto x)
    (hcond : EnCadaPaso (pasoPlano cfg) (fun x s => SinCruce cfg x s.actual) acciones
      (sistemaPlanoInicial cfg m claves))
    (hr : corrida (pasoPlano cfg) acciones (sistemaPlanoInicial cfg m claves) = some s) :
    ∀ x ∈ s.vigentes, ∀ y ∈ s.vigentes, x.1 ≠ y.1 → Separadas s.plana.actual x y := by
  have hr' : corrida (paso cfg) acciones (sistemaInicial cfg m) = some s.actual := by
    rw [← corridaPlana_refina claves hcortos, hr, Option.map_some]
  have hinv : AsignarInv cfg s.actual := corrida_invariante (P := AsignarInv cfg)
    (fun _ _ _ h hl h' => h.paso hcfg hl h') acciones (sistemaInicial_asignarInv hcfg m)
    ((enCadaPasoPlano_iff claves hcortos).mp hcond) hr'
  intro x hx y hy hne
  by_cases hall : ∀ f ∈ s.actual.fases, f.entreSecciones = false
  · obtain ⟨hs, hv⟩ := hinv.quieta hall
    exact hs.separadas (hv x hx) (hv y hy) hne
  · simp only [not_forall] at hall
    obtain ⟨f, hf, hfe⟩ := hall
    obtain ⟨c, hc⟩ := List.getElem?_of_mem hf
    cases f with
    | colocada key pos n =>
        obtain ⟨E, hE, hv⟩ := hinv.reservada c key pos n hc
        exact hE.separadas (hv x hx) (hv y hy) hne
    | _ => exact absurd rfl hfe

/-- Connection 1 stores its item while connection 0 is between its sections. -/
def sinCruces : List (Nat × Accion × Entorno) :=
  [(1, .colocar [1] 3, entornoAsas), (1, .crear, entornoAsas), (0, .colocar [2] 2, entornoAsas),
   (1, .guardar, entornoAsas), (0, .crear, entornoAsas), (1, .soltar, entornoAsas)]

/-- The cache of the runs is in order. -/
theorem cacheAsas_config : ConfigCache cacheAsas := ⟨by decide, by decide, by decide⟩

/-- Two SETs that do not cross have separate items. -/
theorem sin_dobles_sinCruces : ∃ s,
    corrida (pasoPlano cacheAsas) sinCruces (sistemaPlanoInicial cacheAsas 2 fun _ => 0) = some s
      ∧ s.vigentes = [([1], 3), ([2], 2)] ∧ Separadas s.plana.actual ([1], 3) ([2], 2) := by
  have hv : (corrida (paso cacheAsas) sinCruces (sistemaInicial cacheAsas 2)).map
      (fun s => s.vigentes) = some [([1], 3), ([2], 2)] := by decide
  obtain ⟨s, hs, hvig⟩ := Option.map_eq_some_iff.mp hv
  have hcortos : ∀ x ∈ sinCruces, PasoCorto x := by
    simp [sinCruces, PasoCorto, Accion.Corta, antesCorta_asas]
  obtain ⟨p, hp, rfl⟩ := corridaPlana_de (fun _ => 0) hcortos hs
  have hvig' : p.vigentes = [([1], 3), ([2], 2)] := hvig
  refine ⟨p, hp, hvig', sin_dobles cacheAsas_config hcortos
    ((enCadaPasoPlano_iff _ hcortos).mpr (by decide)) hp _ ?_ _ ?_ (by decide)⟩
  · rw [hvig']; decide
  · rw [hvig']; decide

/-- Both connections place before either creates. -/
def cruce : List (Nat × Accion × Entorno) :=
  [(0, .colocar [1] 2, entornoAsas), (1, .colocar [2] 2, entornoAsas), (0, .crear, entornoAsas),
   (1, .crear, entornoAsas)]

/-- Then both items get slot 0, and the first one is in no slot. -/
theorem sin_dobles_falla : ∃ s,
    corrida (pasoPlano cacheAsas) cruce (sistemaPlanoInicial cacheAsas 2 fun _ => 0) = some s
      ∧ s.vigentes = [([1], 2), ([2], 2)] ∧ ¬ Separadas s.plana.actual ([1], 2) ([2], 2) := by
  have h : (corrida (paso cacheAsas) cruce (sistemaInicial cacheAsas 2)).map
      (fun s => (s.vigentes, s.tabla.elements.all fun p => !(p.ocupado && p.item.key == [1])))
      = some ([([1], 2), ([2], 2)], true) := by decide
  obtain ⟨s, hs, heq⟩ := Option.map_eq_some_iff.mp h
  obtain ⟨hv, hall⟩ := Prod.mk.inj heq
  have hcortos : ∀ x ∈ cruce, PasoCorto x := by
    simp [cruce, PasoCorto, Accion.Corta, antesCorta_asas]
  obtain ⟨q, hq, rfl⟩ := corridaPlana_de (fun _ => 0) hcortos hs
  refine ⟨q, hq, hv, ?_⟩
  rintro ⟨i, -, -, -, -, ⟨p, hp, ho, hk, -⟩, -⟩
  have := List.all_eq_true.mp hall p (List.mem_of_getElem? hp)
  simp [ho, hk] at this

end Rc
