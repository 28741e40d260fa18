import Yanero.Rachas
import Yanero.RcClavesProofs

/-! # What the searches choose

    Both searches go through the free runs of the table with a running sum, so
    they look at every streak of free slots, each as long as what they have
    read of it.  `first_fit` stops at the first streak with room
    (`firstFitBuscar_primera`) and `best_fit` keeps the one with the fewest
    bytes, the first of them (`bestFitBuscar_mejor`).  The holes of the table
    are the whole streaks, and what holds of the streaks passes to them. -/

namespace Rc

open Bucles Rachas

/-- A slot of a hole. -/
def hueca (s : Particion) : Bool := !s.ocupado && s.bytesDisponibles != 0

/-- The bytes of `k` slots from slot `p` on. -/
def bytesDe (l : List Particion) (p k : Nat) : Int := peso (·.bytesDisponibles) l p k

/-- A streak of free slots with room for `n` bytes and for a chunk. -/
structure Alcanza (c n : Nat) (l : List Particion) (p k : Nat) : Prop where
  racha : Racha hueca l p k
  pedido : (n : Int) ≤ bytesDe l p k
  chunk : (c : Int) ≤ bytesDe l p k

/-- The live slots come first. -/
def VivasPrimero (l : List Particion) : Prop :=
  ∃ L D, l = L ++ D ∧ (∀ s ∈ L, s.viva = true) ∧ ∀ s ∈ D, s.viva = false

section Busqueda

variable {c n : Nat} {l : List Particion} {p k p' k' : Nat} {s : Particion}

theorem hueca_iff : hueca s = true ↔ s.ocupado = false ∧ s.bytesDisponibles ≠ 0 := by
  simp [hueca]

theorem hueca_of_ocupado (h : s.ocupado = true) : hueca s = false := by simp [hueca, h]

theorem hueca_of_not_viva (h : s.viva = false) : hueca s = false := by
  simp only [Particion.viva, Bool.or_eq_false_iff] at h
  rw [hueca, h.2, Bool.and_false]

theorem Alcanza.alguna (h : Alcanza c n l p k) (hc : 0 < c) : 0 < k := by
  refine Nat.pos_of_ne_zero ?_
  rintro rfl
  have := h.chunk
  rw [bytesDe, peso_cero] at this
  omega

/-- No streak with room ends at a slot that is not of a hole. -/
theorem Alcanza.no_termina {i : Nat} (h : Alcanza c n l p k) (hc : 0 < c) (hs : l[i]? = some s)
    (hno : hueca s = false) : p + k ≠ i + 1 := by
  intro hfin
  rw [h.racha.ultima (h.alguna hc) hfin hs] at hno
  cases hno

/-! ## First fit -/

/-- What `first_fit` looks for: the streak with room that ends first. -/
def Primera (c n : Nat) (l : List Particion) : Option (Nat × Nat × Int) → Prop
  | none => ∀ p k, ¬ Alcanza c n l p k
  | some (p, k, total) => Alcanza c n l p k ∧ total = bytesDe l p k
      ∧ ∀ p' k', Alcanza c n l p' k' → p + k ≤ p' + k'

/-- The loop of `first_fit` in the middle of the streak `p`, `k`. -/
theorem firstFitBuscar_primera (hc : 0 < c) {D : List Particion} (hD : ∀ s ∈ D, s.viva = false) :
    ∀ (B antes : List Particion) (p k pos : Nat), l = antes ++ (B ++ D) →
      (∀ s ∈ B, s.viva = true) → p + k = antes.length → Racha hueca l p k → (0 < k → pos = p) →
      (∀ p' k', Alcanza c n l p' k' → antes.length < p' + k') →
      Primera c n l (firstFitBuscar c n (B ++ D) antes.length (bytesDe l p k) k pos) := by
  intro B
  induction B with
  | nil =>
      intro antes p k pos hl _ hpk hr _ hno
      have hsin : ∀ p' k', ¬ Alcanza c n l p' k' := by
        intro p' k' ha
        have hlt := hno p' k' ha
        have hfin := ha.racha.dentro
        obtain ⟨s, hs⟩ : ∃ s, l[p' + k' - 1]? = some s :=
          ⟨_, List.getElem?_eq_getElem (show p' + k' - 1 < l.length by omega)⟩
        refine ha.no_termina hc hs (hueca_of_not_viva (hD s ?_)) (by omega)
        rw [hl, List.nil_append, List.getElem?_append_right (by omega)] at hs
        exact List.mem_of_getElem? hs
      have hfalla : ¬ ((n : Int) ≤ bytesDe l p k ∧ (c : Int) ≤ bytesDe l p k) :=
        fun h => hsin p k ⟨hr, h.1, h.2⟩
      rw [List.nil_append, firstFitBuscar_muertas hD _ _ _ _ hfalla]
      exact hsin
  | cons s B ih =>
      intro antes p k pos hl hB hpk hr hpos hno
      have hs : l[antes.length]? = some s := by rw [hl]; simp
      have hl' : l = (antes ++ [s]) ++ (B ++ D) := by rw [hl]; simp
      have hlen : (antes ++ [s]).length = antes.length + 1 := by simp
      have hB' : ∀ u ∈ B, u.viva = true := fun u hu => hB u (List.mem_cons_of_mem s hu)
      rw [List.cons_append, firstFitBuscar]
      cases ho : s.ocupado with
      | true =>
          have hno' : ∀ p' k', Alcanza c n l p' k' → (antes ++ [s]).length < p' + k' := by
            intro p' k' ha
            have h1 := hno p' k' ha
            have h2 := ha.no_termina hc hs (hueca_of_ocupado ho)
            omega
          have hr' : Racha hueca l (antes.length + 1) 0 := by
            refine Racha.vacia ?_ fun q hq a ha => ?_
            · have := (List.getElem?_eq_some_iff.mp hs).1
              omega
            · obtain rfl : q = antes.length := by omega
              rw [hs] at ha
              rw [← Option.some.inj ha]
              exact hueca_of_ocupado ho
          have := ih (antes ++ [s]) (antes.length + 1) 0 pos hl' hB' (by omega) hr' (by omega) hno'
          rw [bytesDe, peso_cero, hlen] at this
          rwa [if_pos rfl]
      | false =>
          have hbd : s.bytesDisponibles ≠ 0 := by
            have := hB s List.mem_cons_self
            simpa [Particion.viva, ho] using this
          have hhueca : hueca s = true := hueca_iff.mpr ⟨ho, hbd⟩
          have hs' : l[p + k]? = some s := by rwa [hpk]
          have hr' := hr.crece hs' hhueca
          have hsuma : bytesDe l p k + s.bytesDisponibles = bytesDe l p (k + 1) :=
            (peso_succ _ hs').symm
          have hposp : (if (k == 0) = true then antes.length else pos) = p := by
            cases k with
            | zero => simpa using hpk.symm
            | succ k => simpa using hpos (Nat.succ_pos k)
          have hbne : (s.bytesDisponibles != 0) = true := by simpa using hbd
          rw [if_neg (by simp)]
          simp only [hbne, if_true, Bool.true_and, hsuma, hposp]
          split
          · next hok =>
            refine ⟨⟨hr', hok.1, hok.2⟩, rfl, fun p' k' ha => ?_⟩
            have := hno p' k' ha
            omega
          · next hok =>
            have hno' : ∀ p' k', Alcanza c n l p' k' → (antes ++ [s]).length < p' + k' := by
              intro p' k' ha
              have h1 := hno p' k' ha
              refine Nat.lt_of_le_of_ne (by omega) fun heq => ?_
              obtain ⟨rfl, rfl⟩ := ha.racha.unica hr' (ha.alguna hc) (Nat.succ_pos k) (by omega)
              exact hok ⟨ha.pedido, ha.chunk⟩
            have := ih (antes ++ [s]) p (k + 1) p hl' hB' (by omega) hr' (fun _ => rfl) hno'
            rwa [hlen] at this

/-! ## Best fit -/

/-- The best of the streaks with room that end at slot `i` or before; without
    one `min` is still one more than `e`. -/
def MejorHasta (c n : Nat) (e : Int) (l : List Particion) (i : Nat) (min : Int) :
    Option (Nat × Nat) → Prop
  | none => min = e + 1 ∧ ∀ p k, Alcanza c n l p k → p + k ≤ i → e < bytesDe l p k
  | some (q, j) => Alcanza c n l q j ∧ q + j ≤ i ∧ min = bytesDe l q j ∧ min ≤ e
      ∧ ∀ p k, Alcanza c n l p k → p + k ≤ i →
          min < bytesDe l p k ∨ min = bytesDe l p k ∧ q + j ≤ p + k

/-- What `best_fit` looks for: the streak with room of the fewest bytes, the
    one of them that ends first. -/
def Mejor (c n : Nat) (e : Int) (l : List Particion) : Option (Nat × Nat × Int) → Prop
  | none => ∀ p k, Alcanza c n l p k → e < bytesDe l p k
  | some (p, k, total) => Alcanza c n l p k ∧ total = bytesDe l p k ∧ total ≤ e
      ∧ ∀ p' k', Alcanza c n l p' k' →
          total < bytesDe l p' k' ∨ total = bytesDe l p' k' ∧ p + k ≤ p' + k'

theorem MejorHasta.min_le {e min : Int} {i : Nat} {mejor : Option (Nat × Nat)}
    (h : MejorHasta c n e l i min mejor) : min ≤ e + 1 := by
  cases mejor with
  | none => exact Int.le_of_eq h.1
  | some r => exact Int.le_trans h.2.2.2.1 (by omega)

/-- No streak with room weighs less than `min`. -/
theorem MejorHasta.menor {e min : Int} {i : Nat} {mejor : Option (Nat × Nat)}
    (h : MejorHasta c n e l i min mejor) (ha : Alcanza c n l p k) (hle : p + k ≤ i) :
    min ≤ bytesDe l p k := by
  cases mejor with
  | none =>
      have := h.2 p k ha hle
      have := h.1
      omega
  | some r =>
      rcases h.2.2.2.2 p k ha hle with hlt | heq
      · exact Int.le_of_lt hlt
      · exact Int.le_of_eq heq.1

/-- A streak that is not better is left aside. -/
theorem MejorHasta.sigue {e min : Int} {i : Nat} {mejor : Option (Nat × Nat)}
    (h : MejorHasta c n e l i min mejor)
    (hno : ∀ p k, Alcanza c n l p k → p + k = i + 1 → min ≤ bytesDe l p k) :
    MejorHasta c n e l (i + 1) min mejor := by
  cases mejor with
  | none =>
      refine ⟨h.1, fun p k ha hle => ?_⟩
      rcases Nat.lt_or_eq_of_le hle with hlt | heq
      · exact h.2 p k ha (by omega)
      · have := hno p k ha heq
        have := h.1
        omega
  | some r =>
      obtain ⟨hal, hfin, hmin, he, hmejor⟩ := h
      refine ⟨hal, by omega, hmin, he, fun p k ha hle => ?_⟩
      rcases Nat.lt_or_eq_of_le hle with hlt | heq
      · exact hmejor p k ha (by omega)
      · rcases Int.lt_or_eq_of_le (hno p k ha heq) with hlt | hbytes
        · exact Or.inl hlt
        · exact Or.inr ⟨hbytes, by omega⟩

/-- A better streak takes the place of the one kept. -/
theorem MejorHasta.mejora {e min : Int} {i : Nat} {mejor : Option (Nat × Nat)}
    (h : MejorHasta c n e l i min mejor) (hc : 0 < c) (ha : Alcanza c n l p k)
    (hfin : p + k = i + 1) (hlt : bytesDe l p k < min) :
    MejorHasta c n e l (i + 1) (bytesDe l p k) (some (p, k)) := by
  have hmin := h.min_le
  refine ⟨ha, by omega, rfl, by omega, fun p' k' ha' hle => ?_⟩
  rcases Nat.lt_or_eq_of_le hle with hlt' | heq
  · have := h.menor ha' (by omega)
    exact Or.inl (by omega)
  · obtain ⟨rfl, rfl⟩ := ha.racha.unica ha'.racha (ha.alguna hc) (ha'.alguna hc) (by omega)
    exact Or.inr ⟨rfl, Nat.le_refl _⟩

/-- The loop of `best_fit` in the middle of the streak `p`, `k`. -/
theorem bestFitBuscar_mejor (hc : 0 < c) {e : Int} :
    ∀ (B antes : List Particion) (p k pos : Nat) (min : Int) (mejor : Option (Nat × Nat)),
      l = antes ++ B → p + k = antes.length → Racha hueca l p k → (0 < k → pos = p) →
      MejorHasta c n e l antes.length min mejor →
      Mejor c n e l (bestFitBuscar c n B antes.length (bytesDe l p k) k pos min mejor) := by
  intro B
  induction B with
  | nil =>
      intro antes p k pos min mejor hl _ _ _ hm
      rw [List.append_nil] at hl
      have hdentro : ∀ {p k}, Alcanza c n l p k → p + k ≤ antes.length := by
        intro p k ha
        rw [← hl]
        exact ha.racha.dentro
      rw [bestFitBuscar]
      cases mejor with
      | none => exact fun p k ha => hm.2 p k ha (hdentro ha)
      | some r =>
          obtain ⟨hal, -, hmin, he, hmejor⟩ := hm
          exact ⟨hal, hmin, he, fun p k ha => hmejor p k ha (hdentro ha)⟩
  | cons s B ih =>
      intro antes p k pos min mejor hl hpk hr hpos hm
      have hs : l[antes.length]? = some s := by rw [hl]; simp
      have hl' : l = (antes ++ [s]) ++ B := by rw [hl]; simp
      have hlen : (antes ++ [s]).length = antes.length + 1 := by simp
      -- a slot that is not of a hole ends the streak
      have hcorta : hueca s = false →
          Mejor c n e l (bestFitBuscar c n B (antes.length + 1) 0 0 pos min mejor) := by
        intro hno
        have hr' : Racha hueca l (antes.length + 1) 0 := by
          refine Racha.vacia ?_ fun q hq a ha => ?_
          · have := (List.getElem?_eq_some_iff.mp hs).1
            omega
          · obtain rfl : q = antes.length := by omega
            rw [hs] at ha
            rwa [← Option.some.inj ha]
        have hm' : MejorHasta c n e l (antes.length + 1) min mejor :=
          hm.sigue fun p k ha heq => absurd heq (ha.no_termina hc hs hno)
        have := ih (antes ++ [s]) (antes.length + 1) 0 pos min mejor hl' (by omega) hr' (by omega)
          (by rwa [hlen])
        rwa [bytesDe, peso_cero, hlen] at this
      rw [bestFitBuscar]
      cases ho : s.ocupado with
      | true =>
          rw [if_pos rfl]
          exact hcorta (hueca_of_ocupado ho)
      | false =>
          rw [if_neg (by simp)]
          by_cases hbd : s.bytesDisponibles = 0
          · rw [if_neg (by simpa using hbd)]
            exact hcorta (by simp [hueca, hbd])
          · have hs' : l[p + k]? = some s := by rwa [hpk]
            have hr' := hr.crece hs' (hueca_iff.mpr ⟨ho, hbd⟩)
            have hsuma : bytesDe l p k + s.bytesDisponibles = bytesDe l p (k + 1) :=
              (peso_succ _ hs').symm
            have hposp : (if (k == 0) = true then antes.length else pos) = p := by
              cases k with
              | zero => simpa using hpk.symm
              | succ k => simpa using hpos (Nat.succ_pos k)
            rw [if_pos (by simpa using hbd)]
            simp only [hsuma, hposp]
            split
            · next hok =>
              have hm' := hm.mejora hc ⟨hr', hok.1, hok.2.1⟩ (by omega) hok.2.2
              have := ih (antes ++ [s]) p (k + 1) p _ _ hl' (by omega) hr' (fun _ => rfl)
                (by rwa [hlen])
              rwa [hlen] at this
            · next hok =>
              have hm' : MejorHasta c n e l (antes.length + 1) min mejor := by
                refine hm.sigue fun p' k' ha heq => ?_
                obtain ⟨rfl, rfl⟩ := ha.racha.unica hr' (ha.alguna hc) (Nat.succ_pos k) (by omega)
                by_contra hlt
                exact hok ⟨ha.pedido, ha.chunk, by omega⟩
              have := ih (antes ++ [s]) p (k + 1) p min mejor hl' (by omega) hr' (fun _ => rfl)
                (by rwa [hlen])
              rwa [hlen] at this

/-! ## The choice -/

/-- The streak a search chooses, from the table alone. -/
def Elegida (alg : AlgBusqueda) (t : TableInfo) (n p k : Nat) : Prop :=
  Alcanza t.sizeChunk n t.elements p k ∧
  match alg with
  | .firstFit => ∀ p' k', Alcanza t.sizeChunk n t.elements p' k' → p + k ≤ p' + k'
  | .bestFit => bytesDe t.elements p k ≤ t.espacioLibre
      ∧ ∀ p' k', Alcanza t.sizeChunk n t.elements p' k' →
          bytesDe t.elements p k < bytesDe t.elements p' k'
            ∨ bytesDe t.elements p k = bytesDe t.elements p' k' ∧ p + k ≤ p' + k'

variable {t : TableInfo}

theorem racha_cero (l : List Particion) : Racha hueca l 0 0 :=
  Racha.vacia (Nat.zero_le _) fun _ hq => nomatch hq

theorem primera_hueco (hc : 0 < t.sizeChunk) (hv : VivasPrimero t.elements) :
    Primera t.sizeChunk n t.elements (hueco .firstFit t n) := by
  obtain ⟨L, D, hes, hL, hD⟩ := hv
  have hno : ∀ p k, Alcanza t.sizeChunk n t.elements p k → 0 < p + k := fun p k ha =>
    Nat.lt_of_lt_of_le (ha.alguna hc) (Nat.le_add_left k p)
  have := firstFitBuscar_primera hc hD L [] 0 0 0 hes hL rfl (racha_cero _)
    (fun h => absurd h (Nat.lt_irrefl 0)) hno
  rwa [bytesDe, peso_cero, ← hes] at this

theorem mejor_hueco (hc : 0 < t.sizeChunk) :
    Mejor t.sizeChunk n t.espacioLibre t.elements (hueco .bestFit t n) := by
  have hm : MejorHasta t.sizeChunk n t.espacioLibre t.elements 0 (t.espacioLibre + 1) none := by
    refine ⟨rfl, fun p k ha hle => ?_⟩
    have := ha.alguna hc
    omega
  have := bestFitBuscar_mejor hc t.elements [] 0 0 0 _ none rfl rfl (racha_cero _)
    (fun h => absurd h (Nat.lt_irrefl 0)) hm
  rwa [bytesDe, peso_cero] at this

/-- Two choices end at the same slot. -/
theorem Elegida.fin_unico {alg : AlgBusqueda} (h : Elegida alg t n p k)
    (h' : Elegida alg t n p' k') : p + k = p' + k' := by
  cases alg with
  | firstFit => exact Nat.le_antisymm (h.2 p' k' h'.1) (h'.2 p k h.1)
  | bestFit =>
      have h1 := h.2.2 p' k' h'.1
      have h2 := h'.2.2 p k h.1
      omega

/-- **THE CHOICE**: a search finds the streak its algorithm chooses. -/
theorem hueco_iff_elegida {alg : AlgBusqueda} (hc : 0 < t.sizeChunk)
    (hv : VivasPrimero t.elements) {total : Int} :
    hueco alg t n = some (p, k, total) ↔ Elegida alg t n p k ∧ total = bytesDe t.elements p k := by
  have hida : ∀ {p k total}, hueco alg t n = some (p, k, total) →
      Elegida alg t n p k ∧ total = bytesDe t.elements p k := by
    intro p k total hh
    cases alg with
    | firstFit =>
        have h := primera_hueco (n := n) hc hv
        rw [hh] at h
        exact ⟨⟨h.1, h.2.2⟩, h.2.1⟩
    | bestFit =>
        have h := mejor_hueco (n := n) hc
        rw [hh] at h
        obtain ⟨hal, rfl, he, hmejor⟩ := h
        exact ⟨⟨hal, he, hmejor⟩, rfl⟩
  refine ⟨hida, ?_⟩
  rintro ⟨he, rfl⟩
  cases hh : hueco alg t n with
  | none =>
      exfalso
      cases alg with
      | firstFit =>
          have h := primera_hueco (n := n) hc hv
          rw [hh] at h
          exact h p k he.1
      | bestFit =>
          have h := mejor_hueco (n := n) hc
          rw [hh] at h
          exact absurd he.2.1 (Int.not_le.mpr (h p k he.1))
  | some r =>
      obtain ⟨q, j, total⟩ := r
      obtain ⟨he', rfl⟩ := hida hh
      obtain ⟨rfl, rfl⟩ := he.1.racha.unica he'.1.racha (he.1.alguna hc) (he'.1.alguna hc)
        (he.fin_unico he')
      rfl

/-! ## The merge -/

/-- The slots the merge leaves behind: those it copies from and does not write
    over afterwards. -/
def abandonadas (l : List Particion) (p k : Nat) : List Particion :=
  l.dropLast.drop (max (p + k) (l.length - k))

/-- The free bytes of a table. -/
def sumaDisponibles (l : List Particion) : Int := (l.map (·.bytesDisponibles)).sum

/-- A hole, cut out of its table. -/
theorem racha_corte (h : Racha hueca l p k) (hk : 0 < k) : ∃ A x H R, l = A ++ (x :: H ++ R)
    ∧ A.length = p ∧ H.length + 1 = k ∧ (∀ s ∈ x :: H, s.ocupado = false)
    ∧ bytesDe l p k = sumaDisponibles (x :: H) := by
  have hlen : ((l.drop p).take k).length = k := by
    have := h.dentro
    rw [List.length_take, List.length_drop]
    omega
  obtain ⟨x, H, hxH⟩ : ∃ x H, (l.drop p).take k = x :: H :=
    List.exists_cons_of_length_pos (by omega)
  refine ⟨l.take p, x, H, (l.drop p).drop k, ?_, ?_, ?_, ?_, ?_⟩
  · rw [← hxH, List.take_append_drop, List.take_append_drop]
  · have := h.dentro
    rw [List.length_take]
    omega
  · rw [hxH, List.length_cons] at hlen
    exact hlen
  · intro s hs
    rw [← hxH] at hs
    obtain ⟨i, hi, rfl⟩ := List.mem_iff_getElem.mp hs
    obtain ⟨a, ha, hhueca⟩ := h.todas (p + i) (by omega) (by omega)
    have hget : ((l.drop p).take k)[i]? = some a := by
      rw [List.getElem?_take_of_lt (by omega), List.getElem?_drop, ha]
    rw [List.getElem?_eq_getElem hi] at hget
    rw [Option.some.inj hget]
    exact (hueca_iff.mp hhueca).1
  · rw [bytesDe, peso, hxH]
    rfl

@[simp] theorem sumaDisponibles_append (A B : List Particion) :
    sumaDisponibles (A ++ B) = sumaDisponibles A + sumaDisponibles B := by
  simp [sumaDisponibles]

@[simp] theorem sumaDisponibles_cons (s : Particion) (B : List Particion) :
    sumaDisponibles (s :: B) = s.bytesDisponibles + sumaDisponibles B := rfl

theorem copiarDescriptor_disponibles (src dst : Particion) :
    (copiarDescriptor src dst).bytesDisponibles = src.bytesDisponibles := by
  unfold copiarDescriptor
  dsimp only
  split <;> rfl

/-- Slots without flag and free bytes count for nothing. -/
theorem anuladas_nada (H : List Particion) :
    ocupadas (H.map anulada) = [] ∧ sumaDisponibles (H.map anulada) = 0 := by
  constructor
  · rw [ocupadas, List.filter_eq_nil_iff]
    rintro s hs
    obtain ⟨u, -, rfl⟩ := List.mem_map.mp hs
    exact Bool.false_ne_true
  · refine List.sum_eq_zero fun x hx => ?_
    rw [List.map_map] at hx
    obtain ⟨u, -, rfl⟩ := List.mem_map.mp hx
    rfl

/-- What the merge leaves behind, on the table cut at the hole. -/
theorem abandonadas_corte {A H R : List Particion} {x : Particion} :
    abandonadas (A ++ (x :: H ++ R)) A.length (H.length + 1)
      = R.dropLast.drop (R.dropLast.length - H.length) := by
  unfold abandonadas
  cases hR : R with
  | nil =>
      rw [List.dropLast_nil, List.drop_nil, List.drop_eq_nil_iff]
      simp only [List.length_dropLast, List.length_append, List.length_cons, List.length_nil]
      omega
  | cons r R' =>
      have hne : r :: R' ≠ [] := List.cons_ne_nil r R'
      have hcorte : (A ++ (x :: H ++ r :: R')).dropLast
          = (A ++ x :: H) ++ (r :: R').dropLast := by
        rw [← List.append_assoc, List.dropLast_append_of_ne_nil hne]
      have hdonde : max (A.length + (H.length + 1))
            ((A ++ (x :: H ++ r :: R')).length - (H.length + 1))
          = (A ++ x :: H).length + ((r :: R').dropLast.length - H.length) := by
        simp only [List.length_append, List.length_cons, List.length_dropLast]
        omega
      rw [hcorte, hdonde, List.drop_append, Nat.add_sub_cancel_left,
        List.drop_eq_nil_of_le (Nat.le_add_right ..), List.nil_append]

/-- **MERGE**: the slots left behind are counted twice, and nothing else
    changes: the occupied slots keep their order and their contents, and the
    bytes of the hole are in its first slot. -/
theorem unirHueco_efecto (h : Racha hueca t.elements p k) (hk : 0 < k) :
    (∃ I F, ocupadas t.elements = I ++ F
      ∧ ocupadas (unirHueco t p k (bytesDe t.elements p k)).elements
        = I ++ (ocupadas (abandonadas t.elements p k) ++ F))
    ∧ sumaDisponibles (unirHueco t p k (bytesDe t.elements p k)).elements
      = sumaDisponibles t.elements + sumaDisponibles (abandonadas t.elements p k) := by
  obtain ⟨A, x, H, R, hes, rfl, rfl, hH, hbytes⟩ := racha_corte h hk
  have hxH : ocupadas (x :: H) = [] := by
    rw [ocupadas, List.filter_eq_nil_iff]
    intro s hs
    rw [hH s hs]
    exact Bool.false_ne_true
  have hx' : ∀ total (B : List Particion),
      ocupadas ({ x with bytesDisponibles := total } :: B) = ocupadas B := fun total B =>
    ocupadas_cons_of_false (s := { x with bytesDisponibles := total }) (hH x List.mem_cons_self) B
  rw [hbytes, hes, abandonadas_corte]
  by_cases hH0 : H = []
  · subst hH0
    have hel : (unirHueco t A.length 1 (sumaDisponibles [x])).elements
        = A ++ { x with bytesDisponibles := sumaDisponibles [x] } :: R := by
      simp only [unirHueco, hes, List.cons_append, List.nil_append, modify_mitad]
      rfl
    have hab : R.dropLast.drop (R.dropLast.length - ([] : List Particion).length) = [] := by
      rw [List.length_nil, Nat.sub_zero, List.drop_length]
    rw [hab]
    show (∃ I F, _ ∧ ocupadas (unirHueco t A.length 1 (sumaDisponibles [x])).elements = _)
      ∧ sumaDisponibles (unirHueco t A.length 1 (sumaDisponibles [x])).elements = _
    rw [hel]
    constructor
    · refine ⟨ocupadas A, ocupadas R, ?_, ?_⟩
      · rw [ocupadas_append, ocupadas_append, hxH, List.nil_append]
      · rw [ocupadas_append, hx', ocupadas_nil, List.nil_append]
    · simp [sumaDisponibles]
  · have hel := unirHueco_elements (sumaDisponibles (x :: H)) hes hH0
    have hlargo : R.dropLast.length ≤ (H.map anulada ++ R.dropLast).length := by simp
    have hzip : (List.zipWith copiarDescriptor R.dropLast (H.map anulada ++ R.dropLast)).map limpia
        = R.dropLast.map limpia := map_zipWith_copia limpia_copiarDescriptor _ _ hlargo
    have hocup : ocupadas (List.zipWith copiarDescriptor R.dropLast (H.map anulada ++ R.dropLast))
        = ocupadas R.dropLast := by
      rw [← ocupadas_map_limpia, hzip, ocupadas_map_limpia]
    have hsuma : sumaDisponibles
          (List.zipWith copiarDescriptor R.dropLast (H.map anulada ++ R.dropLast))
        = sumaDisponibles R.dropLast := by
      rw [sumaDisponibles, map_zipWith_copia copiarDescriptor_disponibles _ _ hlargo]
      rfl
    obtain ⟨hanu, hanu'⟩ := anuladas_nada (H.drop R.dropLast.length)
    have hsobra : (H.map anulada ++ R.dropLast).drop R.dropLast.length
        = (H.drop R.dropLast.length).map anulada
          ++ R.dropLast.drop (R.dropLast.length - H.length) := by
      rw [List.drop_append, List.length_map, List.map_drop]
    have hR : R = R.dropLast ++ R.drop (R.length - 1) := by
      rw [List.dropLast_eq_take]
      simp
    rw [hel, hsobra]
    constructor
    · refine ⟨ocupadas A ++ ocupadas R.dropLast, ocupadas (R.drop (R.length - 1)), ?_, ?_⟩
      · rw [ocupadas_append, ocupadas_append, hxH, List.nil_append, List.append_assoc,
          ← ocupadas_append R.dropLast, ← hR]
      · rw [ocupadas_append, hx']
        simp only [ocupadas_append, hocup, hanu, List.nil_append, List.append_assoc]
    · have hRs := congrArg sumaDisponibles hR
      rw [sumaDisponibles_append] at hRs
      simp only [sumaDisponibles_append, sumaDisponibles_cons, hsuma, hanu']
      omega

/-! ## What a search leaves -/

/-- What is seen of an occupied slot: the key, the address and the length of
    the value, the stored mark, the timestamp and the unusable bytes. -/
def ficha (s : Particion) : Clave × Nat × Nat × Bool × Nat × Int :=
  (s.item.key, s.item.data, s.item.ndata, s.item.stored, s.ultimaVezUsada, s.bytesInutilizados)

/-- The same items in the same order, and as many free bytes. -/
def MismosItems (t t' : TableInfo) : Prop :=
  (ocupadas t'.elements).map ficha = (ocupadas t.elements).map ficha
    ∧ sumaDisponibles t'.elements = sumaDisponibles t.elements

/-- No item and no free bytes among the slots the merge leaves behind. -/
def NadaDetras (l : List Particion) (p k : Nat) : Prop :=
  (∀ s ∈ abandonadas l p k, s.ocupado = false) ∧ sumaDisponibles (abandonadas l p k) = 0

theorem unirHueco_mismosItems_iff (h : Racha hueca t.elements p k) (hk : 0 < k) :
    MismosItems t (unirHueco t p k (bytesDe t.elements p k)) ↔ NadaDetras t.elements p k := by
  obtain ⟨⟨I, F, hantes, hdesp⟩, hsuma⟩ := unirHueco_efecto h hk
  have hvacia : ocupadas (abandonadas t.elements p k) = []
      ↔ ∀ s ∈ abandonadas t.elements p k, s.ocupado = false := by
    rw [ocupadas, List.filter_eq_nil_iff]
    simp only [Bool.not_eq_true]
  rw [MismosItems, NadaDetras, hantes, hdesp, hsuma, ← hvacia]
  constructor
  · rintro ⟨hlista, hbytes⟩
    have hlen := congrArg List.length hlista
    simp only [List.length_map, List.length_append] at hlen
    exact ⟨List.length_eq_zero_iff.mp (by omega), by omega⟩
  · rintro ⟨hnada, hbytes⟩
    rw [hnada, hbytes, List.nil_append, add_zero]
    exact ⟨rfl, rfl⟩

/-- A search changes no item and no count of bytes exactly when its merge
    leaves nothing behind. -/
theorem buscarLugar_items_iff (alg : AlgBusqueda) (t : TableInfo) (n : Nat)
    (hc : 0 < t.sizeChunk) (hv : VivasPrimero t.elements) :
    (∀ t' pos, buscarLugar alg t n = some (t', pos) → MismosItems t t')
      ↔ ∀ p k, Elegida alg t n p k → NadaDetras t.elements p k := by
  rw [buscarLugar_hueco]
  constructor
  · intro h p k he
    have hh : hueco alg t n = some (p, k, bytesDe t.elements p k) :=
      (hueco_iff_elegida hc hv).mpr ⟨he, rfl⟩
    rw [hh] at h
    exact (unirHueco_mismosItems_iff he.1.racha (he.1.alguna hc)).mp (h _ p rfl)
  · intro h t' pos hr
    obtain ⟨⟨p, k, total⟩, hh, heq⟩ := Option.map_eq_some_iff.mp hr
    obtain ⟨he, rfl⟩ := (hueco_iff_elegida hc hv).mp hh
    obtain ⟨rfl, rfl⟩ := Prod.mk.inj heq
    exact (unirHueco_mismosItems_iff he.1.racha (he.1.alguna hc)).mpr (h p k he)

/-- **SEARCHES AND ITEMS**: over an area with no key longer than its cell, a
    search changes no item, its key as read from the area included, and no
    count of bytes, exactly when its merge leaves nothing behind. -/
theorem buscarLugar_mismosItems_iff (alg : AlgBusqueda) (t : TableInfo) (claves : Nat → UInt8)
    (n : Nat) (hcortas : ∀ s ∈ t.elements, s.item.key.length ≤ 60) (hc : 0 < t.sizeChunk)
    (hv : VivasPrimero (sobreArea t claves).actual.elements) :
    (∀ p' pos, buscarLugarPlano alg (sobreArea t claves) n = some (p', pos) →
        MismosItems (sobreArea t claves).actual p'.actual)
      ↔ ∀ p k, Elegida alg (sobreArea t claves).actual n p k →
        NadaDetras (sobreArea t claves).actual.elements p k := by
  rw [← buscarLugar_items_iff alg (sobreArea t claves).actual n hc hv, buscarLugar_hueco]
  -- the area holds the keys of the merged table
  have hact : ∀ pos k total,
      (⟨unirHueco (sobreArea t claves).actual pos k total,
        clavesUnirHueco (sobreArea t claves).actual pos k total (sobreArea t claves).area⟩ :
          Plana).actual = unirHueco (sobreArea t claves).actual pos k total :=
    fun pos k total =>
      Plana.Bien.actual (unirHueco_area (sobreArea_area hcortas claves) pos k total)
  unfold buscarLugarPlano
  cases hueco alg (sobreArea t claves).actual n with
  | none => exact ⟨fun _ _ _ h => (nomatch h), fun _ _ _ h => (nomatch h)⟩
  | some r =>
      obtain ⟨pos, k, total⟩ := r
      constructor
      · intro h t' q hr
        obtain ⟨rfl, rfl⟩ := Prod.mk.inj (Option.some.inj hr)
        have := h _ _ rfl
        rwa [hact] at this
      · intro h p' q hr
        obtain ⟨rfl, rfl⟩ := Prod.mk.inj (Option.some.inj hr)
        rw [hact]
        exact h _ _ rfl

/-- An occupied slot of the examples. -/
def deOcho : Particion :=
  { item := { key := [97], data := 9, ndata := 8, stored := true }, ocupado := true }

/-- Two free slots, an item and `muertas` dead slots. -/
def tablaDos (muertas : Nat) : TableInfo :=
  { elements := libre 1 4 :: libre 5 4 :: deOcho :: List.replicate muertas Particion.vacia
    elementsAmount := 1
    espacioLibre := 8
    sizeChunk := 4 }

theorem vivasPrimero_tablaDos (muertas : Nat) : VivasPrimero (tablaDos muertas).elements :=
  ⟨[libre 1 4, libre 5 4, deOcho], List.replicate muertas Particion.vacia, rfl, by decide,
    fun s hs => by rw [List.eq_of_mem_replicate hs]; rfl⟩

/-- The table over an area in which every byte is the key of the item. -/
theorem tablaDos_actual (muertas : Nat) :
    (sobreArea (tablaDos muertas) fun _ => 97).actual = tablaDos muertas := by
  have hel : (sobreArea (tablaDos muertas) fun _ => 97).actual.elements
      = (tablaDos muertas).elements := by
    refine List.ext_getElem? fun i => ?_
    simp only [sobreArea, Plana.actual, List.getElem?_mapIdx]
    rcases i with _ | _ | _ | i
    · rfl
    · rfl
    · rfl
    · simp only [tablaDos, List.getElem?_cons_succ, List.getElem?_replicate]
      split <;> rfl
  exact congrArg (fun es => { tablaDos muertas with elements := es }) hel

/-- With two dead slots the search keeps the item. -/
theorem buscarLugar_mismosItems_dos : VivasPrimero (tablaDos 2).elements ∧ ∀ p' pos,
    buscarLugarPlano .firstFit (sobreArea (tablaDos 2) fun _ => 97) 8 = some (p', pos) →
      MismosItems (tablaDos 2) p'.actual := by
  have hact := tablaDos_actual 2
  have hiff := buscarLugar_mismosItems_iff .firstFit (tablaDos 2) (fun _ => 97) 8 (by decide)
    (by decide) (by rw [hact]; exact vivasPrimero_tablaDos 2)
  rw [hact] at hiff
  refine ⟨vivasPrimero_tablaDos 2, hiff.mpr fun p k he => ?_⟩
  -- the search chooses the two free slots
  have hh : hueco .firstFit (tablaDos 2) 8 = some (p, k, bytesDe (tablaDos 2).elements p k) :=
    (hueco_iff_elegida (by decide) (vivasPrimero_tablaDos 2)).mpr ⟨he, rfl⟩
  have hcual : hueco .firstFit (tablaDos 2) 8 = some (0, 2, 8) := by decide
  rw [hcual] at hh
  obtain ⟨rfl, hk⟩ := Prod.mk.inj (Option.some.inj hh)
  obtain ⟨rfl, -⟩ := Prod.mk.inj hk
  exact ⟨by decide, by decide⟩

/-- With one dead slot the item is in the table twice after either search. -/
theorem buscarLugar_mismosItems_falla : VivasPrimero (tablaDos 1).elements
    ∧ ∀ alg, ∃ p' pos,
      buscarLugarPlano alg (sobreArea (tablaDos 1) fun _ => 97) 8 = some (p', pos)
        ∧ ¬ MismosItems (tablaDos 1) p'.actual := by
  refine ⟨vivasPrimero_tablaDos 1, fun alg => ?_⟩
  have hdoble : (buscarLugarPlano alg (sobreArea (tablaDos 1) fun _ => 97) 8).map
      (fun r => (ocupadas r.1.actual.elements).length) = some 2 := by
    cases alg <;> decide
  obtain ⟨⟨p', pos⟩, hp, hlen⟩ := Option.map_eq_some_iff.mp hdoble
  refine ⟨p', pos, hp, fun hmismos => ?_⟩
  have := congrArg List.length hmismos.1
  rw [List.length_map, List.length_map, hlen] at this
  exact absurd this (by decide)

/-! ## Holes -/

/-- A hole with room for `n` bytes and for a chunk. -/
def HuecoGrande (t : TableInfo) (n p k : Nat) : Prop :=
  Entera hueca t.elements p k ∧ (max n t.sizeChunk : Int) ≤ bytesDe t.elements p k

/-- `t'` offers in slot `p` enough bytes of the hole that starts there. -/
def Ofrece (t : TableInfo) (n : Nat) (t' : TableInfo) (p : Nat) : Prop :=
  ∃ k, Entera hueca t.elements p k ∧ (t'.elements.getD p Particion.vacia).ocupado = false
    ∧ (max n t.sizeChunk : Int) ≤ (t'.elements.getD p Particion.vacia).bytesDisponibles
    ∧ (t'.elements.getD p Particion.vacia).bytesDisponibles ≤ bytesDe t.elements p k

/-- The first slot of the hole after the merge. -/
theorem unirHueco_primera (h : Racha hueca t.elements p k) (hk : 0 < k) (total : Int) :
    ((unirHueco t p k total).elements.getD p Particion.vacia).ocupado = false
      ∧ ((unirHueco t p k total).elements.getD p Particion.vacia).bytesDisponibles = total := by
  obtain ⟨A, x, H, R, hes, rfl, rfl, hH, -⟩ := racha_corte h hk
  have hx := hH x List.mem_cons_self
  by_cases hH0 : H = []
  · subst hH0
    have hel : (unirHueco t A.length 1 total).elements
        = A ++ { x with bytesDisponibles := total } :: R := by
      simp only [unirHueco, hes, List.cons_append, List.nil_append, modify_mitad]
      rfl
    rw [show ([] : List Particion).length + 1 = 1 from rfl, hel, getD_mitad]
    exact ⟨hx, rfl⟩
  · rw [unirHueco_elements total hes hH0, getD_mitad]
    exact ⟨hx, rfl⟩

theorem HuecoGrande.alcanza (h : HuecoGrande t n p k) : Alcanza t.sizeChunk n t.elements p k :=
  ⟨h.1.toRacha, Int.le_trans (Int.le_max_left ..) h.2, Int.le_trans (Int.le_max_right ..) h.2⟩

/-- A streak with room lies in a hole with room, when no count is negative. -/
theorem Alcanza.hueco (h : Alcanza t.sizeChunk n t.elements p k) (hc : 0 < t.sizeChunk)
    (hpos : ∀ s ∈ t.elements, 0 ≤ s.bytesDisponibles) :
    ∃ k', HuecoGrande t n p k' ∧ bytesDe t.elements p k ≤ bytesDe t.elements p k' := by
  obtain ⟨k', hle, hent⟩ := h.racha.entera (h.alguna hc)
  have hmono : bytesDe t.elements p k ≤ bytesDe t.elements p k' := peso_mono hpos hle
  exact ⟨k', ⟨hent, Int.le_trans (Int.max_le.mpr ⟨h.pedido, h.chunk⟩) hmono⟩, hmono⟩

/-- The slot a search returns offers bytes of its hole. -/
theorem Elegida.ofrece {alg : AlgBusqueda} (h : Elegida alg t n p k) (hc : 0 < t.sizeChunk)
    (hpos : ∀ s ∈ t.elements, 0 ≤ s.bytesDisponibles) :
    Ofrece t n (unirHueco t p k (bytesDe t.elements p k)) p := by
  obtain ⟨k', hgrande, hle⟩ := h.1.hueco hc hpos
  obtain ⟨ho, hb⟩ := unirHueco_primera h.1.racha (h.1.alguna hc) (bytesDe t.elements p k)
  refine ⟨k', hgrande.1, ho, ?_, ?_⟩
  · rw [hb]
    exact Int.max_le.mpr ⟨h.1.pedido, h.1.chunk⟩
  · rwa [hb]

/-- Either search fails exactly when no hole has room. -/
theorem buscarLugar_none_iff (alg : AlgBusqueda) (hc : 0 < t.sizeChunk)
    (hv : VivasPrimero t.elements) (hpos : ∀ s ∈ t.elements, 0 ≤ s.bytesDisponibles)
    (hlibre : sumaDisponibles t.elements ≤ t.espacioLibre) :
    buscarLugar alg t n = none ↔ ∀ p k, ¬ HuecoGrande t n p k := by
  rw [buscarLugar_hueco, Option.map_eq_none_iff]
  constructor
  · intro hh p k hgrande
    cases alg with
    | firstFit =>
        have h := primera_hueco (n := n) hc hv
        rw [hh] at h
        exact h p k hgrande.alcanza
    | bestFit =>
        have h := mejor_hueco (n := n) hc
        rw [hh] at h
        have hlt := h p k hgrande.alcanza
        have hle : bytesDe t.elements p k ≤ sumaDisponibles t.elements := peso_le_suma hpos p k
        omega
  · intro hno
    cases hh : hueco alg t n with
    | none => rfl
    | some r =>
        obtain ⟨p, k, total⟩ := r
        obtain ⟨he, -⟩ := (hueco_iff_elegida hc hv).mp hh
        obtain ⟨k', hgrande, -⟩ := he.1.hueco hc hpos
        exact absurd hgrande (hno p k')

/-- What a search returns, by its choice. -/
theorem buscarLugar_elegida {alg : AlgBusqueda} {t' : TableInfo} (hc : 0 < t.sizeChunk)
    (hv : VivasPrimero t.elements) (h : buscarLugar alg t n = some (t', p)) :
    ∃ k, Elegida alg t n p k ∧ t' = unirHueco t p k (bytesDe t.elements p k) := by
  rw [buscarLugar_hueco] at h
  obtain ⟨⟨q, k, total⟩, hh, heq⟩ := Option.map_eq_some_iff.mp h
  obtain ⟨he, rfl⟩ := (hueco_iff_elegida hc hv).mp hh
  obtain ⟨rfl, rfl⟩ := Prod.mk.inj heq
  exact ⟨k, he, rfl⟩

/-- A table with a negative count. -/
def tablaNegativa : TableInfo :=
  { elements := [libre 1 5, libre 6 (-3)], espacioLibre := 2, sizeChunk := 1 }

/-- A table without a chunk size. -/
def tablaSinChunk : TableInfo := { elements := [Particion.vacia] }

end Busqueda

end Rc
