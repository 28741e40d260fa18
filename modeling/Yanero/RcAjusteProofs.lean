import Yanero.RcReglas
import Yanero.RcClavesProofs

/-! # How tight the buddy search fits

    `buscarHueco` takes the first free block that holds the request and halves
    it while a half still does.  This file says what that leaves: the block at
    the slot it returns is no longer than needed, its other halves follow it
    as free blocks, and nothing else has changed but for its index.  An unused
    slot at the end of the table looks like a free block of no bytes, and a
    request of no bytes takes it when no block is free. -/

namespace Rc

open Bucles Teselado

/-- The halves split off a block of `F` bytes at `a` until `p` were left: free
    blocks that follow it, each as long as all before it. -/
def Mitades (a : Nat) : Int → List Particion → Int → Prop
  | p, [], F => p = F
  | p, h :: H, F => h = libre (a + p.toNat) p ∧ Mitades a (2 * p) H F

/-- The halves weigh what the block has lost. -/
theorem Mitades.suma {a c : Nat} {F : Int} : ∀ {p : Int} {H : List Particion},
    Mitades a p H F → p + (H.map (largoBuddy c)).sum = F := by
  intro p H h
  induction H generalizing p with
  | nil =>
      have hp : p = F := h
      simpa using hp
  | cons b H ih =>
      obtain ⟨rfl, hH⟩ := h
      have := ih hH
      simp only [List.map_cons, List.sum_cons, largoBuddy_libre]
      omega

/-- Halves of a chunk or more are at most as many as the chunks they hold. -/
theorem Mitades.chunks {a c : Nat} {F : Int} : ∀ {p : Int} {H : List Particion},
    (c : Int) ≤ p → Mitades a p H F → p + c * H.length ≤ F := by
  intro p H hc h
  induction H generalizing p with
  | nil =>
      have hp : p = F := h
      simp [hp]
  | cons b H ih =>
      have := ih (by omega) h.2
      rw [List.length_cons]
      push_cast
      linarith

/-- A table of `2 ^ k` slots over the data area at `p`: its live slots come
    first, tile the area, and have lengths `size_chunk * 2 ^ j`. -/
structure AreaBuddy (t : TableInfo) (p : Int) (k : Nat) (L D : List Particion) : Prop where
  chunk : 0 < t.sizeChunk
  slots : t.tableMaxSize = 2 ^ k
  tabla : t.elements = L ++ D
  vivas : ∀ s ∈ L, s.viva = true
  sobran : ∀ s ∈ D, s.viva = false
  tesela : Tesela inicio (largoBuddy t.sizeChunk) p L (p + t.sizeChunk * 2 ^ k)
  potencia : ∀ s ∈ L, ∃ j : Nat, largoBuddy t.sizeChunk s = t.sizeChunk * 2 ^ j

/-- What the search made of block `f`, between `A` and `R`: block `x` at its
    address, followed by the halves `H`.  The table has lost as many unused
    slots `Z` at its end, and nothing else has changed. -/
structure Corte (t t' : TableInfo) (A R Z H : List Particion) (f x : Particion) : Prop where
  antes : vista t = A ++ f :: (R ++ Z)
  tras : vista t' = A ++ x :: (H ++ R)
  libre : f.ocupado = false
  data : x.item.data = f.item.data
  mitades : Mitades f.item.data x.bytesDisponibles H f.bytesDisponibles
  sobran : ∀ z ∈ Z, z.viva = false
  slots : Z.length = H.length
  marco : t' = { t with elements := t'.elements }

/-- **A TIGHT FIT** of `n` bytes at slot `i`. -/
def Ajusta (t t' : TableInfo) (n i : Nat) : Prop :=
  ∃ A R Z H f x, Corte t t' A R Z H f x ∧ A.length = i
    ∧ (n : Int) ≤ x.bytesDisponibles ∧ (t.sizeChunk : Int) ≤ x.bytesDisponibles
    ∧ (x.bytesDisponibles = t.sizeChunk ∨ x.bytesDisponibles.tdiv 2 < n)
    ∧ x.bytesDisponibles + ((A ++ (H ++ R)).map (largoBuddy t.sizeChunk)).sum
      = ((vista t).map (largoBuddy t.sizeChunk)).sum

section Cortes

variable {t u : TableInfo} {A B R Z H L D : List Particion} {f x : Particion} {p : Int}
  {k n i : Nat}

theorem largoBuddy_sin_vida {c : Nat} {s : Particion} (h : s.viva = false) :
    largoBuddy c s = 0 := by
  simp only [Particion.viva, Bool.or_eq_false_iff, bne_eq_false_iff_eq] at h
  rw [largoBuddy_of_libre h.1, h.2]

theorem suma_sin_vida {c : Nat} (h : ∀ s ∈ D, s.viva = false) :
    (D.map (largoBuddy c)).sum = 0 := by
  refine List.sum_eq_zero fun y hy => ?_
  obtain ⟨s, hs, rfl⟩ := List.mem_map.mp hy
  exact largoBuddy_sin_vida (h s hs)

/-- The uncut block. -/
theorem Corte.entero (hv : vista t = A ++ f :: R) (hf : f.ocupado = false) :
    Corte t t A R [] [] f f :=
  ⟨by simpa using hv, hv, hf, rfl, rfl, by simp, rfl, rfl⟩

/-- The cut keeps the total of all lengths. -/
theorem Corte.total (h : Corte t u A R Z H f x) (c : Nat) :
    x.bytesDisponibles + ((A ++ (H ++ R)).map (largoBuddy c)).sum
      = ((vista t).map (largoBuddy c)).sum := by
  have hm := h.mitades.suma (c := c)
  have hz := suma_sin_vida (c := c) h.sobran
  rw [h.antes]
  simp only [List.map_append, List.map_cons, List.sum_append, List.sum_cons,
    largoBuddy_of_libre h.libre, hz]
  omega

/-- **ONE MORE HALVING** of the block, with an unused slot at the end. -/
theorem Corte.parte {d : Particion} {part : Int} (e : Entorno)
    (h : Corte t u A (R ++ [d]) Z H f x) (hd : d.viva = false)
    (hx : x.bytesDisponibles = 2 * part) :
    ∃ x', Corte t (desplazarUnoAbajo e u A.length part) A R (d :: Z)
      (Rc.libre (f.item.data + part.toNat) part :: H) f x' ∧ x'.bytesDisponibles = part := by
  obtain ⟨A₀, x₀, R₀, hes, hA, hx₀, hR⟩ := vista_parte h.tras
  rw [← List.append_assoc] at hR
  obtain ⟨Q, Y, rfl, hQ, hY⟩ := List.map_eq_append_iff.mp hR
  obtain ⟨y, rfl, -⟩ := List.map_eq_singleton_iff.mp hY
  have hdata : x₀.item.data = f.item.data := by rw [← limpia_data, hx₀, h.data]
  have hlen : A₀.length = A.length := by rw [← hA, List.length_map]
  have hv := desplazarUnoAbajo_vista e part hes
  rw [hA, hQ, hdata, hlen] at hv
  obtain ⟨A₁, x₁, R₁, hes₁, hA₁, hR₁, hd₁, hb₁⟩ := soltar_parte hv rfl
  refine ⟨limpia x₁, ⟨?_, ?_, h.libre, ?_, ?_, ?_, ?_, ?_⟩, ?_⟩
  · rw [h.antes]; simp
  · rw [vista, hes₁, List.map_append, List.map_cons, hA₁, hR₁]
    rfl
  · rw [limpia_data, hd₁, libre_data]
  · rw [limpia_disponibles, hb₁, libre_disponibles]
    exact ⟨rfl, by rw [← hx]; exact h.mitades⟩
  · intro z hz
    rcases List.mem_cons.mp hz with rfl | hz
    · exact hd
    · exact h.sobran z hz
  · simp [h.slots]
  · exact congrArg (fun v : TableInfo =>
      { v with elements := (desplazarUnoAbajo e u A.length part).elements }) h.marco
  · rw [limpia_disponibles, hb₁, libre_disponibles]

/-- A block of two chunks or more leaves an unused slot at the end. -/
theorem Corte.sobra {c : Nat} (h : Corte t u A (B ++ D) Z H f x) (hc : 0 < c)
    (hA : ∀ s ∈ A, (c : Int) ≤ largoBuddy c s) (hB : ∀ s ∈ B, (c : Int) ≤ largoBuddy c s)
    (htot : ((A ++ f :: B).map (largoBuddy c)).sum = c * 2 ^ k) (hslots : t.tableMaxSize = 2 ^ k)
    (hx : 2 * (c : Int) ≤ x.bytesDisponibles) : D ≠ [] := by
  rintro rfl
  have h1 := suma_minima hA
  have h2 := suma_minima hB
  have h3 := h.mitades.chunks (c := c) (by omega)
  have hn : A.length + 1 + B.length + H.length = 2 ^ k := by
    rw [← hslots, ← length_vista, h.antes, ← h.slots]
    simp only [List.length_append, List.length_cons, List.length_nil]
    omega
  simp only [List.map_append, List.map_cons, List.sum_append, List.sum_cons,
    largoBuddy_of_libre h.libre] at htot
  -- one chunk more than the area has
  have hlt : (c : Int) * (A.length + 1 + B.length + H.length) + c ≤ c * 2 ^ k := by linarith
  have hn' : ((A.length + 1 + B.length + H.length : Nat) : Int) = 2 ^ k := by
    rw [hn]; push_cast; rfl
  push_cast at hn'
  rw [hn'] at hlt
  omega

/-- The search at a live free block. -/
theorem buscarHueco_corte {e : Entorno} {t' : TableInfo} {s : Particion}
    (h : AreaBuddy t p k (A ++ s :: B) D) (hs : s.ocupado = false)
    (hle : (n : Int) ≤ s.bytesDisponibles)
    (hr : partir e n A.length e.vueltas (s.bytesDisponibles.tdiv 2) t = some t') :
    Ajusta t t' n A.length := by
  have hc := h.chunk
  have hlargo : ∀ u ∈ A ++ s :: B, (t.sizeChunk : Int) ≤ largoBuddy t.sizeChunk u :=
    fun u hu => potencia_le (h.potencia u hu)
  have htot : (((A.map limpia) ++ limpia s :: B.map limpia).map (largoBuddy t.sizeChunk)).sum
      = t.sizeChunk * 2 ^ k := by
    have hsum := suma_of_tesela h.tesela
    have heq : ((A.map limpia) ++ limpia s :: B.map limpia).map (largoBuddy t.sizeChunk)
        = (A ++ s :: B).map (largoBuddy t.sizeChunk) := by
      simp [Function.comp_def, largoBuddy_limpia]
    rw [heq]
    omega
  have hpot : ∃ j : Nat, s.bytesDisponibles = t.sizeChunk * 2 ^ j := by
    rw [← largoBuddy_of_libre hs]
    exact h.potencia s (by simp)
  have hv : vista t = A.map limpia ++ limpia s :: (B.map limpia ++ D.map limpia) := by
    simp [vista, h.tabla]
  -- the block is whole, then cut in halves while one of them holds the request
  obtain ⟨part, ⟨D₁, Z, H, x, hcor, hsob, hn, hx, hpart⟩, hfin⟩ := partir_regla
    (P := fun part u => ∃ D₁ Z H x, Corte t u (A.map limpia) (B.map limpia ++ D₁) Z H (limpia s) x
      ∧ (∀ d ∈ D₁, d.viva = false) ∧ (n : Int) ≤ x.bytesDisponibles
      ∧ (∃ j : Nat, x.bytesDisponibles = t.sizeChunk * 2 ^ j)
      ∧ (part = x.bytesDisponibles.tdiv 2
        ∨ part = -1 ∧ x.bytesDisponibles.tdiv 2 < t.sizeChunk))
    (by
      rintro u part ⟨D₁, Z, H, x, hcor, hsob, -, hx, hpart⟩ hle hcp
      have hch : u.sizeChunk = t.sizeChunk := by rw [hcor.marco]
      rw [hch] at hcp
      have hhalf : part = x.bytesDisponibles.tdiv 2 := by
        rcases hpart with hp | ⟨hp, -⟩
        · exact hp
        · omega
      obtain ⟨hdos, j, hj⟩ := mitad_potencia hc hx (by rw [← hhalf]; exact hcp)
      rw [← hhalf] at hdos hj
      have hne := hcor.sobra hc
        (by
          intro u hu
          obtain ⟨v, hv, rfl⟩ := List.mem_map.mp hu
          rw [largoBuddy_limpia]
          exact hlargo v (by simp [hv]))
        (by
          intro u hu
          obtain ⟨v, hv, rfl⟩ := List.mem_map.mp hu
          rw [largoBuddy_limpia]
          exact hlargo v (by simp [hv]))
        htot h.slots (by omega)
      obtain ⟨D₂, d, rfl⟩ : ∃ D₂ d, D₁ = D₂ ++ [d] :=
        ⟨D₁.dropLast, D₁.getLast hne, (List.dropLast_append_getLast hne).symm⟩
      rw [← List.append_assoc] at hcor
      obtain ⟨x', hcor', hx'⟩ := hcor.parte e (hsob d (by simp)) hdos
      rw [List.length_map] at hcor'
      exact ⟨D₂, _, _, x', hcor', fun z hz => hsob z (by simp [hz]), by omega,
        ⟨j, by rw [hx', hj]⟩, Or.inl (by rw [hx'])⟩)
    (by
      rintro u part ⟨D₁, Z, H, x, hcor, hsob, hn, hx, hpart⟩ hlt
      have hch : u.sizeChunk = t.sizeChunk := by rw [hcor.marco]
      refine ⟨D₁, Z, H, x, hcor, hsob, hn, hx, Or.inr ⟨rfl, ?_⟩⟩
      rcases hpart with hp | ⟨-, hp⟩
      · rw [← hp, ← hch]
        exact hlt
      · exact hp)
    e.vueltas
    ⟨D.map limpia, [], [], limpia s, Corte.entero hv (by simpa using hs),
      by
        intro d hd
        obtain ⟨v, hv, rfl⟩ := List.mem_map.mp hd
        rw [limpia_viva]
        exact h.sobran v hv,
      by simpa using hle, by simpa using hpot, Or.inl (by rw [limpia_disponibles])⟩ hr
  refine ⟨_, _, Z, H, limpia s, x, hcor, List.length_map _, hn, potencia_le hx, ?_,
    hcor.total _⟩
  rcases hpart with hp | ⟨-, hp⟩
  · rw [← hp]
    exact Or.inr hfin
  · exact Or.inl (potencia_chica hx hp)

/-- The slot the search stands at: free, and the first that holds the
    request. -/
theorem buscarHueco_slot {e : Entorno} {t' : TableInfo}
    (hr : buscarHueco e t n = some (some (t', i))) :
    ∃ A s B, t.elements = A ++ s :: B ∧ A.length = i ∧ s.ocupado = false
      ∧ (n : Int) ≤ s.bytesDisponibles
      ∧ (∀ u ∈ A, u.ocupado = false → u.bytesDisponibles < (n : Int))
      ∧ partir e n i e.vueltas (s.bytesDisponibles.tdiv 2) t = some t' := by
  obtain ⟨hh, hp⟩ := buscarHueco_casos hr
  obtain ⟨A, s, B, hes, rfl, hs, hA⟩ := findIdx?_parte hh
  simp only [Bool.and_eq_true, Bool.not_eq_true', decide_eq_true_eq] at hs
  rw [hes, getD_mitad] at hp
  refine ⟨A, s, B, hes, rfl, hs.1, hs.2, ?_, hp⟩
  intro u hu hlib
  have := hA u hu
  simp only [hlib, Bool.not_false, Bool.true_and, decide_eq_false_iff_not] at this
  omega

/-- The slot of a tight fit has a chunk or more. -/
theorem Ajusta.chunk_le {t' : TableInfo} (h : Ajusta t t' n i) :
    (t.sizeChunk : Int) ≤ (t'.elements.getD i Particion.vacia).bytesDisponibles := by
  obtain ⟨A, R, Z, H, f, x, hcor, rfl, -, hchunk, -⟩ := h
  obtain ⟨A₀, x₀, R₀, hes, rfl, rfl, -⟩ := vista_parte hcor.tras
  rw [limpia_disponibles] at hchunk
  rw [hes, List.length_map, getD_mitad]
  exact hchunk

/-- The fit is tight for every request exactly when it is not empty, or some
    block is free, or no slot is unused. -/
theorem buscarHueco_justo_iff (h : AreaBuddy t p k L D) :
    (∀ e t' i, AntesCorta e → buscarHueco e t n = some (some (t', i)) → Ajusta t t' n i)
      ↔ 0 < n ∨ (∃ s ∈ t.elements, s.viva = true ∧ s.ocupado = false)
        ∨ ∀ s ∈ t.elements, s.viva = true := by
  have hpos : ∀ s ∈ L, s.ocupado = false → 0 < s.bytesDisponibles := by
    intro s hs ho
    have := potencia_le (h.potencia s hs)
    rw [largoBuddy_of_libre ho] at this
    have := h.chunk
    omega
  constructor
  · intro hall
    by_contra hno
    rw [not_or, not_or] at hno
    obtain ⟨hn, hocup, hmuerta⟩ := hno
    obtain rfl : n = 0 := by omega
    push Not at hocup hmuerta
    obtain ⟨d, hd, hdv⟩ := hmuerta
    obtain ⟨hdo, hdb⟩ : d.ocupado = false ∧ d.bytesDisponibles = 0 := by
      simpa [Particion.viva] using hdv
    -- the search takes the first unused slot
    obtain ⟨i, hh⟩ : ∃ i, huecoBuddy t 0 = some i := by
      refine Option.isSome_iff_exists.mp ?_
      rw [huecoBuddy, List.findIdx?_isSome, List.any_eq_true]
      exact ⟨d, hd, by simp [hdo, hdb]⟩
    obtain ⟨A, s, B, hes, rfl, hs, -⟩ := findIdx?_parte hh
    have ho : s.ocupado = false := by
      simp only [Bool.and_eq_true, Bool.not_eq_true'] at hs
      exact hs.1
    have hb : s.bytesDisponibles = 0 := by
      by_contra hne
      exact hocup s (by rw [hes]; simp) (by simp [Particion.viva, hne]) ho
    have hget : t.elements.getD A.length Particion.vacia = s := by
      rw [hes]; exact getD_mitad _ _ _ _
    have hrun : buscarHueco ⟨fun _ => {}, fun _ => {}, fun _ => 0, 0, 2⟩ t 0
        = some (some (t, A.length)) := by
      simp only [buscarHueco, hh, hget, hb]
      simp [partir, h.chunk.ne']
    have he : AntesCorta ⟨fun _ => {}, fun _ => {}, fun _ => 0, 0, 2⟩ := by
      intro m hm
      cases hm
    have hle := (hall _ _ _ he hrun).chunk_le
    rw [hget, hb] at hle
    have := h.chunk
    omega
  · intro hcond e t' i _ hr
    obtain ⟨A, s, B, hes, rfl, ho, hle, hant, hp⟩ := buscarHueco_slot hr
    have heq : A ++ s :: B = L ++ D := by rw [← hes, h.tabla]
    -- the slot is live: an unused one comes after every live free block
    have hviva : s.viva = true := by
      rcases hcond with hn | ⟨u, hu, huv, huo⟩ | hall
      · have hne : s.bytesDisponibles ≠ 0 := by omega
        simp [Particion.viva, hne]
      · by_contra hsv
        have huL : u ∈ L := by
          rw [h.tabla] at hu
          rcases List.mem_append.mp hu with hu | hu
          · exact hu
          · rw [h.sobran u hu] at huv
            cases huv
        have huA : u ∈ A := by
          rcases List.append_eq_append_iff.mp heq with ⟨a, rfl, ha⟩ | ⟨b, rfl, -⟩
          · cases a with
            | nil => simpa using huL
            | cons v a =>
                rw [List.cons_append, List.cons.injEq] at ha
                exact absurd (h.vivas s (by rw [ha.1]; simp)) hsv
          · exact List.mem_append_left _ huL
        have hb : s.bytesDisponibles = 0 := by
          simpa [Particion.viva, ho] using hsv
        have h1 := hant u huA huo
        have h2 := hpos u huL huo
        omega
      · exact hall s (by rw [hes]; simp)
    obtain ⟨B', rfl, rfl⟩ := parte_prefijo (P := fun s : Particion => s.viva = true) heq
      (fun d hd hv => by rw [h.sobran d hd] at hv; cases hv) hviva
    exact buscarHueco_corte h ho hle hp

/-- **THE FIT IS TIGHT** for every request over an area with no key longer than
    its cell, the other slots keeping their keys as read from the area, exactly
    when the request is not empty, or some block is free, or no slot is
    unused. -/
theorem buscarHueco_ajusta_iff {claves : Nat → UInt8}
    (hcortas : ∀ s ∈ t.elements, s.item.key.length ≤ 60)
    (h : AreaBuddy (sobreArea t claves).actual p k L D) :
    (∀ e p' i, AntesCorta e → buscarHuecoPlano e (sobreArea t claves) n = some (some (p', i)) →
        Ajusta (sobreArea t claves).actual p'.actual n i)
      ↔ 0 < n ∨ (∃ s ∈ (sobreArea t claves).actual.elements, s.viva = true ∧ s.ocupado = false)
        ∨ ∀ s ∈ (sobreArea t claves).actual.elements, s.viva = true := by
  rw [← buscarHueco_justo_iff h]
  -- the area holds the keys of the table the search leaves
  have hact : ∀ {e t' i}, AntesCorta e →
      buscarHueco e (sobreArea t claves).actual n = some (some (t', i)) →
      (⟨t', clavesBuscarHueco e (sobreArea t claves).actual n (sobreArea t claves).area⟩ :
        Plana).actual = t' := fun he hr =>
    Plana.Bien.actual (buscarHueco_area he (sobreArea_area hcortas claves) hr)
  constructor
  · intro hall e t' i he hr
    rw [← hact he hr]
    refine hall e _ i he ?_
    rw [buscarHuecoPlano, hr]
    rfl
  · intro hall e p' i he hr
    obtain ⟨r, hb, h2⟩ := Option.map_eq_some_iff.mp hr
    obtain ⟨⟨t', j⟩, rfl, heq⟩ := Option.map_eq_some_iff.mp h2
    obtain ⟨rfl, rfl⟩ := Prod.mk.inj heq
    rw [hact he hb]
    exact hall e t' j he hb

end Cortes

/-- Two chunks of four bytes, free in one block. -/
def dosChunksLibres : TableInfo :=
  { elements := [libre 100 8, Particion.vacia], sizeChunk := 4 }

/-- The free block over an area of zeros. -/
def dosLibres : Plana := sobreArea dosChunksLibres fun _ => 0

theorem dosLibres_area :
    AreaBuddy dosLibres.actual 100 1 [libre 100 8] [Particion.vacia] :=
  ⟨by decide, rfl, rfl, by decide, by decide, by decide, by
    intro s hs
    obtain rfl := List.mem_singleton.mp hs
    exact ⟨1, rfl⟩⟩

theorem buscarHueco_ajusta_mitad : ∃ p', buscarHuecoPlano entornoDiez dosLibres 3
    = some (some (p', 0)) ∧ Ajusta dosLibres.actual p'.actual 3 0 := by
  obtain ⟨p', hp⟩ : ∃ p', buscarHuecoPlano entornoDiez dosLibres 3 = some (some (p', 0)) :=
    ⟨_, rfl⟩
  exact ⟨p', hp, (buscarHueco_ajusta_iff (by decide) dosLibres_area).mpr (by decide) _ _ _
    antesCorta_diez hp⟩

/-- The same two chunks under one item of eight bytes. -/
def dosChunksLlenos : TableInfo :=
  { elements := [{ item := { key := [1], data := 100, ndata := 8, stored := true }
                   ocupado := true }, Particion.vacia]
    elementsAmount := 1
    sizeChunk := 4 }

/-- The item over an area of ones. -/
def dosLlenos : Plana := sobreArea dosChunksLlenos fun _ => 1

/-- **AN UNUSED SLOT IS TAKEN FOR A FREE BLOCK** by a request of no bytes: it
    gets the second slot, which has no memory. -/
theorem buscarHueco_ajusta_falla :
    (∃ L D, AreaBuddy dosLlenos.actual 100 1 L D)
      ∧ ∃ p', buscarHuecoPlano entornoDiez dosLlenos 0 = some (some (p', 1))
        ∧ ¬ Ajusta dosLlenos.actual p'.actual 0 1 := by
  refine ⟨⟨[_], [_], by decide, rfl, rfl, by decide, by decide, by decide, ?_⟩, _, rfl, ?_⟩
  · intro s hs
    obtain rfl := List.mem_singleton.mp hs
    exact ⟨1, rfl⟩
  · intro h
    exact absurd h.chunk_le (by decide)

end Rc
