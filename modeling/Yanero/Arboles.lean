import Mathlib.Data.List.GetD
import Mathlib.Data.List.Induction
import Mathlib.Logic.Function.Basic
import Mathlib.Algebra.Order.Group.Nat
import Mathlib.Algebra.Order.Ring.Nat
import Mathlib.Algebra.BigOperators.Group.Finset.Piecewise
import Mathlib.Tactic.Ring

/-! # Index trees with several levels

    A file is a row of roots, root `k` leading through `nivel k` levels of
    pointer blocks of `p` entries to its data blocks.  A site is a root and the
    positions taken below it; its first leaf orders the sites, and with `n`
    leaves in use the sites whose first leaf is below `n` are the live ones.

    `Reparto` says that a family of files shares a pool of blocks well: what is
    not live is zero, live sites hold pairwise distinct blocks, and the marked
    blocks of the pool are the ones they hold.  `Injerto` and `Poda` describe
    how one leaf is added to or cut off a file, and both keep `Reparto`;
    `Esquema.punteros` counts the pointer blocks a file takes. -/

namespace Arboles

/-- The shape of a file: entries of a pointer block, roots and their levels. -/
structure Esquema where
  p : Nat
  raices : Nat
  nivel : Nat → Nat

/-- The leaves before root `k`. -/
def Esquema.base (E : Esquema) : Nat → Nat
  | 0 => 0
  | k + 1 => E.base k + E.p ^ E.nivel k

/-- The first leaf below a list of positions, in a tree of `L` levels. -/
def hoja (p : Nat) : Nat → List Nat → Nat
  | 0, _ => 0
  | _ + 1, [] => 0
  | L + 1, pos :: ps => pos * p ^ L + hoja p L ps

/-- The first leaf of a site. -/
def Esquema.primero (E : Esquema) (k : Nat) (ps : List Nat) : Nat :=
  E.base k + hoja E.p (E.nivel k) ps

/-- A root and positions that exist in the scheme. -/
structure Valido (E : Esquema) (k : Nat) (ps : List Nat) : Prop where
  raiz : k < E.raices
  largo : ps.length ≤ E.nivel k
  digito : ∀ pos ∈ ps, pos < E.p

/-- A valid site that leads to one of the first `n` leaves. -/
structure Vivo (E : Esquema) (n k : Nat) (ps : List Nat) : Prop where
  valido : Valido E k ps
  antes : E.primero k ps < n

/-- Follow positions from a block. -/
def seguir (leer : Nat → Nat → Nat) : Nat → List Nat → Nat
  | r, [] => r
  | r, pos :: ps => seguir leer (leer r pos) ps

/-- The block at a site. -/
def nodo (leer : Nat → Nat → Nat) (raiz : Nat → Nat) (k : Nat) (ps : List Nat) : Nat :=
  seguir leer (raiz k) ps

/-! ## Leaves -/

theorem hoja_nil (p L : Nat) : hoja p L [] = 0 := by
  cases L <;> rfl

/-- The number of a leaf below a node. -/
theorem hoja_lt {p : Nat} (hp : 0 < p) : ∀ {L : Nat} {ps : List Nat}, (∀ pos ∈ ps, pos < p) →
    hoja p L ps < p ^ L := by
  intro L
  induction L with
  | zero => intro ps _; simp [hoja]
  | succ L ih =>
      intro ps hps
      cases ps with
      | nil => simpa [hoja] using Nat.pow_pos hp
      | cons pos ps =>
          have h1 : pos + 1 ≤ p := hps pos (by simp)
          have h2 : hoja p L ps < p ^ L := ih fun q hq => hps q (by simp [hq])
          calc hoja p (L + 1) (pos :: ps) = pos * p ^ L + hoja p L ps := rfl
            _ < pos * p ^ L + p ^ L := by omega
            _ = (pos + 1) * p ^ L := by ring
            _ ≤ p * p ^ L := Nat.mul_le_mul_right _ h1
            _ = p ^ (L + 1) := by ring

/-- A longer list of positions starts no earlier. -/
theorem hoja_le_append (p : Nat) : ∀ (L : Nat) (ps qs : List Nat),
    hoja p L ps ≤ hoja p L (ps ++ qs) := by
  intro L
  induction L with
  | zero => intro ps qs; exact Nat.zero_le _
  | succ L ih =>
      intro ps qs
      cases ps with
      | nil => simp [hoja]
      | cons pos ps =>
          simp only [List.cons_append, hoja]
          exact Nat.add_le_add_left (ih ps qs) _

/-- One more position under a site moves its first leaf by whole subtrees. -/
theorem hoja_concat (p : Nat) : ∀ (L : Nat) (ps : List Nat) (pos : Nat), ps.length < L →
    hoja p L (ps ++ [pos]) = hoja p L ps + pos * p ^ (L - ps.length - 1) := by
  intro L
  induction L with
  | zero => intro ps pos h; cases h
  | succ L ih =>
      intro ps pos h
      cases ps with
      | nil =>
          show pos * p ^ L + hoja p L [] = 0 + pos * p ^ (L + 1 - 0 - 1)
          rw [hoja_nil, Nat.zero_add, Nat.add_zero]
          rfl
      | cons q ps =>
          have hl : ps.length < L := by simpa using h
          have hpow : L + 1 - (q :: ps).length - 1 = L - ps.length - 1 := by
            rw [List.length_cons]
            omega
          rw [List.cons_append, hoja, hoja, ih ps pos hl, hpow, Nat.add_assoc]

/-- Positions past a full path lead nowhere else. -/
theorem hoja_llena (p : Nat) : ∀ (ps qs : List Nat),
    hoja p ps.length (ps ++ qs) = hoja p ps.length ps := by
  intro ps
  induction ps with
  | nil => intro qs; rfl
  | cons pos ps ih =>
      intro qs
      rw [List.cons_append, List.length_cons, hoja, hoja, ih]

/-- Positions with the same first leaf as a full path are the path's own. -/
theorem hoja_unica {p : Nat} (hp : 0 < p) : ∀ {L : Nat} {ps ds : List Nat},
    ds.length = L → ps.length ≤ L → (∀ pos ∈ ps, pos < p) → (∀ pos ∈ ds, pos < p) →
    hoja p L ps = hoja p L ds → ps = ds.take ps.length := by
  intro L
  induction L with
  | zero =>
      intro ps ds _ hps _ _ _
      have : ps = [] := List.length_eq_zero_iff.mp (by omega)
      subst this
      rfl
  | succ L ih =>
      intro ps ds hds hps hpsp hdsp h
      cases ps with
      | nil => rfl
      | cons pos ps =>
          cases ds with
          | nil => simp at hds
          | cons d ds =>
              have hlt1 : hoja p L ps < p ^ L := hoja_lt hp fun q hq => hpsp q (by simp [hq])
              have hlt2 : hoja p L ds < p ^ L := hoja_lt hp fun q hq => hdsp q (by simp [hq])
              have hpos : 0 < p ^ L := Nat.pow_pos hp
              simp only [hoja] at h
              have hd : pos = d := by
                have h1 : (pos * p ^ L + hoja p L ps) / p ^ L = pos := by
                  rw [Nat.mul_comm, Nat.mul_add_div hpos, Nat.div_eq_of_lt hlt1, Nat.add_zero]
                have h2 : (d * p ^ L + hoja p L ds) / p ^ L = d := by
                  rw [Nat.mul_comm, Nat.mul_add_div hpos, Nat.div_eq_of_lt hlt2, Nat.add_zero]
                rw [← h1, h, h2]
              subst hd
              have hh : hoja p L ps = hoja p L ds := Nat.add_left_cancel h
              have hps' := ih (by simpa using hds) (by simpa using hps)
                (fun q hq => hpsp q (by simp [hq])) (fun q hq => hdsp q (by simp [hq])) hh
              simp only [List.length_cons, List.take_succ_cons]
              rw [← hps']

/-- The trees of the roots lie one after the other. -/
theorem base_le {E : Esquema} {k k' : Nat} (h : k < k') :
    E.base k + E.p ^ E.nivel k ≤ E.base k' := by
  induction k' with
  | zero => omega
  | succ k' ih =>
      rw [Esquema.base]
      by_cases hk : k = k'
      · subst hk
        exact le_rfl
      · have := ih (by omega)
        omega

/-! ## Sites -/

section Sitios

variable {E : Esquema} {n k : Nat} {ps : List Nat} {pos : Nat}

/-- A root is a site. -/
theorem Valido.nil (hk : k < E.raices) : Valido E k [] :=
  ⟨hk, Nat.zero_le _, by simp⟩

/-- So is the parent of a site. -/
theorem Valido.padre (h : Valido E k (ps ++ [pos])) : Valido E k ps := by
  refine ⟨h.raiz, ?_, fun q hq => h.digito q (by simp [hq])⟩
  have := h.largo
  simp only [List.length_append, List.length_cons, List.length_nil] at this
  omega

/-- So is every ancestor. -/
theorem Valido.take (h : Valido E k ps) (j : Nat) : Valido E k (ps.take j) :=
  ⟨h.raiz, le_trans (List.length_take_le' j ps) h.largo, fun q hq =>
    h.digito q (List.mem_of_mem_take hq)⟩

/-- The positions of a site are below the width. -/
theorem Valido.digito_getD (h : Valido E k ps) {j : Nat} (hj : j < ps.length) :
    ps.getD j 0 < E.p := by
  rw [List.getD_eq_getElem _ _ hj]
  exact h.digito _ (List.getElem_mem _)

/-- The first leaf of a root. -/
theorem primero_nil : E.primero k [] = E.base k := by
  simp [Esquema.primero, hoja_nil]

/-- A descendant begins no earlier. -/
theorem primero_le_append (qs : List Nat) : E.primero k ps ≤ E.primero k (ps ++ qs) :=
  Nat.add_le_add_left (hoja_le_append _ _ _ _) _

/-- Below a leaf there is nothing more. -/
theorem primero_lleno (hl : ps.length = E.nivel k) (qs : List Nat) :
    E.primero k (ps ++ qs) = E.primero k ps := by
  rw [Esquema.primero, Esquema.primero, ← hl, hoja_llena]

/-- Along a path the first leaves do not go down. -/
theorem primero_take_le {ds : List Nat} {i j : Nat} (hij : i ≤ j) :
    E.primero k (ds.take i) ≤ E.primero k (ds.take j) := by
  have h : ds.take j = ds.take i ++ (ds.take j).drop i := by
    have hi : ds.take i = (ds.take j).take i := by rw [List.take_take, Nat.min_eq_left hij]
    rw [hi, List.take_append_drop]
  rw [h]
  exact primero_le_append _

/-- The parent of a live site is live. -/
theorem Vivo.padre (h : Vivo E n k (ps ++ [pos])) : Vivo E n k ps :=
  ⟨h.valido.padre, lt_of_le_of_lt (primero_le_append [pos]) h.antes⟩

/-- The sites that share the first leaf of a full path are its beginnings. -/
theorem primero_unico (hp : 0 < E.p) {k' : Nat} {ds : List Nat} (h : Valido E k ps)
    (hds : Valido E k' ds) (hlen : ds.length = E.nivel k')
    (heq : E.primero k ps = E.primero k' ds) : k = k' ∧ ps = ds.take ps.length := by
  have h1 : hoja E.p (E.nivel k) ps < E.p ^ E.nivel k := hoja_lt hp h.digito
  have h2 : hoja E.p (E.nivel k') ds < E.p ^ E.nivel k' := hoja_lt hp hds.digito
  unfold Esquema.primero at heq
  have hk : k = k' := by
    rcases Nat.lt_trichotomy k k' with hlt | heqk | hgt
    · have := base_le (E := E) hlt
      omega
    · exact heqk
    · have := base_le (E := E) hgt
      omega
  subst hk
  exact ⟨rfl, hoja_unica hp hlen h.largo h.digito hds.digito (Nat.add_left_cancel heq)⟩

end Sitios

/-! ## Blocks along a path -/

section Caminos

variable {leer : Nat → Nat → Nat} {raiz : Nat → Nat}

/-- A walk in two parts. -/
theorem seguir_append (r : Nat) (ps qs : List Nat) :
    seguir leer r (ps ++ qs) = seguir leer (seguir leer r ps) qs := by
  induction ps generalizing r with
  | nil => rfl
  | cons pos ps ih => exact ih (leer r pos)

/-- The child of a site. -/
theorem nodo_concat (k : Nat) (ps : List Nat) (pos : Nat) :
    nodo leer raiz k (ps ++ [pos]) = leer (nodo leer raiz k ps) pos :=
  seguir_append _ ps [pos]

theorem take_succ_getD {ds : List Nat} {j : Nat} (hj : j < ds.length) :
    ds.take (j + 1) = ds.take j ++ [ds.getD j 0] := by
  rw [List.take_add_one, List.getElem?_eq_getElem hj, List.getD_eq_getElem _ _ hj]
  rfl

/-- The next site of a path. -/
theorem nodo_take_succ {ds : List Nat} {k j : Nat} (hj : j < ds.length) :
    nodo leer raiz k (ds.take (j + 1)) = leer (nodo leer raiz k (ds.take j)) (ds.getD j 0) := by
  rw [take_succ_getD hj, nodo_concat]

end Caminos

/-! ## A pool of blocks shared by files -/

/-- The files `U` share the pool `vol` through the pointer map `leer`: file `x`
    has roots `F x` and `N x` leaves, `bit` marks the blocks taken and `fijo`
    are the blocks that belong to no file. -/
structure Reparto (E : Esquema) (leer : Nat → Nat → Nat) (bit : Nat → Bool)
    (vol fijo U : Nat → Prop) (F : Nat → Nat → Nat) (N : Nat → Nat) : Prop where
  raizCero : ∀ x, U x → ∀ k, k < E.raices → N x ≤ E.base k → F x k = 0
  hijoCero : ∀ x, U x → ∀ k ps pos, Vivo E (N x) k ps → Valido E k (ps ++ [pos]) →
    N x ≤ E.primero k (ps ++ [pos]) → leer (nodo leer (F x) k ps) pos = 0
  dentro : ∀ x, U x → ∀ k ps, Vivo E (N x) k ps →
    vol (nodo leer (F x) k ps) ∧ ¬ fijo (nodo leer (F x) k ps)
  distintos : ∀ x y, U x → U y → ∀ k ps k' ps', Vivo E (N x) k ps → Vivo E (N y) k' ps' →
    nodo leer (F x) k ps = nodo leer (F y) k' ps' → x = y ∧ k = k' ∧ ps = ps'
  bits : ∀ b, vol b → (bit b = true ↔
    fijo b ∨ ∃ x k ps, U x ∧ Vivo E (N x) k ps ∧ nodo leer (F x) k ps = b)

/-- Only the roots of the scheme and the files that share count. -/
theorem Reparto.congr {E : Esquema} {leer : Nat → Nat → Nat} {bit : Nat → Bool}
    {vol fijo U : Nat → Prop} {F F' : Nat → Nat → Nat} {N N' : Nat → Nat}
    (h : Reparto E leer bit vol fijo U F N)
    (hF : ∀ x, U x → ∀ k, k < E.raices → F' x k = F x k) (hN : ∀ x, U x → N' x = N x) :
    Reparto E leer bit vol fijo U F' N' := by
  have hnodo : ∀ x, U x → ∀ k ps, Vivo E (N' x) k ps →
      Vivo E (N x) k ps ∧ nodo leer (F' x) k ps = nodo leer (F x) k ps := by
    intro x hx k ps hv
    rw [hN x hx] at hv
    refine ⟨hv, ?_⟩
    unfold nodo
    rw [hF x hx k hv.valido.raiz]
  constructor
  · intro x hx k hk hle
    rw [hF x hx k hk]
    exact h.raizCero x hx k hk (hN x hx ▸ hle)
  · intro x hx k ps pos hv hval hle
    obtain ⟨hv', hn⟩ := hnodo x hx k ps hv
    rw [hn]
    exact h.hijoCero x hx k ps pos hv' hval (hN x hx ▸ hle)
  · intro x hx k ps hv
    obtain ⟨hv', hn⟩ := hnodo x hx k ps hv
    rw [hn]
    exact h.dentro x hx k ps hv'
  · intro x y hx hy k ps k' ps' hv hw heq
    obtain ⟨hv', hn⟩ := hnodo x hx k ps hv
    obtain ⟨hw', hn'⟩ := hnodo y hy k' ps' hw
    rw [hn, hn'] at heq
    exact h.distintos x y hx hy k ps k' ps' hv' hw' heq
  · intro b hb
    rw [h.bits b hb]
    constructor
    · rintro (hf | ⟨x, k, ps, hx, hv, heq⟩)
      · exact .inl hf
      · rw [← hN x hx] at hv
        exact .inr ⟨x, k, ps, hx, hv, ((hnodo x hx k ps hv).2).trans heq⟩
    · rintro (hf | ⟨x, k, ps, hx, hv, heq⟩)
      · exact .inl hf
      · obtain ⟨hv', hn⟩ := hnodo x hx k ps hv
        exact .inr ⟨x, k, ps, hx, hv', hn.symm.trans heq⟩

/-- The blocks at the live sites depend on the pointers of the live sites above
    the leaves only. -/
theorem nodo_congr {E : Esquema} {leer leer' : Nat → Nat → Nat} {raiz : Nat → Nat} {n : Nat}
    (hleer : ∀ k ps, Vivo E n k ps → ps.length < E.nivel k → ∀ pos, pos < E.p →
      leer' (nodo leer raiz k ps) pos = leer (nodo leer raiz k ps) pos) :
    ∀ k ps, Vivo E n k ps → nodo leer' raiz k ps = nodo leer raiz k ps := by
  intro k ps
  induction ps using List.reverseRecOn with
  | nil => intro _; rfl
  | append_singleton ps pos ih =>
      intro hv
      have hl := hv.valido.largo
      rw [List.length_append, List.length_singleton] at hl
      rw [nodo_concat, nodo_concat, ih hv.padre]
      exact hleer k ps hv.padre (by omega) pos (hv.valido.digito pos (by simp))

/-- Only the pointers of live sites and the marks of the pool count. -/
theorem Reparto.congr_leer {E : Esquema} {leer leer' : Nat → Nat → Nat} {bit bit' : Nat → Bool}
    {vol fijo U : Nat → Prop} {F : Nat → Nat → Nat} {N : Nat → Nat}
    (h : Reparto E leer bit vol fijo U F N)
    (hleer : ∀ x, U x → ∀ k ps, Vivo E (N x) k ps → ps.length < E.nivel k → ∀ pos, pos < E.p →
      leer' (nodo leer (F x) k ps) pos = leer (nodo leer (F x) k ps) pos)
    (hbit : ∀ b, vol b → bit' b = bit b) : Reparto E leer' bit' vol fijo U F N := by
  have hcorto : ∀ {k ps pos}, Valido E k (ps ++ [pos]) → ps.length < E.nivel k ∧ pos < E.p := by
    intro k ps pos hv
    have := hv.largo
    rw [List.length_append, List.length_singleton] at this
    exact ⟨by omega, hv.digito pos (by simp)⟩
  have hnodo : ∀ x, U x → ∀ k ps, Vivo E (N x) k ps →
      nodo leer' (F x) k ps = nodo leer (F x) k ps :=
    fun x hx => nodo_congr (hleer x hx)
  constructor
  · exact h.raizCero
  · intro x hx k ps pos hv hval hle
    obtain ⟨hl, hp⟩ := hcorto hval
    rw [hnodo x hx k ps hv, hleer x hx k ps hv hl pos hp]
    exact h.hijoCero x hx k ps pos hv hval hle
  · intro x hx k ps hv
    rw [hnodo x hx k ps hv]
    exact h.dentro x hx k ps hv
  · intro x y hx hy k ps k' ps' hv hw heq
    rw [hnodo x hx k ps hv, hnodo y hy k' ps' hw] at heq
    exact h.distintos x y hx hy k ps k' ps' hv hw heq
  · intro b hb
    rw [hbit b hb, h.bits b hb]
    refine or_congr Iff.rfl ⟨?_, ?_⟩
    · rintro ⟨x, k, ps, hx, hv, heq⟩
      exact ⟨x, k, ps, hx, hv, (hnodo x hx k ps hv).trans heq⟩
    · rintro ⟨x, k, ps, hx, hv, heq⟩
      exact ⟨x, k, ps, hx, hv, (hnodo x hx k ps hv).symm.trans heq⟩

/-- One leaf more on a file: along the path `ds` of root `k` the sites from
    depth `e` on get the blocks `b e, b (e + 1), …`, free until now. -/
structure Injerto (E : Esquema) (leer leer' : Nat → Nat → Nat) (bit bit' : Nat → Bool)
    (vol fijo : Nat → Prop) (raiz raiz' : Nat → Nat) (k : Nat) (ds : List Nat) (e : Nat)
    (b : Nat → Nat) : Prop where
  libre : ∀ j, e ≤ j → j ≤ ds.length → vol (b j) ∧ bit (b j) = false
  inyectiva : ∀ i j, e ≤ i → i ≤ ds.length → e ≤ j → j ≤ ds.length → b i = b j → i = j
  raizNueva : e = 0 → raiz' k = b 0
  raizIgual : ∀ k', (k' = k → e ≠ 0) → raiz' k' = raiz k'
  enlace : ∀ j, e = j + 1 → leer' (nodo leer raiz k (ds.take j)) (ds.getD j 0) = b e
  igual : ∀ c pos, vol c → bit c = true → ¬ fijo c → pos < E.p →
    (∀ j, e = j + 1 → c = nodo leer raiz k (ds.take j) → pos ≠ ds.getD j 0) →
    leer' c pos = leer c pos
  nuevo : ∀ j, e ≤ j → j < ds.length → ∀ pos, pos < E.p →
    leer' (b j) pos = if pos = ds.getD j 0 then b (j + 1) else 0
  bitNuevo : ∀ c, vol c → (bit' c = true ↔
    bit c = true ∨ ∃ j, e ≤ j ∧ j ≤ ds.length ∧ c = b j)

/-- One leaf less: the sites of the path from depth `e` on lose their blocks. -/
structure Poda (E : Esquema) (leer leer' : Nat → Nat → Nat) (bit bit' : Nat → Bool)
    (vol fijo : Nat → Prop) (raiz raiz' : Nat → Nat) (k : Nat) (ds : List Nat) (e : Nat) :
    Prop where
  raizCortada : e = 0 → raiz' k = 0
  raizIgual : ∀ k', (k' = k → e ≠ 0) → raiz' k' = raiz k'
  corte : ∀ j, e = j + 1 → leer' (nodo leer raiz k (ds.take j)) (ds.getD j 0) = 0
  igual : ∀ c pos, vol c → bit c = true → ¬ fijo c → pos < E.p →
    (∀ j, e ≤ j → j ≤ ds.length → c ≠ nodo leer raiz k (ds.take j)) →
    (∀ j, e = j + 1 → c = nodo leer raiz k (ds.take j) → pos ≠ ds.getD j 0) →
    leer' c pos = leer c pos
  bitNuevo : ∀ c, vol c → (bit' c = true ↔
    bit c = true ∧ ∀ j, e ≤ j → j ≤ ds.length → c ≠ nodo leer raiz k (ds.take j))

/-- `e` is the depth at which the sites of a full path start at its own leaf. -/
structure Corte (E : Esquema) (k : Nat) (ds : List Nat) (n e : Nat) : Prop where
  valido : Valido E k ds
  completo : ds.length = E.nivel k
  hoja : E.primero k ds = n
  largo : e ≤ ds.length
  vivo : ∀ j, j < e → E.primero k (ds.take j) < n
  muerto : E.primero k (ds.take e) = n

section Reparto

variable {E : Esquema} {leer leer' : Nat → Nat → Nat} {bit bit' : Nat → Bool}
  {vol fijo U : Nat → Prop} {F : Nat → Nat → Nat} {N : Nat → Nat}
  {x k n e : Nat} {ds : List Nat} {raiz' : Nat → Nat} {b : Nat → Nat}

/-- From the cut on, the path begins at the new leaf. -/
theorem Corte.desde (hc : Corte E k ds n e) {j : Nat} (hj : e ≤ j) (hl : j ≤ ds.length) :
    E.primero k (ds.take j) = n := by
  have h1 : E.primero k (ds.take e) ≤ E.primero k (ds.take j) := primero_take_le hj
  have h2 : E.primero k (ds.take j) ≤ E.primero k (ds.take ds.length) := primero_take_le hl
  rw [List.take_length] at h2
  have h3 := hc.hoja
  have h4 := hc.muerto
  omega

/-- Every full path has a depth from which on its sites start at its leaf. -/
theorem Corte.existe (hv : Valido E k ds) (hlen : ds.length = E.nivel k)
    (hn : E.primero k ds = n) : ∃ e, Corte E k ds n e := by
  classical
  have hex : ∃ j, j ≤ ds.length ∧ E.primero k (ds.take j) = n :=
    ⟨ds.length, Nat.le_refl _, by rw [List.take_length, hn]⟩
  obtain ⟨hle, hmuerto⟩ := Nat.find_spec hex
  refine ⟨Nat.find hex, hv, hlen, hn, hle, fun j hj => ?_, hmuerto⟩
  have hno := Nat.find_min hex hj
  have h1 : E.primero k (ds.take j) ≤ E.primero k (ds.take (Nat.find hex)) :=
    primero_take_le (Nat.le_of_lt hj)
  have h2 : E.primero k (ds.take j) ≠ n := fun h => hno ⟨by omega, h⟩
  omega

/-- A site whose first leaf is the path's is on the path, at depth `e` or more. -/
theorem Corte.en_camino (hp : 0 < E.p) (hc : Corte E k ds n e) {k' : Nat} {ps : List Nat}
    (hv : Valido E k' ps) (h : E.primero k' ps = n) :
    k' = k ∧ ps = ds.take ps.length ∧ e ≤ ps.length ∧ ps.length ≤ ds.length := by
  obtain ⟨rfl, hps⟩ := primero_unico hp hv hc.valido hc.completo (h.trans hc.hoja.symm)
  refine ⟨rfl, hps, ?_, ?_⟩
  · by_contra hlt
    have := hc.vivo ps.length (by omega)
    rw [← hps] at this
    omega
  · rw [hc.completo]
    exact hv.largo

/-- Depth `j` of the path is a live site when `j < e`. -/
theorem Corte.vivo_take (hc : Corte E k ds n e) {j : Nat} (hj : j < e) :
    Vivo E n k (ds.take j) := ⟨hc.valido.take j, hc.vivo j hj⟩

/-- A depth of the path at or past `e` is live with one leaf more. -/
theorem Corte.vivo_desde (hc : Corte E k ds n e) {j : Nat} (hj : e ≤ j) (hl : j ≤ ds.length) :
    Vivo E (n + 1) k (ds.take j) := by
  refine ⟨hc.valido.take j, ?_⟩
  have := hc.desde hj hl
  omega

/-- A live site stays so in a larger tree. -/
theorem Vivo.mono {m k' : Nat} {ps : List Nat} (h : Vivo E n k' ps) (hm : n ≤ m) :
    Vivo E m k' ps := ⟨h.valido, lt_of_lt_of_le h.antes hm⟩

/-- The live sites with one leaf more. -/
theorem Corte.vivo_succ (hp : 0 < E.p) (hc : Corte E k ds n e) {k' : Nat} {ps : List Nat}
    (h : Vivo E (n + 1) k' ps) :
    Vivo E n k' ps ∨
      (k' = k ∧ ps = ds.take ps.length ∧ e ≤ ps.length ∧ ps.length ≤ ds.length) := by
  rcases Nat.lt_succ_iff_lt_or_eq.mp h.antes with hlt | heq
  · exact .inl ⟨h.valido, hlt⟩
  · exact .inr (hc.en_camino hp h.valido heq)

/-- On a path, the first leaf stays exactly below zero positions. -/
theorem primero_take_succ (hp : 0 < E.p) (hc : Corte E k ds n e) {j : Nat} (hj : j < ds.length) :
    E.primero k (ds.take (j + 1)) = E.primero k (ds.take j) ↔ ds.getD j 0 = 0 := by
  have hl := List.length_take_of_le (Nat.le_of_lt hj)
  have hlt : (ds.take j).length < E.nivel k := by
    rw [hl, ← hc.completo]
    exact hj
  have hpow : 0 < E.p ^ (E.nivel k - (ds.take j).length - 1) := Nat.pow_pos hp
  rw [take_succ_getD hj, Esquema.primero, Esquema.primero, hoja_concat _ _ _ _ hlt]
  constructor
  · intro h
    have h0 : ds.getD j 0 * E.p ^ (E.nivel k - (ds.take j).length - 1) = 0 := by omega
    exact (Nat.mul_eq_zero.mp h0).resolve_right (by omega)
  · intro h
    rw [h, Nat.zero_mul, Nat.add_zero]

/-- The positions of the cut end are zero. -/
theorem Corte.ceros (hp : 0 < E.p) (hc : Corte E k ds n e) {j : Nat} (hj : e ≤ j)
    (hl : j < ds.length) : ds.getD j 0 = 0 := by
  rw [← primero_take_succ hp hc hl, hc.desde hj (Nat.le_of_lt hl), hc.desde (by omega) hl]

/-- The position above the cut end is not. -/
theorem Corte.no_cero (hp : 0 < E.p) (hc : Corte E k ds n (e + 1)) : ds.getD e 0 ≠ 0 := by
  have hl : e < ds.length := hc.largo
  intro h0
  have h := (primero_take_succ hp hc hl).mpr h0
  have hv := hc.vivo e (Nat.lt_succ_self e)
  rw [hc.muerto] at h
  omega

/-- The cut takes the whole path exactly when every position is zero. -/
theorem Corte.todo_cero (hp : 0 < E.p) (hc : Corte E k ds n e) :
    ds.all (· = 0) = true ↔ e = 0 := by
  have hel := hc.largo
  rw [List.all_eq_true]
  constructor
  · intro hall
    by_contra hne
    obtain ⟨j, rfl⟩ : ∃ j, e = j + 1 := ⟨e - 1, by omega⟩
    refine hc.no_cero hp ?_
    rw [List.getD_eq_getElem _ _ (by omega)]
    exact of_decide_eq_true (hall _ (List.getElem_mem _))
  · rintro rfl d hd
    obtain ⟨i, hi, rfl⟩ := List.mem_iff_getElem.mp hd
    have h0 := hc.ceros hp (Nat.zero_le i) hi
    rw [List.getD_eq_getElem _ _ hi] at h0
    exact decide_eq_true h0

/-- Every depth of the path is live with one leaf more. -/
theorem Corte.vivo_lleno (hc : Corte E k ds n e) {j : Nat} (hj : j ≤ ds.length) :
    Vivo E (n + 1) k (ds.take j) := by
  by_cases hje : j < e
  · exact (hc.vivo_take hje).mono (Nat.le_succ n)
  · exact hc.vivo_desde (by omega) hj

/-- A block held by a file is marked and is not fixed. -/
theorem Reparto.marcado (h : Reparto E leer bit vol fijo U F N) {y k' : Nat} {ps : List Nat}
    (hy : U y) (hv : Vivo E (N y) k' ps) : bit (nodo leer (F y) k' ps) = true :=
  (h.bits _ (h.dentro y hy k' ps hv).1).mpr (.inr ⟨y, k', ps, hy, hv, rfl⟩)

/-! ### What a file of `n` leaves takes -/

/-- The pointer blocks of a file of `n` leaves: below each root, and on each
    level, enough of them for the leaves it has there. -/
def Esquema.punteros (E : Esquema) (n : Nat) : Nat :=
  ∑ k ∈ Finset.range E.raices, ∑ l ∈ Finset.range (E.nivel k),
    (min (n - E.base k) (E.p ^ E.nivel k) + E.p ^ (l + 1) - 1) / E.p ^ (l + 1)

/-- The first leaf of a beginning of a path: the path's, rounded down. -/
theorem hoja_take {p : Nat} (hp : 0 < p) : ∀ {L : Nat} {ds : List Nat} {j : Nat},
    ds.length = L → j ≤ L → (∀ pos ∈ ds, pos < p) →
    hoja p L (ds.take j) = hoja p L ds / p ^ (L - j) * p ^ (L - j) := by
  intro L
  induction L with
  | zero =>
      intro ds j _ hj _
      simp [hoja]
  | succ L ih =>
      intro ds j hl hj hd
      cases j with
      | zero =>
          rw [List.take_zero, hoja_nil, Nat.sub_zero, Nat.div_eq_of_lt (hoja_lt hp hd),
            Nat.zero_mul]
      | succ j =>
          cases ds with
          | nil => cases hl
          | cons pos ds =>
              have hrec := @ih ds j (Nat.succ.inj hl) (Nat.le_of_succ_le_succ hj)
                fun q hq => hd q (by simp [hq])
              have hpow : p ^ L = p ^ (L - j) * p ^ j := by
                rw [← Nat.pow_add, Nat.sub_add_cancel (Nat.le_of_succ_le_succ hj)]
              have hpos : 0 < p ^ (L - j) := Nat.pow_pos hp
              rw [List.take_succ_cons, hoja, hoja, hrec, Nat.succ_sub_succ, hpow,
                ← Nat.mul_assoc, Nat.mul_comm pos, Nat.mul_assoc, Nat.mul_add_div hpos,
                Nat.add_mul, Nat.mul_comm (p ^ (L - j)) (pos * p ^ j)]

/-- Rounding up one more: a new piece starts at the multiples. -/
theorem techo_succ {d : Nat} (hd : 0 < d) (h : Nat) :
    (h + 1 + d - 1) / d = (h + d - 1) / d + if d ∣ h then 1 else 0 := by
  obtain ⟨q, r, hr, rfl⟩ : ∃ q r, r < d ∧ h = d * q + r :=
    ⟨h / d, h % d, Nat.mod_lt h hd, (Nat.div_add_mod h d).symm⟩
  have hdvd : d ∣ d * q + r ↔ r = 0 := by
    rw [Nat.dvd_add_right (Nat.dvd_mul_right d q)]
    refine ⟨fun h => Nat.eq_zero_of_dvd_of_lt h hr, ?_⟩
    rintro rfl
    exact Nat.dvd_zero d
  have h1 : d * q + r + 1 + d - 1 = d * (q + 1) + r := by
    rw [Nat.mul_succ]
    omega
  rw [h1, Nat.mul_add_div hd, Nat.div_eq_of_lt hr]
  by_cases h0 : r = 0
  · subst h0
    have h2 : d * q + 0 + d - 1 = d * q + (d - 1) := by omega
    rw [if_pos (hdvd.mpr rfl), h2, Nat.mul_add_div hd, Nat.div_eq_of_lt (by omega)]
  · have h2 : d * q + r + d - 1 = d * (q + 1) + (r - 1) := by
      rw [Nat.mul_succ]
      omega
    rw [if_neg (mt hdvd.mp h0), h2, Nat.mul_add_div hd, Nat.div_eq_of_lt (by omega)]

/-- **THE COST OF A LEAF**: it brings the pointer blocks of its path from depth
    `e` on. -/
theorem punteros_succ (hp : 0 < E.p) (hc : Corte E k ds n e) :
    E.punteros (n + 1) = E.punteros n + (ds.length - e) := by
  have hlt : hoja E.p (E.nivel k) ds < E.p ^ E.nivel k := hoja_lt hp hc.valido.digito
  have hn : n = E.base k + hoja E.p (E.nivel k) ds := hc.hoja.symm
  have hk : k ∈ Finset.range E.raices := Finset.mem_range.mpr hc.valido.raiz
  unfold Esquema.punteros
  rw [← Finset.add_sum_erase _ _ hk, ← Finset.add_sum_erase _ _ hk]
  -- below the other roots nothing changes
  have hotras : ∀ k' ∈ (Finset.range E.raices).erase k,
      min (n + 1 - E.base k') (E.p ^ E.nivel k') = min (n - E.base k') (E.p ^ E.nivel k') := by
    intro k' hk'
    rcases Nat.lt_or_gt_of_ne (Finset.ne_of_mem_erase hk') with hlt' | hgt'
    · have := base_le (E := E) hlt'
      rw [Nat.min_eq_right (by omega), Nat.min_eq_right (by omega)]
    · have := base_le (E := E) hgt'
      rw [show n + 1 - E.base k' = n - E.base k' by omega]
  rw [Finset.sum_congr rfl fun k' hk' => Finset.sum_congr rfl fun l _ => by rw [hotras k' hk']]
  -- on the path, each level whose piece starts at this leaf
  have hpropia : ∀ l ∈ Finset.range (E.nivel k),
      (min (n + 1 - E.base k) (E.p ^ E.nivel k) + E.p ^ (l + 1) - 1) / E.p ^ (l + 1)
        = (min (n - E.base k) (E.p ^ E.nivel k) + E.p ^ (l + 1) - 1) / E.p ^ (l + 1)
          + if e + l + 1 ≤ E.nivel k then 1 else 0 := by
    intro l hl
    have hl' : l < E.nivel k := Finset.mem_range.mp hl
    have hpos : 0 < E.p ^ (l + 1) := Nat.pow_pos hp
    have h1 : min (n + 1 - E.base k) (E.p ^ E.nivel k) = hoja E.p (E.nivel k) ds + 1 := by omega
    have h2 : min (n - E.base k) (E.p ^ E.nivel k) = hoja E.p (E.nivel k) ds := by omega
    have hiff : E.p ^ (l + 1) ∣ hoja E.p (E.nivel k) ds ↔ e + l + 1 ≤ E.nivel k := by
      have htake := hoja_take hp (j := E.nivel k - (l + 1)) hc.completo (Nat.sub_le _ _)
        hc.valido.digito
      rw [Nat.sub_sub_self hl'] at htake
      have hprim : E.primero k (ds.take (E.nivel k - (l + 1))) = E.base k
          + hoja E.p (E.nivel k) ds / E.p ^ (l + 1) * E.p ^ (l + 1) := by
        rw [Esquema.primero, htake]
      constructor
      · intro hd
        rw [Nat.div_mul_cancel hd, ← hn] at hprim
        by_contra hlt'
        have := hc.vivo (E.nivel k - (l + 1)) (by omega)
        omega
      · intro hle
        have hd := hc.desde (j := E.nivel k - (l + 1)) (by omega)
          (by rw [hc.completo]; exact Nat.sub_le _ _)
        exact ⟨hoja E.p (E.nivel k) ds / E.p ^ (l + 1), by rw [Nat.mul_comm]; omega⟩
    rw [h1, h2, techo_succ hpos]
    simp only [hiff]
  rw [Finset.sum_congr rfl hpropia, Finset.sum_add_distrib]
  have hcuenta : (∑ l ∈ Finset.range (E.nivel k), if e + l + 1 ≤ E.nivel k then 1 else 0)
      = E.nivel k - e := by
    rw [← Finset.card_filter]
    have hset : (Finset.range (E.nivel k)).filter (fun l => e + l + 1 ≤ E.nivel k)
        = Finset.range (E.nivel k - e) := by
      ext l
      simp only [Finset.mem_filter, Finset.mem_range]
      omega
    rw [hset, Finset.card_range]
  rw [hcuenta, hc.completo]
  omega

/-- Two ways to share a pool with the same blocks at the live sites mark the
    same blocks. -/
theorem Reparto.mismos_bits {F' : Nat → Nat → Nat} (h : Reparto E leer bit vol fijo U F N)
    (h' : Reparto E leer' bit' vol fijo U F' N)
    (hnodo : ∀ y, U y → ∀ k ps, Vivo E (N y) k ps →
      nodo leer' (F' y) k ps = nodo leer (F y) k ps) {c : Nat} (hc : vol c) :
    bit' c = bit c := by
  rw [Bool.eq_iff_iff, h.bits c hc, h'.bits c hc]
  refine or_congr Iff.rfl ⟨?_, ?_⟩
  · rintro ⟨y, k, ps, hy, hv, rfl⟩
    exact ⟨y, k, ps, hy, hv, (hnodo y hy k ps hv).symm⟩
  · rintro ⟨y, k, ps, hy, hv, rfl⟩
    exact ⟨y, k, ps, hy, hv, hnodo y hy k ps hv⟩

/-! ### A file that leaves -/

/-- **A FILE THAT GIVES ALL ITS BLOCKS BACK**: its blocks are the ones that lose
    their marks. -/
theorem Reparto.bits_sin {F' : Nat → Nat → Nat} {N' : Nat → Nat}
    (h : Reparto E leer bit vol fijo U F N) (h' : Reparto E leer' bit' vol fijo U F' N') (hx : U x)
    (h0 : N' x = 0) (hN : ∀ y, U y → y ≠ x → N' y = N y)
    (hnodo : ∀ y, U y → y ≠ x → ∀ k ps, Vivo E (N y) k ps →
      nodo leer' (F' y) k ps = nodo leer (F y) k ps) {c : Nat} (hc : vol c) :
    bit' c = true ↔ bit c = true ∧ ∀ k ps, Vivo E (N x) k ps → nodo leer (F x) k ps ≠ c := by
  rw [h'.bits c hc, h.bits c hc]
  constructor
  · rintro (hf | ⟨y, k, ps, hy, hv, rfl⟩)
    · refine ⟨.inl hf, ?_⟩
      rintro k ps hv rfl
      exact (h.dentro x hx k ps hv).2 hf
    · have hne : y ≠ x := by
        rintro rfl
        exact absurd (h0 ▸ hv.antes) (Nat.not_lt_zero _)
      rw [hN y hy hne] at hv
      have heq := hnodo y hy hne k ps hv
      refine ⟨.inr ⟨y, k, ps, hy, hv, heq.symm⟩, fun k' ps' hv' hmismo => hne ?_⟩
      exact (h.distintos y x hy hx k ps k' ps' hv hv' (heq.symm.trans hmismo.symm)).1
  · rintro ⟨hf | ⟨y, k, ps, hy, hv, rfl⟩, hno⟩
    · exact .inl hf
    · have hne : y ≠ x := by
        rintro rfl
        exact hno k ps hv rfl
      exact .inr ⟨y, k, ps, hy, by rwa [hN y hy hne], hnodo y hy hne k ps hv⟩

/-- A file without blocks can leave the pool. -/
theorem Reparto.sin (h : Reparto E leer bit vol fijo U F N) (h0 : N x = 0) :
    Reparto E leer bit vol fijo (fun y => U y ∧ y ≠ x) F N := by
  constructor
  · exact fun y hy => h.raizCero y hy.1
  · exact fun y hy => h.hijoCero y hy.1
  · exact fun y hy => h.dentro y hy.1
  · exact fun y z hy hz => h.distintos y z hy.1 hz.1
  · intro b hb
    rw [h.bits b hb]
    refine or_congr Iff.rfl ⟨?_, ?_⟩
    · rintro ⟨y, k, ps, hy, hv, heq⟩
      refine ⟨y, k, ps, ⟨hy, ?_⟩, hv, heq⟩
      rintro rfl
      exact absurd (h0 ▸ hv.antes) (Nat.not_lt_zero _)
    · rintro ⟨y, k, ps, hy, hv, heq⟩
      exact ⟨y, k, ps, hy.1, hv, heq⟩

/-- An empty file can join it. -/
theorem Reparto.con (h : Reparto E leer bit vol fijo U F N) (h0 : N x = 0)
    (hF : ∀ k, k < E.raices → F x k = 0) :
    Reparto E leer bit vol fijo (fun y => U y ∨ y = x) F N := by
  have hno : ∀ {k ps}, ¬ Vivo E (N x) k ps := fun hv =>
    absurd (h0 ▸ hv.antes) (Nat.not_lt_zero _)
  constructor
  · rintro y (hy | rfl)
    · exact h.raizCero y hy
    · exact fun k hk _ => hF k hk
  · rintro y (hy | rfl)
    · exact h.hijoCero y hy
    · exact fun k ps pos hv => absurd hv hno
  · rintro y (hy | rfl)
    · exact h.dentro y hy
    · exact fun k ps hv => absurd hv hno
  · rintro y z (hy | rfl) hz k ps k' ps' hv hv'
    · rcases hz with hz | rfl
      · exact h.distintos y z hy hz k ps k' ps' hv hv'
      · exact absurd hv' hno
    · exact absurd hv hno
  · intro b hb
    rw [h.bits b hb]
    refine or_congr Iff.rfl ⟨?_, ?_⟩
    · rintro ⟨y, k, ps, hy, hv, heq⟩
      exact ⟨y, k, ps, .inl hy, hv, heq⟩
    · rintro ⟨y, k, ps, hy | rfl, hv, heq⟩
      · exact ⟨y, k, ps, hy, hv, heq⟩
      · exact absurd hv hno

/-! ### One leaf more -/

section Crece

variable (hp : 0 < E.p) (h : Reparto E leer bit vol fijo U F N) (hx : U x)
  (hc : Corte E k ds (N x) e)
  (hi : Injerto E leer leer' bit bit' vol fijo (F x) raiz' k ds e b)

include hp h hx hc hi

omit hp in
/-- The pointers of live blocks stay, but for the link to the new blocks. -/
theorem Injerto.leer_igual {y k' : Nat} {ps : List Nat} {pos : Nat} (hy : U y)
    (hv : Vivo E (N y) k' ps) (hpos : pos < E.p)
    (hno : y = x → E.primero k' (ps ++ [pos]) ≠ N x) :
    leer' (nodo leer (F y) k' ps) pos = leer (nodo leer (F y) k' ps) pos := by
  obtain ⟨hvol, hfijo⟩ := h.dentro y hy k' ps hv
  refine hi.igual _ _ hvol (h.marcado hy hv) hfijo hpos ?_
  intro j hj hnodo hp'
  -- the link is the site at depth `e`, whose first leaf is the new one
  obtain ⟨rfl, rfl, rfl⟩ :=
    h.distintos y x hy hx k' ps k (ds.take j) hv (hc.vivo_take (by omega)) hnodo
  have hjl : j < ds.length := by
    have := hc.largo
    omega
  have hm := hc.muerto
  rw [hj, take_succ_getD hjl, ← hp'] at hm
  exact hno rfl hm

omit hp in
/-- Live sites keep their blocks. -/
theorem Injerto.nodo_igual {y : Nat} (hy : U y) : ∀ (k' : Nat) (ps : List Nat),
    Vivo E (N y) k' ps →
    nodo leer' (Function.update F x raiz' y) k' ps = nodo leer (F y) k' ps := by
  intro k' ps
  induction ps using List.reverseRecOn with
  | nil =>
      intro hv
      show Function.update F x raiz' y k' = F y k'
      by_cases hyx : y = x
      · subst hyx
        rw [Function.update_self]
        refine hi.raizIgual k' ?_
        rintro rfl rfl
        have := hc.muerto
        have := hv.antes
        simp only [List.take_zero] at *
        omega
      · rw [Function.update_of_ne hyx]
  | append_singleton ps pos ih =>
      intro hv
      rw [nodo_concat, nodo_concat, ih hv.padre]
      refine Injerto.leer_igual h hx hc hi hy hv.padre (hv.valido.digito pos (by simp)) ?_
      rintro rfl heq
      exact absurd hv.antes (by omega)

omit hp in
/-- The sites of the path from depth `e` on hold the new blocks. -/
theorem Injerto.nodo_nuevo : ∀ j, e ≤ j → j ≤ ds.length →
    nodo leer' raiz' k (ds.take j) = b j := by
  intro j hj
  induction j, hj using Nat.le_induction with
  | base =>
      intro _
      rcases Nat.eq_zero_or_pos e with he | he
      · rw [he]
        exact hi.raizNueva he
      · obtain ⟨j, rfl⟩ : ∃ j, e = j + 1 := ⟨e - 1, by omega⟩
        have hlt : j < ds.length := by
          have := hc.largo
          omega
        have hn := Injerto.nodo_igual h hx hc hi hx k (ds.take j) (hc.vivo_take (by omega))
        rw [Function.update_self] at hn
        rw [nodo_take_succ hlt, hn]
        exact hi.enlace j rfl
  | succ j hj ih =>
      intro hl
      rw [nodo_take_succ (by omega), ih (by omega)]
      rw [hi.nuevo j hj (by omega) _ (hc.valido.digito_getD (by omega)), if_pos rfl]

/-- What a live site of the grown family holds: its old block, or a new one. -/
theorem Injerto.casos {y k' : Nat} {ps : List Nat} (hy : U y)
    (hv : Vivo E (Function.update N x (N x + 1) y) k' ps) :
    (Vivo E (N y) k' ps
      ∧ nodo leer' (Function.update F x raiz' y) k' ps = nodo leer (F y) k' ps) ∨
    (y = x ∧ k' = k ∧ ps = ds.take ps.length ∧ e ≤ ps.length ∧ ps.length ≤ ds.length
      ∧ nodo leer' (Function.update F x raiz' y) k' ps = b ps.length) := by
  by_cases hyx : y = x
  · subst hyx
    rw [Function.update_self] at hv
    rcases hc.vivo_succ hp hv with hold | ⟨rfl, hps, he, hl⟩
    · exact .inl ⟨hold, Injerto.nodo_igual h hx hc hi hx k' ps hold⟩
    · refine .inr ⟨rfl, rfl, hps, he, hl, ?_⟩
      rw [Function.update_self, hps, List.length_take_of_le hl]
      exact Injerto.nodo_nuevo h hx hc hi _ he hl
  · rw [Function.update_of_ne hyx] at hv
    exact .inl ⟨hv, Injerto.nodo_igual h hx hc hi hy k' ps hv⟩

/-- **GROWTH**: a file that gets one leaf more keeps the pool well shared. -/
theorem Reparto.crece : Reparto E leer' bit' vol fijo U (Function.update F x raiz')
    (Function.update N x (N x + 1)) where
  raizCero := by
    intro y hy k' hk' hle
    by_cases hyx : y = x
    · subst hyx
      rw [Function.update_self] at hle ⊢
      rw [hi.raizIgual k', h.raizCero y hy k' hk' (by omega)]
      rintro rfl rfl
      have hm := hc.muerto
      rw [List.take_zero, primero_nil] at hm
      omega
    · rw [Function.update_of_ne hyx] at hle ⊢
      exact h.raizCero y hy k' hk' hle
  hijoCero := by
    intro y hy k' ps pos hv hval hle
    have hpos : pos < E.p := hval.digito pos (by simp)
    rcases Injerto.casos hp h hx hc hi hy hv with
      ⟨hold, hn⟩ | ⟨rfl, rfl, hps, he, hl, hn⟩
    · -- an old block: its pointers stay, and this one was zero
      have hle' : N y ≤ E.primero k' (ps ++ [pos]) := by
        by_cases hyx : y = x
        · subst hyx
          rw [Function.update_self] at hle
          omega
        · rwa [Function.update_of_ne hyx] at hle
      rw [hn, Injerto.leer_igual h hx hc hi hy hold hpos]
      · exact h.hijoCero y hy k' ps pos hold hval hle'
      · rintro rfl heq
        rw [Function.update_self, heq] at hle
        omega
    · -- a new pointer block: zero but for the entry of the path
      rw [Function.update_self] at hle
      have hlt : ps.length < ds.length := by
        have hlargo := hval.largo
        rw [List.length_append, List.length_singleton, ← hc.completo] at hlargo
        omega
      rw [hn, hi.nuevo _ he hlt _ hpos, if_neg]
      rintro rfl
      have hd := hc.desde (j := ps.length + 1) (by omega) (by omega)
      rw [take_succ_getD hlt, ← hps] at hd
      omega
  dentro := by
    intro y hy k' ps hv
    rcases Injerto.casos hp h hx hc hi hy hv with ⟨hold, hn⟩ | ⟨_, _, _, he, hl, hn⟩
    · rw [hn]
      exact h.dentro y hy k' ps hold
    · obtain ⟨hvol, hbit⟩ := hi.libre _ he hl
      rw [hn]
      refine ⟨hvol, fun hf => ?_⟩
      rw [(h.bits _ hvol).mpr (.inl hf)] at hbit
      exact Bool.noConfusion hbit
  distintos := by
    intro y z hy hz k' ps k'' qs hv hw heq
    rcases Injerto.casos hp h hx hc hi hy hv with
      ⟨hold, hn⟩ | ⟨rfl, rfl, hps, he, hl, hn⟩ <;>
    rcases Injerto.casos hp h hx hc hi hz hw with
      ⟨hold', hn'⟩ | ⟨rfl, rfl, hqs, he', hl', hn'⟩
    · rw [hn, hn'] at heq
      exact h.distintos y z hy hz k' ps k'' qs hold hold' heq
    · -- an old block is marked, a new one was not
      have hm := h.marcado hy hold
      rw [hn, hn'] at heq
      rw [heq, (hi.libre _ he' hl').2] at hm
      exact Bool.noConfusion hm
    · have hm := h.marcado hz hold'
      rw [hn, hn'] at heq
      rw [← heq, (hi.libre _ he hl).2] at hm
      exact Bool.noConfusion hm
    · rw [hn, hn'] at heq
      have hlen := hi.inyectiva _ _ he hl he' hl' heq
      refine ⟨rfl, rfl, ?_⟩
      rw [hps, hqs, hlen]
  bits := by
    intro c hvol
    rw [hi.bitNuevo c hvol, h.bits c hvol]
    constructor
    · rintro ((hf | ⟨y, k', ps, hy, hv, rfl⟩) | ⟨j, hj, hl, rfl⟩)
      · exact .inl hf
      · refine .inr ⟨y, k', ps, hy, ?_, Injerto.nodo_igual h hx hc hi hy k' ps hv⟩
        by_cases hyx : y = x
        · subst hyx
          rw [Function.update_self]
          exact hv.mono (by omega)
        · rwa [Function.update_of_ne hyx]
      · refine .inr ⟨x, k, ds.take j, hx, ?_, ?_⟩
        · rw [Function.update_self]
          exact hc.vivo_desde hj hl
        · rw [Function.update_self]
          exact Injerto.nodo_nuevo h hx hc hi j hj hl
    · rintro (hf | ⟨y, k', ps, hy, hv, rfl⟩)
      · exact .inl (.inl hf)
      · rcases Injerto.casos hp h hx hc hi hy hv with ⟨hold, hn⟩ | ⟨_, _, _, he, hl, hn⟩
        · exact .inl (.inr ⟨y, k', ps, hy, hold, hn.symm⟩)
        · exact .inr ⟨ps.length, he, hl, hn⟩

end Crece

/-! ### One leaf less -/

section Encoge

variable (hp : 0 < E.p) (h : Reparto E leer bit vol fijo U F N) (hx : U x) (hn : N x = n + 1)
  (hc : Corte E k ds n e) (hq : Poda E leer leer' bit bit' vol fijo (F x) raiz' k ds e)

/-- A site of the smaller tree is one of the larger. -/
theorem vivo_antes {y k' : Nat} {ps : List Nat} (hn : N x = n + 1)
    (hv : Vivo E (Function.update N x n y) k' ps) : Vivo E (N y) k' ps := by
  by_cases hyx : y = x
  · subst hyx
    rw [Function.update_self] at hv
    exact hv.mono (by omega)
  · rwa [Function.update_of_ne hyx] at hv

include h hx hn hc

/-- A site that stays live does not hold a block of the cut end of the path. -/
theorem Corte.nodo_ne {y k' : Nat} {ps : List Nat} (hy : U y)
    (hv : Vivo E (Function.update N x n y) k' ps) {j : Nat} (hj : e ≤ j) (hl : j ≤ ds.length) :
    nodo leer (F y) k' ps ≠ nodo leer (F x) k (ds.take j) := by
  intro heq
  have hvx : Vivo E (N x) k (ds.take j) := hn ▸ hc.vivo_desde hj hl
  obtain ⟨rfl, rfl, rfl⟩ :=
    h.distintos y x hy hx k' ps k (ds.take j) (vivo_antes hn hv) hvx heq
  rw [Function.update_self] at hv
  exact absurd hv.antes (by rw [hc.desde hj hl]; omega)

include hq

/-- Away from the pruned leaf the pointers are the same. -/
theorem Poda.leer_igual {y k' : Nat} {ps : List Nat} {pos : Nat} (hy : U y)
    (hv : Vivo E (Function.update N x n y) k' ps) (hpos : pos < E.p)
    (hno : y = x → E.primero k' (ps ++ [pos]) ≠ n) :
    leer' (nodo leer (F y) k' ps) pos = leer (nodo leer (F y) k' ps) pos := by
  have hold : Vivo E (N y) k' ps := vivo_antes hn hv
  obtain ⟨hvol, hfijo⟩ := h.dentro y hy k' ps hold
  refine hq.igual _ _ hvol (h.marcado hy hold) hfijo hpos
    (fun j hj hl => Corte.nodo_ne h hx hn hc hy hv hj hl) ?_
  intro j hj hnodo hp'
  have hvx : Vivo E (N x) k (ds.take j) := hn ▸ (hc.vivo_take (by omega)).mono (by omega)
  obtain ⟨rfl, rfl, rfl⟩ := h.distintos y x hy hx k' ps k (ds.take j) hold hvx hnodo
  have hjl : j < ds.length := by
    have := hc.largo
    omega
  have hm := hc.muerto
  rw [hj, take_succ_getD hjl, ← hp'] at hm
  exact hno rfl hm

/-- The sites that stay live keep their blocks. -/
theorem Poda.nodo_igual {y : Nat} (hy : U y) : ∀ (k' : Nat) (ps : List Nat),
    Vivo E (Function.update N x n y) k' ps →
    nodo leer' (Function.update F x raiz' y) k' ps = nodo leer (F y) k' ps := by
  intro k' ps
  induction ps using List.reverseRecOn with
  | nil =>
      intro hv
      show Function.update F x raiz' y k' = F y k'
      by_cases hyx : y = x
      · subst hyx
        rw [Function.update_self] at hv ⊢
        refine hq.raizIgual k' ?_
        rintro rfl rfl
        have hm := hc.muerto
        rw [List.take_zero] at hm
        exact absurd hv.antes (by omega)
      · rw [Function.update_of_ne hyx]
  | append_singleton ps pos ih =>
      intro hv
      rw [nodo_concat, nodo_concat, ih hv.padre]
      refine Poda.leer_igual h hx hn hc hq hy hv.padre (hv.valido.digito pos (by simp)) ?_
      rintro rfl heq
      have hlt := hv.antes
      rw [Function.update_self] at hlt
      omega

include hp

/-- **SHRINKING**: a file that loses its last leaf keeps the pool well shared. -/
theorem Reparto.encoge : Reparto E leer' bit' vol fijo U (Function.update F x raiz')
    (Function.update N x n) where
  raizCero := by
    intro y hy k' hk' hle
    by_cases hyx : y = x
    · subst hyx
      rw [Function.update_self] at hle ⊢
      by_cases hcut : k' = k ∧ e = 0
      · rw [hcut.1]
        exact hq.raizCortada hcut.2
      · rw [hq.raizIgual k' fun hk he => hcut ⟨hk, he⟩]
        refine h.raizCero y hy k' hk' ?_
        -- only the root of the path starts at the leaf that goes
        rcases Nat.lt_or_eq_of_le hle with hlt | heq
        · omega
        · rw [← primero_nil] at heq
          obtain ⟨rfl, _, he, _⟩ := hc.en_camino hp (Valido.nil hk') heq.symm
          exact absurd ⟨rfl, by simpa using he⟩ hcut
    · rw [Function.update_of_ne hyx] at hle ⊢
      exact h.raizCero y hy k' hk' hle
  hijoCero := by
    intro y hy k' ps pos hv hval hle
    have hpos : pos < E.p := hval.digito pos (by simp)
    rw [Poda.nodo_igual h hx hn hc hq hy k' ps hv]
    by_cases hsite : y = x ∧ E.primero k' (ps ++ [pos]) = n
    · -- the entry that led to the cut end
      obtain ⟨rfl, heq⟩ := hsite
      obtain ⟨rfl, hps, he, hl⟩ := hc.en_camino hp hval heq
      simp only [List.length_append, List.length_singleton] at hps he hl
      rw [take_succ_getD (by omega)] at hps
      obtain ⟨hps', hpos'⟩ := List.append_inj hps (by rw [List.length_take_of_le (by omega)])
      rw [hps', List.singleton_inj.mp hpos']
      refine hq.corte ps.length ?_
      rw [Function.update_self] at hv
      by_contra hne
      have hd := hc.desde (j := ps.length) (by omega) (by omega)
      rw [← hps'] at hd
      exact absurd hv.antes (by omega)
    · rw [Poda.leer_igual h hx hn hc hq hy hv hpos fun hyx heq => hsite ⟨hyx, heq⟩]
      refine h.hijoCero y hy k' ps pos (vivo_antes hn hv) hval ?_
      by_cases hyx : y = x
      · subst hyx
        rw [Function.update_self] at hle
        have hne : E.primero k' (ps ++ [pos]) ≠ n := fun heq => hsite ⟨rfl, heq⟩
        omega
      · rwa [Function.update_of_ne hyx] at hle
  dentro := by
    intro y hy k' ps hv
    rw [Poda.nodo_igual h hx hn hc hq hy k' ps hv]
    exact h.dentro y hy k' ps (vivo_antes hn hv)
  distintos := by
    intro y z hy hz k' ps k'' qs hv hw heq
    rw [Poda.nodo_igual h hx hn hc hq hy k' ps hv,
      Poda.nodo_igual h hx hn hc hq hz k'' qs hw] at heq
    exact h.distintos y z hy hz k' ps k'' qs (vivo_antes hn hv) (vivo_antes hn hw) heq
  bits := by
    intro c hvol
    rw [hq.bitNuevo c hvol, h.bits c hvol]
    constructor
    · rintro ⟨hf | ⟨y, k', ps, hy, hv, rfl⟩, hne⟩
      · exact .inl hf
      · have hv' : Vivo E (Function.update N x n y) k' ps := by
          by_cases hyx : y = x
          · subst hyx
            rw [Function.update_self]
            rw [hn] at hv
            rcases hc.vivo_succ hp hv with hold | ⟨rfl, hps, he, hl⟩
            · exact hold
            · exact absurd (congrArg _ hps) (hne _ he hl)
          · rwa [Function.update_of_ne hyx]
        exact .inr ⟨y, k', ps, hy, hv', Poda.nodo_igual h hx hn hc hq hy k' ps hv'⟩
    · rintro (hf | ⟨y, k', ps, hy, hv, rfl⟩)
      · refine ⟨.inl hf, ?_⟩
        rintro j hj hl rfl
        have hvx : Vivo E (N x) k (ds.take j) := hn ▸ hc.vivo_desde hj hl
        exact (h.dentro x hx k _ hvx).2 hf
      · rw [Poda.nodo_igual h hx hn hc hq hy k' ps hv]
        exact ⟨.inr ⟨y, k', ps, hy, vivo_antes hn hv, rfl⟩,
          fun j hj hl => Corte.nodo_ne h hx hn hc hy hv hj hl⟩

end Encoge

end Reparto

end Arboles
