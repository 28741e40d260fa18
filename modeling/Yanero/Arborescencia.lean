import Mathlib.Data.List.Induction

/-! # Trees given by named edges

    `hijo x c` is where the edge of name `c` leads from node `x`.  When no node
    has two edges that lead to it and none leads to the root, the walks from the
    root are the paths of a tree: two of them that end at one node are the same
    (`EsArbol.andar_unico`).  So putting an edge to a new node, or cutting the edge
    of a node without edges, changes one walk and no other (`Pone.andar`,
    `Corta.andar`), and both keep the tree. -/

namespace Arborescencia

variable {α ν : Type}

/-- Follow the names from a node. -/
def andar (hijo : α → ν → Option α) : α → List ν → Option α
  | x, [] => some x
  | x, c :: cs => (hijo x c).bind fun y => andar hijo y cs

/-- No node has two edges that lead to it, and none leads to the root. -/
structure EsArbol (hijo : α → ν → Option α) (raiz : α) : Prop where
  unico : ∀ {x y : α} {c d : ν} {z : α}, hijo x c = some z → hijo y d = some z → x = y ∧ c = d
  raiz : ∀ x c, hijo x c ≠ some raiz

section Andar

variable {hijo hijo' : α → ν → Option α} {raiz x y z d : α} {c : ν} {p q : List ν}

theorem andar_append (hijo : α → ν → Option α) (p q : List ν) (x : α) :
    andar hijo x (p ++ q) = (andar hijo x p).bind fun y => andar hijo y q := by
  induction p generalizing x with
  | nil => rfl
  | cons c p ih =>
      rw [List.cons_append, andar, andar, Option.bind_assoc]
      exact congrArg (Option.bind (hijo x c)) (funext ih)

/-- The last name of a walk. -/
theorem andar_concat (hijo : α → ν → Option α) (p : List ν) (c : ν) (x : α) :
    andar hijo x (p ++ [c]) = (andar hijo x p).bind fun y => hijo y c := by
  rw [andar_append]
  refine congrArg (Option.bind (andar hijo x p)) (funext fun y => ?_)
  rw [andar]
  cases hijo y c <;> rfl

theorem andar_concat_some (h : andar hijo x p = some y) :
    andar hijo x (p ++ [c]) = hijo y c := by
  rw [andar_concat, h]
  rfl

theorem andar_congr (h : ∀ x c, hijo' x c = hijo x c) (x : α) (p : List ν) :
    andar hijo' x p = andar hijo x p := by
  induction p generalizing x with
  | nil => rfl
  | cons c p ih =>
      rw [andar, andar, h]
      exact congrArg (Option.bind (hijo x c)) (funext ih)

/-- A walk that does not end at the root has a last edge. -/
theorem andar_ultimo (h : andar hijo raiz p = some z) (hz : z ≠ raiz) :
    ∃ q c y, p = q ++ [c] ∧ andar hijo raiz q = some y ∧ hijo y c = some z := by
  rcases List.eq_nil_or_concat p with rfl | ⟨q, c, rfl⟩
  · exact absurd (Option.some.inj h).symm hz
  · rw [List.concat_eq_append, andar_concat] at h
    obtain ⟨y, hy, hc⟩ := Option.bind_eq_some_iff.mp h
    exact ⟨q, c, y, List.concat_eq_append, hy, hc⟩

/-- A walk that ends at the root has not moved. -/
theorem EsArbol.andar_raiz (ht : EsArbol hijo raiz) (h : andar hijo raiz p = some raiz) :
    p = [] := by
  rcases List.eq_nil_or_concat p with rfl | ⟨q, c, rfl⟩
  · rfl
  · rw [List.concat_eq_append, andar_concat] at h
    obtain ⟨y, -, hc⟩ := Option.bind_eq_some_iff.mp h
    exact absurd hc (ht.raiz y c)

/-- **ONE WALK** to each node. -/
theorem EsArbol.andar_unico (ht : EsArbol hijo raiz) : ∀ {p q : List ν} {z : α},
    andar hijo raiz p = some z → andar hijo raiz q = some z → p = q := by
  intro p
  induction p using List.reverseRecOn with
  | nil =>
      intro q z hp hq
      obtain rfl := Option.some.inj hp
      exact (ht.andar_raiz hq).symm
  | append_singleton p c ih =>
      intro q z hp hq
      rw [andar_concat] at hp
      obtain ⟨y, hy, hc⟩ := Option.bind_eq_some_iff.mp hp
      have hz : z ≠ raiz := by
        rintro rfl
        exact ht.raiz y c hc
      obtain ⟨q', c', y', rfl, hy', hc'⟩ := andar_ultimo hq hz
      obtain ⟨rfl, rfl⟩ := ht.unico hc hc'
      rw [ih hy hy']

end Andar

/-! ## An edge more, an edge less -/

section Cambio

variable {hijo hijo' : α → ν → Option α} {raiz x d : α} {c : ν} {p : List ν}

/-- The edge of name `c` from `d` is put to lead to `x`. -/
structure Pone (hijo hijo' : α → ν → Option α) (d : α) (c : ν) (x : α) : Prop where
  arista : hijo' d c = some x
  resto : ∀ y e, ¬ (y = d ∧ e = c) → hijo' y e = hijo y e

/-- The edge of name `c` from `d` is cut. -/
structure Corta (hijo hijo' : α → ν → Option α) (d : α) (c : ν) : Prop where
  arista : hijo' d c = none
  resto : ∀ y e, ¬ (y = d ∧ e = c) → hijo' y e = hijo y e

theorem Pone.arbol (ht : EsArbol hijo raiz) (hx : ∀ y e, hijo y e ≠ some x) (hr : x ≠ raiz)
    (h : Pone hijo hijo' d c x) : EsArbol hijo' raiz := by
  have hcasos : ∀ {y e z}, hijo' y e = some z → (y = d ∧ e = c) ∧ z = x ∨ hijo y e = some z := by
    intro y e z hy
    by_cases hyd : y = d ∧ e = c
    · rw [hyd.1, hyd.2, h.arista] at hy
      exact .inl ⟨hyd, (Option.some.inj hy).symm⟩
    · exact .inr (h.resto y e hyd ▸ hy)
  constructor
  · intro y y' e e' z hy hy'
    rcases hcasos hy with ⟨⟨rfl, rfl⟩, rfl⟩ | hy
    · rcases hcasos hy' with ⟨⟨rfl, rfl⟩, -⟩ | hy'
      · exact ⟨rfl, rfl⟩
      · exact absurd hy' (hx y' e')
    · rcases hcasos hy' with ⟨-, rfl⟩ | hy'
      · exact absurd hy (hx y e)
      · exact ht.unico hy hy'
  · intro y e hy
    rcases hcasos hy with ⟨-, heq⟩ | hy
    · exact hr heq.symm
    · exact ht.raiz y e hy

theorem Corta.arbol (ht : EsArbol hijo raiz) (h : Corta hijo hijo' d c) : EsArbol hijo' raiz := by
  have hcasos : ∀ {y e z}, hijo' y e = some z → hijo y e = some z := by
    intro y e z hy
    by_cases hyd : y = d ∧ e = c
    · rw [hyd.1, hyd.2, h.arista] at hy
      cases hy
    · exact h.resto y e hyd ▸ hy
  exact ⟨fun hy hy' => ht.unico (hcasos hy) (hcasos hy'), fun y e hy => ht.raiz y e (hcasos hy)⟩

/-- **ELSEWHERE** a change of one edge is not noticed. -/
theorem EsArbol.andar_fuera (ht : EsArbol hijo raiz) (hd : andar hijo raiz p = some d)
    (h : ∀ y e, ¬ (y = d ∧ e = c) → hijo' y e = hijo y e) {q : List ν} (hq : ¬ p ++ [c] <+: q) :
    andar hijo' raiz q = andar hijo raiz q := by
  induction q using List.reverseRecOn with
  | nil => rfl
  | append_singleton q e ih =>
      rw [andar_concat, andar_concat, ih fun hp => hq (hp.trans (List.prefix_append q [e]))]
      cases hy : andar hijo raiz q with
      | none => rfl
      | some y =>
          refine h y e ?_
          rintro ⟨rfl, rfl⟩
          rw [ht.andar_unico hy hd] at hq
          exact hq (List.prefix_refl _)

/-- Below the edge, the walks go on from where it leads. -/
theorem EsArbol.andar_bajo (ht : EsArbol hijo raiz) (hd : andar hijo raiz p = some d)
    (h : ∀ y e, ¬ (y = d ∧ e = c) → hijo' y e = hijo y e) (q : List ν) :
    andar hijo' raiz (p ++ [c] ++ q) = (hijo' d c).bind fun x => andar hijo' x q := by
  have hp : andar hijo' raiz p = some d := by
    refine (ht.andar_fuera hd h fun hp => ?_).trans hd
    have hlargo := hp.length_le
    rw [List.length_append, List.length_singleton] at hlargo
    omega
  rw [andar_append, andar_concat_some hp]

/-- Nothing is found below a node without edges. -/
theorem andar_hoja (h : ∀ e, hijo x e = none) (q : List ν) :
    andar hijo x q = if q = [] then some x else none := by
  cases q with
  | nil => rfl
  | cons e q =>
      rw [andar, h e, if_neg (List.cons_ne_nil e q)]
      rfl

variable [DecidableEq ν]

/-- **AN EDGE MORE**, to a new node, is one walk more. -/
theorem Pone.andar (ht : EsArbol hijo raiz) (hx : ∀ e, hijo x e = none) (hxd : x ≠ d)
    (hlibre : hijo d c = none) (hd : andar hijo raiz p = some d) (h : Pone hijo hijo' d c x)
    (q : List ν) : andar hijo' raiz q = if q = p ++ [c] then some x else andar hijo raiz q := by
  by_cases hq : p ++ [c] <+: q
  · obtain ⟨r, rfl⟩ := hq
    have hsin : ∀ e, hijo' x e = none := fun e => by
      rw [h.resto x e fun hc => hxd hc.1, hx e]
    rw [ht.andar_bajo hd h.resto, h.arista, Option.bind_some, andar_hoja hsin,
      ht.andar_bajo hd fun _ _ _ => rfl, hlibre]
    simp
  · have hne : q ≠ p ++ [c] := by
      rintro rfl
      exact hq (List.prefix_refl _)
    rw [if_neg hne, ht.andar_fuera hd h.resto hq]

/-- **AN EDGE LESS**, to a node without edges, is one walk less. -/
theorem Corta.andar (ht : EsArbol hijo raiz) (hvieja : hijo d c = some x)
    (hx : ∀ e, hijo x e = none) (hd : andar hijo raiz p = some d) (h : Corta hijo hijo' d c)
    (q : List ν) : andar hijo' raiz q = if q = p ++ [c] then none else andar hijo raiz q := by
  by_cases hq : p ++ [c] <+: q
  · obtain ⟨r, rfl⟩ := hq
    rw [ht.andar_bajo hd h.resto, h.arista, ht.andar_bajo hd fun _ _ _ => rfl, hvieja,
      Option.bind_some, andar_hoja hx]
    simp
  · have hne : q ≠ p ++ [c] := by
      rintro rfl
      exact hq (List.prefix_refl _)
    rw [if_neg hne, ht.andar_fuera hd h.resto hq]

end Cambio

end Arborescencia
