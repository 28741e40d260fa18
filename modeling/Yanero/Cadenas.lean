import Mathlib.Data.List.Nodup
import Mathlib.Data.Finset.Card

/-! # Chains of positions

    A scan over positions below a limit: from each one the next is read off the
    data, and the scan stops when it is past the limit.  `Cadena sig limite o os`
    says that the scan from `o` ends and visits `os`.  A scan that ends visits no
    position twice, so `limite` turns are enough for any that does
    (`recorrer_iff`). -/

namespace Cadenas

/-- The positions visited from `o` on, for a scan that ends. -/
inductive Cadena (sig : Nat → Nat) (limite : Nat) : Nat → List Nat → Prop
  | fin {o : Nat} : limite ≤ o → Cadena sig limite o []
  | paso {o : Nat} {os : List Nat} : o < limite → Cadena sig limite (sig o) os →
      Cadena sig limite o (o :: os)

/-- The scan, with a bound on its turns. -/
def recorrer (sig : Nat → Nat) (limite : Nat) : Nat → Nat → Option (List Nat)
  | 0, o => if o < limite then none else some []
  | turnos + 1, o =>
      if o < limite then (recorrer sig limite turnos (sig o)).map (o :: ·) else some []

section Cadena

variable {sig : Nat → Nat} {limite o turnos : Nat} {os os' : List Nat}

/-- A scan visits one list of positions. -/
theorem Cadena.unica (h : Cadena sig limite o os) (h' : Cadena sig limite o os') : os = os' := by
  induction h generalizing os' with
  | fin ho =>
      cases h' with
      | fin _ => rfl
      | paso hlt _ => omega
  | paso hlt _ ih =>
      cases h' with
      | fin ho => omega
      | paso _ h' => rw [ih h']

theorem Cadena.lt_limite (h : Cadena sig limite o os) : ∀ x ∈ os, x < limite := by
  induction h with
  | fin _ => simp
  | paso hlt _ ih =>
      intro x hx
      rcases List.mem_cons.mp hx with rfl | hx
      · exact hlt
      · exact ih x hx

/-- From a visited position the scan goes on with the rest. -/
theorem Cadena.desde (h : Cadena sig limite o os) {x : Nat} (hx : x ∈ os) :
    ∃ resto, Cadena sig limite x resto ∧ resto.length ≤ os.length := by
  induction h with
  | fin _ => cases hx
  | @paso o os hlt hresto ih =>
      rcases List.mem_cons.mp hx with rfl | hx
      · exact ⟨x :: os, .paso hlt hresto, Nat.le_refl _⟩
      · obtain ⟨resto, hr, hle⟩ := ih hx
        exact ⟨resto, hr, Nat.le_succ_of_le hle⟩

/-- No position is visited twice: the scan would never end. -/
theorem Cadena.nodup (h : Cadena sig limite o os) : os.Nodup := by
  induction h with
  | fin _ => exact List.nodup_nil
  | @paso o os hlt hresto ih =>
      refine List.nodup_cons.mpr ⟨fun hmem => ?_, ih⟩
      obtain ⟨resto, hr, hle⟩ := hresto.desde hmem
      have heq := hr.unica (.paso hlt hresto)
      rw [heq, List.length_cons] at hle
      omega

theorem Cadena.length_le (h : Cadena sig limite o os) : os.length ≤ limite := by
  have hsub : os.toFinset ⊆ Finset.range limite := fun x hx =>
    Finset.mem_range.mpr (h.lt_limite x (List.mem_toFinset.mp hx))
  rw [← List.toFinset_card_of_nodup h.nodup]
  exact le_trans (Finset.card_le_card hsub) (by rw [Finset.card_range])

theorem Cadena.recorrer (h : Cadena sig limite o os) :
    ∀ {turnos : Nat}, os.length ≤ turnos → Cadenas.recorrer sig limite turnos o = some os := by
  induction h with
  | fin ho =>
      intro turnos _
      cases turnos <;> rw [Cadenas.recorrer, if_neg (by omega)]
  | paso hlt _ ih =>
      intro turnos hle
      cases turnos with
      | zero => simp at hle
      | succ turnos =>
          rw [Cadenas.recorrer, if_pos hlt, ih (by simpa using hle)]
          rfl

theorem cadena_recorrer (h : Cadenas.recorrer sig limite turnos o = some os) :
    Cadena sig limite o os := by
  induction turnos generalizing o os with
  | zero =>
      rw [recorrer] at h
      split at h
      · cases h
      · cases h
        exact .fin (by omega)
  | succ turnos ih =>
      rw [recorrer] at h
      split at h
      case isTrue hlt =>
        obtain ⟨resto, hresto, rfl⟩ := Option.map_eq_some_iff.mp h
        exact .paso hlt (ih hresto)
      case isFalse hge =>
        cases h
        exact .fin (by omega)

/-- A scan that stands on a position never ends. -/
theorem cadena_quieta (hsig : sig o = o) (ho : o < limite) : ¬ Cadena sig limite o os := by
  intro h
  cases h with
  | fin hge => omega
  | paso _ h' =>
      have hmas := Cadena.paso ho h'
      rw [hsig] at h'
      have heq := congrArg List.length (hmas.unica h')
      simp at heq

/-- **ENOUGH TURNS**: with as many turns as positions the scan answers exactly
    when it ends. -/
theorem recorrer_iff : recorrer sig limite limite o = some os ↔ Cadena sig limite o os :=
  ⟨cadena_recorrer, fun h => h.recorrer h.length_le⟩

end Cadena

end Cadenas
