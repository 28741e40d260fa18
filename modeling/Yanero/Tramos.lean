import Mathlib.Data.List.Basic
import Mathlib.Order.Basic

/-! # Records of any length, one after the other

    A stretch of a byte memory cut into records: each record says where the next
    one starts, and the last one ends where the stretch ends.  `Formato` is what
    a record is: how it is read, how long it is and when it is well formed; a
    well-formed record is read from its own bytes only.  `Tramo F m o fin ds`
    says that the records from `o` to `fin` are `ds`.

    Stretches are put together and taken apart like lists (`Tramo.append`,
    `tramo_append_iff`), and bytes outside a stretch do not matter
    (`Tramo.congr`). -/

namespace Tramos

/-- A kind of record. -/
structure Formato (α : Type) where
  leer : (Nat → UInt8) → Nat → α
  largo : α → Nat
  Bien : α → Prop
  largo_pos : ∀ d, Bien d → 0 < largo d
  propio : ∀ m m' o, Bien (leer m o) → (∀ i, o ≤ i → i < o + largo (leer m o) → m' i = m i) →
    leer m' o = leer m o

variable {α : Type} {F : Formato α}

/-- The records from `o` to `fin`. -/
inductive Tramo (F : Formato α) (m : Nat → UInt8) : Nat → Nat → List α → Prop
  | fin (o : Nat) : Tramo F m o o []
  | paso {o fin : Nat} {ds : List α} : F.Bien (F.leer m o) →
      Tramo F m (o + F.largo (F.leer m o)) fin ds → Tramo F m o fin (F.leer m o :: ds)

section Tramo

variable {m m' : Nat → UInt8} {o a b fin : Nat} {d : α} {ds es pre medio medio' post : List α}

/-- A record takes up bytes, so there are no more records than bytes. -/
theorem Tramo.length_le (h : Tramo F m o fin ds) : o + ds.length ≤ fin := by
  induction h with
  | fin o => exact Nat.le_refl o
  | paso hb _ ih =>
      have := F.largo_pos _ hb
      rw [List.length_cons]
      omega

theorem Tramo.le (h : Tramo F m o fin ds) : o ≤ fin :=
  Nat.le_trans (Nat.le_add_right _ _) h.length_le

/-- The first record. -/
theorem Tramo.cons (h : Tramo F m o fin (d :: ds)) :
    F.leer m o = d ∧ F.Bien d ∧ Tramo F m (o + F.largo d) fin ds := by
  cases h with
  | paso hb h => exact ⟨rfl, hb, h⟩

theorem Tramo.nil (h : Tramo F m o fin []) : fin = o := by
  cases h
  rfl

theorem tramo_cons (hd : F.leer m o = d) (hb : F.Bien d) (h : Tramo F m (o + F.largo d) fin ds) :
    Tramo F m o fin (d :: ds) := by
  subst hd
  exact .paso hb h

/-- A record that ends where the stretch ends. -/
theorem tramo_uno (hd : F.leer m o = d) (hb : F.Bien d) (hfin : o + F.largo d = fin) :
    Tramo F m o fin [d] :=
  tramo_cons hd hb (hfin ▸ .fin _)

theorem Tramo.append (h : Tramo F m o a ds) (h' : Tramo F m a fin es) :
    Tramo F m o fin (ds ++ es) := by
  induction h with
  | fin o => exact h'
  | paso hb _ ih => exact .paso hb (ih h')

theorem tramo_append_iff : Tramo F m o fin (ds ++ es) ↔
    ∃ a, Tramo F m o a ds ∧ Tramo F m a fin es := by
  constructor
  · intro h
    induction ds generalizing o with
    | nil => exact ⟨o, .fin o, h⟩
    | cons d ds ih =>
        obtain ⟨hd, hb, h⟩ := h.cons
        obtain ⟨a, h1, h2⟩ := ih h
        exact ⟨a, tramo_cons hd hb h1, h2⟩
  · rintro ⟨a, h1, h2⟩
    exact h1.append h2

/-- The bytes say what the records are. -/
theorem Tramo.unico (h : Tramo F m o fin ds) (h' : Tramo F m o fin es) : ds = es := by
  induction h generalizing es with
  | fin o =>
      cases es with
      | nil => rfl
      | cons e es =>
          have := h'.length_le
          rw [List.length_cons] at this
          omega
  | paso hb h ih =>
      cases es with
      | nil =>
          have h1 := h.le
          have h2 := F.largo_pos _ hb
          have h3 := h'.nil
          omega
      | cons e es =>
          obtain ⟨he, -, h'⟩ := h'.cons
          subst he
          rw [ih h']

/-- Only the bytes of the stretch matter. -/
theorem Tramo.congr (h : Tramo F m o fin ds) (hm : ∀ i, o ≤ i → i < fin → m' i = m i) :
    Tramo F m' o fin ds := by
  induction h with
  | fin o => exact .fin o
  | @paso o fin ds hb h ih =>
      have hle := h.le
      have hd := F.propio m m' o hb fun i h1 h2 => hm i h1 (by omega)
      exact tramo_cons hd hb (ih fun i h1 h2 => hm i (by omega) h2)

end Tramo

end Tramos
