import Mathlib.Data.List.Basic

/-! # Runs of a partial step

    A machine that may get stuck: `paso a s` is the state after action `a`, or
    `none`.  `corrida` runs a list of actions, `EnCadaPaso` asks a condition
    of every action at the state it meets, and `corrida_invariante` is the
    rule that carries an invariant through such a run.  Both are decidable
    when the step condition is, so a concrete run can be evaluated. -/

namespace Corridas

variable {α σ : Type}

/-- The state after a list of actions; `none` when one of them is stuck. -/
def corrida (paso : α → σ → Option σ) : List α → σ → Option σ
  | [], s => some s
  | a :: resto, s => (paso a s).bind (corrida paso resto)

/-- Every action of the run meets condition `C` at the state before it. -/
def EnCadaPaso (paso : α → σ → Option σ) (C : α → σ → Prop) : List α → σ → Prop
  | [], _ => True
  | a :: resto, s => C a s ∧ ∀ s' ∈ paso a s, EnCadaPaso paso C resto s'

instance decidableEnCadaPaso {paso : α → σ → Option σ} {C : α → σ → Prop}
    [∀ a s, Decidable (C a s)] :
    ∀ (l : List α) (s : σ), Decidable (EnCadaPaso paso C l s)
  | [], _ => inferInstanceAs (Decidable True)
  | a :: resto, s =>
      have : ∀ s', Decidable (EnCadaPaso paso C resto s') := decidableEnCadaPaso resto
      inferInstanceAs (Decidable (C a s ∧ ∀ s' ∈ paso a s, EnCadaPaso paso C resto s'))

theorem corrida_append (paso : α → σ → Option σ) (l l' : List α) (s : σ) :
    corrida paso (l ++ l') s = (corrida paso l s).bind (corrida paso l') := by
  induction l generalizing s with
  | nil => rfl
  | cons a l ih =>
      rw [List.cons_append, corrida, corrida, Option.bind_assoc]
      exact congrArg (Option.bind (paso a s)) (funext ih)

/-- **THE RUN RULE**: an invariant that every allowed step keeps holds after
    every allowed run. -/
theorem corrida_invariante {paso : α → σ → Option σ} {C : α → σ → Prop} {P : σ → Prop}
    (hstep : ∀ a s s', P s → C a s → paso a s = some s' → P s') :
    ∀ (l : List α) {s s' : σ}, P s → EnCadaPaso paso C l s → corrida paso l s = some s' →
      P s' := by
  intro l
  induction l with
  | nil =>
      intro s s' hP _ h
      obtain rfl := Option.some.inj h
      exact hP
  | cons a resto ih =>
      intro s s' hP hC h
      obtain ⟨s₁, h1, h2⟩ := Option.bind_eq_some_iff.mp h
      exact ih (hstep a s s₁ hP hC.1 h1) (hC.2 s₁ h1) h2

/-- The run rule without a condition on the steps. -/
theorem corrida_preserva {paso : α → σ → Option σ} {P : σ → Prop}
    (hstep : ∀ a s s', P s → paso a s = some s' → P s') :
    ∀ (l : List α) {s s' : σ}, P s → corrida paso l s = some s' → P s' := by
  intro l
  induction l with
  | nil =>
      intro s s' hP h
      obtain rfl := Option.some.inj h
      exact hP
  | cons a resto ih =>
      intro s s' hP h
      obtain ⟨s₁, h1, h2⟩ := Option.bind_eq_some_iff.mp h
      exact ih (hstep a s s₁ hP h1) h2

/-- A condition that the other gives under an invariant. -/
theorem EnCadaPaso.imp {paso : α → σ → Option σ} {C C' : α → σ → Prop} {P : σ → Prop}
    (hC : ∀ a s, P s → C a s → C' a s)
    (hstep : ∀ a s s', P s → C a s → paso a s = some s' → P s') :
    ∀ (l : List α) {s : σ}, P s → EnCadaPaso paso C l s → EnCadaPaso paso C' l s := by
  intro l
  induction l with
  | nil => exact fun _ _ => trivial
  | cons a resto ih =>
      intro s hP h
      exact ⟨hC a s hP h.1, fun s' hs' => ih (hstep a s s' hP h.1 hs') (h.2 s' hs')⟩

/-- **THE PROJECTION RULE**: when each step of one machine, seen through `f`, is
    the step of another, so is each run. -/
theorem corrida_proyecta {π : Type} {pasoP : α → π → Option π} {paso : α → σ → Option σ}
    {f : π → σ} {B : π → Prop} {C : α → Prop}
    (hstep : ∀ a p, B p → C a → (pasoP a p).map f = paso a (f p) ∧ ∀ p' ∈ pasoP a p, B p') :
    ∀ (l : List α) {p : π}, B p → (∀ a ∈ l, C a) →
      (corrida pasoP l p).map f = corrida paso l (f p) ∧ ∀ p' ∈ corrida pasoP l p, B p' := by
  intro l
  induction l with
  | nil =>
      intro p hB _
      refine ⟨rfl, fun p' hp' => ?_⟩
      obtain rfl := Option.some.inj hp'
      exact hB
  | cons a resto ih =>
      intro p hB hC
      obtain ⟨hig, hB'⟩ := hstep a p hB (hC a List.mem_cons_self)
      rw [corrida, corrida, ← hig]
      cases hp : pasoP a p with
      | none => exact ⟨rfl, fun p' hp' => nomatch hp'⟩
      | some p₁ => exact ih (hB' p₁ hp) fun b hb => hC b (List.mem_cons_of_mem a hb)

/-- A condition of every step, through a projection. -/
theorem EnCadaPaso.proyecta {π : Type} {pasoP : α → π → Option π} {paso : α → σ → Option σ}
    {f : π → σ} {B : π → Prop} {C : α → Prop} {D : α → σ → Prop}
    (hstep : ∀ a p, B p → C a → (pasoP a p).map f = paso a (f p) ∧ ∀ p' ∈ pasoP a p, B p') :
    ∀ (l : List α) {p : π}, B p → (∀ a ∈ l, C a) →
      (EnCadaPaso pasoP (fun a p => D a (f p)) l p ↔ EnCadaPaso paso D l (f p)) := by
  intro l
  induction l with
  | nil => exact fun _ _ => Iff.rfl
  | cons a resto ih =>
      intro p hB hC
      obtain ⟨hig, hB'⟩ := hstep a p hB (hC a List.mem_cons_self)
      have hresto : ∀ b ∈ resto, C b := fun b hb => hC b (List.mem_cons_of_mem a hb)
      rw [EnCadaPaso, EnCadaPaso, ← hig]
      refine and_congr_right fun _ => ?_
      cases hp : pasoP a p with
      | none => exact ⟨fun _ _ h => (nomatch h), fun _ _ h => (nomatch h)⟩
      | some p₁ =>
          have h₁ := ih (hB' p₁ hp) hresto
          refine ⟨fun h s' hs' => ?_, fun h p' hp' => ?_⟩
          · obtain rfl := Option.some.inj hs'
            exact h₁.mp (h p₁ rfl)
          · obtain rfl := Option.some.inj hp'
            exact h₁.mpr (h (f p₁) rfl)

/-- A run of a relation: one step for each action. -/
def Traza {τ : Type} (paso : α → τ → τ → Prop) : List α → τ → τ → Prop
  | [], t, t' => t' = t
  | a :: resto, t, t' => ∃ t₁, paso a t t₁ ∧ Traza paso resto t₁ t'

theorem Traza.append {τ : Type} {paso : α → τ → τ → Prop} : ∀ (l : List α) {l' : List α} {t t' : τ},
    Traza paso (l ++ l') t t' → ∃ t₁, Traza paso l t t₁ ∧ Traza paso l' t₁ t' := by
  intro l
  induction l with
  | nil => exact fun h => ⟨_, rfl, h⟩
  | cons a l ih =>
      rintro l' t t' ⟨t₁, hpaso, h⟩
      obtain ⟨t₂, hl, hl'⟩ := ih h
      exact ⟨t₂, ⟨t₁, hpaso, hl⟩, hl'⟩

/-- What every step of a run of a relation keeps. -/
theorem Traza.preserva {τ : Type} {paso : α → τ → τ → Prop} {P : τ → Prop} : ∀ (l : List α)
    {t t' : τ},
    (∀ a ∈ l, ∀ t t', P t → paso a t t' → P t') → P t → Traza paso l t t' → P t' := by
  intro l
  induction l with
  | nil =>
      intro t t' _ hP h
      rw [show t' = t from h]
      exact hP
  | cons a l ih =>
      rintro t t' hstep hP ⟨t₁, hpaso, h⟩
      exact ih (fun b hb => hstep b (List.mem_cons_of_mem a hb))
        (hstep a List.mem_cons_self t t₁ hP hpaso) h

/-- **THE SIMULATION RULE**: when every allowed step goes on and is a step of the
    abstract machine, every allowed run ends and is a run of it. -/
theorem corrida_simula {τ : Type} {paso : α → σ → Option σ} {C : α → σ → Prop} {R : σ → τ → Prop}
    {abs : α → τ → τ → Prop}
    (hstep : ∀ a s t, R s t → C a s → ∃ s' t', paso a s = some s' ∧ abs a t t' ∧ R s' t') :
    ∀ (l : List α) {s : σ} {t : τ}, R s t → EnCadaPaso paso C l s →
      ∃ s' t', corrida paso l s = some s' ∧ Traza abs l t t' ∧ R s' t' := by
  intro l
  induction l with
  | nil => exact fun {s t} hR _ => ⟨s, t, rfl, rfl, hR⟩
  | cons a resto ih =>
      intro s t hR hC
      obtain ⟨s₁, t₁, h1, ht, hR₁⟩ := hstep a s t hR hC.1
      obtain ⟨s', t', h2, htr, hR'⟩ := ih hR₁ (hC.2 s₁ h1)
      exact ⟨s', t', Option.bind_eq_some_iff.mpr ⟨s₁, h1, h2⟩, ⟨t₁, ht, htr⟩, hR'⟩

/-- A condition of every step, in two stretches of a run. -/
theorem EnCadaPaso.append {paso : α → σ → Option σ} {C : α → σ → Prop} {l' : List α} :
    ∀ {l : List α} {s : σ}, EnCadaPaso paso C (l ++ l') s ↔
      EnCadaPaso paso C l s ∧ ∀ s' ∈ corrida paso l s, EnCadaPaso paso C l' s' := by
  intro l
  induction l with
  | nil => intro s; simp [EnCadaPaso, corrida]
  | cons a l ih =>
      intro s
      rw [List.cons_append, EnCadaPaso, EnCadaPaso, and_assoc]
      refine and_congr_right fun _ => ⟨fun h => ⟨fun s₁ h₁ => (ih.mp (h s₁ h₁)).1, ?_⟩, ?_⟩
      · intro s' hs'
        obtain ⟨s₁, h₁, h₂⟩ := Option.bind_eq_some_iff.mp hs'
        exact (ih.mp (h s₁ h₁)).2 s' h₂
      · rintro ⟨h, h'⟩ s₁ h₁
        exact ih.mpr ⟨h s₁ h₁, fun s' h₂ => h' s' (Option.bind_eq_some_iff.mpr ⟨s₁, h₁, h₂⟩)⟩

/-- Two conditions of every step. -/
theorem EnCadaPaso.and {paso : α → σ → Option σ} {C D : α → σ → Prop} :
    ∀ {l : List α} {s : σ}, EnCadaPaso paso C l s → EnCadaPaso paso D l s →
      EnCadaPaso paso (fun a s => C a s ∧ D a s) l s := by
  intro l
  induction l with
  | nil => exact fun _ _ => trivial
  | cons a l ih => exact fun h h' => ⟨⟨h.1, h'.1⟩, fun s₁ h₁ => ih (h.2 s₁ h₁) (h'.2 s₁ h₁)⟩

/-- A condition on the actions alone. -/
theorem EnCadaPaso.de_mem {paso : α → σ → Option σ} {C : α → Prop} :
    ∀ {l : List α} {s : σ}, (∀ a ∈ l, C a) → EnCadaPaso paso (fun a _ => C a) l s := by
  intro l
  induction l with
  | nil => exact fun _ => trivial
  | cons a l ih =>
      exact fun h => ⟨h a List.mem_cons_self, fun _ _ => ih fun b hb => h b
        (List.mem_cons_of_mem a hb)⟩

end Corridas
