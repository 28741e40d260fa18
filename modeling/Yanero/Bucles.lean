import Mathlib.Data.List.Basic
import Mathlib.Data.List.TakeWhile
import Mathlib.Tactic.Ring

/-! # Counting loops over arrays

    A `for` loop that rewrites an array in place, as a fold over its counter,
    and what the three usual loops of a table of descriptors do to it: shift a
    suffix one place down, shift a suffix up over a gap, and shift it up one
    place while clearing behind.  Everything is over an arbitrary type of
    cells and an arbitrary cell copy `g src dst`. -/

namespace Bucles

variable {σ α β : Type}

/-- `for (i = 0; i < n; i++) s = f i s`. -/
def iterar (f : Nat → σ → σ) : Nat → σ → σ
  | 0, s => s
  | n + 1, s => f n (iterar f n s)

@[simp] theorem iterar_zero (f : Nat → σ → σ) (s : σ) : iterar f 0 s = s := rfl

theorem iterar_succ (f : Nat → σ → σ) (n : Nat) (s : σ) :
    iterar f (n + 1) s = f n (iterar f n s) := rfl

/-- The first turn of the loop, peeled off. -/
theorem iterar_primera (f : Nat → σ → σ) (n : Nat) (s : σ) :
    iterar f (n + 1) s = iterar (fun i => f (i + 1)) n (f 0 s) := by
  induction n with
  | zero => rfl
  | succ n ih => rw [iterar_succ, ih, iterar_succ]

/-- **THE LOOP RULE**: what holds at entry and passes from each turn to the
    next holds at exit. -/
theorem iterar_invariante {f : Nat → σ → σ} (P : Nat → σ → Prop) {n : Nat} {s : σ}
    (h0 : P 0 s) (hstep : ∀ i s, i < n → P i s → P (i + 1) (f i s)) :
    P n (iterar f n s) := by
  induction n with
  | zero => exact h0
  | succ n ih =>
      rw [iterar_succ]
      refine hstep n _ (Nat.lt_succ_self n) (ih ?_)
      intro i s hi
      exact hstep i s (Nat.lt_succ_of_lt hi)

/-- A second state that follows a loop turn by turn. -/
def seguir {τ : Type} (f : Nat → σ → σ) (g : Nat → σ → τ → τ) (n : Nat) (s : σ) (a : τ) : τ :=
  (iterar (fun i x => (f i x.1, g i x.1 x.2)) n (s, a)).2

/-- The loop rule for both states at once. -/
theorem seguir_invariante {τ : Type} {f : Nat → σ → σ} {g : Nat → σ → τ → τ}
    (P : Nat → σ → τ → Prop) {n : Nat} {s : σ} {a : τ} (h0 : P 0 s a)
    (hstep : ∀ i s a, i < n → P i s a → P (i + 1) (f i s) (g i s a)) :
    P n (iterar f n s) (seguir f g n s a) := by
  have hfst : ∀ n, (iterar (fun i x => (f i x.1, g i x.1 x.2)) n (s, a)).1 = iterar f n s := by
    intro n
    induction n with
    | zero => rfl
    | succ n ih => rw [iterar_succ, iterar_succ, ih]
  have hpar := iterar_invariante (f := fun i (x : σ × τ) => (f i x.1, g i x.1 x.2))
    (s := (s, a)) (fun i x => P i x.1 x.2) h0 (fun i x hi hx => hstep i x.1 x.2 hi hx)
  rwa [hfst n] at hpar

/-- A loop of rewrites leaves the cells it does not visit. -/
theorem iterar_modify_otra {f : Nat → List α → List α} {n q : Nat}
    (hf : ∀ i es, i < n → (f i es)[q]? = es[q]?) (l : List α) :
    (iterar f n l)[q]? = l[q]? :=
  iterar_invariante (f := f) (fun _ es => es[q]? = l[q]?) rfl
    fun i es hi h => (hf i es hi).trans h

theorem length_iterar {f : Nat → List α → List α} {n : Nat}
    (hf : ∀ i es, (f i es).length = es.length) (l : List α) :
    (iterar f n l).length = l.length :=
  iterar_invariante (f := f) (fun _ es => es.length = l.length) rfl
    fun i es _ h => (hf i es).trans h

theorem getElem?_modify_otra {i q : Nat} (f : α → α) (l : List α) (h : i ≠ q) :
    (l.modify i f)[q]? = l[q]? := by
  rw [List.getElem?_modify]
  simp [h]

/-- What a rewrite keeps of its cell holds of every cell after it. -/
theorem forall_modify {P : α → Prop} {g : α → α} (hg : ∀ s, P s → P (g s)) {l : List α} :
    ∀ {q : Nat}, (∀ s ∈ l, P s) → ∀ s ∈ l.modify q g, P s := by
  induction l with
  | nil => intro q _ s hs; simp at hs
  | cons x l ih =>
      intro q h s hs
      cases q with
      | zero =>
          rw [List.modify_zero_cons] at hs
          rcases List.mem_cons.mp hs with rfl | hs
          · exact hg x (h x (by simp))
          · exact h s (by simp [hs])
      | succ q =>
          rw [List.modify_succ_cons] at hs
          rcases List.mem_cons.mp hs with rfl | hs
          · exact h s (by simp)
          · exact ih (fun u hu => h u (by simp [hu])) s hs

/-- Every cell satisfies what `P` says of its index. -/
def EnCada (P : Nat → α → Prop) (l : List α) : Prop := ∀ j s, l[j]? = some s → P j s

section EnCada

variable {P Q : Nat → α → Prop} {l : List α}

theorem enCada_iff {P : α → Prop} : EnCada (fun _ => P) l ↔ ∀ s ∈ l, P s := by
  constructor
  · intro h s hs
    obtain ⟨j, hj⟩ := List.mem_iff_getElem?.mp hs
    exact h j s hj
  · intro h j s hj
    exact h s (List.mem_of_getElem? hj)

theorem EnCada.mono (h : EnCada P l) (hPQ : ∀ j s, P j s → Q j s) : EnCada Q l :=
  fun j s hj => hPQ j s (h j s hj)

theorem EnCada.getD {d : α} {j : Nat} (h : EnCada P l) (hd : P j d) : P j (l.getD j d) := by
  rw [List.getD_eq_getElem?_getD]
  cases hs : l[j]? with
  | none => exact hd
  | some s => exact h j s hs

/-- A rewrite of cell `q` on which what is said of it changes. -/
theorem EnCada.cambia {f : α → α} {q : Nat} (h : EnCada P l) (hotra : ∀ j s, j ≠ q → P j s → Q j s)
    (hf : ∀ s, l[q]? = some s → P q s → Q q (f s)) : EnCada Q (l.modify q f) := by
  intro j s hj
  by_cases hq : q = j
  · subst hq
    rw [List.getElem?_modify] at hj
    simp only [if_true, Option.map_eq_map] at hj
    obtain ⟨s₀, hs₀, rfl⟩ := Option.map_eq_some_iff.mp hj
    exact hf s₀ hs₀ (h q s₀ hs₀)
  · rw [getElem?_modify_otra f l hq] at hj
    exact hotra j s (fun h => hq h.symm) (h j s hj)

theorem EnCada.modify {f : α → α} {q : Nat} (h : EnCada P l)
    (hf : ∀ s, l[q]? = some s → P q s → P q (f s)) : EnCada P (l.modify q f) :=
  h.cambia (fun _ _ _ hs => hs) hf

theorem EnCada.iterar {f : Nat → List α → List α} {n : Nat} (h : EnCada P l)
    (hf : ∀ j l, j < n → EnCada P l → EnCada P (f j l)) : EnCada P (iterar f n l) :=
  iterar_invariante (f := f) (fun _ l => EnCada P l) h hf

end EnCada

theorem map_modify_of {g : α → α} {v : α → β} (hv : ∀ s, v (g s) = v s) (l : List α) :
    ∀ q, (l.modify q g).map v = l.map v := by
  induction l with
  | nil => intro q; simp
  | cons x l ih =>
      intro q
      cases q with
      | zero => rw [List.modify_zero_cons, List.map_cons, List.map_cons, hv]
      | succ q => rw [List.modify_succ_cons, List.map_cons, List.map_cons, ih]

theorem modify_fijo {g : α → α} {l : List α} (hg : ∀ s ∈ l, g s = s) (q : Nat) :
    l.modify q g = l := by
  refine List.ext_getElem? fun i => ?_
  rw [List.getElem?_modify]
  cases h : l[i]? with
  | none => rfl
  | some s =>
      have := hg s (List.mem_of_getElem? h)
      by_cases hq : q = i
      · simp [hq, this]
      · simp [hq]

/-- Where a rewrite falls in two lists. -/
theorem modify_append_casos (g : α → α) (L R : List α) :
    ∀ q, (L ++ R).modify q g
      = if q < L.length then L.modify q g ++ R else L ++ R.modify (q - L.length) g := by
  induction L with
  | nil => intro q; simp
  | cons x L ih =>
      intro q
      cases q with
      | zero => simp
      | succ q =>
          rw [List.cons_append, List.modify_succ_cons, ih q]
          by_cases hq : q < L.length
          · simp [hq]
          · simp [hq]

/-- A rewrite somewhere in two lists, the second of which it leaves alone. -/
theorem modify_append_fijo {g : α → α} {D : List α} (hD : ∀ s ∈ D, g s = s) (L : List α) :
    ∀ q, (L ++ D).modify q g = L.modify q g ++ D := by
  induction L with
  | nil => intro q; simpa using modify_fijo hD q
  | cons x L ih =>
      intro q
      cases q with
      | zero => simp
      | succ q => simp [ih]

/-- Rewriting the cell right after a known prefix. -/
theorem modify_mitad (f : α → α) (P : List α) (x : α) (Q : List α) :
    (P ++ x :: Q).modify P.length f = P ++ f x :: Q := by
  induction P with
  | nil => rfl
  | cons p P ih =>
      show p :: (P ++ x :: Q).modify P.length f = p :: (P ++ f x :: Q)
      rw [ih]

/-- A list splits where a test first fails. -/
theorem corte_prueba (p : α → Bool) (l : List α) :
    ∃ A B, l = A ++ B ∧ (∀ x ∈ A, p x = true) ∧ ∀ x, B.head? = some x → p x = false := by
  refine ⟨l.takeWhile p, l.dropWhile p, List.takeWhile_append_dropWhile.symm,
    fun x hx => List.mem_takeWhile_imp hx, fun x hx => ?_⟩
  have := List.head?_dropWhile_not p l
  rw [hx] at this
  simpa using this

/-- Reading the cell right after a known prefix. -/
theorem getD_mitad (d : α) (P : List α) (x : α) (Q : List α) :
    (P ++ x :: Q).getD P.length d = x := by
  simp

/-! ## Shifting down -/

/-- The cells of `Q` after each has taken the value of the cell before it. -/
def desplazada (g : α → α → α) : α → List α → List α
  | _, [] => []
  | x, q :: Q => g x q :: desplazada g q Q

/-- The descending loop that copies cell `u - 1` onto cell `u`, from the last
    cell down to the one after `x`. -/
theorem iterar_bajar (g : α → α → α) (d : α) (Q : List α) :
    ∀ (P : List α) (x : α) (N : Nat), N = P.length + 1 + Q.length →
      iterar (fun i es => es.modify (N - 1 - i) (g (es.getD (N - 1 - i - 1) d)))
        Q.length (P ++ x :: Q) = P ++ x :: desplazada g x Q := by
  induction Q with
  | nil => intro P x N _; rfl
  | cons q Q ih =>
      intro P x N hN
      have hN' : N = (P ++ [x]).length + 1 + Q.length := by
        rw [hN]; simp only [List.length_append, List.length_cons, List.length_nil]
        omega
      have hes : P ++ x :: q :: Q = (P ++ [x]) ++ q :: Q := by simp
      rw [List.length_cons, iterar_succ, hes, ih (P ++ [x]) q N hN']
      -- the turns so far have stopped one cell short: only `q` itself is left
      have hu : N - 1 - Q.length = (P ++ [x]).length := by
        rw [hN']; omega
      have hu' : N - 1 - Q.length - 1 = P.length := by
        rw [hu]; simp
      show ((P ++ [x]) ++ q :: desplazada g q Q).modify (N - 1 - Q.length)
        (g (((P ++ [x]) ++ q :: desplazada g q Q).getD (N - 1 - Q.length - 1) d))
        = P ++ x :: desplazada g x (q :: Q)
      have hget : ((P ++ [x]) ++ q :: desplazada g q Q).getD P.length d = x := by
        rw [List.append_assoc]
        exact getD_mitad d P x _
      rw [hu', hget, hu, modify_mitad]
      simp [desplazada]

/-- If a copy carries the observation of its source, a shift down carries the
    observations one place down. -/
theorem map_desplazada {g : α → α → α} {v : α → β}
    (hv : ∀ x y, v (g x y) = v x) (x : α) (Q : List α) (y : α) :
    (desplazada g x (Q ++ [y])).map v = v x :: Q.map v := by
  induction Q generalizing x with
  | nil => simp [desplazada, hv]
  | cons q Q ih =>
      show v (g x q) :: (desplazada g q (Q ++ [y])).map v = _
      rw [hv, ih q]
      rfl

/-! ## Rewriting a block -/

/-- The loop that rewrites every cell of the block `H`. -/
theorem iterar_bloque (f : α → α) (T : List α) (H : List α) :
    ∀ P : List α, iterar (fun i es => es.modify (P.length + i) f) H.length (P ++ (H ++ T))
      = P ++ (H.map f ++ T) := by
  induction H with
  | nil => intro P; rfl
  | cons x H ih =>
      intro P
      rw [List.length_cons, iterar_primera]
      have hfirst : (P ++ (x :: H ++ T)).modify (P.length + 0) f
          = (P ++ [f x]) ++ (H ++ T) := by
        rw [Nat.add_zero, List.cons_append, modify_mitad]
        simp
      have hbody : (fun i (es : List α) => es.modify (P.length + (i + 1)) f)
          = (fun i es => es.modify ((P ++ [f x]).length + i) f) := by
        funext i es
        rw [show P.length + (i + 1) = (P ++ [f x]).length + i by simp; omega]
      rw [hfirst, hbody, ih (P ++ [f x])]
      simp

/-! ## Shifting up over a gap -/

/-- The ascending loop that copies cell `pos` onto the cell `H.length` places
    before it: the block `Q` lands on the front of `H ++ Q`, and the last
    `H.length` cells keep what they held. -/
theorem iterar_subir (g : α → α → α) (d : α) (T : List α) (Q : List α) :
    ∀ (P H : List α), H ≠ [] →
      iterar (fun i es => es.modify (P.length + i)
          (g (es.getD (P.length + H.length + i) d)))
        Q.length (P ++ (H ++ Q) ++ T)
      = P ++ List.zipWith g Q (H ++ Q) ++ (H ++ Q).drop Q.length ++ T := by
  induction Q with
  | nil => intro P H _; simp
  | cons q Q ih =>
      intro P H hH
      obtain ⟨e, H', rfl⟩ := List.exists_cons_of_ne_nil hH
      rw [show (q :: Q).length = Q.length + 1 from rfl, iterar_primera]
      -- the first turn writes `g q e` over the head of the gap
      have hget : (P ++ (e :: H' ++ q :: Q) ++ T).getD
          (P.length + (e :: H').length + 0) d = q := by
        have hl : P.length + (e :: H').length + 0 = (P ++ e :: H').length := by simp
        have hs : P ++ (e :: H' ++ q :: Q) ++ T
            = (P ++ e :: H') ++ q :: (Q ++ T) := by simp
        rw [hl, hs]
        exact getD_mitad d _ q _
      have hfirst : (P ++ (e :: H' ++ q :: Q) ++ T).modify (P.length + 0)
            (g ((P ++ (e :: H' ++ q :: Q) ++ T).getD
              (P.length + (e :: H').length + 0) d))
          = (P ++ [g q e]) ++ ((H' ++ [q]) ++ Q) ++ T := by
        rw [hget]
        have hs : P ++ (e :: H' ++ q :: Q) ++ T
            = P ++ e :: (H' ++ q :: (Q ++ T)) := by simp
        rw [hs, Nat.add_zero, modify_mitad]
        simp
      show iterar (fun i es => es.modify (P.length + (i + 1))
          (g (es.getD (P.length + (e :: H').length + (i + 1)) d))) Q.length
          ((P ++ (e :: H' ++ q :: Q) ++ T).modify (P.length + 0)
            (g ((P ++ (e :: H' ++ q :: Q) ++ T).getD
              (P.length + (e :: H').length + 0) d))) = _
      rw [hfirst]
      have hbody : (fun i (es : List α) => es.modify (P.length + (i + 1))
            (g (es.getD (P.length + (e :: H').length + (i + 1)) d)))
          = (fun i es => es.modify ((P ++ [g q e]).length + i)
            (g (es.getD ((P ++ [g q e]).length + (H' ++ [q]).length + i) d))) := by
        funext i es
        have h1 : P.length + (i + 1) = (P ++ [g q e]).length + i := by
          simp only [List.length_append, List.length_cons, List.length_nil]
          omega
        have h2 : P.length + (e :: H').length + (i + 1)
            = (P ++ [g q e]).length + (H' ++ [q]).length + i := by
          simp only [List.length_append, List.length_cons, List.length_nil]
          omega
        rw [h1, h2]
      rw [hbody, ih (P ++ [g q e]) (H' ++ [q]) (by simp)]
      simp

/-- If a copy carries the observation of its source, so does a zipped block of
    copies. -/
theorem map_zipWith_copia {g : α → α → α} {v : α → β}
    (hv : ∀ x y, v (g x y) = v x) (Q : List α) :
    ∀ R : List α, Q.length ≤ R.length → (List.zipWith g Q R).map v = Q.map v := by
  induction Q with
  | nil => intro R _; rfl
  | cons q Q ih =>
      intro R hR
      cases R with
      | nil => exact absurd hR (by simp)
      | cons r R =>
          show v (g q r) :: (List.zipWith g Q R).map v = v q :: Q.map v
          rw [hv, ih R (by simpa using hR)]

/-! ## Shifting up one place, clearing behind -/

/-- The cells after an up-shift by one that clears each source it has read. -/
def subeUno (g : α → α → α) (borrar : α → α) : α → List α → List α
  | s, [] => [s]
  | s, b :: B => g b s :: subeUno g borrar (borrar b) B

/-- The ascending loop that copies cell `pos + 1` onto cell `pos` and then
    clears cell `pos + 1`. -/
theorem iterar_subeUno (g : α → α → α) (borrar : α → α) (d : α) (B : List α) :
    ∀ (A : List α) (s : α),
      iterar (fun i es =>
          (es.modify (A.length + i) (g (es.getD (A.length + i + 1) d))).modify
            (A.length + i + 1) borrar)
        B.length (A ++ s :: B) = A ++ subeUno g borrar s B := by
  induction B with
  | nil => intro A s; rfl
  | cons b B ih =>
      intro A s
      rw [List.length_cons, iterar_primera]
      have hget : (A ++ s :: b :: B).getD (A.length + 0 + 1) d = b := by
        have hl : A.length + 0 + 1 = (A ++ [s]).length := by simp
        have hs : A ++ s :: b :: B = (A ++ [s]) ++ b :: B := by simp
        rw [hl, hs]
        exact getD_mitad d _ b _
      have hfirst : ((A ++ s :: b :: B).modify (A.length + 0)
            (g ((A ++ s :: b :: B).getD (A.length + 0 + 1) d))).modify
            (A.length + 0 + 1) borrar
          = (A ++ [g b s]) ++ borrar b :: B := by
        rw [hget, Nat.add_zero, modify_mitad]
        have hl : A.length + 1 = (A ++ [g b s]).length := by simp
        have hs : A ++ g b s :: b :: B = (A ++ [g b s]) ++ b :: B := by simp
        rw [hl, hs, modify_mitad]
      show iterar (fun i es =>
          (es.modify (A.length + (i + 1))
            (g (es.getD (A.length + (i + 1) + 1) d))).modify
              (A.length + (i + 1) + 1) borrar) B.length
          (((A ++ s :: b :: B).modify (A.length + 0)
            (g ((A ++ s :: b :: B).getD (A.length + 0 + 1) d))).modify
            (A.length + 0 + 1) borrar) = _
      rw [hfirst]
      have hbody : (fun i (es : List α) =>
            (es.modify (A.length + (i + 1))
              (g (es.getD (A.length + (i + 1) + 1) d))).modify
                (A.length + (i + 1) + 1) borrar)
          = (fun i es =>
            (es.modify ((A ++ [g b s]).length + i)
              (g (es.getD ((A ++ [g b s]).length + i + 1) d))).modify
                ((A ++ [g b s]).length + i + 1) borrar) := by
        funext i es
        have h1 : A.length + (i + 1) = (A ++ [g b s]).length + i := by
          simp only [List.length_append, List.length_cons, List.length_nil]
          omega
        rw [h1]
      rw [hbody, ih (A ++ [g b s]) (borrar b)]
      simp [subeUno]

/-- Observations after an up-shift by one: the block moves up and the last
    cell is a cleared one. -/
theorem map_subeUno {g : α → α → α} {v : α → β} (hv : ∀ x y, v (g x y) = v x)
    (borrar : α → α) (s : α) (B : List α) (y : α) :
    ∃ z, (subeUno g borrar s (B ++ [y])).map v = (B ++ [y]).map v ++ [v (borrar z)] := by
  induction B generalizing s with
  | nil => exact ⟨y, by simp [subeUno, hv]⟩
  | cons b B ih =>
      obtain ⟨z, hz⟩ := ih (borrar b)
      refine ⟨z, ?_⟩
      show v (g b s) :: (subeUno g borrar (borrar b) (B ++ [y])).map v = _
      rw [hv, hz]
      rfl

/-! ## First and last match of a linear search -/

/-- The index of the last match: the value of `pos` after
    `for (i = 0; ..; i++) if (p(a[i])) pos = i`, if it was ever assigned. -/
def ultimoIndice (p : α → Bool) : List α → Option Nat
  | [] => none
  | a :: l =>
      match ultimoIndice p l with
      | some i => some (i + 1)
      | none => if p a then some 0 else none

theorem ultimoIndice_eq_none {p : α → Bool} {l : List α} :
    ultimoIndice p l = none ↔ ∀ a ∈ l, p a = false := by
  induction l with
  | nil => simp [ultimoIndice]
  | cons a l ih =>
      simp only [ultimoIndice, List.mem_cons, forall_eq_or_imp]
      cases h : ultimoIndice p l with
      | none =>
          rw [h] at ih
          cases hp : p a with
          | true => simp
          | false => simpa using ih.mp rfl
      | some i =>
          rw [h] at ih
          constructor
          · intro hc; exact nomatch hc
          · rintro ⟨-, hl⟩
            exact nomatch ih.mpr hl

/-- Where the last match stands. -/
theorem ultimoIndice_parte {p : α → Bool} {l : List α} {i : Nat}
    (h : ultimoIndice p l = some i) :
    ∃ A a B, l = A ++ a :: B ∧ A.length = i ∧ p a = true ∧ ∀ b ∈ B, p b = false := by
  induction l generalizing i with
  | nil => exact nomatch h
  | cons a l ih =>
      simp only [ultimoIndice] at h
      cases hl : ultimoIndice p l with
      | some j =>
          rw [hl] at h
          have hj : j + 1 = i := Option.some.inj h
          obtain ⟨A, b, B, rfl, hA, hb, hB⟩ := ih hl
          exact ⟨a :: A, b, B, rfl, by rw [← hj, ← hA]; rfl, hb, hB⟩
      | none =>
          rw [hl] at h
          cases hp : p a with
          | true =>
              rw [hp] at h
              have hi : 0 = i := Option.some.inj h
              exact ⟨[], a, l, rfl, hi, hp, ultimoIndice_eq_none.mp hl⟩
          | false =>
              rw [hp] at h
              exact nomatch h

/-- The last match is at `i` when `i` matches and nothing after it does. -/
theorem ultimoIndice_eq {p : α → Bool} {l : List α} {i : Nat} {a : α} (ha : l[i]? = some a)
    (hp : p a = true) (hd : ∀ b ∈ l.drop (i + 1), p b = false) : ultimoIndice p l = some i := by
  induction l generalizing i with
  | nil => cases ha
  | cons x l ih =>
      rw [ultimoIndice]
      cases i with
      | zero =>
          have hx : x = a := by simpa using ha
          have hnone : ultimoIndice p l = none := ultimoIndice_eq_none.mpr (by simpa using hd)
          rw [hnone, hx, hp]
          rfl
      | succ i => rw [ih (by simpa using ha) (by simpa using hd)]

/-- What stands before a suffix without it. -/
theorem parte_prefijo {P : α → Prop} {A R L D : List α} {s : α} (h : A ++ s :: R = L ++ D)
    (hD : ∀ d ∈ D, ¬ P d) (hs : P s) : ∃ B, L = A ++ s :: B ∧ R = B ++ D := by
  rcases List.append_eq_append_iff.mp h with ⟨a, hL, hR⟩ | ⟨b, -, hDb⟩
  · cases a with
    | nil =>
        refine absurd hs (hD s ?_)
        rw [← show s :: R = D from hR]
        simp
    | cons t B =>
        rw [List.cons_append, List.cons.injEq] at hR
        exact ⟨B, by rw [hL, hR.1], hR.2⟩
  · refine absurd hs (hD s ?_)
    rw [hDb]
    simp

/-- Where the first match stands. -/
theorem findIdx?_parte {p : α → Bool} {l : List α} {i : Nat}
    (h : l.findIdx? p = some i) :
    ∃ A a B, l = A ++ a :: B ∧ A.length = i ∧ p a = true ∧ ∀ b ∈ A, p b = false := by
  induction l generalizing i with
  | nil => exact nomatch h
  | cons a l ih =>
      rw [List.findIdx?_cons] at h
      cases hp : p a with
      | true =>
          rw [hp] at h
          have hi : 0 = i := Option.some.inj h
          exact ⟨[], a, l, rfl, hi, hp, by simp⟩
      | false =>
          rw [hp] at h
          obtain ⟨j, hj, hji⟩ := Option.map_eq_some_iff.mp h
          obtain ⟨A, b, B, rfl, hA, hb, hB⟩ := ih hj
          refine ⟨a :: A, b, B, rfl, ?_, hb, ?_⟩
          · rw [← hji, ← hA]; rfl
          · intro c hc
            rcases List.mem_cons.mp hc with rfl | hc
            · exact hp
            · exact hB c hc

/-- Where a leading run stops: every element of it passes the test and the one
    after it does not. -/
theorem takeWhile_corte (p : α → Bool) (l : List α) :
    (l.takeWhile p).length ≤ l.length
      ∧ (∀ i x, i < (l.takeWhile p).length → l[i]? = some x → p x = true)
      ∧ ∀ x, l[(l.takeWhile p).length]? = some x → p x = false := by
  induction l with
  | nil => simp
  | cons a l ih =>
      cases hp : p a with
      | false => simp [hp]
      | true =>
          obtain ⟨h1, h2, h3⟩ := ih
          rw [List.takeWhile_cons_of_pos hp, List.length_cons, List.length_cons]
          refine ⟨by omega, ?_, ?_⟩
          · intro i x hi hx
            cases i with
            | zero =>
                obtain rfl := Option.some.inj hx
                exact hp
            | succ i => exact h2 i x (by omega) hx
          · intro x hx
            exact h3 x hx

end Bucles
