import Mathlib.Logic.Basic

/-! # Programs that give orders to a shared world

    A thread seen from outside is a tree: it ends with a value, or gives an
    order and goes on with the answer.  `Guion.Siempre` asks something of every
    order it can ever give, together with what comes after it.  A `Protocolo`
    follows the thread through phases: which orders a phase allows, which
    answers are to be expected, and the phase after one; `Guion.Cumple` says
    that the thread keeps to it.

    Both are by recursion on the tree, so that they can be computed through a
    concrete program, and `Cumple.sigue` and `Siempre.sigue` carry them over a
    step of it. -/

namespace Guiones

variable {O α F : Type} {R : O → Type}

/-- A program that gives orders in `O`; the answer to `o` is in `R o`. -/
inductive Guion (O : Type) (R : O → Type) (α : Type) where
  | fin (a : α)
  | haz (o : O) (k : R o → Guion O R α)

/-- Every order the program can give meets `Q`, with what it does next. -/
def Guion.Siempre (Q : (o : O) → (R o → Guion O R α) → Prop) : Guion O R α → Prop
  | .fin _ => True
  | .haz o k => Q o k ∧ ∀ r, (k r).Siempre Q

/-- The phases `F` of a program: what it may order, the answers to expect, the
    phase after them, and what it may end with. -/
structure Protocolo (O : Type) (R : O → Type) (α F : Type) where
  permite : F → O → Prop
  posible : F → (o : O) → R o → Prop
  sigue : F → (o : O) → R o → F
  acaba : F → α → Prop

/-- From phase `f` on, the program keeps to the protocol as long as the answers
    are the expected ones. -/
def Guion.Cumple (P : Protocolo O R α F) : F → Guion O R α → Prop
  | f, .fin a => P.acaba f a
  | f, .haz o k => P.permite f o ∧ ∀ r, P.posible f o r → (k r).Cumple P (P.sigue f o r)

section Pasos

variable {Q Q' : (o : O) → (R o → Guion O R α) → Prop} {P : Protocolo O R α F} {f : F} {o : O}
  {k : R o → Guion O R α}

theorem Guion.Siempre.orden (h : (Guion.haz o k).Siempre Q) : Q o k := h.1

theorem Guion.Siempre.sigue (h : (Guion.haz o k).Siempre Q) (r : R o) : (k r).Siempre Q := h.2 r

theorem Guion.Cumple.permite (h : (Guion.haz o k).Cumple P f) : P.permite f o := h.1

/-- One order and its answer. -/
theorem Guion.Cumple.sigue (h : (Guion.haz o k).Cumple P f) {r : R o} (hr : P.posible f o r) :
    (k r).Cumple P (P.sigue f o r) :=
  h.2 r hr

end Pasos

end Guiones
