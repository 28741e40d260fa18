import Yanero.Palabras

/-! # Blocks of memory with their bounds

    What `malloc`, `memcpy` and a C string are for code that fills a block
    piece by piece.  A block is the list of its bytes; a copy that would leave
    the block, or a string with no terminator inside it, is undefined, and the
    operation answers `none`.  A fresh block holds whatever was there before:
    that content is a parameter (`basura`).

    Code that fills a block goes from left to right: `Lleno b hecho n` says
    what is done so far, and each copy extends it (`Lleno.poner`) or leaves the
    block (`Lleno.desborda`). -/

namespace Bloques

open Palabras

/-- A fresh block of `n` bytes. -/
def malloc (basura : Nat → UInt8) (n : Nat) : List UInt8 := (List.range n).map basura

/-- Copy `src` into the block from position `off` on. -/
def poner (b : List UInt8) (off : Nat) (src : List UInt8) : Option (List UInt8) :=
  if off + src.length ≤ b.length then
    some (b.take off ++ src ++ b.drop (off + src.length))
  else none

/-- The `n` bytes of the block from position `off` on. -/
def sacar (b : List UInt8) (off n : Nat) : Option (List UInt8) :=
  if off + n ≤ b.length then some ((b.drop off).take n) else none

/-- The C string at the start of a block: its bytes before the first zero. -/
def cadena : List UInt8 → Option (List UInt8)
  | [] => none
  | c :: resto => if c = 0 then some [] else (cadena resto).map (c :: ·)

@[simp] theorem length_malloc (basura : Nat → UInt8) (n : Nat) :
    (malloc basura n).length = n := by
  simp [malloc]

/-- The block `b` of `n` bytes starts with `hecho`: the state of a block that
    is being filled from left to right. -/
def Lleno (b hecho : List UInt8) (n : Nat) : Prop := ∃ resto, b = hecho ++ resto ∧ b.length = n

theorem lleno_malloc (basura : Nat → UInt8) (n : Nat) : Lleno (malloc basura n) [] n :=
  ⟨malloc basura n, rfl, length_malloc basura n⟩

theorem Lleno.length_le {b hecho : List UInt8} {n : Nat} (h : Lleno b hecho n) :
    hecho.length ≤ n := by
  obtain ⟨resto, rfl, hn⟩ := h
  rw [← hn, List.length_append]
  omega

/-- A copy right after what is done extends it. -/
theorem Lleno.poner {b hecho : List UInt8} {n : Nat} (h : Lleno b hecho n) (off : Nat)
    (src : List UInt8) (hoff : off = hecho.length) (hcabe : hecho.length + src.length ≤ n) :
    ∃ b', poner b off src = some b' ∧ Lleno b' (hecho ++ src) n := by
  obtain ⟨resto, rfl, hn⟩ := h
  have hfin : off + src.length ≤ (hecho ++ resto).length := by rw [hn, hoff]; exact hcabe
  refine ⟨hecho ++ src ++ resto.drop src.length, ?_, resto.drop src.length, rfl, ?_⟩
  · rw [Bloques.poner, if_pos hfin, hoff, List.take_left, ← List.drop_drop, List.drop_left]
  · rw [List.length_append] at hn
    simp only [List.length_append, List.length_drop]
    omega

/-- A copy that does not fit in what is left is undefined. -/
theorem Lleno.desborda {b hecho : List UInt8} {n : Nat} (h : Lleno b hecho n) {off : Nat}
    {src : List UInt8} (hoff : off = hecho.length) (hno : n < hecho.length + src.length) :
    Bloques.poner b off src = none := by
  obtain ⟨resto, rfl, hn⟩ := h
  have hfin : ¬ off + src.length ≤ (hecho ++ resto).length := by rw [hn, hoff]; omega
  rw [Bloques.poner, if_neg hfin]

/-- A copy right after what is done, over what the block held before. -/
theorem poner_resto {b hecho src : List UInt8} {off : Nat} (hoff : off = hecho.length)
    (hcabe : off + src.length ≤ b.length) :
    poner (hecho ++ b.drop off) off src = some (hecho ++ src ++ b.drop (off + src.length)) := by
  have hfin : off + src.length ≤ (hecho ++ b.drop off).length := by
    rw [List.length_append, List.length_drop]
    omega
  rw [poner, if_pos hfin, ← List.drop_drop, hoff, List.take_left, List.drop_left, List.drop_drop]

/-- A block with nothing left to fill is what was put in it. -/
theorem Lleno.completo {b hecho : List UInt8} {n : Nat} (h : Lleno b hecho n)
    (hn : hecho.length = n) : b = hecho := by
  obtain ⟨resto, rfl, hlen⟩ := h
  rw [List.length_append] at hlen
  have hresto : resto = [] := List.length_eq_zero_iff.mp (by omega)
  rw [hresto, List.append_nil]

/-- The next read of a block read from left to right. -/
theorem sacar_en {hecho medio resto : List UInt8} {off n : Nat} (hoff : off = hecho.length)
    (hn : n = medio.length) : sacar (hecho ++ (medio ++ resto)) off n = some medio := by
  have hcabe : off + n ≤ (hecho ++ (medio ++ resto)).length := by
    simp only [List.length_append]
    omega
  rw [sacar, if_pos hcabe, hoff, hn, List.drop_left, List.take_left]

theorem sacar_final {hecho medio : List UInt8} {off n : Nat} (hoff : off = hecho.length)
    (hn : n = medio.length) : sacar (hecho ++ medio) off n = some medio := by
  have h := @sacar_en hecho medio [] off n hoff hn
  rwa [List.append_nil] at h

theorem sacar_inicio {medio resto : List UInt8} {n : Nat} (hn : n = medio.length) :
    sacar (medio ++ resto) 0 n = some medio := by
  rw [hn, sacar, if_pos (by simp), List.drop_zero, List.take_left]

theorem sacar_todo (b : List UInt8) : sacar b 0 b.length = some b := by
  simp [sacar]

/-- A terminated string reads back as its bytes. -/
theorem cadena_terminada {p : List UInt8} (h : 0 ∉ p) (resto : List UInt8) :
    cadena (p ++ 0 :: resto) = some p := by
  induction p with
  | nil => simp [cadena]
  | cons c p ih =>
      have hc : c ≠ 0 := fun hc => h (hc ▸ List.mem_cons_self)
      have hp : 0 ∉ p := fun hp => h (List.mem_cons_of_mem c hp)
      rw [List.cons_append, cadena, if_neg hc, ih hp]
      rfl

/-- A string inside a block. -/
theorem cadena_iff {b p : List UInt8} :
    cadena b = some p ↔ 0 ∉ p ∧ ∃ resto, b = p ++ 0 :: resto := by
  constructor
  · intro h
    induction b generalizing p with
    | nil => cases h
    | cons c b ih =>
        rw [cadena] at h
        by_cases hc : c = 0
        · rw [if_pos hc] at h
          obtain rfl := Option.some.inj h
          exact ⟨List.not_mem_nil, b, by rw [hc]; rfl⟩
        · rw [if_neg hc] at h
          obtain ⟨q, hq, rfl⟩ := Option.map_eq_some_iff.mp h
          obtain ⟨h0, resto, rfl⟩ := ih hq
          refine ⟨fun hmem => ?_, resto, rfl⟩
          rcases List.mem_cons.mp hmem with heq | hmem
          · exact hc heq.symm
          · exact h0 hmem
  · rintro ⟨h0, resto, rfl⟩
    exact cadena_terminada h0 resto

theorem sacar_iff {b bs : List UInt8} {off n : Nat} :
    sacar b off n = some bs ↔ off + n ≤ b.length ∧ bs = (b.drop off).take n := by
  rw [sacar]
  split
  case isTrue h => simp [h, eq_comm]
  case isFalse h => simp [h]

/-- A read past the start of a block. -/
theorem sacar_append (l r : List UInt8) (k n : Nat) :
    sacar (l ++ r) (l.length + k) n = sacar r k n := by
  have hiff : l.length + k + n ≤ (l ++ r).length ↔ k + n ≤ r.length := by
    rw [List.length_append]
    omega
  rw [sacar, sacar, if_congr hiff rfl rfl, ← List.drop_drop, List.drop_left]

end Bloques
