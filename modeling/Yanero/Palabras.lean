import Yanero.Bytes

/-! # Little-endian words in a byte memory

    Unsigned words of any width over `Nat → UInt8`: a word of `k` bytes is the
    value of its byte list, least significant byte first.  The rules are the
    usual ones of a memory: a word reads back what was written, modulo its
    width, and a write leaves every disjoint word alone. -/

namespace Palabras

/-- The number a byte list stands for, least significant byte first. -/
def valor : List UInt8 → Nat
  | [] => 0
  | b :: resto => b.toNat + 256 * valor resto

/-- The `k` low bytes of a number, least significant byte first. -/
def bytesDe : Nat → Nat → List UInt8
  | 0, _ => []
  | k + 1, v => UInt8.ofNat v :: bytesDe k (v / 256)

/-- The word of `k` bytes at address `a`. -/
def leerPalabra (k : Nat) (m : Nat → UInt8) (a : Nat) : Nat := valor (Bytes.leer m a k)

/-- Write a word of `k` bytes at address `a`. -/
def escribirPalabra (k : Nat) (m : Nat → UInt8) (a v : Nat) : Nat → UInt8 :=
  Bytes.escribir m a (bytesDe k v)

/-- The `n` words of four bytes from address `a` on. -/
def escribirTabla (m : Nat → UInt8) (a : Nat) (f : Nat → Nat) : Nat → (Nat → UInt8)
  | 0 => m
  | n + 1 => escribirPalabra 4 (escribirTabla m a f n) (a + 4 * n) (f n)

@[simp] theorem length_bytesDe (k v : Nat) : (bytesDe k v).length = k := by
  induction k generalizing v with
  | zero => rfl
  | succ k ih => simp [bytesDe, ih]

theorem valor_lt (l : List UInt8) : valor l < 256 ^ l.length := by
  induction l with
  | nil => simp [valor]
  | cons b resto ih =>
      have hb : b.toNat < 256 := b.toNat_lt
      simp only [valor, List.length_cons, Nat.pow_succ]
      omega

theorem leerPalabra_lt (k : Nat) (m : Nat → UInt8) (a : Nat) : leerPalabra k m a < 256 ^ k := by
  simpa [leerPalabra] using valor_lt (Bytes.leer m a k)

/-- Lists of one length that stand for one number are equal. -/
theorem valor_inj : ∀ {l l' : List UInt8}, l.length = l'.length → valor l = valor l' → l = l' := by
  intro l
  induction l with
  | nil => intro l' h _; exact (List.eq_nil_of_length_eq_zero h.symm).symm
  | cons b l ih =>
      intro l' h hv
      cases l' with
      | nil => cases h
      | cons b' l' =>
          have hb : b.toNat < 256 := b.toNat_lt
          have hb' : b'.toNat < 256 := b'.toNat_lt
          simp only [valor] at hv
          rw [UInt8.toNat_inj.mp (show b.toNat = b'.toNat by omega),
            ih (Nat.succ.inj h) (show valor l = valor l' by omega)]

/-- Equal words have equal bytes. -/
theorem leerPalabra_inj {k : Nat} {m m' : Nat → UInt8} {a i : Nat}
    (h : leerPalabra k m' a = leerPalabra k m a) (hi : i < k) : m' (a + i) = m (a + i) := by
  have hl := valor_inj (by rw [Bytes.length_leer, Bytes.length_leer]) h
  have hi' := congrArg (fun l => l[i]?) hl
  simpa [Bytes.leer, hi] using hi'

/-- The low bytes of a number stand for the number modulo their width. -/
theorem valor_bytesDe (k v : Nat) : valor (bytesDe k v) = v % 256 ^ k := by
  induction k generalizing v with
  | zero => simp [valor, bytesDe, Nat.mod_one]
  | succ k ih =>
      have hb : (UInt8.ofNat v).toNat = v % 256 := by simp
      rw [bytesDe, valor, ih, hb, Nat.pow_succ, Nat.mul_comm (256 ^ k) 256, Nat.mod_mul]

/-- The low bytes come first. -/
theorem bytesDe_add (j k v : Nat) :
    bytesDe (j + k) v = bytesDe j v ++ bytesDe k (v / 256 ^ j) := by
  induction j generalizing v with
  | zero => simp [bytesDe]
  | succ j ih =>
      rw [Nat.succ_add, bytesDe, bytesDe, ih, Nat.div_div_eq_div_mul, ← Nat.pow_succ',
        List.cons_append]

/-- A word reads back what was written, modulo its width. -/
theorem leerPalabra_escribirPalabra (k : Nat) (m : Nat → UInt8) (a v : Nat) :
    leerPalabra k (escribirPalabra k m a v) a = v % 256 ^ k := by
  have h := Bytes.leer_escribir m a (bytesDe k v)
  rw [length_bytesDe] at h
  rw [leerPalabra, escribirPalabra, h, valor_bytesDe]

/-- The bytes of the number a byte list stands for. -/
theorem bytesDe_valor (l : List UInt8) : bytesDe l.length (valor l) = l := by
  refine valor_inj (length_bytesDe _ _) ?_
  rw [valor_bytesDe]
  exact Nat.mod_eq_of_lt (valor_lt l)

/-- Writing a word as it is changes nothing. -/
theorem escribirPalabra_leerPalabra (k : Nat) (m : Nat → UInt8) (a : Nat) :
    escribirPalabra k m a (leerPalabra k m a) = m := by
  have hb := bytesDe_valor (Bytes.leer m a k)
  rw [Bytes.length_leer] at hb
  rw [escribirPalabra, leerPalabra, hb]
  funext x
  unfold Bytes.escribir
  rw [Bytes.length_leer]
  by_cases hx : a ≤ x ∧ x < a + k
  · obtain ⟨i, rfl⟩ := Nat.exists_eq_add_of_le hx.1
    have hi : i < k := by omega
    rw [if_pos hx, Nat.add_sub_cancel_left, List.getD_eq_getElem _ _ (by rwa [Bytes.length_leer])]
    simp [Bytes.leer]
  · rw [if_neg hx]

/-- Writing a table as it is changes nothing. -/
theorem escribirTabla_igual {m : Nat → UInt8} {a : Nat} {f : Nat → Nat} : ∀ {n : Nat},
    (∀ k, k < n → f k = leerPalabra 4 m (a + 4 * k)) → escribirTabla m a f n = m := by
  intro n
  induction n with
  | zero => intro _; rfl
  | succ n ih =>
      intro h
      rw [escribirTabla, ih fun k hk => h k (by omega), h n (Nat.lt_succ_self n),
        escribirPalabra_leerPalabra]

theorem leerPalabra_congr {k : Nat} {m m' : Nat → UInt8} {a : Nat}
    (h : ∀ o, a ≤ o → o < a + k → m' o = m o) : leerPalabra k m' a = leerPalabra k m a := by
  refine congrArg valor (Bytes.leer_congr ?_)
  intro i hi
  exact h (a + i) (by omega) (by omega)

/-- A word write changes only the bytes of the word. -/
theorem escribirPalabra_ajena {k : Nat} {m : Nat → UInt8} {a v o : Nat}
    (h : o < a ∨ a + k ≤ o) : escribirPalabra k m a v o = m o := by
  have hno : ¬ (a ≤ o ∧ o < a + (bytesDe k v).length) := by
    rw [length_bytesDe]
    omega
  rw [escribirPalabra, Bytes.escribir, if_neg hno]

theorem leerPalabra_ajena {k j : Nat} {m : Nat → UInt8} {a b v : Nat}
    (h : b + j ≤ a ∨ a + k ≤ b) :
    leerPalabra j (escribirPalabra k m a v) b = leerPalabra j m b := by
  refine leerPalabra_congr ?_
  intro o h1 h2
  exact escribirPalabra_ajena (by omega)

/-- A table write changes only the bytes of the table. -/
theorem escribirTabla_ajena {m : Nat → UInt8} {a o : Nat} {f : Nat → Nat} :
    ∀ {n : Nat}, (o < a ∨ a + 4 * n ≤ o) → escribirTabla m a f n o = m o := by
  intro n
  induction n with
  | zero => intro _; rfl
  | succ n ih =>
      intro h
      rw [escribirTabla, escribirPalabra_ajena (by omega)]
      exact ih (by omega)

/-- What a byte becomes depends on that byte only. -/
theorem escribirPalabra_congr {k : Nat} {m m' : Nat → UInt8} {o : Nat} (h : m' o = m o)
    (a v : Nat) : escribirPalabra k m' a v o = escribirPalabra k m a v o :=
  Bytes.escribir_congr h a _

theorem escribirTabla_congr {m m' : Nat → UInt8} {o : Nat} (h : m' o = m o) (a : Nat)
    (f : Nat → Nat) : ∀ n, escribirTabla m' a f n o = escribirTabla m a f n o := by
  intro n
  induction n with
  | zero => exact h
  | succ n ih =>
      rw [escribirTabla, escribirTabla]
      exact escribirPalabra_congr ih _ _

/-- Every word of a table reads back what was written. -/
theorem leerPalabra_escribirTabla {m : Nat → UInt8} {a : Nat} {f : Nat → Nat} :
    ∀ {n k : Nat}, k < n → leerPalabra 4 (escribirTabla m a f n) (a + 4 * k) = f k % 2 ^ 32 := by
  intro n
  induction n with
  | zero => intro k hk; omega
  | succ n ih =>
      intro k hk
      rw [escribirTabla]
      by_cases hkn : k = n
      · subst hkn
        have hpot : (256 : Nat) ^ 4 = 2 ^ 32 := by decide
        rw [leerPalabra_escribirPalabra, hpot]
      · rw [leerPalabra_ajena (by omega)]
        exact ih (by omega)

end Palabras
