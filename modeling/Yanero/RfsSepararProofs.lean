import Yanero.FscSerial
import Yanero.RfsPedidos
import Yanero.RfsPathProofs

/-! # Directory and name of a path

    Creating and deleting split a path at its last slash, and lookup goes
    through its components from the first one on.  The components of a path are
    those of its directory and then its name, whatever runs of slashes there are
    (`componentes_barra`), so looking up the path is looking up the directory
    and then the name in it (`separarPath_buscarPath`). -/

namespace Rfs

section Separar

variable {antes nombre path : List UInt8}

/-! ## The last slash -/

/-- A path with a slash, cut at the last one. -/
theorem cortar_ultima (h : 47 ∈ path) :
    ∃ antes nombre, path = antes ++ 47 :: nombre ∧ 47 ∉ nombre := by
  obtain ⟨atras, antes, heq, hno⟩ := List.eq_append_cons_of_mem (List.mem_reverse.mpr h)
  refine ⟨antes.reverse, atras.reverse, ?_, fun hmem => hno (List.mem_reverse.mp hmem)⟩
  rw [← List.reverse_reverse path, heq, List.reverse_append, List.reverse_cons, List.append_assoc]
  rfl

/-- `pathDir` of a path cut at its last slash. -/
def dirDeCorte (antes : List UInt8) : List UInt8 := if antes = [] then [47] else antes

theorem separarPath_corte (h : 47 ∉ nombre) :
    separarPath (antes ++ 47 :: nombre) = some (dirDeCorte antes, nombre) := by
  have hfind : (antes ++ 47 :: nombre).reverse.findIdx? (· == 47) = some nombre.length := by
    rw [List.findIdx?_eq_some_iff_getElem]
    have hrev : (antes ++ 47 :: nombre).reverse = nombre.reverse ++ 47 :: antes.reverse := by simp
    refine ⟨by simp, ?_, fun j hj => ?_⟩
    · simp [hrev]
    · have hjr : j < nombre.reverse.length := by simpa using hj
      simp only [hrev, List.getElem_append_left hjr, beq_iff_eq]
      rintro heq
      exact h (List.mem_reverse.mp (heq ▸ List.getElem_mem hjr))
  have hi : (antes ++ 47 :: nombre).length - 1 - nombre.length = antes.length := by
    rw [List.length_append, List.length_cons]
    omega
  rw [separarPath, hfind]
  show some (if (antes ++ 47 :: nombre).length - 1 - nombre.length = 0 then _ else _, _) = _
  rw [hi, List.take_left, dirDeCorte]
  congr 2
  · simp only [List.length_eq_zero_iff]
  · simp

/-- The scan passes over the name. -/
theorem ultimaBarra_corte (h : 47 ∉ nombre) : ∀ k, k ≤ nombre.length + 1 →
    Fsc.ultimaBarra (antes ++ 47 :: nombre) (antes.length + k) = some antes.length := by
  intro k
  induction k with
  | zero =>
      intro _
      have hbarra : (antes ++ 47 :: nombre).getD antes.length 0 = 47 := by simp
      cases hn : antes.length with
      | zero =>
          rw [hn] at hbarra
          rw [Fsc.ultimaBarra, if_pos hbarra]
      | succ n =>
          rw [hn] at hbarra
          rw [Nat.add_zero, Fsc.ultimaBarra, if_pos hbarra]
  | succ k ih =>
      intro hk
      have hletra : (antes ++ 47 :: nombre).getD (antes.length + k + 1) 0 = nombre.getD k 0 := by
        rw [List.getD_append_right _ _ _ _ (by omega), Nat.add_assoc, Nat.add_sub_cancel_left]
        rfl
      have hno : nombre.getD k 0 ≠ 47 := by
        intro heq
        by_cases hlt : k < nombre.length
        · rw [List.getD_eq_getElem _ _ hlt] at heq
          exact h (heq ▸ List.getElem_mem hlt)
        · rw [List.getD_eq_default _ _ (by omega)] at heq
          cases heq
      rw [← Nat.add_assoc, Fsc.ultimaBarra, hletra, if_neg hno]
      exact ih (by omega)

theorem separarPathCliente_corte (h : 47 ∉ nombre)
    (hlen : (antes ++ 47 :: nombre).length < 65536) :
    Fsc.separarPathCliente (antes ++ 47 :: nombre) = some (dirDeCorte antes, nombre) := by
  have hlargo : (antes ++ 47 :: nombre).length = antes.length + (nombre.length + 1) := by simp
  have hdrop : (antes ++ 47 :: nombre).drop (antes.length + 1) = nombre := by simp
  rw [Fsc.separarPathCliente, Nat.mod_eq_of_lt hlen, hlargo, ultimaBarra_corte h _ (Nat.le_refl _)]
  show some (if antes.length = 0 then _ else _) = _
  rw [hdrop, List.take_of_length_le (by omega), List.take_left, dirDeCorte]
  simp only [List.length_eq_zero_iff]
  split <;> rfl

/-! ## Components -/

/-- A slash separates the components of what stands on its two sides. -/
theorem componentes_barra (antes resto : List UInt8) :
    componentes (antes ++ 47 :: resto) = componentes antes ++ componentes resto := by
  rw [componentes, List.splitOn_append_cons_self, List.filter_append]
  rfl

theorem componentes_nombre (h : 47 ∉ nombre) (hne : nombre ≠ []) :
    componentes nombre = [nombre] := by
  rw [componentes, List.splitOn_eq_singleton h]
  simp [hne]

/-- The root stands for what is before the slash at index 0. -/
theorem componentes_dirDeCorte (antes : List UInt8) :
    componentes (dirDeCorte antes) = componentes antes := by
  unfold dirDeCorte
  split
  · next h =>
    rw [h]
    rfl
  · rfl

end Separar

/-! ## Lookup -/

/-- Lookup goes through the first components and goes on from there. -/
theorem buscarDesde_append (fs : Ext2) (cs : List (List UInt8)) : ∀ (ds : List (List UInt8)) x,
    buscarDesde fs x (ds ++ cs) = (buscarDesde fs x ds).bind (buscarDesde fs · cs) := by
  intro ds
  induction ds with
  | nil =>
      intro x
      rfl
  | cons d ds ih =>
      intro x
      rw [List.cons_append, buscarDesde, buscarDesde]
      split
      · exact (buscarDesde_cero fs).symm
      · cases hl : listar fs x with
        | none => rfl
        | some lista => exact ih _

/-- **PATHS**: both programs split a path into the same directory and name, and
    looking the path up is looking up the directory and then the name in its
    listing. -/
theorem separarPath_buscarPath (path : List UInt8) (hraiz : path.head? = some 47)
    (hfin : path.getLast? ≠ some 47) (hlen : path.length < 65536) :
    ∃ pathDir nombreArch, separarPath path = some (pathDir, nombreArch)
      ∧ Fsc.separarPathCliente path = some (pathDir, nombreArch)
      ∧ nombreArch ≠ [] ∧ 47 ∉ nombreArch
      ∧ ∀ fs, buscarPath fs path = (buscarPath fs pathDir).bind fun nroInodo =>
          if nroInodo = 0 then some 0
          else (listar fs nroInodo).map (buscarNombreEnLista · nombreArch) := by
  obtain ⟨antes, nombre, rfl, hno⟩ := cortar_ultima (List.mem_of_head? hraiz)
  have hne : nombre ≠ [] := by
    rintro rfl
    exact hfin (by simp)
  refine ⟨dirDeCorte antes, nombre, separarPath_corte hno, separarPathCliente_corte hno hlen, hne,
    hno, fun fs => ?_⟩
  rw [buscarPath, componentes_barra, componentes_nombre hno hne, buscarDesde_append, buscarPath,
    componentes_dirDeCorte]
  congr 1
  funext nroInodo
  rw [buscarDesde]
  split
  · rfl
  · cases listar fs nroInodo <;> rfl

/-- A name under a directory written with two slashes. -/
theorem separarPath_buscarPath_doble :
    ∃ pathDir nombreArch, separarPath [47, 97, 47, 47, 98] = some (pathDir, nombreArch)
      ∧ Fsc.separarPathCliente [47, 97, 47, 47, 98] = some (pathDir, nombreArch)
      ∧ nombreArch ≠ [] ∧ 47 ∉ nombreArch
      ∧ ∀ fs, buscarPath fs [47, 97, 47, 47, 98]
          = (buscarPath fs pathDir).bind fun nroInodo =>
            if nroInodo = 0 then some 0
            else (listar fs nroInodo).map (buscarNombreEnLista · nombreArch) :=
  separarPath_buscarPath [47, 97, 47, 47, 98] rfl (by decide) (by decide)

end Rfs
