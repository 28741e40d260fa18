import Yanero.RcBuddyRunProofs
import Yanero.RcParticionesRunProofs

/-! # Retouching a slot through any handle

    `store_info`, `lru_get` and the first half of `delete_one` write one field
    of the slot a handle points at, and a handle may be stale: its slot may be
    free, or another item's.  Whatever slot it is, the layout stays, and with
    it the slot a placement has just found. -/

namespace Rc

open Bucles Teselado

/-- A rewrite that keeps the form of a partition and its key, and that a reset
    of the flags does not interfere with. -/
structure Retoque (f : Particion → Particion) : Prop where
  forma : ∀ s, MismaForma s (f s)
  key : ∀ s, (f s).item.key = s.item.key
  suelta : ∀ s, f { s with ocupado := false, bytesInutilizados := 0 }
    = { f s with ocupado := false, bytesInutilizados := 0 }

/-- The mark of `stored` is one. -/
theorem retoque_marcar (b : Bool) : Retoque (marcar b) :=
  ⟨mismaForma_marcar b, fun _ => rfl, fun _ => rfl⟩

/-- So is the time of use. -/
theorem retoque_usar (ahora : Nat) : Retoque (usar ahora) :=
  ⟨mismaForma_usar ahora, fun _ => rfl, fun _ => rfl⟩

/-- The rewrite seen on the cleaned table: a free slot shows nothing of it. -/
def retocada (f : Particion → Particion) (s : Particion) : Particion :=
  if s.ocupado then f s else s

section Retoques

variable {cfg : Config} {exacto : Prop} {t : TableInfo} {f : Particion → Particion}

/-- A free slot is not touched. -/
theorem retocada_libre {s : Particion} (h : s.ocupado = false) : retocada f s = s := by
  simp [retocada, h]

/-- The slot keeps what the table knows of it. -/
theorem mismaForma_retocada (hf : Retoque f) (s : Particion) : MismaForma s (retocada f s) := by
  cases ho : s.ocupado with
  | true => simpa [retocada, ho] using hf.forma s
  | false => rw [retocada_libre ho]; exact ⟨rfl, rfl, rfl, rfl, rfl⟩

/-- It keeps its key too. -/
theorem retocada_key (hf : Retoque f) (s : Particion) :
    (retocada f s).item.key = s.item.key := by
  cases ho : s.ocupado with
  | true => simpa [retocada, ho] using hf.key s
  | false => rw [retocada_libre ho]

/-- Cleaning a slot and touching it commute. -/
theorem limpia_retoque (hf : Retoque f) (s : Particion) :
    limpia (f s) = retocada f (limpia s) := by
  have h := hf.forma s
  cases ho : s.ocupado with
  | true => rw [limpia_of_ocupado ho, limpia_of_ocupado (h.ocupado.trans ho)]; simp [retocada, ho]
  | false =>
      rw [retocada_libre (by simpa using ho)]
      simp [limpia, h.ocupado, ho, h.data, h.disponibles, h.inutilizados]

/-- What is seen of the table is touched in the same slot. -/
theorem vista_retoque (hf : Retoque f) (q : Nat) :
    vista (t.modificar q f) = (vista t).modify q (retocada f) := by
  refine List.ext_getElem? fun i => ?_
  simp only [vista, TableInfo.modificar, List.getElem?_map, List.getElem?_modify]
  cases t.elements[i]? with
  | none => rfl
  | some s =>
      by_cases hq : q = i
      · simp [hq, limpia_retoque hf]
      · simp [hq]

/-- The dead slots at the end have nothing to touch. -/
theorem modify_muertas {D : List Particion} (hD : ∀ s ∈ D, muerta s) (L : List Particion)
    (q : Nat) : (L ++ D).modify q (retocada f) = L.modify q (retocada f) ++ D :=
  modify_append_fijo (fun s hs => retocada_libre (hD s hs).1) L q

/-- As many slots are occupied as before. -/
theorem length_ocupadas_retoque (hf : Retoque f) (L : List Particion) (q : Nat) :
    (ocupadas (L.modify q (retocada f))).length = (ocupadas L).length := by
  have hc : ∀ l : List Particion, (ocupadas l).length = (l.map (·.ocupado)).count true := by
    intro l
    rw [ocupadas, List.count_eq_countP, List.countP_map, List.countP_eq_length_filter]
    congr 1
    refine List.filter_congr ?_
    intro s _
    simp
  rw [hc, hc, map_modify_of (fun s => (mismaForma_retocada hf s).ocupado)]

/-- The tiling of the dynamic partitions does not depend on what is touched. -/
theorem DinInv.retoca {L D : List Particion} (h : DinInv cfg exacto t L D) (hf : Retoque f)
    (q : Nat) : DinInv cfg exacto (t.modificar q f) (L.modify q (retocada f)) D := by
  have hform := mismaForma_retocada hf
  have hini : ∀ s, inicio (retocada f s) = inicio s := by intro s; simp [inicio, (hform s).data]
  have hlargo : ∀ s, largoDin cfg.chunkSize (retocada f s) = largoDin cfg.chunkSize s := by
    intro s
    simp [largoDin, (hform s).ocupado, (hform s).ndata, (hform s).inutilizados,
      (hform s).disponibles]
  refine ⟨h.chunk, ?_, h.muertas, ?_, cabe_modify hini hlargo h.cabe, by simpa using h.slots, ?_⟩
  · rw [vista_retoque hf, h.tabla, modify_muertas h.muertas]
  · refine forall_modify (fun s hs => ?_) h.bien
    refine ⟨fun ho => ?_, fun ho => ?_⟩
    · rw [(hform s).inutilizados, (hform s).disponibles]
      exact hs.libre ((hform s).ocupado.symm.trans ho)
    · rw [(hform s).inutilizados, (hform s).disponibles]
      exact hs.ocupada ((hform s).ocupado.symm.trans ho)
  · intro hx
    rw [map_modify_of hlargo]
    exact h.suma hx

/-- Nor does the one of the buddy scheme. -/
theorem BuddyInv.retoca {L D : List Particion} (h : BuddyInv cfg exacto t L D) (hf : Retoque f)
    (q : Nat) : BuddyInv cfg exacto (t.modificar q f) (L.modify q (retocada f)) D := by
  have hform := mismaForma_retocada hf
  have hini : ∀ s, inicio (retocada f s) = inicio s := by intro s; simp [inicio, (hform s).data]
  have hlargo : ∀ s, largoBuddy cfg.chunkSize (retocada f s) = largoBuddy cfg.chunkSize s := by
    intro s
    simp [largoBuddy, largoOcupada, (hform s).ocupado, (hform s).ndata, (hform s).inutilizados,
      (hform s).disponibles]
  refine ⟨h.chunk, ?_, h.muertas, ?_, ?_, cabe_modify hini hlargo h.cabe, by simpa using h.lleno,
    ?_, ?_, ?_⟩
  · rw [vista_retoque hf, h.tabla, modify_muertas h.muertas]
  · intro hnil
    exact h.hay (by simpa using congrArg List.length hnil)
  · refine forall_modify (fun s hs => ?_) h.bien
    refine ⟨by rw [hlargo]; exact hs.chunk_le, by rw [hlargo]; exact hs.potencia,
      fun ho => ?_, fun ho => ?_⟩
    · rw [(hform s).inutilizados]
      exact hs.libre ((hform s).ocupado.symm.trans ho)
    · rw [(hform s).disponibles, (hform s).ndata, hlargo]
      exact hs.ocupada ((hform s).ocupado.symm.trans ho)
  · rw [length_ocupadas_retoque hf]
    exact h.cantidad
  · intro hx
    rw [map_modify_of hlargo]
    exact h.suma hx
  · intro hx
    rw [map_modify_of (fun s => (hform s).disponibles)]
    exact h.espacio hx

/-! ## A retouch beside a placed slot -/

/-- What a call knows of its item: key and length. -/
def etiqueta (s : Particion) : Clave × Nat := (s.item.key, s.item.ndata)

/-- The occupied slots keep their labels, in their order. -/
theorem etiquetas_retoque (hf : Retoque f) (L : List Particion) (q : Nat) :
    (ocupadas (L.modify q (retocada f))).map etiqueta = (ocupadas L).map etiqueta := by
  have hc : ∀ l : List Particion, (ocupadas l).map etiqueta
      = (l.map fun s => if s.ocupado then some (etiqueta s) else none).filterMap id := by
    intro l
    induction l with
    | nil => rfl
    | cons s l ih =>
        cases ho : s.ocupado with
        | true => simp [ocupadas_cons_of_true ho, ih, ho]
        | false => simp [ocupadas_cons_of_false ho, ih, ho]
  rw [hc, hc, map_modify_of]
  intro s
  have h := mismaForma_retocada hf s
  simp [h.ocupado, etiqueta, h.ndata, retocada_key hf]

/-- A retouch of a table with a free slot in view: that slot stays. -/
theorem modify_hueco (hf : Retoque f) (A B : List Particion) (a : Nat) (F : Int) (q : Nat) :
    ∃ A' B', (A ++ libre a F :: B).modify q (retocada f) = A' ++ libre a F :: B'
      ∧ A'.length = A.length ∧ B'.map (·.ocupado) = B.map (·.ocupado)
      ∧ (ocupadas A' ++ ocupadas B').map etiqueta = (ocupadas A ++ ocupadas B).map etiqueta := by
  rw [modify_append_casos]
  split
  · refine ⟨A.modify q (retocada f), B, rfl, by simp, rfl, ?_⟩
    rw [List.map_append, List.map_append, etiquetas_retoque hf]
  · cases q - A.length with
    | zero =>
        refine ⟨A, B, ?_, rfl, rfl, rfl⟩
        rw [List.modify_zero_cons, retocada_libre rfl]
    | succ j =>
        refine ⟨A, B.modify j (retocada f), by rw [List.modify_succ_cons], rfl, ?_, ?_⟩
        · exact map_modify_of (fun s => (mismaForma_retocada hf s).ocupado) B j
        · rw [List.map_append, List.map_append, etiquetas_retoque hf]

/-- A touch and the release of a handle commute. -/
theorem soltar_modificar (hf : Retoque f) (i q : Nat) :
    soltar i (t.modificar q f) = (soltar i t).modificar q f := by
  have h : ((t.elements.modify q f).modify i fun s =>
        { s with ocupado := false, bytesInutilizados := 0 })
      = (t.elements.modify i fun s =>
        { s with ocupado := false, bytesInutilizados := 0 }).modify q f := by
    refine List.ext_getElem? fun j => ?_
    simp only [List.getElem?_modify]
    cases t.elements[j]? with
    | none => rfl
    | some s =>
        by_cases hi : i = j
        · by_cases hq : q = j
          · simp [hi, hq, hf.suelta]
          · simp [hi, hq]
        · simp [hi]
  simp only [soltar, TableInfo.modificar, h]

end Retoques

end Rc
