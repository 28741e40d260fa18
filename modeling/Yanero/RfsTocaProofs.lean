import Yanero.RfsTruncarProofs

/-! # Which bytes a growth writes

    A growth marks blocks in the bitmaps, clears the pointer blocks it takes and
    links them.  The data blocks it takes are not written: they keep what their
    last owner left.  So a byte that changes is in a block bitmap or in a
    pointer block that the file has afterwards (`EnMano.asignarDesde_fuera`). -/

namespace Rfs

open Arboles

section Toca

variable {fijo : Nat → Prop} {fs fs' fs₁ : Ext2} {x n k e o : Nat} {inodo inodo' : Inode}
  {ds viejos nuevos : List Nat}

/-- A list of accesses that gives nothing back writes the blocks it works on. -/
theorem accesos_fuera (hG : Geometria fijo fs) : ∀ (l : List Acceso) {fs' : Ext2}, Mismo fs fs' →
    (∀ a ∈ l, a.Bien fijo fs) → liberados l = [] →
    (∀ a ∈ l, o / fs.sb.blockSize ≠ a.bloque) →
    (l.foldl Acceso.aplicar fs').disco o = fs'.disco o := by
  intro l
  induction l with
  | nil => exact fun _ _ _ _ => rfl
  | cons a l ih =>
      intro fs' hm hbien hlib hno
      have hG' := hm.geometria hG
      have hdato : fs'.sb.enVolumen a.bloque := by
        rw [hm.enVolumen]
        exact (hbien a List.mem_cons_self).dato.1
      have hsolo : SoloBloque fs' (a.aplicar fs') a.bloque := by
        cases a with
        | liberar b => cases hlib
        | puntero b pos v =>
            refine soloBloque_escribirPtroBloq hG' hdato ?_
            rw [hm.cantPunteros]
            exact ((hbien _ List.mem_cons_self).puntero b pos v rfl).1
        | inicializar b => exact soloBloque_inicializar hG' hdato
      have hlib' : liberados l = [] := by
        cases a with
        | liberar b => cases hlib
        | puntero b pos v => exact hlib
        | inicializar b => exact hlib
      rw [List.foldl_cons, ih (hm.trans hsolo.mismo) (fun a ha => hbien a
        (List.mem_cons_of_mem _ ha))
        hlib' fun a ha => hno a (List.mem_cons_of_mem _ ha)]
      refine hsolo.fuera o ?_
      rw [hm.blockSize]
      exact hno a List.mem_cons_self

/-- Taking blocks writes the block bitmaps. -/
theorem pedirBloques_fuera : ∀ (k : Nat) {fs : Ext2}, Geometria fijo fs → Cuentas fs →
    k ≤ fs.sb.sFreeBlocksCount → fs.NoBitmap (o / fs.sb.blockSize) →
    Mismo fs (pedirBloques k fs).1 ∧ (pedirBloques k fs).1.disco o = fs.disco o := by
  intro k
  induction k with
  | zero => exact fun {fs} _ _ _ _ => ⟨Mismo.refl fs, rfl⟩
  | succ k ih =>
      intro fs hG hC hk hno
      obtain ⟨fs₁, b, hp, -, -, hm, hC₁, hs⟩ := pedirBloqueLibre_spec hG hC (by omega)
      obtain ⟨hm₂, hd⟩ := ih (hm.mismo.geometria hG) hC₁ (by omega) (by
        intro g hg
        rw [hm.mismo.blockSize, hm.mismo.bgBlockBitmap]
        rw [hm.mismo.tamGrupo] at hg
        exact hno g hg)
      rw [pedirBloques_succ, hp]
      exact ⟨hm.mismo.trans hm₂, hd.trans (hm.fuera o hno)⟩

/-! ## The path of an assignment -/

theorem bloque_enlaces : ∀ {bs ps : List Nat} {a : Acceso}, a ∈ enlaces bs ps →
    a.bloque ∈ bs.dropLast := by
  intro bs
  induction bs with
  | nil => intro ps a ha; cases ps <;> cases ha
  | cons b bs ih =>
      intro ps a ha
      cases bs with
      | nil => cases ps <;> cases ha
      | cons b' bs =>
          cases ps with
          | nil => cases ha
          | cons pos ps =>
              rw [List.dropLast_cons_cons]
              rcases List.mem_cons.mp ha with rfl | ha
              · exact List.mem_cons_self
              · exact List.mem_cons_of_mem b (ih ha)

/-- The writes of an assignment go to blocks of the path above the leaf. -/
theorem bloque_escrituras {a : Acceso} (ha : a ∈ escrituras viejos nuevos ds) :
    ∃ j, j + 1 < (viejos ++ nuevos).length ∧ a.bloque = (viejos ++ nuevos).getD j 0 := by
  have hmem : a.bloque ∈ (viejos ++ nuevos).dropLast := by
    rcases List.mem_append.mp ha with ha | ha
    · obtain ⟨b, hb, rfl⟩ := List.mem_map.mp ha
      have hne : nuevos ≠ [] := by
        rintro rfl
        cases hb
      rw [List.dropLast_append_of_ne_nil hne]
      exact List.mem_append_right _ hb
    · have hd := bloque_enlaces ha
      rw [List.dropLast_drop_eq_drop_dropLast] at hd
      exact List.mem_of_mem_drop hd
  obtain ⟨j, hj, heq⟩ := List.mem_iff_getElem.mp hmem
  have hj' := hj
  rw [List.length_dropLast] at hj'
  refine ⟨j, by omega, ?_⟩
  rw [← heq, List.getElem_dropLast, List.getD_eq_getElem _ _ (by omega)]

/-- The blocks of the path afterwards: the old ones, then the ones taken. -/
theorem Toma.sitio (h : EnMano fijo fs x inodo n) (hc : Corte (esquema fs.sb) k ds n e)
    (hu : UnoMas fijo fs inodo k ds e fs' inodo')
    (ht : Toma fijo fs inodo k ds e fs₁ viejos nuevos fs' inodo') {j : Nat} (hj : j ≤ ds.length) :
    Rfs.sitio fs' inodo' k ds j = (viejos ++ nuevos).getD j 0 := by
  have hve : viejos.length = e := by rw [ht.arriba, List.length_map, List.length_range]
  rw [getD_camino hve]
  rcases Nat.lt_or_ge j e with hlt | hge
  · rw [bloqueCamino, if_pos hlt, List.getD_eq_getElem _ _ (by omega)]
    have hsit := (hu.conserva h hc).propio k (ds.take j) (hc.vivo_take hlt)
    simp only [ht.arriba, List.getElem_map, List.getElem_range]
    exact hsit
  · exact UnoMas.sitio_nuevo h hc ht.injerto hge hj

/-- **ONE INDEX MORE** writes bitmaps and the pointer blocks of its path. -/
theorem Toma.fuera (h : EnMano fijo fs x inodo n) (hc : Corte (esquema fs.sb) k ds n e)
    (hlibres : ds.length + 1 - e ≤ fs.sb.sFreeBlocksCount)
    (hu : UnoMas fijo fs inodo k ds e fs' inodo')
    (ht : Toma fijo fs inodo k ds e fs₁ viejos nuevos fs' inodo')
    (hno : fs.NoBitmap (o / fs.sb.blockSize))
    (hcam : ∀ j, j < ds.length → o / fs.sb.blockSize ≠ Rfs.sitio fs' inodo' k ds j) :
    fs'.disco o = fs.disco o := by
  have hG := h.geometria
  obtain ⟨hm, hd⟩ := pedirBloques_fuera (o := o) _ hG h.cuentas hlibres hno
  rw [ht.pedidos] at hm hd
  rw [ht.imagen, accesos_fuera hG _ hm ht.bien (liberados_escrituras ..) fun a ha => ?_]
  · exact hd
  · obtain ⟨j, hj, heq⟩ := bloque_escrituras ha
    rw [ht.largo] at hj
    rw [heq, ← ht.sitio h hc hu (by omega)]
    exact hcam j (by omega)

/-! ## A whole growth -/

/-- The byte is in no block bitmap and in no pointer block of the file. -/
structure Lejos (fs : Ext2) (inodo : Inode) (n o : Nat) : Prop where
  bitmap : fs.NoBitmap (o / fs.sb.blockSize)
  punteros : ∀ k ps, Vivo (esquema fs.sb) n k ps → ps.length < (esquema fs.sb).nivel k →
    o / fs.sb.blockSize ≠ nodo (buscarBloque fs) inodo.iBlock k ps

/-- **A GROWTH** that is not refused writes bitmaps and the pointer blocks that
    the file has afterwards. -/
theorem EnMano.asignarDesde_fuera : ∀ (resta : Nat) {i : Nat} {fs fs' : Ext2}
    {inodo inodo' : Inode},
    EnMano fijo fs x inodo i → (i + resta - 1) * fs.sb.blockSize < 2 ^ 32 →
    Rfs.asignarDesde i resta fs inodo = (fs', inodo', none) → Lejos fs' inodo' (i + resta) o →
    fs'.disco o = fs.disco o := by
  intro resta
  induction resta with
  | zero =>
      intro i fs fs' inodo inodo' _ _ hr _
      cases hr
      rfl
  | succ resta ih =>
      intro i fs fs' inodo inodo' h hn hr hlejos
      have hi : i * fs.sb.blockSize < 2 ^ 32 :=
        lt_of_le_of_lt (Nat.mul_le_mul_right _ (by omega)) hn
      obtain ⟨k, ds, e, hcam, hc⟩ := corte_caminoBloque hi
      rcases h.asignarBloque hcam hc with ⟨-, hno⟩ | ⟨fs₁, inodo₁, hsi, hu, _, _, _, ht⟩
      · rw [Rfs.asignarDesde, hno] at hr
        cases hr
      rw [Rfs.asignarDesde, hsi] at hr
      change Rfs.asignarDesde (i + 1) resta fs₁ inodo₁ = (fs', inodo', none) at hr
      have hm := hu.guarda.mismo
      have h₁ := hu.enMano h hc
      have hn₁ : (i + 1 + resta - 1) * fs₁.sb.blockSize < 2 ^ 32 := by
        rw [hm.blockSize, show i + 1 + resta - 1 = i + (resta + 1) - 1 by omega]
        exact hn
      have hidx : i + 1 + resta = i + (resta + 1) := by omega
      rw [ih h₁ hn₁ hr (hidx ▸ hlejos)]
      obtain ⟨m, hcre⟩ := h₁.asignarDesde resta hn₁
      rw [hr] at hcre
      have hcons := hcre.conserva
      have hm' := hm.trans hcons.guarda.mismo
      have hlib : ds.length + 1 - e ≤ fs.sb.sFreeBlocksCount := by
        have := hu.libres
        omega
      refine ht.fuera h hc hlib hu ?_ fun j hj => ?_
      · intro g hg
        have := hlejos.bitmap g (by rwa [hm'.tamGrupo])
        rwa [hm'.blockSize, hm'.bgBlockBitmap] at this
      · -- the path is still there when the growth ends
        have hv : Vivo (esquema fs.sb) (i + 1) k (ds.take j) := by
          rcases Nat.lt_or_ge j e with hlt | hge
          · exact (hc.vivo_take hlt).mono (by omega)
          · exact hc.vivo_desde hge (by omega)
        have hprop := hcons.propio k (ds.take j) (by rwa [hm.esquema])
        have hl : (ds.take j).length < (esquema fs.sb).nivel k := by
          rw [List.length_take_of_le (by omega), ← hc.completo]
          exact hj
        have := hlejos.punteros k (ds.take j) (by
          rw [hm'.esquema]
          exact hv.mono (by omega)) (by rwa [hm'.esquema])
        rw [hm'.blockSize, hprop] at this
        exact this

theorem EnMano.truncarArriba_fuera {nuevoTam : Nat}
    (h : EnMano fijo fs x inodo (cantBloques fs.sb.blockSize inodo.iSize))
    (hnuevo : nuevoTam < 2 ^ 32) (hle : inodo.iSize ≤ nuevoTam)
    (hr : Rfs.truncarArriba fs inodo nuevoTam = (fs', inodo', true))
    (hlejos : Lejos fs' inodo' (cantBloques fs.sb.blockSize nuevoTam) o) :
    fs'.disco o = fs.disco o := by
  have hbs := blockSize_pos fs.sb
  have hmono := cantBloques_mono hbs hle
  unfold Rfs.truncarArriba at hr
  dsimp only at hr
  rcases hd : Rfs.asignarDesde (cantBloques fs.sb.blockSize inodo.iSize)
    (cantBloques fs.sb.blockSize nuevoTam - cantBloques fs.sb.blockSize inodo.iSize) fs inodo
    with ⟨fs₁, inodo₁, falla⟩
  rw [hd] at hr
  cases falla with
  | some i =>
      simp only [Prod.mk.injEq, Bool.false_eq_true, and_false] at hr
  | none =>
      simp only [Prod.mk.injEq, and_true] at hr
      obtain ⟨rfl, rfl⟩ := hr
      have hidx : cantBloques fs.sb.blockSize inodo.iSize
          + (cantBloques fs.sb.blockSize nuevoTam - cantBloques fs.sb.blockSize inodo.iSize)
          = cantBloques fs.sb.blockSize nuevoTam := by omega
      refine h.asignarDesde_fuera _ ?_ hd ?_
      · rw [hidx]
        rcases Nat.eq_zero_or_pos (cantBloques fs.sb.blockSize nuevoTam) with h0 | hpos
        · rw [h0, Nat.zero_sub, Nat.zero_mul]
          exact Nat.two_pow_pos 32
        · exact lt_trans (mul_lt_de_cantBloques hbs (by omega)) hnuevo
      · rw [hidx]
        exact ⟨hlejos.bitmap, hlejos.punteros⟩

/-- A growth by one block that is refused leaves everything as it is. -/
theorem truncarArriba_nada {n nuevoTam : Nat} (hviejo : inodo.iSize = n * fs.sb.blockSize)
    (hnuevo : cantBloques fs.sb.blockSize nuevoTam = n + 1) (hn : n * fs.sb.blockSize < 2 ^ 32)
    (hno : asignarBloque fs n inodo = none) :
    truncarArriba fs inodo nuevoTam = (fs, inodo, false) := by
  have hb := cantBloques_mul (blockSize_pos fs.sb) n
  have hsize : ({ inodo with iSize := n * fs.sb.blockSize } : Inode) = inodo := by rw [← hviejo]
  unfold truncarArriba
  dsimp only
  rw [hviejo, hb, hnuevo, Nat.add_sub_cancel_left, asignarDesde, hno]
  show ((truncarAbajo fs { inodo with iSize := u32 (n * fs.sb.blockSize) } inodo.iSize).1,
    (truncarAbajo fs { inodo with iSize := u32 (n * fs.sb.blockSize) } inodo.iSize).2, false) = _
  rw [u32_eq hn, hsize, truncarAbajo, hviejo, hb]
  cases n with
  | zero => exact congrArg (fun i => (fs, i, false)) hsize
  | succ n =>
      rw [liberarHasta, if_neg (Nat.lt_irrefl _)]
      exact congrArg (fun i => (fs, i, false)) hsize

end Toca

end Rfs
