import Yanero.RfsSoltarProofs

/-! # An inode is taken or given back

    `Inode_asignarInodo` takes a free inode and writes its mode and its links;
    the rest of the slot is what was left there.  On a volume whose free inodes
    are clean (`Limpios`) the new file is empty, so it owns no block, the
    volume stays consistent and no other file is touched (`Asignado`).

    Setting and clearing the bit of an inode are one change (`BitInodo`): a bit
    of an inode bitmap and the two counters that follow it. -/

namespace Rfs

open Arboles Palabras

/-! ## One bit of an inode bitmap -/

/-- The bit of inode `x` becomes `v`, the two counters follow, and nothing else
    changes. -/
structure BitInodo (fs fs' : Ext2) (x : Nat) (v : Bool) : Prop where
  largo : fs'.bgdt.length = fs.bgdt.length
  sb : fs'.sb = { fs.sb with sFreeInodesCount := fs'.sb.sFreeInodesCount }
  total : fs'.sb.sFreeInodesCount + v.toNat = fs.sb.sFreeInodesCount + (!v).toNat
  grupo : ∀ g, fs'.grupo g
    = { fs.grupo g with bgFreeInodesCount := (fs'.grupo g).bgFreeInodesCount }
  cuenta : ∀ g, (fs'.grupo g).bgFreeInodesCount + (if g = fs.sb.grupoDeInodo x then v.toNat else 0)
    = (fs.grupo g).bgFreeInodesCount + if g = fs.sb.grupoDeInodo x then (!v).toNat else 0
  bits : ∀ o i, bitDe (fs'.disco o) i
    = if o = fs.byteInodo x ∧ i % 8 = fs.sb.posDeInodo x % 8 then v else bitDe (fs.disco o) i
  fuera : ∀ o, o ≠ fs.byteInodo x → fs'.disco o = fs.disco o

section BitInodo

variable {fijo : Nat → Prop} {fs fs' : Ext2} {x y g j : Nat} {v : Bool}

theorem BitInodo.forma (h : BitInodo fs fs' x v) : MismaForma fs fs' := by
  refine ⟨?_, h.largo, fun g => ?_⟩
  · rw [h.sb]
  · rw [h.grupo g]

/-- Clearing is such a change. -/
theorem InodoLibre.bit (h : InodoLibre fs fs' x) : BitInodo fs fs' x false := by
  refine ⟨h.largo, ?_, ?_, fun g => ?_, fun g => ?_, fun o i => ?_, fun o ho => ?_⟩
  · rw [h.sb]
  · rw [h.sb]
    rfl
  · rw [h.grupo g]
    split <;> rfl
  · rw [h.grupo g]
    split
    · rfl
    · rfl
  · rw [h.disco o]
    by_cases ho : o = fs.byteInodo x
    · rw [if_pos ho, bitDe_and_not]
      simp only [ho, true_and]
    · rw [if_neg ho, if_neg fun hc => ho hc.1]
  · rw [h.disco o, if_neg ho]

/-- `Grupos_utilizarInodoEnBitmap` on a free inode is such a change. -/
theorem Inodos.bit (h : Inodos fs) (hx : fs.sb.esInodo x) (hlibre : fs.bitInodo x = false) :
    BitInodo fs (Rfs.utilizarInodoEnBitmap fs x) x true := by
  have hb := h.utilizarInodoEnBitmap hx hlibre
  have hres : resta32 x 1 = x - 1 :=
    resta32_eq (lt_of_le_of_lt hx.2 (lt_trans h.numeros (by decide))) hx.1
  have heq : Rfs.utilizarInodoEnBitmap fs x = contarInodo
      (escribirInodeBitmap fs (fs.sb.grupoDeInodo x)
        (bitarraySetBit (leerInodeBitmap fs (fs.sb.grupoDeInodo x)) (fs.sb.posDeInodo x)))
      (fs.sb.grupoDeInodo x) menosUno (2 ^ 16 - 1) := by
    simp only [Rfs.utilizarInodoEnBitmap, hres, mod_eq_sub]
    rfl
  refine ⟨?_, hb.sb, hb.sFreeInodesCount, fun g => ?_, fun g => ?_, hb.bits, fun o ho => ?_⟩
  · rw [heq]
    exact List.length_modify ..
  · by_cases hg : g = fs.sb.grupoDeInodo x
    · rw [hg]
      exact hb.grupo
    · rw [hb.otros g hg]
  · by_cases hg : g = fs.sb.grupoDeInodo x
    · rw [if_pos hg, if_pos hg, hg]
      exact hb.bgFreeInodesCount
    · rw [if_neg hg, if_neg hg, hb.otros g hg]
  · rw [heq]
    refine (congrFun (Bytes.escribir_modify _ _ _ (h.byte_lt (h.posicion hx).1)) o).trans ?_
    exact if_neg ho

/-- The byte of the bit is in the inode bitmap of its group. -/
theorem BitInodo.disco (hI : Inodos fs) (hx : fs.sb.esInodo x) (h : BitInodo fs fs' x v) {o : Nat}
    (ho : o / fs.sb.blockSize ≠ (fs.grupo (fs.sb.grupoDeInodo x)).bgInodeBitmap) :
    fs'.disco o = fs.disco o := by
  refine h.fuera o ?_
  rintro rfl
  exact ho (bloque_de (hI.byte_en_bloque hx))

/-- One bit of the inode bitmaps, padding included. -/
theorem BitInodo.bitInodoGrupo (hI : Inodos fs) (hx : fs.sb.esInodo x) (h : BitInodo fs fs' x v)
    (hg : 0 < fs.sb.tamInodos g) (hj : j < 8 * fs.sb.blockSize) : fs'.bitInodoGrupo g j
      = if g = fs.sb.grupoDeInodo x ∧ j = fs.sb.posDeInodo x then v
        else fs.bitInodoGrupo g j := by
  rw [Ext2.bitInodoGrupo, Ext2.bitInodoGrupo, h.forma.bgInodeBitmap, h.forma.blockSize, h.bits]
  refine if_congr ⟨?_, ?_⟩ rfl rfl
  · rintro ⟨hbyte, hbit⟩
    unfold Ext2.byteInodo at hbyte
    have hj8 : j / 8 < fs.sb.blockSize := by omega
    have hmapa : (fs.grupo g).bgInodeBitmap
        = (fs.grupo (fs.sb.grupoDeInodo x)).bgInodeBitmap := by
      rw [← @bloque_de (fs.grupo g).bgInodeBitmap _ _ hj8, hbyte,
        bloque_de (hI.byte_en_bloque hx)]
    rw [hmapa] at hbyte
    exact ⟨hI.bitmapsDistintos _ _ hg (lt_of_le_of_lt (Nat.zero_le _) (hI.posicion hx).1) hmapa,
      (mismo_bit (Nat.add_left_cancel hbyte)).mp hbit⟩
  · rintro ⟨rfl, rfl⟩
    exact ⟨rfl, rfl⟩

theorem BitInodo.bitInodo (hI : Inodos fs) (hx : fs.sb.esInodo x) (h : BitInodo fs fs' x v)
    (hy : fs.sb.esInodo y) : fs'.bitInodo y = if y = x then v else fs.bitInodo y := by
  have hpos := (hI.posicion hy).1
  have hlt : fs.sb.posDeInodo y < 8 * fs.sb.blockSize := by
    have := hI.byte_en_bloque hy
    omega
  have hgrupo : fs'.sb.grupoDeInodo y = fs.sb.grupoDeInodo y := by
    rw [h.sb]
    rfl
  have hposDe : fs'.sb.posDeInodo y = fs.sb.posDeInodo y := by
    rw [h.sb]
    rfl
  rw [bitInodo_eq, bitInodo_eq, hgrupo, hposDe, h.bitInodoGrupo hI hx (by omega) hlt]
  exact if_congr (inodo_inj hx hy) rfl rfl

theorem BitInodo.enUso (hI : Inodos fs) (hx : fs.sb.esInodo x) (h : BitInodo fs fs' x v) :
    fs'.EnUso = fun y => if y = x then v = true else fs.EnUso y := by
  funext y
  unfold Ext2.EnUso
  rw [h.forma.sInodesCount]
  refine propext ⟨fun ⟨h1, h2, h3⟩ => ?_, fun hy => ?_⟩
  · rw [h.bitInodo hI hx ⟨h1, h2⟩] at h3
    by_cases hyx : y = x
    · rw [if_pos hyx] at h3 ⊢
      exact h3
    · rw [if_neg hyx] at h3 ⊢
      exact ⟨h1, h2, h3⟩
  · by_cases hyx : y = x
    · rw [if_pos hyx] at hy
      rw [hyx, h.bitInodo hI hx hx, if_pos rfl]
      exact ⟨hx.1, hx.2, hy⟩
    · rw [if_neg hyx] at hy
      rw [h.bitInodo hI hx ⟨hy.1, hy.2.1⟩, if_neg hyx]
      exact hy

/-- The slots hold no bitmap. -/
theorem BitInodo.leerInodo (hG : Geometria fijo fs) (hI : Inodos fs) (hx : fs.sb.esInodo x)
    (h : BitInodo fs fs' x v) (hy : fs.sb.esInodo y) :
    (Rfs.leerInodo fs' y).Igual (Rfs.leerInodo fs y) := by
  refine leerInodo_congr (h.forma.offsetInodo y) fun i hi => h.disco hI hx ?_
  rw [hG.bloque_ranura hy hi]
  exact (hG.tabla_no_bitmap hy (grupo_de_inodo hx)).symm

/-- The block bitmaps are elsewhere. -/
theorem BitInodo.bitGrupo (hG : Geometria fijo fs) (hI : Inodos fs) (hx : fs.sb.esInodo x)
    (h : BitInodo fs fs' x v) (hj : j < fs.sb.tamGrupo g) :
    fs'.bitGrupo g j = fs.bitGrupo g j := by
  have hbyte : j / 8 < fs.sb.blockSize := lt_of_lt_of_le (hG.byte_lt hj) (hG.tamArray_le g)
  obtain ⟨-, hno, -⟩ := hG.inodeBitmap _ (grupo_de_inodo hx)
  rw [Ext2.bitGrupo, Ext2.bitGrupo, h.forma.bgBlockBitmap, h.forma.blockSize, h.disco hI hx]
  rw [bloque_de hbyte]
  exact hno g (by omega)

theorem BitInodo.bitBloque (hG : Geometria fijo fs) (hI : Inodos fs) (hx : fs.sb.esInodo x)
    (h : BitInodo fs fs' x v) {b : Nat} (hb : fs.sb.enVolumen b) :
    fs'.bitBloque b = fs.bitBloque b := by
  rw [Ext2.bitBloque, Ext2.bitBloque, h.sb]
  exact h.bitGrupo hG hI hx (hG.posicion hb)

/-- So is the data. -/
theorem BitInodo.disco_dato (hG : Geometria fijo fs) (hI : Inodos fs) (hx : fs.sb.esInodo x)
    (h : BitInodo fs fs' x v) {o : Nat} (ho : ¬ fijo (o / fs.sb.blockSize)) :
    fs'.disco o = fs.disco o := by
  refine h.disco hI hx fun heq => ho ?_
  rw [heq]
  exact (hG.inodeBitmap _ (grupo_de_inodo hx)).1

/-- The files do not notice. -/
theorem BitInodo.intacto (hC : Consistente fijo fs) (hI : Inodos fs) (hx : fs.sb.esInodo x)
    (h : BitInodo fs fs' x v) (hy : fs.EnUso y) : Intacto fs fs' y := by
  have hG := hC.geometria
  refine hC.intacto hy h.forma (h.leerInodo hG hI hx ⟨hy.1, hy.2.1⟩) fun k ps hv o ho => ?_
  exact h.disco_dato hG hI hx (ho ▸ ((hC.enMano hy).dato hv).1.2)

theorem BitInodo.cuentas (hG : Geometria fijo fs) (hI : Inodos fs) (hx : fs.sb.esInodo x)
    (h : BitInodo fs fs' x v) (hC : Cuentas fs) : Cuentas fs' := by
  have hlibres : ∀ g, (fs'.grupo g).bgFreeBlocksCount = (fs.grupo g).bgFreeBlocksCount := by
    intro g
    rw [h.grupo]
  refine ⟨fun g hg => ?_, ?_⟩
  · rw [h.forma.cantGrupos] at hg
    rw [hlibres, hC.grupos g hg, h.forma.tamGrupo]
    refine congrArg Finset.card (Finset.filter_congr fun j hj => ?_)
    rw [h.bitGrupo hG hI hx (Finset.mem_range.mp hj)]
  · rw [h.forma.cantGrupos, Finset.sum_congr rfl fun g _ => hlibres g, ← hC.total, h.sb]

/-- The free bits of a group before and after one of them changes. -/
theorem libres_cambio {n j : Nat} {q q' : Nat → Bool} (hj : j < n) (hq : q j = !v)
    (h : ∀ i, i < n → q' i = if i = j then v else q i) :
    ((Finset.range n).filter fun i => q' i = false).card + v.toNat
      = ((Finset.range n).filter fun i => q i = false).card + (!v).toNat := by
  cases v with
  | true => exact card_libres_set hj hq h
  | false =>
      refine (card_libres_set hj ((h j hj).trans (if_pos rfl)) fun i hi => ?_).symm
      rw [h i hi]
      by_cases hij : i = j
      · rw [if_pos hij, hij, hq]
        rfl
      · rw [if_neg hij, if_neg hij]

/-- **THE COUNTERS OF THE INODES** stay right. -/
theorem BitInodo.inodos (hI : Inodos fs) (hcont : fs.sb.sInodesPerGroup < 2 ^ 16)
    (hx : fs.sb.esInodo x) (h : BitInodo fs fs' x v) (hviejo : fs.bitInodo x = !v) :
    Inodos fs' := by
  have hm := h.forma
  obtain ⟨hpos, hreal⟩ := hI.posicion hx
  have htam : ∀ g, fs'.sb.tamInodos g = fs.sb.tamInodos g := by
    intro g
    rw [hm.sb]
    rfl
  have hlargo : ∀ g, fs.sb.tamInodos g ≤ 8 * fs.sb.blockSize := fun g =>
    Nat.le_trans (Nat.min_le_left _ _) hI.cabe
  have hgrupos : ∀ g, g < fs.sb.cantGrupos → (fs'.grupo g).bgFreeInodesCount
      = ((Finset.range (fs.sb.tamInodos g)).filter fun j =>
        fs'.bitInodoGrupo g j = false).card := by
    intro g hg
    have hcuenta := h.cuenta g
    have hantes := hI.grupos g hg
    by_cases hgx : g = fs.sb.grupoDeInodo x
    · rw [if_pos hgx, if_pos hgx] at hcuenta
      have hlibres := @libres_cambio v _ _ (fs.bitInodoGrupo g) (fs'.bitInodoGrupo g)
        (hgx ▸ hpos) (hgx ▸ hviejo) fun i hi => by
          rw [h.bitInodoGrupo hI hx (by omega) (lt_of_lt_of_le hi (hlargo g))]
          exact if_congr (and_iff_right hgx) rfl rfl
      omega
    · rw [if_neg hgx, if_neg hgx, Nat.add_zero, Nat.add_zero] at hcuenta
      rw [hcuenta, hantes]
      refine congrArg Finset.card (Finset.filter_congr fun j hj => ?_)
      have hj' := Finset.mem_range.mp hj
      rw [h.bitInodoGrupo hI hx (by omega) (lt_of_lt_of_le hj' (hlargo g)),
        if_neg fun hc => hgx hc.1]
  refine ⟨?_, ?_, ?_, ?_, ?_, ?_, ?_, ?_, ?_, fun g => ?_⟩
  · rw [hm.sInodesCount]
    exact hI.numeros
  · rw [hm.sInodesPerGroup]
    exact hI.porGrupo
  · rw [hm.sInodesPerGroup, hm.blockSize]
    exact hI.cabe
  · rw [hm.sInodesCount, hm.cantGrupos, hm.sInodesPerGroup]
    exact hI.alcanza
  · rw [hm.largo, hm.cantGrupos]
    exact hI.descriptores
  · simp only [htam, hm.bgInodeBitmap]
    exact hI.bitmapsDistintos
  · intro g j hg hj hlt
    rw [htam] at hg hj
    rw [hm.blockSize] at hlt
    rw [h.bitInodoGrupo hI hx hg hlt, if_neg fun hc => ?_]
    · exact hI.relleno g j hg hj hlt
    · rw [hc.1, hc.2] at hj
      omega
  · intro g hg
    rw [hm.cantGrupos] at hg
    rw [htam]
    exact hgrupos g hg
  · have hsuma := @sum_un_cambio fs.sb.cantGrupos _ (fun g => (fs.grupo g).bgFreeInodesCount)
      (fun g => (fs'.grupo g).bgFreeInodesCount) hreal fun g hg => by
        have hcuenta := h.cuenta g
        rwa [if_neg hg, if_neg hg] at hcuenta
    have hcuenta := h.cuenta (fs.sb.grupoDeInodo x)
    rw [if_pos rfl, if_pos rfl] at hcuenta
    have htotal := h.total
    have hantes := hI.total
    rw [hm.cantGrupos]
    omega
  · by_cases hg : g < fs.sb.cantGrupos
    · rw [hgrupos g hg]
      refine lt_of_le_of_lt (Finset.card_filter_le _ _) ?_
      rw [Finset.card_range]
      exact lt_of_le_of_lt (Nat.min_le_left _ _) hcont
    · have hcuenta := h.cuenta g
      have hne : g ≠ fs.sb.grupoDeInodo x := by
        rintro rfl
        exact hg hreal
      rw [if_neg hne, if_neg hne] at hcuenta
      have := hI.anchos g
      omega

end BitInodo

/-! ## A new file -/

/-- Nothing is left of the file that had the slot. -/
def Inode.Limpio (inodo : Inode) : Prop := inodo.iSize = 0 ∧ ∀ k, k < 15 → inodo.iBlock k = 0

/-- The free inodes of the volume are clean. -/
def Limpios (fs : Ext2) : Prop :=
  ∀ x, fs.sb.esInodo x → fs.bitInodo x = false → (leerInodo fs x).Limpio

/-- What `Inode_asignarInodo` leaves when it takes inode `x`. -/
structure Asignado (fijo : Nat → Prop) (fs : Ext2) (x modo links : Nat) (fs' : Ext2) : Prop where
  dentro : fs.sb.esInodo x
  libre : fs.bitInodo x = false
  consistente : Consistente fijo fs'
  inodos : Inodos fs'
  forma : MismaForma fs fs'
  enUso : fs'.EnUso = fun y => fs.EnUso y ∨ y = x
  bitInodo : ∀ y, fs.sb.esInodo y → fs'.bitInodo y = if y = x then true else fs.bitInodo y
  nuevo : (leerInodo fs' x).Igual { leerInodo fs x with iMode := modo, iLinksCount := links }
  otros : ∀ y, fs.sb.esInodo y → y ≠ x → (leerInodo fs' y).Igual (leerInodo fs y)
  intacto : ∀ y, fs.EnUso y → Intacto fs fs' y
  bitBloque : ∀ b, fs.sb.enVolumen b → fs'.bitBloque b = fs.bitBloque b
  sFreeBlocksCount : fs'.sb.sFreeBlocksCount = fs.sb.sFreeBlocksCount
  sFreeInodesCount : fs'.sb.sFreeInodesCount + 1 = fs.sb.sFreeInodesCount
  bgUsedDirsCount : ∀ g, (fs'.grupo g).bgUsedDirsCount = (fs.grupo g).bgUsedDirsCount

section Asignar

variable {fijo : Nat → Prop} {fs fs' : Ext2} {x y modo links : Nat}

theorem cantBloques_cero (sb : Superblock) : cantBloques sb.blockSize 0 = 0 := by
  have h := cantBloques_mul (blockSize_pos sb) 0
  rwa [Nat.zero_mul] at h

theorem Inode.Limpio.bloquesDe (h : (leerInodo fs x).Limpio) : fs.bloquesDe x = 0 := by
  rw [Ext2.bloquesDe, h.1, cantBloques_cero]

theorem bitInodo_iff (hx : fs.sb.esInodo x) : fs.bitInodo x = true ↔ fs.EnUso x :=
  ⟨fun h => ⟨hx.1, hx.2, h⟩, fun h => h.2.2⟩

/-- Writing the inode of a file keeps the others. -/
theorem Consistente.intacto_escribirInodo (hC : Consistente fijo fs) (hx : fs.sb.esInodo x)
    (hy : fs.EnUso y) (hne : y ≠ x) (inodo : Inode) : Intacto fs (escribirInodo fs x inodo) y := by
  have hG := hC.geometria
  refine hC.intacto hy (mismo_escribirInodo fs x inodo).forma
    (leerInodo_escribirInodo_otro hG hx ⟨hy.1, hy.2.1⟩ hne inodo) fun k ps hv o ho => ?_
  refine (soloBloque_escribirInodo hG hx inodo).fuera o fun heq => ?_
  have hdato := ((hC.enMano hy).dato hv).1.2
  rw [← ho, heq] at hdato
  exact hdato (hG.bloqueInodo hx).2.1

theorem Inode.Limpio.igual {a b : Inode} (h : a.Limpio) (hi : b.Igual a) : b.Limpio :=
  ⟨hi.iSize.trans h.1, fun k hk => (hi.iBlock k hk).trans (h.2 k hk)⟩

/-- **THE BIT SET**: a clean inode joins the files of the volume. -/
theorem BitInodo.consistente (hC : Consistente fijo fs) (hI : Inodos fs) (hx : fs.sb.esInodo x)
    (h : BitInodo fs fs' x true) (hl : (Rfs.leerInodo fs x).Limpio) : Consistente fijo fs' := by
  have hG := hC.geometria
  have hm := h.forma
  refine ⟨hm.geometria hG, h.cuentas hG hI hx hC.cuentas, ?_⟩
  have huso : fs'.EnUso = fun y => fs.EnUso y ∨ y = x := by
    rw [h.enUso hI hx]
    funext y
    by_cases hyx : y = x <;> simp [hyx]
  unfold Ext2.Repartido
  rw [hm.esquema, hm.enVolumen, huso]
  have hr := hC.reparto.con hl.bloquesDe hl.2
  have hr' := @Reparto.congr_leer _ _ (buscarBloque fs') _ fs'.bitBloque _ _ _ _ _ hr
    (fun y hy k ps hv _ pos hpos => ?_) fun b hb => h.bitBloque hG hI hx hb
  · have hslot : ∀ y, fs.EnUso y ∨ y = x → (Rfs.leerInodo fs' y).Igual (Rfs.leerInodo fs y) := by
      rintro y (hy | rfl)
      · exact h.leerInodo hG hI hx ⟨hy.1, hy.2.1⟩
      · exact h.leerInodo hG hI hx hx
    refine hr'.congr (fun y hy k hk => (hslot y hy).iBlock k hk) fun y hy => ?_
    rw [Ext2.bloquesDe, Ext2.bloquesDe, hm.blockSize, (hslot y hy).iSize]
  · obtain ⟨hvol, hno⟩ := hr.dentro y hy k ps hv
    exact buscarBloque_congr hG hm hvol hpos fun o ho => h.disco_dato hG hI hx (ho ▸ hno)

/-- The inode of an empty file is written. -/
theorem Consistente.escribirVacio (h : Consistente fijo fs) (hx : fs.EnUso x) {inodo : Inode}
    (hcabe : inodo.Cabe) (hl : (leerInodo fs x).Limpio) (hi : inodo.Limpio) :
    Consistente fijo (escribirInodo fs x inodo) := by
  have hmano := h.enMano hx
  rw [hl.bloquesDe] at hmano
  refine EnMano.volcar ?_ hcabe
  rw [hi.1, cantBloques_cero]
  exact hmano.igual fun k hk => (hi.2 k hk).trans (hl.2 k hk).symm

/-- **A NEW FILE**: with an inode free, `Inode_asignarInodo` takes one. -/
theorem asignarInodo_toma (hC : Consistente fijo fs) (hI : Inodos fs)
    (hcont : fs.sb.sInodesPerGroup < 2 ^ 16) (hlimpios : Limpios fs) (hl : fs.HayInodoLibre)
    (hmodo : modo < 2 ^ 16) (hlinks : links < 2 ^ 16) : ∃ fs' x,
      asignarInodo fs modo links = (fs', some x) ∧ Asignado fijo fs x modo links fs' := by
  have hG := hC.geometria
  obtain ⟨hx, hlibre⟩ := hI.buscarInodo hl
  obtain ⟨x, hxdef⟩ : ∃ x, Rfs.buscarInodo fs = x := ⟨_, rfl⟩
  rw [hxdef] at hx hlibre
  have hb := hI.bit hx hlibre
  obtain ⟨fs₀, hfs₀⟩ : ∃ fs₀, Rfs.utilizarInodoEnBitmap fs x = fs₀ := ⟨_, rfl⟩
  rw [hfs₀] at hb
  have hne : x ≠ menosUno := by
    have := hI.numeros
    have := hx.2
    omega
  have hcall : asignarInodo fs modo links = (escribirInodo fs₀ x { leerInodo fs₀ x with
      iLinksCount := links, iMode := modo }, some x) := by
    unfold asignarInodo pedirInodoLibre
    dsimp only
    rw [hxdef, hfs₀, if_neg hne]
  have hm := hb.forma
  have hC₀ := hb.consistente hC hI hx (hlimpios x hx hlibre)
  have hG₀ := hC₀.geometria
  have hslot := hb.leerInodo hG hI hx hx
  have hx₀ : fs₀.sb.esInodo x := by
    rw [Superblock.esInodo, hm.sInodesCount]
    exact hx
  have huso₀ : fs₀.EnUso x := by
    rw [hb.enUso hI hx]
    exact (congrArg id (if_pos rfl)).mpr rfl
  have hcabe : ({ leerInodo fs₀ x with iLinksCount := links, iMode := modo } : Inode).Cabe :=
    ⟨hmodo, (leerInodo_cabe fs₀ x).iSize, hlinks, (leerInodo_cabe fs₀ x).iBlock⟩
  have hlimpio₀ := (hlimpios x hx hlibre).igual hslot
  have hsolo := soloBloque_escribirInodo hG₀ hx₀ { leerInodo fs₀ x with
    iLinksCount := links, iMode := modo }
  have hotro : ∀ y, fs.sb.esInodo y → y ≠ x → (leerInodo (escribirInodo fs₀ x { leerInodo fs₀ x with
      iLinksCount := links, iMode := modo }) y).Igual (leerInodo fs y) := by
    intro y hy hyx
    have hy₀ : fs₀.sb.esInodo y := by
      rw [Superblock.esInodo, hm.sInodesCount]
      exact hy
    exact (leerInodo_escribirInodo_otro hG₀ hx₀ hy₀ hyx _).trans (hb.leerInodo hG hI hx hy)
  have hforma := hm.trans (mismo_escribirInodo fs₀ x { leerInodo fs₀ x with
    iLinksCount := links, iMode := modo }).forma
  obtain ⟨-, htab, hnomapa⟩ := hG₀.bloqueInodo hx₀
  have huso :
      (escribirInodo fs₀ x { leerInodo fs₀ x with iLinksCount := links, iMode := modo }).EnUso
      = fun y => fs.EnUso y ∨ y = x := by
    rw [hsolo.enUso hG₀ fun g hg => hG₀.tabla_no_bitmap hx₀ hg, hb.enUso hI hx]
    funext y
    by_cases hyx : y = x <;> simp [hyx]
  refine ⟨_, x, hcall, hx, hlibre, hC₀.escribirVacio huso₀ hcabe hlimpio₀ hlimpio₀,
    inodos_escribirInodo hG₀ hx₀ (hb.inodos hI hcont hx hlibre) _, hforma, huso, fun y hy => ?_, ?_,
    hotro, fun y hy => ?_, fun b hvol => ?_, ?_, ?_, fun g => ?_⟩
  · have hy' : (escribirInodo fs₀ x { leerInodo fs₀ x with
        iLinksCount := links, iMode := modo }).sb.esInodo y := by
      rw [Superblock.esInodo, hforma.sInodesCount]
      exact hy
    rw [Bool.eq_iff_iff, bitInodo_iff hy', huso]
    by_cases hyx : y = x
    · simp [hyx]
    · simp [hyx, bitInodo_iff hy]
  · have hw := @leerInodo_escribirInodo fs₀ x _ hcabe
    exact ⟨hw.iMode, hw.iSize.trans hslot.iSize, hw.iLinksCount, fun k hk =>
      (hw.iBlock k hk).trans (hslot.iBlock k hk)⟩
  · have hyx : y ≠ x := by
      rintro rfl
      exact absurd hy.2.2 (by simp [hlibre])
    have hy₀ : fs₀.EnUso y := by
      rw [hb.enUso hI hx]
      exact (congrArg id (if_neg hyx)).mpr hy
    exact (hb.intacto hC hI hx hy).trans (hC₀.intacto_escribirInodo hx₀ hy₀ hyx _)
  · rw [hsolo.bitBloque hG₀ hnomapa (hm.enVolumen ▸ hvol), hb.bitBloque hG hI hx hvol]
  · rw [hsolo.sb, hb.sb]
  · rw [hsolo.sb]
    exact hb.total
  · rw [Ext2.grupo_congr hsolo.bgdt, hb.grupo]

end Asignar

end Rfs
