import Yanero.RfsBorrarProofs
import Yanero.RfsInodosProofs
import Yanero.RfsIntactoProofs

/-! # A file gives everything back

    `soltarInodo` empties a file, clears the bit of its inode and writes the
    inode back with mode zero.  The blocks whose bits are cleared are the ones
    the file had, the counters count them, and the other files stay. -/

namespace Rfs

open Arboles Palabras

/-! ## The bit of an inode -/

/-- The bit of an inode is cleared, every other bit of the image stays, and the
    two counters gain one. -/
structure InodoLibre (fs fs' : Ext2) (x : Nat) : Prop where
  disco : ∀ o, fs'.disco o = if o = fs.byteInodo x
    then fs.disco o &&& ~~~ bitInChar (fs.sb.posDeInodo x) else fs.disco o
  sb : fs'.sb = { fs.sb with sFreeInodesCount := fs.sb.sFreeInodesCount + 1 }
  largo : fs'.bgdt.length = fs.bgdt.length
  grupo : ∀ g, fs'.grupo g = if g = fs.sb.grupoDeInodo x
    then { fs.grupo g with bgFreeInodesCount := (fs.grupo g).bgFreeInodesCount + 1 }
    else fs.grupo g

section Inodo

variable {fijo : Nat → Prop} {fs fs' : Ext2} {x y : Nat} {inodo : Inode}

/-- `Grupos_liberarInodoEnBitmap`, the clearing and the counting. -/
theorem liberarInodoEnBitmap_eq (hx : 1 ≤ x) (h32 : x < 2 ^ 32) : liberarInodoEnBitmap fs x
    = contarInodo (escribirInodeBitmap fs (fs.sb.grupoDeInodo x)
        (bitarrayCleanBit (leerInodeBitmap fs (fs.sb.grupoDeInodo x)) (fs.sb.posDeInodo x)))
      (fs.sb.grupoDeInodo x) 1 1 := by
  have hres : resta32 x 1 = x - 1 := resta32_eq h32 hx
  simp only [Rfs.liberarInodoEnBitmap, hres, mod_eq_sub]
  rfl

/-- The counter of a group with an inode in use is below the inodes it has. -/
theorem Inodos.grupo_lt (h : Inodos fs) (hx : fs.sb.esInodo x) (huso : fs.bitInodo x = true) :
    (fs.grupo (fs.sb.grupoDeInodo x)).bgFreeInodesCount < fs.sb.sInodesPerGroup := by
  obtain ⟨hpos, hreal⟩ := h.posicion hx
  rw [h.grupos _ hreal]
  have hsub : (Finset.range (fs.sb.tamInodos (fs.sb.grupoDeInodo x))).filter
      (fun j => fs.bitInodoGrupo (fs.sb.grupoDeInodo x) j = false)
      ⊂ Finset.range (fs.sb.tamInodos (fs.sb.grupoDeInodo x)) := by
    refine Finset.filter_ssubset.mpr ⟨_, Finset.mem_range.mpr hpos, ?_⟩
    rw [← bitInodo_eq, huso]
    decide
  have hcard := Finset.card_lt_card hsub
  rw [Finset.card_range] at hcard
  exact lt_of_lt_of_le hcard (Nat.min_le_left _ _)

/-- **CLEARING THE BIT** of an inode in use. -/
theorem Inodos.liberarInodoEnBitmap (h : Inodos fs) (hcont : fs.sb.sInodesPerGroup < 2 ^ 16)
    (hx : fs.sb.esInodo x) (huso : fs.bitInodo x = true) :
    InodoLibre fs (Rfs.liberarInodoEnBitmap fs x) x := by
  obtain ⟨hpos, hreal⟩ := h.posicion hx
  have hmenos : menosUno = 2 ^ 32 - 1 := rfl
  have hnum := h.numeros
  have heq := @liberarInodoEnBitmap_eq fs x hx.1 (by have := hx.2; omega)
  have htotal := h.total_lt
  have hgrupo := h.grupo_lt hx huso
  have hgr := @grupo_contarInodo (escribirInodeBitmap fs (fs.sb.grupoDeInodo x)
    (bitarrayCleanBit (leerInodeBitmap fs (fs.sb.grupoDeInodo x)) (fs.sb.posDeInodo x)))
    (fs.sb.grupoDeInodo x) 1 1 (h.descriptores ▸ hreal)
  rw [heq]
  refine ⟨fun o => ?_, ?_, ?_, fun g => ?_⟩
  · exact congrFun (Bytes.escribir_modify _ _ _ (h.byte_lt hpos)) o
  · show ({ fs.sb with sFreeInodesCount := u32 (fs.sb.sFreeInodesCount + 1) } : Superblock) = _
    rw [u32_eq (by omega)]
  · exact List.length_modify ..
  · rw [hgr]
    by_cases hg : g = fs.sb.grupoDeInodo x
    · have hcuenta : u16 ((fs.grupo (fs.sb.grupoDeInodo x)).bgFreeInodesCount + 1)
          = (fs.grupo (fs.sb.grupoDeInodo x)).bgFreeInodesCount + 1 := Nat.mod_eq_of_lt (by omega)
      rw [if_pos hg, if_pos hg, hg]
      exact congrArg (fun n => ({ fs.grupo (fs.sb.grupoDeInodo x) with bgFreeInodesCount := n } :
        GroupDescriptor)) hcuenta
    · rw [if_neg hg, if_neg hg]
      rfl

theorem InodoLibre.forma (h : InodoLibre fs fs' x) : MismaForma fs fs' := by
  refine ⟨?_, h.largo, fun g => ?_⟩
  · rw [h.sb]
  · rw [h.grupo]
    split <;> rfl

/-- The byte of the bit is in the inode bitmap of the group. -/
theorem InodoLibre.fuera (hI : Inodos fs) (hx : fs.sb.esInodo x) (h : InodoLibre fs fs' x) {o : Nat}
    (ho : o / fs.sb.blockSize ≠ (fs.grupo (fs.sb.grupoDeInodo x)).bgInodeBitmap) :
    fs'.disco o = fs.disco o := by
  rw [h.disco, if_neg]
  rintro rfl
  exact ho (bloque_de (hI.byte_en_bloque hx))

/-- One bit is cleared. -/
theorem InodoLibre.bitInodo (hI : Inodos fs) (hx : fs.sb.esInodo x) (h : InodoLibre fs fs' x)
    (hy : fs.sb.esInodo y) : fs'.bitInodo y = if y = x then false else fs.bitInodo y := by
  have hbit := bitInodo_tras h.sb h.forma.bgInodeBitmap y
  have hiff := hI.mismo_byte hx hy
  rw [hbit, h.disco]
  by_cases hbyte : fs.byteInodo y = fs.byteInodo x
  · rw [if_pos hbyte, bitDe_and_not]
    have hiff' : fs.sb.posDeInodo y % 8 = fs.sb.posDeInodo x % 8 ↔ y = x :=
      ⟨fun heq => hiff.mp ⟨hbyte, heq⟩, fun heq => (hiff.mpr heq).2⟩
    simp only [hiff']
    rfl
  · rw [if_neg hbyte, if_neg fun heq => hbyte (hiff.mpr heq).1]
    rfl

theorem InodoLibre.enUso (hI : Inodos fs) (hx : fs.sb.esInodo x) (h : InodoLibre fs fs' x) :
    fs'.EnUso = fun y => fs.EnUso y ∧ y ≠ x := by
  funext y
  unfold Ext2.EnUso
  rw [h.forma.sInodesCount]
  refine propext ⟨?_, ?_⟩
  · rintro ⟨h1, h2, h3⟩
    rw [h.bitInodo hI hx ⟨h1, h2⟩] at h3
    split at h3
    · cases h3
    · next hne => exact ⟨⟨h1, h2, h3⟩, hne⟩
  · rintro ⟨⟨h1, h2, h3⟩, hne⟩
    refine ⟨h1, h2, ?_⟩
    rw [h.bitInodo hI hx ⟨h1, h2⟩, if_neg hne, h3]

/-- The slots of the inodes hold no bitmap. -/
theorem InodoLibre.leerInodo (hG : Geometria fijo fs) (hI : Inodos fs) (hx : fs.sb.esInodo x)
    (h : InodoLibre fs fs' x) (hy : fs.sb.esInodo y) :
    (Rfs.leerInodo fs' y).Igual (Rfs.leerInodo fs y) := by
  refine leerInodo_congr (h.forma.offsetInodo y) fun i hi => h.fuera hI hx ?_
  rw [hG.bloque_ranura hy hi]
  exact (hG.tabla_no_bitmap hy (grupo_de_inodo hx)).symm

/-- The block bitmaps are not where the inode bitmaps are. -/
theorem InodoLibre.bitGrupo (hG : Geometria fijo fs) (hI : Inodos fs) (hx : fs.sb.esInodo x)
    (h : InodoLibre fs fs' x) {g j : Nat} (hj : j < fs.sb.tamGrupo g) :
    fs'.bitGrupo g j = fs.bitGrupo g j := by
  have hbyte : j / 8 < fs.sb.blockSize := lt_of_lt_of_le (hG.byte_lt hj) (hG.tamArray_le g)
  obtain ⟨-, hno, -⟩ := hG.inodeBitmap _ (grupo_de_inodo hx)
  rw [Ext2.bitGrupo, Ext2.bitGrupo, h.forma.bgBlockBitmap, h.forma.blockSize, h.fuera hI hx]
  rw [bloque_de hbyte]
  exact hno g (by omega)

theorem InodoLibre.bitBloque (hG : Geometria fijo fs) (hI : Inodos fs) (hx : fs.sb.esInodo x)
    (h : InodoLibre fs fs' x) {b : Nat} (hb : fs.sb.enVolumen b) :
    fs'.bitBloque b = fs.bitBloque b := by
  rw [Ext2.bitBloque, Ext2.bitBloque, h.sb]
  exact h.bitGrupo hG hI hx (hG.posicion hb)

/-- The data blocks are not where the bitmaps are. -/
theorem InodoLibre.disco_dato (hG : Geometria fijo fs) (hI : Inodos fs) (hx : fs.sb.esInodo x)
    (h : InodoLibre fs fs' x) {o : Nat} (ho : ¬ fijo (o / fs.sb.blockSize)) :
    fs'.disco o = fs.disco o := by
  refine h.fuera hI hx fun heq => ho ?_
  rw [heq]
  exact (hG.inodeBitmap _ (grupo_de_inodo hx)).1

/-- The other files do not notice. -/
theorem InodoLibre.intacto (hC : Consistente fijo fs) (hI : Inodos fs) (hx : fs.sb.esInodo x)
    (h : InodoLibre fs fs' x) (hy : fs.EnUso y) : Intacto fs fs' y := by
  have hG := hC.geometria
  refine hC.intacto hy h.forma (h.leerInodo hG hI hx ⟨hy.1, hy.2.1⟩) fun k ps hv o ho => ?_
  exact h.disco_dato hG hI hx (ho ▸ ((hC.enMano hy).dato hv).1.2)

/-- **AN INODE WITHOUT BLOCKS** can be given back. -/
theorem InodoLibre.consistente (hC : Consistente fijo fs) (hI : Inodos fs) (hx : fs.sb.esInodo x)
    (h : InodoLibre fs fs' x) (h0 : fs.bloquesDe x = 0) : Consistente fijo fs' := by
  have hG := hC.geometria
  have hm := h.forma
  have hlibres : ∀ g, (fs'.grupo g).bgFreeBlocksCount = (fs.grupo g).bgFreeBlocksCount := by
    intro g
    rw [h.grupo]
    split <;> rfl
  refine ⟨hm.geometria hG, ⟨fun g hg => ?_, ?_⟩, ?_⟩
  · rw [hm.cantGrupos] at hg
    rw [hlibres, hC.cuentas.grupos g hg, hm.tamGrupo]
    refine congrArg Finset.card (Finset.filter_congr fun j hj => ?_)
    rw [h.bitGrupo hG hI hx (Finset.mem_range.mp hj)]
  · rw [hm.cantGrupos, Finset.sum_congr rfl fun g _ => hlibres g, ← hC.cuentas.total, h.sb]
  · unfold Ext2.Repartido
    rw [hm.esquema, hm.enVolumen, h.enUso hI hx]
    have hr := hC.reparto.sin h0
    have hr' := @Reparto.congr_leer _ _ (buscarBloque fs') _ fs'.bitBloque _ _ _ _ _ hr
      (fun y hy k ps hv _ pos hpos => ?_) fun b hb => h.bitBloque hG hI hx hb
    · refine hr'.congr (fun y hy k hk => ?_) fun y hy => ?_
      · exact (h.leerInodo hG hI hx ⟨hy.1.1, hy.1.2.1⟩).iBlock k hk
      · exact (h.intacto hC hI hx hy.1).bloquesDe
    · obtain ⟨hvol, hno⟩ := hr.dentro y hy k ps hv
      exact buscarBloque_congr hG hm hvol hpos fun o ho => h.disco_dato hG hI hx (ho ▸ hno)

/-- The bit and the slot of an inode are apart, so either can be written first. -/
theorem InodoLibre.escribirInodo {w w' : Ext2} (hG : Geometria fijo fs) (hI : Inodos fs)
    (hx : fs.sb.esInodo x) (h : InodoLibre fs fs' x) (hw : Rfs.escribirInodo fs x inodo = w)
    (hw' : Rfs.escribirInodo fs' x inodo = w') : InodoLibre w w' x := by
  have hs := soloBloque_escribirInodo hG hx inodo
  have hs' := soloBloque_escribirInodo (h.forma.geometria hG)
    (show fs'.sb.esInodo x from ⟨hx.1, by rw [h.forma.sInodesCount]; exact hx.2⟩) inodo
  have hd := disco_escribirInodo fs x inodo
  have hd' := disco_escribirInodo fs' x inodo
  rw [hw] at hs hd
  rw [hw', h.forma.offsetInodo] at hd'
  rw [hw'] at hs'
  have hbyte : w.byteInodo x = fs.byteInodo x := by
    unfold Ext2.byteInodo
    rw [hs.sb, Ext2.grupo_congr hs.bgdt]
  refine ⟨fun o => ?_, ?_, ?_, fun g => ?_⟩
  · rw [hbyte, hs.sb, hd, hd']
    by_cases ho : o = fs.byteInodo x
    · have hfuera : o < offsetInodo fs x ∨ offsetInodo fs x + tamanoInodo ≤ o := by
        by_contra hno
        obtain ⟨i, hi⟩ := Nat.exists_eq_add_of_le (show offsetInodo fs x ≤ o by omega)
        have hblo := @Geometria.bloque_ranura _ _ _ hG hx i (by omega)
        rw [← hi, ho] at hblo
        have hmapa : fs.byteInodo x / fs.sb.blockSize
            = (fs.grupo (fs.sb.grupoDeInodo x)).bgInodeBitmap := bloque_de (hI.byte_en_bloque hx)
        exact hG.tabla_no_bitmap hx (grupo_de_inodo hx) (hmapa.symm.trans hblo)
      rw [if_pos ho, inodoEnDisco_fuera inodo hfuera, inodoEnDisco_fuera inodo hfuera, h.disco,
        if_pos ho]
    · rw [if_neg ho]
      exact inodoEnDisco_congr (by rw [h.disco, if_neg ho]) _ _
  · rw [hs'.sb, hs.sb, h.sb]
  · rw [hs'.bgdt, hs.bgdt, h.largo]
  · rw [hs.sb, Ext2.grupo_congr hs'.bgdt, Ext2.grupo_congr hs.bgdt, h.grupo]

end Inodo

/-! ## The inode bitmaps under work on data -/

section Guarda

variable {fijo : Nat → Prop} {fs fs' : Ext2} {x g j b : Nat} {inodo : Inode}

theorem grupo_con_inodos {sb : Superblock} (hg : 0 < sb.tamInodos g) :
    g * sb.sInodesPerGroup < sb.sInodesCount := by
  have h := Nat.lt_of_lt_of_le hg (Nat.min_le_right _ _)
  omega

theorem Guarda.bitInodoGrupo (hG : Geometria fijo fs) (h : Guarda fijo fs fs')
    (hg : 0 < fs.sb.tamInodos g) (hj : j < 8 * fs.sb.blockSize) :
    fs'.bitInodoGrupo g j = fs.bitInodoGrupo g j := by
  obtain ⟨hf, hb, -⟩ := hG.inodeBitmap g (grupo_con_inodos hg)
  have hblo : ((fs.grupo g).bgInodeBitmap * fs.sb.blockSize + j / 8) / fs.sb.blockSize
      = (fs.grupo g).bgInodeBitmap := bloque_de (by omega)
  rw [Ext2.bitInodoGrupo, Ext2.bitInodoGrupo, h.mismo.bgInodeBitmap, h.mismo.blockSize, h.fijas]
  · rw [hblo]
    exact hf
  · rw [hblo]
    exact fun g hg => (hb g hg).symm

theorem SoloBloque.bitInodoGrupo (h : SoloBloque fs fs' b)
    (hb : (fs.grupo g).bgInodeBitmap ≠ b) (hj : j < 8 * fs.sb.blockSize) :
    fs'.bitInodoGrupo g j = fs.bitInodoGrupo g j := by
  rw [Ext2.bitInodoGrupo, Ext2.bitInodoGrupo, h.mismo.bgInodeBitmap, h.mismo.blockSize, h.fuera]
  rw [bloque_de (by omega)]
  exact hb

/-- The counters stay right while they and the bitmaps do. -/
theorem Inodos.tras (h : Inodos fs) (hm : Mismo fs fs')
    (hbits : ∀ g j, 0 < fs.sb.tamInodos g → j < 8 * fs.sb.blockSize →
      fs'.bitInodoGrupo g j = fs.bitInodoGrupo g j) : Inodos fs' := by
  have htam : ∀ g, fs'.sb.tamInodos g = fs.sb.tamInodos g := by
    intro g
    rw [hm.sb]
    rfl
  have hlibres : ∀ g, (fs'.grupo g).bgFreeInodesCount = (fs.grupo g).bgFreeInodesCount := by
    intro g
    rw [hm.grupo g]
  refine ⟨?_, ?_, ?_, ?_, ?_, ?_, ?_, ?_, ?_, ?_⟩
  · rw [hm.sInodesCount]
    exact h.numeros
  · rw [hm.sInodesPerGroup]
    exact h.porGrupo
  · rw [hm.sInodesPerGroup, hm.blockSize]
    exact h.cabe
  · rw [hm.sInodesCount, hm.cantGrupos, hm.sInodesPerGroup]
    exact h.alcanza
  · rw [hm.largo, hm.cantGrupos]
    exact h.descriptores
  · simp only [htam, hm.bgInodeBitmap]
    exact h.bitmapsDistintos
  · intro g j hg hj hlt
    rw [htam] at hg hj
    rw [hm.blockSize] at hlt
    rw [hbits g j hg hlt]
    exact h.relleno g j hg hj hlt
  · intro g hg
    rw [hm.cantGrupos] at hg
    rw [hlibres, h.grupos g hg, htam]
    refine congrArg Finset.card (Finset.filter_congr fun j hj => ?_)
    have hj' := Finset.mem_range.mp hj
    have hle : fs.sb.tamInodos g ≤ fs.sb.sInodesPerGroup := Nat.min_le_left _ _
    have hcabe := h.cabe
    rw [hbits g j (by omega) (by omega)]
  · rw [hm.sb, h.total]
    exact Finset.sum_congr rfl fun g _ => (hlibres g).symm
  · intro g
    rw [hlibres]
    exact h.anchos g

theorem Guarda.inodos (hG : Geometria fijo fs) (h : Guarda fijo fs fs') (hI : Inodos fs) :
    Inodos fs' := hI.tras h.mismo fun _ _ hg hj => h.bitInodoGrupo hG hg hj

theorem inodos_escribirInodo (hG : Geometria fijo fs) (hx : fs.sb.esInodo x) (hI : Inodos fs)
    (inodo : Inode) : Inodos (escribirInodo fs x inodo) :=
  hI.tras (mismo_escribirInodo fs x inodo) fun _ _ hg hj =>
    (soloBloque_escribirInodo hG hx inodo).bitInodoGrupo
      (hG.tabla_no_bitmap hx (grupo_con_inodos hg)) hj

end Guarda

/-! ## Giving a file back -/

/-- A data block or a pointer block of the file of an inode. -/
def DelArchivo (fs : Ext2) (x b : Nat) : Prop :=
  ∃ k ps, Vivo (esquema fs.sb) (fs.bloquesDe x) k ps
    ∧ nodo (buscarBloque fs) (leerInodo fs x).iBlock k ps = b

/-- What giving a file back leaves: the bits of its blocks and of its inode are
    cleared and counted, and the other files are as they were. -/
structure Suelto (fijo : Nat → Prop) (fs : Ext2) (x : Nat) (fs' : Ext2) : Prop where
  consistente : Consistente fijo fs'
  forma : MismaForma fs fs'
  intacto : ∀ y, fs.EnUso y → y ≠ x → Intacto fs fs' y
  enUso : fs'.EnUso = fun y => fs.EnUso y ∧ y ≠ x
  bits : ∀ b, fs.sb.enVolumen b →
    (fs'.bitBloque b = true ↔ fs.bitBloque b = true ∧ ¬ DelArchivo fs x b)
  sFreeBlocksCount : fs'.sb.sFreeBlocksCount
    = fs.sb.sFreeBlocksCount + bloquesTotales fs.sb (fs.bloquesDe x)
  sFreeInodesCount : fs'.sb.sFreeInodesCount = fs.sb.sFreeInodesCount + 1
  bgFreeInodesCount : ∀ g, (fs'.grupo g).bgFreeInodesCount = (fs.grupo g).bgFreeInodesCount
    + if g = fs.sb.grupoDeInodo x then 1 else 0

section Suelto

variable {fijo : Nat → Prop} {fs fs' : Ext2} {x : Nat} {inodo inodo' : Inode}

theorem bloquesTotales_cero (sb : Superblock) : bloquesTotales sb 0 = 0 := by
  unfold bloquesTotales Esquema.punteros
  rw [Nat.zero_add]
  refine Finset.sum_eq_zero fun k _ => Finset.sum_eq_zero fun l _ => ?_
  have hpot : 0 < (esquema sb).p ^ (l + 1) := Nat.pow_pos (cantPunteros_pos sb)
  rw [Nat.zero_sub, Nat.zero_min, Nat.zero_add]
  exact Nat.div_eq_of_lt (by omega)

/-- A file emptied in memory. -/
structure Vaciado (fijo : Nat → Prop) (fs : Ext2) (x : Nat) (inodo : Inode) (fs' : Ext2)
    (inodo' : Inode) : Prop where
  enMano : EnMano fijo fs' x inodo' 0
  conserva : Conserva fijo fs x inodo 0 fs' inodo'
  iSize : inodo'.iSize = 0
  libres : fs'.sb.sFreeBlocksCount
    = fs.sb.sFreeBlocksCount + bloquesTotales fs.sb (fs.bloquesDe x)

theorem Consistente.vaciar (h : Consistente fijo fs) (hx : fs.EnUso x)
    (hi : inodo.Igual (leerInodo fs x)) (hr : truncarAbajo fs inodo 0 = (fs', inodo')) :
    Vaciado fijo fs x inodo fs' inodo' := by
  have hcant : cantBloques fs.sb.blockSize inodo.iSize = fs.bloquesDe x := by
    rw [hi.iSize]
    rfl
  have hcero : cantBloques fs.sb.blockSize 0 = 0 := by
    rw [cantBloques, Nat.zero_mod, if_neg (Nat.lt_irrefl 0), Nat.zero_div]
  have hmano : EnMano fijo fs x inodo (cantBloques fs.sb.blockSize inodo.iSize) := by
    rw [hcant]
    exact (h.enMano hx).igual hi.iBlock
  obtain ⟨h1, h2, h3, -, -, h4⟩ := hmano.truncarAbajo (hi.iSize ▸ leerInodo_iSize_lt fs x)
    (Nat.zero_le _)
  rw [hr, hcero] at h1 h2 h4
  rw [hr] at h3
  rw [hcant, bloquesTotales_cero, Nat.add_zero] at h4
  exact ⟨h1, h2, h3, h4⟩

/-- The bits that are cleared are those of the blocks of the file. -/
theorem Vaciado.bits (hC : Consistente fijo fs) (hx : fs.EnUso x)
    (h : Vaciado fijo fs x inodo fs' inodo') {b : Nat} (hb : fs.sb.enVolumen b) :
    fs'.bitBloque b = true ↔ fs.bitBloque b = true ∧ ¬ DelArchivo fs x b := by
  have hr := hC.reparto.bits_sin (EnMano.reparto_de hC.geometria h.conserva.guarda h.enMano) hx
    (Function.update_self ..) (fun y _ hne => Function.update_of_ne hne ..)
    (fun y hy hne k ps hv => by
      rw [Function.update_of_ne hne]
      exact h.conserva.ajeno y hy hne k ps hv) hb
  rw [hr]
  refine and_congr Iff.rfl ⟨?_, ?_⟩
  · rintro hno ⟨k, ps, hv, heq⟩
    exact hno k ps hv heq
  · rintro hno k ps hv heq
    exact hno ⟨k, ps, hv, heq⟩

/-- **GIVING A FILE BACK**: its blocks, then its inode. -/
theorem Consistente.soltarInodo (h : Consistente fijo fs) (hI : Inodos fs)
    (hcont : fs.sb.sInodesPerGroup < 2 ^ 16) (hx : fs.EnUso x)
    (hi : inodo.Igual (leerInodo fs x)) : Suelto fijo fs x (Rfs.soltarInodo fs x inodo) := by
  have hG := h.geometria
  obtain ⟨fs₁, inodo₁, hr⟩ : ∃ a b, truncarAbajo fs inodo 0 = (a, b) := ⟨_, _, rfl⟩
  have hv := h.vaciar hx hi hr
  have hg := hv.conserva.guarda
  have hm₁ := hg.mismo
  have hG₁ := hv.enMano.geometria
  have hx₁ : fs₁.sb.esInodo x := ⟨hv.enMano.enUso.1, hv.enMano.enUso.2.1⟩
  have hI₁ := hg.inodos hG hI
  have hlibre := hI₁.liberarInodoEnBitmap (by rw [hm₁.sInodesPerGroup]; exact hcont) hx₁
    hv.enMano.enUso.2.2
  obtain ⟨fs₂, hfs₂⟩ : ∃ w, escribirInodo fs₁ x { inodo₁ with iLinksCount := 0, iMode := 0 } = w :=
    ⟨_, rfl⟩
  obtain ⟨fs₃, hfs₃⟩ : ∃ w, Rfs.soltarInodo fs x inodo = w := ⟨_, rfl⟩
  have hsuelto : escribirInodo (liberarInodoEnBitmap fs₁ x) x
      { inodo₁ with iLinksCount := 0, iMode := 0 } = fs₃ := by
    rw [← hfs₃, Rfs.soltarInodo, hr]
  have hlibre₂ := hlibre.escribirInodo hG₁ hI₁ hx₁ hfs₂ hsuelto
  -- the image with the empty inode written back, its bit still set
  have hcabe : ({ inodo₁ with iLinksCount := 0, iMode := 0 } : Inode).Cabe := by
    refine ⟨show 0 < 256 ^ 2 by decide, ?_, show 0 < 256 ^ 2 by decide, hv.enMano.cabe⟩
    show inodo₁.iSize < 256 ^ 4
    rw [hv.iSize]
    decide
  have hcero : cantBloques fs₁.sb.blockSize inodo₁.iSize = 0 := by
    rw [hv.iSize, cantBloques, Nat.zero_mod, if_neg (Nat.lt_irrefl 0), Nat.zero_div]
  have hC₂ : Consistente fijo fs₂ := by
    rw [← hfs₂]
    refine EnMano.volcar ?_ hcabe
    show EnMano fijo fs₁ x _ (cantBloques fs₁.sb.blockSize inodo₁.iSize)
    rw [hcero]
    exact hv.enMano.con rfl
  have hs₂ := soloBloque_escribirInodo hG₁ hx₁ { inodo₁ with iLinksCount := 0, iMode := 0 }
  have hI₂ := inodos_escribirInodo hG₁ hx₁ hI₁ { inodo₁ with iLinksCount := 0, iMode := 0 }
  have huso₂ := hs₂.enUso hG₁ fun g hg => hG₁.tabla_no_bitmap hx₁ hg
  have hleido := @leerInodo_escribirInodo fs₁ x _ hcabe
  rw [hfs₂] at hs₂ hI₂ huso₂ hleido
  have hm₂ := hm₁.trans hs₂.mismo
  have huso : fs₂.EnUso = fs.EnUso := huso₂.trans (hg.enUso hG)
  have hx₂ : fs₂.sb.esInodo x := ⟨hx.1, by rw [hm₂.sInodesCount]; exact hx.2.1⟩
  have h0 : fs₂.bloquesDe x = 0 := by
    rw [Ext2.bloquesDe, hs₂.sb, hleido.iSize]
    exact hcero
  have hgrupo : fs₂.sb.grupoDeInodo x = fs.sb.grupoDeInodo x := by
    unfold Superblock.grupoDeInodo
    rw [hm₂.sInodesPerGroup]
  rw [hfs₃]
  refine ⟨hlibre₂.consistente hC₂ hI₂ hx₂ h0, hm₂.forma.trans hlibre₂.forma, fun y hy hne => ?_, ?_,
    fun b hb => ?_, ?_, ?_, fun g => ?_⟩
  · have hy₁ : fs₁.sb.esInodo y := ⟨hy.1, by rw [hm₁.sInodesCount]; exact hy.2.1⟩
    refine Intacto.trans (h.intacto hy hm₂.forma ?_ fun k ps hv' o ho => ?_)
      (hlibre₂.intacto hC₂ hI₂ hx₂ (by rwa [huso]))
    · have hotro := leerInodo_escribirInodo_otro hG₁ hx₁ hy₁ hne
        { inodo₁ with iLinksCount := 0, iMode := 0 }
      rw [hfs₂] at hotro
      exact hotro.trans (hg.leerInodo hG ⟨hy.1, hy.2.1⟩)
    · have hdato := ((h.enMano hy).dato hv').1
      rw [hs₂.fuera o, hv.conserva.datosAjenos y hy hne k ps hv' o ho]
      intro heq
      rw [hm₁.blockSize, ho] at heq
      exact hdato.2 (heq ▸ (hG₁.bloqueInodo hx₁).2.1)
  · rw [hlibre₂.enUso hI₂ hx₂, huso]
  · rw [hlibre₂.bitBloque hC₂.geometria hI₂ hx₂ (by rwa [hm₂.enVolumen]),
      hs₂.bitBloque hG₁ (hG₁.bloqueInodo hx₁).2.2 (by rwa [hm₁.enVolumen]), hv.bits h hx hb]
  · rw [hlibre₂.sb, ← hv.libres, ← hs₂.sb]
  · rw [hlibre₂.sb, hm₂.sb]
  · rw [hlibre₂.grupo, hgrupo]
    by_cases hgx : g = fs.sb.grupoDeInodo x
    · rw [if_pos hgx, if_pos hgx, hm₂.grupo g]
    · rw [if_neg hgx, if_neg hgx, hm₂.grupo g]
      rfl

end Suelto

end Rfs
