import Yanero.RfsMarcoProofs

/-! # The inode table

    Where an inode stands on the image, and what keeps it: the slots of two
    inodes are disjoint, all of them are inside metadata blocks that hold no
    bitmap, and an inode reads back what was written.

    `Guarda` is the frame of everything that works on data blocks: the
    metadata outside the block bitmaps keeps its bytes, so every inode and its
    bit stay. -/

namespace Rfs

open Palabras

/-- The bytes of the metadata blocks other than the block bitmaps stay, and the
    padding of the bitmaps. -/
structure Guarda (fijo : Nat → Prop) (fs fs' : Ext2) : Prop where
  mismo : Mismo fs fs'
  relleno : MismoRelleno fs fs'
  fijas : ∀ o, fijo (o / fs.sb.blockSize) →
    (∀ g, 0 < fs.sb.tamGrupo g → o / fs.sb.blockSize ≠ (fs.grupo g).bgBlockBitmap) →
    fs'.disco o = fs.disco o

section Tabla

variable {fijo : Nat → Prop} {fs fs' fs'' : Ext2} {x y : Nat}

/-- Nothing happens. -/
theorem Guarda.refl (fijo : Nat → Prop) (fs : Ext2) : Guarda fijo fs fs :=
  ⟨Mismo.refl fs, fun _ _ _ _ _ => rfl, fun _ _ _ => rfl⟩

/-- Two steps. -/
theorem Guarda.trans (h : Guarda fijo fs fs') (h' : Guarda fijo fs' fs'') :
    Guarda fijo fs fs'' := by
  refine ⟨h.mismo.trans h'.mismo, fun g j hg hj hlt => ?_, fun o hf hb => ?_⟩
  · rw [h'.relleno g j, h.relleno g j hg hj hlt]
    · rwa [h.mismo.tamGrupo]
    · rwa [h.mismo.tamGrupo]
    · rwa [h.mismo.blockSize]
  rw [h'.fijas o, h.fijas o hf hb]
  · rw [h.mismo.blockSize]
    exact hf
  · simp only [h.mismo.blockSize, h.mismo.tamGrupo, h.mismo.bgBlockBitmap]
    exact hb

/-- A write to a block that is not metadata. -/
theorem SoloBloque.guarda {b : Nat} (hG : Geometria fijo fs) (h : SoloBloque fs fs' b)
    (hb : ¬ fijo b) : Guarda fijo fs fs' := by
  refine ⟨h.mismo, fun g j hg _ hlt => h.bitEn (hG.noBitmap hb) hg hlt,
    fun o hf _ => h.fuera o ?_⟩
  rintro rfl
  exact hb hf

/-- A bit of a block bitmap. -/
theorem Marca.guarda {b : Nat} {w : Bool} (h : Marca fs fs' b w) : Guarda fijo fs fs' :=
  ⟨h.mismo, h.relleno, fun o _ hb => h.fuera o hb⟩

/-! ## Addresses -/

/-- An inode number of the volume. -/
def Superblock.esInodo (sb : Superblock) (x : Nat) : Prop := 1 ≤ x ∧ x ≤ sb.sInodesCount

instance (sb : Superblock) : DecidablePred sb.esInodo := fun _ =>
  inferInstanceAs (Decidable (_ ∧ _))

/-- The place of an inode in the table of its group, in bytes. -/
def Superblock.ranura (sb : Superblock) (x : Nat) : Nat :=
  (x - 1) % sb.sInodesPerGroup * tamanoInodo

/-- The block of the table that holds an inode. -/
def Ext2.bloqueInodo (fs : Ext2) (x : Nat) : Nat :=
  (fs.grupo ((x - 1) / fs.sb.sInodesPerGroup)).bgInodeTable + fs.sb.ranura x / fs.sb.blockSize

/-- The group of an inode is one of those the geometry speaks of. -/
theorem grupo_de_inodo {sb : Superblock} (hx : sb.esInodo x) :
    (x - 1) / sb.sInodesPerGroup * sb.sInodesPerGroup < sb.sInodesCount := by
  have h1 := Nat.div_mul_le_self (x - 1) sb.sInodesPerGroup
  have h2 := hx.1
  have h3 := hx.2
  omega

/-- A slot is a whole number of slots into a block. -/
theorem ranura_en_bloque (sb : Superblock) (x : Nat) :
    sb.ranura x % sb.blockSize + tamanoInodo ≤ sb.blockSize := by
  have hbs : sb.blockSize = tamanoInodo * (8 * 2 ^ sb.sLogBlockSize) := by
    rw [blockSize_eq, tamanoInodo]
    ring
  rw [Superblock.ranura, hbs, Nat.mul_comm _ tamanoInodo, Nat.mul_mod_mul_left]
  have hlt := Nat.mod_lt ((x - 1) % sb.sInodesPerGroup)
    (show 0 < 8 * 2 ^ sb.sLogBlockSize from by have := Nat.two_pow_pos sb.sLogBlockSize; omega)
  have h := Nat.mul_le_mul_left tamanoInodo (Nat.succ_le_of_lt hlt)
  rw [Nat.mul_succ] at h
  exact h

/-- The slot of an inode begins in the table of its group. -/
theorem Geometria.ranura_lt (hG : Geometria fijo fs) (x : Nat) :
    fs.sb.ranura x / fs.sb.blockSize * fs.sb.blockSize
      < fs.sb.sInodesPerGroup * tamanoInodo := by
  have h1 := Nat.div_mul_le_self (fs.sb.ranura x) fs.sb.blockSize
  have h2 := Nat.mod_lt (x - 1) hG.inodosPorGrupo.1
  have h3 : fs.sb.ranura x < fs.sb.sInodesPerGroup * tamanoInodo :=
    Nat.mul_lt_mul_of_pos_right h2 (by decide)
  omega

/-- The block of an inode is in the volume, holds metadata and no bitmap. -/
theorem Geometria.bloqueInodo (hG : Geometria fijo fs) (hx : fs.sb.esInodo x) :
    fs.sb.enVolumen (fs.bloqueInodo x) ∧ fijo (fs.bloqueInodo x)
      ∧ ∀ g, 0 < fs.sb.tamGrupo g → fs.bloqueInodo x ≠ (fs.grupo g).bgBlockBitmap := by
  obtain ⟨hv, hf, hb⟩ := hG.tabla _ _ (grupo_de_inodo hx) (hG.ranura_lt x)
  exact ⟨hv, hf, fun g hg => (hb g hg).symm⟩

/-- The address of an inode. -/
theorem Geometria.offsetInodo_eq (hG : Geometria fijo fs) (hx : fs.sb.esInodo x) :
    offsetInodo fs x
      = fs.bloqueInodo x * fs.sb.blockSize + fs.sb.ranura x % fs.sb.blockSize := by
  have hres : resta32 x 1 = x - 1 := resta32_eq (lt_of_le_of_lt hx.2 hG.inodos) hx.1
  have hcabe := ranura_en_bloque fs.sb x
  have hlt := hG.bytes_lt (hG.bloqueInodo hx).1
    (show fs.sb.ranura x % fs.sb.blockSize < fs.sb.blockSize from
      Nat.mod_lt _ (blockSize_pos fs.sb))
  have hsum : fs.bloqueInodo x * fs.sb.blockSize + fs.sb.ranura x % fs.sb.blockSize
      = (fs.grupo ((x - 1) / fs.sb.sInodesPerGroup)).bgInodeTable * fs.sb.blockSize
        + fs.sb.ranura x := by
    have hdm := Nat.div_add_mod (fs.sb.ranura x) fs.sb.blockSize
    rw [Ext2.bloqueInodo, Nat.add_mul, Nat.mul_comm (fs.sb.ranura x / fs.sb.blockSize)]
    omega
  rw [hsum] at hlt ⊢
  unfold offsetInodo
  dsimp only
  rw [hres]
  show u32 (u32 _ + u32 (fs.sb.ranura x)) = _
  rw [u32_eq (show fs.sb.ranura x < 2 ^ 32 by omega), u32_eq (show _ * _ < 2 ^ 32 by omega),
    u32_eq hlt]

/-- The bytes of a slot are in the block of its inode. -/
theorem Geometria.bloque_ranura (hG : Geometria fijo fs) (hx : fs.sb.esInodo x) {i : Nat}
    (hi : i < tamanoInodo) : (offsetInodo fs x + i) / fs.sb.blockSize = fs.bloqueInodo x := by
  have := ranura_en_bloque fs.sb x
  rw [hG.offsetInodo_eq hx, Nat.add_assoc]
  exact bloque_de (by omega)

/-- Different inodes have disjoint slots. -/
theorem Geometria.ranuras_disjuntas (hG : Geometria fijo fs) (hx : fs.sb.esInodo x)
    (hy : fs.sb.esInodo y) (hne : x ≠ y) :
    offsetInodo fs x + tamanoInodo ≤ offsetInodo fs y
      ∨ offsetInodo fs y + tamanoInodo ≤ offsetInodo fs x := by
  have hcx := ranura_en_bloque fs.sb x
  have hcy := ranura_en_bloque fs.sb y
  rw [hG.offsetInodo_eq hx, hG.offsetInodo_eq hy]
  rcases Nat.lt_trichotomy (fs.bloqueInodo x) (fs.bloqueInodo y) with hlt | heq | hgt
  · have := Nat.mul_le_mul_right fs.sb.blockSize (Nat.succ_le_of_lt hlt)
    rw [Nat.succ_mul] at this
    omega
  · -- one block: the same group, so the positions in it differ
    have hg : (x - 1) / fs.sb.sInodesPerGroup = (y - 1) / fs.sb.sInodesPerGroup :=
      hG.tablasDistintas _ _ _ _ (grupo_de_inodo hx) (grupo_de_inodo hy) (hG.ranura_lt x)
        (hG.ranura_lt y) heq
    have hq : fs.sb.ranura x / fs.sb.blockSize = fs.sb.ranura y / fs.sb.blockSize := by
      unfold Ext2.bloqueInodo at heq
      rw [hg] at heq
      omega
    have hdx := Nat.div_add_mod (x - 1) fs.sb.sInodesPerGroup
    have hdy := Nat.div_add_mod (y - 1) fs.sb.sInodesPerGroup
    have hmod : (x - 1) % fs.sb.sInodesPerGroup ≠ (y - 1) % fs.sb.sInodesPerGroup := by
      intro h
      rw [hg, h] at hdx
      have := hx.1
      have := hy.1
      omega
    have hbx := Nat.div_add_mod (fs.sb.ranura x) fs.sb.blockSize
    have hby := Nat.div_add_mod (fs.sb.ranura y) fs.sb.blockSize
    have hr : fs.sb.ranura x + tamanoInodo ≤ fs.sb.ranura y
        ∨ fs.sb.ranura y + tamanoInodo ≤ fs.sb.ranura x := by
      unfold Superblock.ranura
      simp only [tamanoInodo]
      omega
    rw [hq] at hbx
    rw [heq]
    omega
  · have := Nat.mul_le_mul_right fs.sb.blockSize (Nat.succ_le_of_lt hgt)
    rw [Nat.succ_mul] at this
    omega

/-! ## Reading and writing -/

/-- Two inodes agree on what the slot of an inode holds. -/
structure Inode.Igual (a b : Inode) : Prop where
  iMode : a.iMode = b.iMode
  iSize : a.iSize = b.iSize
  iLinksCount : a.iLinksCount = b.iLinksCount
  iBlock : ∀ k, k < 15 → a.iBlock k = b.iBlock k

/-- An inode reads the same when the bytes of its slot do. -/
theorem leerInodo_congr (hm : offsetInodo fs' x = offsetInodo fs x)
    (h : ∀ i, i < tamanoInodo →
      fs'.disco (offsetInodo fs x + i) = fs.disco (offsetInodo fs x + i)) :
    (leerInodo fs' x).Igual (leerInodo fs x) := by
  unfold leerInodo
  rw [hm]
  generalize offsetInodo fs x = a at h
  have hpal : ∀ d k, d + k ≤ tamanoInodo →
      leerPalabra k fs'.disco (a + d) = leerPalabra k fs.disco (a + d) := by
    intro d k hd
    refine leerPalabra_congr fun o h1 h2 => ?_
    obtain ⟨i, rfl⟩ := Nat.exists_eq_add_of_le (Nat.le_trans (Nat.le_add_right _ _) h1)
    exact h i (by omega)
  constructor
  · have := hpal 0 2 (by decide)
    rwa [Nat.add_zero] at this
  · exact hpal 4 4 (by decide)
  · exact hpal 26 2 (by decide)
  · intro k hk
    have := hpal (40 + 4 * k) 4 (by simp only [tamanoInodo]; omega)
    rwa [← Nat.add_assoc] at this

/-- Work on data blocks keeps every inode. -/
theorem Guarda.leerInodo (hG : Geometria fijo fs) (h : Guarda fijo fs fs')
    (hx : fs.sb.esInodo x) : (leerInodo fs' x).Igual (leerInodo fs x) := by
  obtain ⟨-, hf, hb⟩ := hG.bloqueInodo hx
  refine leerInodo_congr (h.mismo.offsetInodo x) fun i hi => ?_
  have hblo := hG.bloque_ranura hx hi
  exact h.fijas _ (by rw [hblo]; exact hf) (by rw [hblo]; exact hb)

/-- Where the bit of an inode is: inside the inode bitmap of its group. -/
theorem Geometria.byte_bitInodo (hG : Geometria fijo fs) (x : Nat) :
    (x - 1) % fs.sb.sInodesPerGroup / 8 < fs.sb.blockSize := by
  have h1 := Nat.mod_lt (x - 1) hG.inodosPorGrupo.1
  have h2 := hG.inodosPorGrupo.2
  omega

/-- Work on data blocks keeps the inode bitmap. -/
theorem Guarda.bitInodo (hG : Geometria fijo fs) (h : Guarda fijo fs fs')
    (hx : fs.sb.esInodo x) : fs'.bitInodo x = fs.bitInodo x := by
  obtain ⟨hf, hb, -⟩ := hG.inodeBitmap _ (grupo_de_inodo hx)
  have hblo := bloque_de (q := (fs.grupo ((x - 1) / fs.sb.sInodesPerGroup)).bgInodeBitmap)
    (hG.byte_bitInodo x)
  unfold Ext2.bitInodo
  rw [h.mismo.sInodesPerGroup, h.mismo.bgInodeBitmap, h.mismo.blockSize, h.fijas]
  · rw [hblo]
    exact hf
  · rw [hblo]
    exact fun g hg => (hb g hg).symm

/-- The inodes in use stay. -/
theorem Guarda.enUso (hG : Geometria fijo fs) (h : Guarda fijo fs fs') : fs'.EnUso = fs.EnUso := by
  funext x
  unfold Ext2.EnUso
  rw [h.mismo.sInodesCount]
  refine propext ⟨?_, ?_⟩
  · rintro ⟨h1, h2, h3⟩
    exact ⟨h1, h2, (h.bitInodo hG ⟨h1, h2⟩).symm.trans h3⟩
  · rintro ⟨h1, h2, h3⟩
    exact ⟨h1, h2, (h.bitInodo hG ⟨h1, h2⟩).trans h3⟩

/-- So do the blocks each file has. -/
theorem Guarda.bloquesDe (hG : Geometria fijo fs) (h : Guarda fijo fs fs')
    (hx : fs.sb.esInodo x) : fs'.bloquesDe x = fs.bloquesDe x := by
  unfold Ext2.bloquesDe
  rw [h.mismo.blockSize, (h.leerInodo hG hx).iSize]

/-! ### Writing an inode -/

/-- Writing an inode keeps the layout. -/
theorem mismo_escribirInodo (fs : Ext2) (x : Nat) (inodo : Inode) :
    Mismo fs (escribirInodo fs x inodo) := by
  unfold escribirInodo
  exact ⟨rfl, rfl, fun _ => rfl⟩

theorem disco_escribirInodo (fs : Ext2) (x : Nat) (inodo : Inode) :
    (escribirInodo fs x inodo).disco = inodoEnDisco fs.disco (offsetInodo fs x) inodo := by
  simp only [escribirInodo]

/-- The bytes of an inode stay inside its slot. -/
theorem inodoEnDisco_fuera {m : Nat → UInt8} {a o : Nat} (inodo : Inode)
    (ho : o < a ∨ a + tamanoInodo ≤ o) : inodoEnDisco m a inodo o = m o := by
  simp only [tamanoInodo] at ho
  unfold inodoEnDisco
  rw [escribirTabla_ajena (by omega), escribirPalabra_ajena (by omega),
    escribirPalabra_ajena (by omega), escribirPalabra_ajena (by omega)]

/-- What a byte becomes depends on that byte only. -/
theorem inodoEnDisco_congr {m m' : Nat → UInt8} {o : Nat} (h : m' o = m o) (a : Nat)
    (inodo : Inode) : inodoEnDisco m' a inodo o = inodoEnDisco m a inodo o :=
  escribirTabla_congr (escribirPalabra_congr (escribirPalabra_congr (escribirPalabra_congr h _ _)
    _ _) _ _) _ _ _

/-- The fields of an inode fit their width. -/
structure Inode.Cabe (inodo : Inode) : Prop where
  iMode : inodo.iMode < 256 ^ 2
  iSize : inodo.iSize < 256 ^ 4
  iLinksCount : inodo.iLinksCount < 256 ^ 2
  iBlock : ∀ k, k < 15 → inodo.iBlock k < 2 ^ 32

section EnDisco

variable {m : Nat → UInt8} {a : Nat} {inodo : Inode}

/-- The pointers of an inode are its last fields. -/
theorem leerPalabra_antes_de_iBlock {d k : Nat} (hd : d + k ≤ 40) :
    leerPalabra k (escribirTabla m (a + 40) inodo.iBlock 15) (a + d) = leerPalabra k m (a + d) :=
  leerPalabra_congr fun o h1 h2 => escribirTabla_ajena (by omega)

/-- The mode is read back. -/
theorem iMode_inodoEnDisco (h : inodo.Cabe) :
    leerPalabra 2 (inodoEnDisco m a inodo) (a + 0) = inodo.iMode := by
  unfold inodoEnDisco
  rw [leerPalabra_antes_de_iBlock (by omega), leerPalabra_ajena (by omega),
    leerPalabra_ajena (by omega), Nat.add_zero, leerPalabra_escribirPalabra,
    Nat.mod_eq_of_lt h.iMode]

/-- The size is read back. -/
theorem iSize_inodoEnDisco (h : inodo.Cabe) :
    leerPalabra 4 (inodoEnDisco m a inodo) (a + 4) = inodo.iSize := by
  unfold inodoEnDisco
  rw [leerPalabra_antes_de_iBlock (by omega), leerPalabra_ajena (by omega),
    leerPalabra_escribirPalabra, Nat.mod_eq_of_lt h.iSize]

/-- The links are read back. -/
theorem iLinksCount_inodoEnDisco (h : inodo.Cabe) :
    leerPalabra 2 (inodoEnDisco m a inodo) (a + 26) = inodo.iLinksCount := by
  unfold inodoEnDisco
  rw [leerPalabra_antes_de_iBlock (by omega), leerPalabra_escribirPalabra,
    Nat.mod_eq_of_lt h.iLinksCount]

/-- Every pointer is read back. -/
theorem iBlock_inodoEnDisco (h : inodo.Cabe) {k : Nat} (hk : k < 15) :
    leerPalabra 4 (inodoEnDisco m a inodo) (a + 40 + 4 * k) = inodo.iBlock k := by
  unfold inodoEnDisco
  rw [leerPalabra_escribirTabla hk, Nat.mod_eq_of_lt (h.iBlock k hk)]

end EnDisco

/-- An inode reads back what was written. -/
theorem leerInodo_escribirInodo {inodo : Inode} (h : inodo.Cabe) :
    (leerInodo (escribirInodo fs x inodo) x).Igual inodo := by
  unfold leerInodo
  rw [(mismo_escribirInodo fs x inodo).offsetInodo, disco_escribirInodo]
  generalize offsetInodo fs x = a
  refine ⟨?_, iSize_inodoEnDisco h, iLinksCount_inodoEnDisco h, fun k hk => ?_⟩
  · have := iMode_inodoEnDisco (m := fs.disco) (a := a) h
    rw [Nat.add_zero] at this
    exact this
  · exact iBlock_inodoEnDisco h hk

/-- An inode read from the image fits its widths. -/
theorem leerInodo_cabe (fs : Ext2) (x : Nat) : (leerInodo fs x).Cabe := by
  refine ⟨leerPalabra_lt 2 _ _, leerPalabra_lt 4 _ _, leerPalabra_lt 2 _ _, fun k _ => ?_⟩
  have h32 : (256 : Nat) ^ 4 = 2 ^ 32 := by decide
  rw [← h32]
  exact leerPalabra_lt 4 _ _

/-- The write of an inode keeps the others. -/
theorem leerInodo_escribirInodo_otro (hG : Geometria fijo fs) (hx : fs.sb.esInodo x)
    (hy : fs.sb.esInodo y) (hne : y ≠ x) (inodo : Inode) :
    (leerInodo (escribirInodo fs x inodo) y).Igual (leerInodo fs y) := by
  refine leerInodo_congr ((mismo_escribirInodo fs x inodo).offsetInodo y) fun i hi => ?_
  rw [disco_escribirInodo]
  have := hG.ranuras_disjuntas hx hy hne.symm
  exact inodoEnDisco_fuera inodo (by omega)

/-- Writing an inode back as it is changes nothing. -/
theorem escribirInodo_leerInodo (fs : Ext2) (x : Nat) :
    escribirInodo fs x (leerInodo fs x) = fs := by
  have hdisco : inodoEnDisco fs.disco (offsetInodo fs x) (leerInodo fs x) = fs.disco := by
    unfold inodoEnDisco leerInodo
    dsimp only
    rw [escribirPalabra_leerPalabra, escribirPalabra_leerPalabra, escribirPalabra_leerPalabra]
    exact escribirTabla_igual fun _ _ => rfl
  unfold escribirInodo
  rw [hdisco]

/-- The write of an inode stays inside its block of the table. -/
theorem soloBloque_escribirInodo (hG : Geometria fijo fs) (hx : fs.sb.esInodo x)
    (inodo : Inode) : SoloBloque fs (escribirInodo fs x inodo) (fs.bloqueInodo x) := by
  refine ⟨by unfold escribirInodo; rfl, by unfold escribirInodo; rfl, fun o ho => ?_⟩
  rw [disco_escribirInodo]
  refine inodoEnDisco_fuera inodo ?_
  by_contra hno
  obtain ⟨i, rfl⟩ := Nat.exists_eq_add_of_le (show offsetInodo fs x ≤ o by omega)
  exact ho (hG.bloque_ranura hx (by omega))

end Tabla

end Rfs
