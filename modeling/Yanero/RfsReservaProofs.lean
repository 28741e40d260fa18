import Yanero.RfsReparto
import Mathlib.Algebra.Order.BigOperators.Group.Finset

/-! # Taking and returning one block

    `Grupos_pedirBloqueLibre` and `Grupos_liberarBloqueEnBitmap` on an image
    whose counters are right: one bit changes, the counters follow it, and
    nothing outside the block bitmaps is written. -/

namespace Rfs

open Arboles

/-! ## What the geometry gives -/

/-- The shift of the source as a power. -/
theorem blockSize_eq (sb : Superblock) : sb.blockSize = 1024 * 2 ^ sb.sLogBlockSize :=
  Nat.shiftLeft_eq _ _

theorem blockSize_pos (sb : Superblock) : 0 < sb.blockSize := by
  rw [blockSize_eq]
  have := Nat.two_pow_pos sb.sLogBlockSize
  omega

/-- Four bytes a pointer. -/
theorem cantPunteros_eq (sb : Superblock) : sb.blockSize = 4 * sb.cantPunteros := by
  unfold Superblock.cantPunteros
  rw [blockSize_eq]
  omega

theorem cantPunteros_pos (sb : Superblock) : 0 < sb.cantPunteros := by
  have h1 := cantPunteros_eq sb
  have h2 := blockSize_pos sb
  omega

/-- A difference that does not go below zero. -/
theorem resta32_eq {a b : Nat} (ha : a < 2 ^ 32) (hb : b ≤ a) : resta32 a b = a - b := by
  unfold resta32 u32
  omega

/-- A value that fits. -/
theorem u32_eq {a : Nat} (ha : a < 2 ^ 32) : u32 a = a := Nat.mod_eq_of_lt ha

/-- What the arithmetic of the block groups rests on, whether or not the bytes
    read of a bitmap cover its group. -/
structure Agrupado (fs : Ext2) : Prop where
  bloques : fs.sb.sBlocksCount < 2 ^ 32
  primerBloque : fs.sb.sFirstDataBlock ≤ 1
  volumen : fs.sb.sFirstDataBlock < fs.sb.sBlocksCount
  porGrupo : 0 < fs.sb.sBlocksPerGroup
  bitmapCabe : fs.sb.sBlocksPerGroup ≤ 8 * fs.sb.blockSize
  cantGrupos : fs.sb.cantGrupos
    = 1 + (fs.sb.sBlocksCount - fs.sb.sFirstDataBlock) / fs.sb.sBlocksPerGroup
  descriptores : fs.bgdt.length = fs.sb.cantGrupos
  bitmapsDistintos : ∀ g g', 0 < fs.sb.tamGrupo g → 0 < fs.sb.tamGrupo g' →
    (fs.grupo g).bgBlockBitmap = (fs.grupo g').bgBlockBitmap → g = g'

section Agrupado

variable {fs : Ext2} (hA : Agrupado fs)

include hA

/-- A group with blocks is one the descriptor table has. -/
theorem Agrupado.grupo_real {g : Nat} (h : 0 < fs.sb.tamGrupo g) : g < fs.sb.cantGrupos := by
  have hpos := hA.porGrupo
  have hlt : g * fs.sb.sBlocksPerGroup < fs.sb.sBlocksCount - fs.sb.sFirstDataBlock := by
    unfold Superblock.tamGrupo at h
    omega
  have hle : g ≤ (fs.sb.sBlocksCount - fs.sb.sFirstDataBlock) / fs.sb.sBlocksPerGroup :=
    (Nat.le_div_iff_mul_le hpos).mpr (le_of_lt hlt)
  rw [hA.cantGrupos]
  omega

/-- Where a block of the volume stands in its group. -/
theorem Agrupado.posicion {b : Nat} (hb : fs.sb.enVolumen b) :
    fs.sb.posDe b < fs.sb.tamGrupo (fs.sb.grupoDe b) := by
  have hpos := hA.porGrupo
  have hdm := Nat.div_add_mod (b - fs.sb.sFirstDataBlock) fs.sb.sBlocksPerGroup
  have hmod := Nat.mod_lt (b - fs.sb.sFirstDataBlock) hpos
  have hv : b - fs.sb.sFirstDataBlock < fs.sb.sBlocksCount - fs.sb.sFirstDataBlock := by
    have := hb.1
    have := hb.2
    omega
  rw [Nat.mul_comm] at hdm
  unfold Superblock.tamGrupo Superblock.posDe Superblock.grupoDe
  omega

/-- The last group is read with the bits of `s_first_data_block` on top. -/
theorem Agrupado.tamBlockBitmap_le (g : Nat) :
    tamBlockBitmap fs.sb g ≤ fs.sb.sBlocksPerGroup := by
  unfold tamBlockBitmap
  by_cases hg : g = fs.sb.cantGrupos - 1
  · rw [if_pos hg, hA.cantGrupos, Nat.add_sub_cancel_left]
    have hdm := Nat.div_add_mod (fs.sb.sBlocksCount - fs.sb.sFirstDataBlock) fs.sb.sBlocksPerGroup
    have hmod := Nat.mod_lt (fs.sb.sBlocksCount - fs.sb.sFirstDataBlock) hA.porGrupo
    have h1 := hA.bloques
    have h2 := hA.volumen
    have h3 := hA.primerBloque
    rw [Nat.mul_comm] at hdm
    rw [u32_eq (by omega), resta32_eq h1 (by omega)]
    omega
  · rw [if_neg hg]

/-- The bitmap of a group is in one block. -/
theorem Agrupado.tamArray_le (g : Nat) :
    tamArray (tamBlockBitmap fs.sb g) ≤ fs.sb.blockSize := by
  have h1 := hA.tamBlockBitmap_le g
  have h2 := hA.bitmapCabe
  have h3 := blockSize_eq fs.sb
  have h4 := Nat.two_pow_pos fs.sb.sLogBlockSize
  unfold tamArray
  split <;> omega

end Agrupado

section Geometria

variable {fijo : Nat → Prop} {fs : Ext2} (hG : Geometria fijo fs)

include hG

/-- The number of blocks fits its field. -/
theorem Geometria.bloques_lt : fs.sb.sBlocksCount < 2 ^ 32 :=
  lt_of_le_of_lt (Nat.le_mul_of_pos_right _ (blockSize_pos fs.sb)) hG.imagen

/-- The groups the source counts: one more than the division, also when it is exact. -/
theorem Geometria.cantGrupos_eq : fs.sb.cantGrupos
    = 1 + (fs.sb.sBlocksCount - fs.sb.sFirstDataBlock) / fs.sb.sBlocksPerGroup := by
  have h1 := hG.bloques_lt
  have h2 := hG.volumen
  have h3 := hG.primerBloque
  have h4 : (fs.sb.sBlocksCount - fs.sb.sFirstDataBlock) / fs.sb.sBlocksPerGroup
      ≤ fs.sb.sBlocksCount - fs.sb.sFirstDataBlock := Nat.div_le_self _ _
  unfold Superblock.cantGrupos
  rw [resta32_eq h1 (by omega)]
  by_cases hs : fs.sb.sBlocksCount - fs.sb.sFirstDataBlock + 1 < 2 ^ 32
  · exact u32_eq (by omega)
  · -- block size one would be needed for a volume of `2 ^ 32 - 1` blocks
    have h5 := hG.imagen
    have h6 : 1024 ≤ fs.sb.blockSize := by
      rw [blockSize_eq]
      have := Nat.two_pow_pos fs.sb.sLogBlockSize
      omega
    have h7 : fs.sb.sBlocksCount * 1024 ≤ fs.sb.sBlocksCount * fs.sb.blockSize :=
      Nat.mul_le_mul_left _ h6
    omega

/-- What a geometry says of its groups. -/
theorem Geometria.agrupado : Agrupado fs :=
  ⟨hG.bloques_lt, hG.primerBloque, hG.volumen, hG.porGrupo, hG.bitmapCabe, hG.cantGrupos_eq,
    hG.descriptores, hG.bitmapsDistintos⟩

theorem Geometria.grupo_real {g : Nat} (h : 0 < fs.sb.tamGrupo g) : g < fs.sb.cantGrupos :=
  hG.agrupado.grupo_real h

/-- A block has a bit in the bitmap of its group. -/
theorem Geometria.posicion {b : Nat} (hb : fs.sb.enVolumen b) :
    fs.sb.posDe b < fs.sb.tamGrupo (fs.sb.grupoDe b) := hG.agrupado.posicion hb

theorem Geometria.tamArray_le (g : Nat) :
    tamArray (tamBlockBitmap fs.sb g) ≤ fs.sb.blockSize := hG.agrupado.tamArray_le g

/-- The byte that holds a bit of a group is one of those read. -/
theorem Geometria.byte_lt {g j : Nat} (hj : j < fs.sb.tamGrupo g) :
    j / 8 < tamArray (tamBlockBitmap fs.sb g) := by
  have h1 := hG.cubierto g (hG.grupo_real (by omega))
  omega

end Geometria

/-! ## Images with the same tables -/

/-- The two images differ in their counters and bytes only. -/
structure MismaForma (fs fs' : Ext2) : Prop where
  sb : fs'.sb = { fs.sb with
    sFreeBlocksCount := fs'.sb.sFreeBlocksCount
    sFreeInodesCount := fs'.sb.sFreeInodesCount }
  largo : fs'.bgdt.length = fs.bgdt.length
  grupo : ∀ g, fs'.grupo g = { fs.grupo g with
    bgFreeBlocksCount := (fs'.grupo g).bgFreeBlocksCount
    bgFreeInodesCount := (fs'.grupo g).bgFreeInodesCount
    bgUsedDirsCount := (fs'.grupo g).bgUsedDirsCount }

/-- The two images differ in their free-block counters and bytes only. -/
structure Mismo (fs fs' : Ext2) : Prop where
  sb : fs'.sb = { fs.sb with sFreeBlocksCount := fs'.sb.sFreeBlocksCount }
  largo : fs'.bgdt.length = fs.bgdt.length
  grupo : ∀ g, fs'.grupo g
    = { fs.grupo g with bgFreeBlocksCount := (fs'.grupo g).bgFreeBlocksCount }

section MismaForma

variable {fijo : Nat → Prop} {fs fs' fs'' : Ext2}

/-- The layout through two steps. -/
theorem MismaForma.trans (h : MismaForma fs fs') (h' : MismaForma fs' fs'') :
    MismaForma fs fs'' := by
  refine ⟨?_, h'.largo.trans h.largo, fun g => ?_⟩
  · rw [h'.sb, h.sb]
  · rw [h'.grupo g, h.grupo g]

theorem MismaForma.blockSize (h : MismaForma fs fs') : fs'.sb.blockSize = fs.sb.blockSize := by
  rw [h.sb]
  rfl

theorem MismaForma.cantGrupos (h : MismaForma fs fs') : fs'.sb.cantGrupos = fs.sb.cantGrupos := by
  rw [h.sb]
  rfl

theorem MismaForma.tamGrupo (h : MismaForma fs fs') (g : Nat) :
    fs'.sb.tamGrupo g = fs.sb.tamGrupo g := by
  rw [h.sb]
  rfl

theorem MismaForma.enVolumen (h : MismaForma fs fs') : fs'.sb.enVolumen = fs.sb.enVolumen := by
  rw [h.sb]
  rfl

theorem MismaForma.esquema (h : MismaForma fs fs') : esquema fs'.sb = esquema fs.sb := by
  rw [h.sb]
  rfl

/-- Pointers are where they were. -/
theorem MismaForma.offsetPtro (h : MismaForma fs fs') (b pos : Nat) :
    offsetPtro fs' b pos = offsetPtro fs b pos := by
  unfold Rfs.offsetPtro
  rw [h.blockSize]

theorem MismaForma.bgBlockBitmap (h : MismaForma fs fs') (g : Nat) :
    (fs'.grupo g).bgBlockBitmap = (fs.grupo g).bgBlockBitmap := by rw [h.grupo g]

theorem MismaForma.bgInodeBitmap (h : MismaForma fs fs') (g : Nat) :
    (fs'.grupo g).bgInodeBitmap = (fs.grupo g).bgInodeBitmap := by rw [h.grupo g]

theorem MismaForma.bgInodeTable (h : MismaForma fs fs') (g : Nat) :
    (fs'.grupo g).bgInodeTable = (fs.grupo g).bgInodeTable := by rw [h.grupo g]

theorem MismaForma.sInodesPerGroup (h : MismaForma fs fs') :
    fs'.sb.sInodesPerGroup = fs.sb.sInodesPerGroup := by rw [h.sb]

theorem MismaForma.sInodesCount (h : MismaForma fs fs') :
    fs'.sb.sInodesCount = fs.sb.sInodesCount := by rw [h.sb]

/-- Inodes are where they were. -/
theorem MismaForma.offsetInodo (h : MismaForma fs fs') (x : Nat) :
    offsetInodo fs' x = offsetInodo fs x := by
  simp only [Rfs.offsetInodo, h.bgInodeTable, h.sInodesPerGroup, h.blockSize]

/-- The geometry is a matter of the tables. -/
theorem MismaForma.geometria (h : MismaForma fs fs') (hG : Geometria fijo fs) :
    Geometria fijo fs' := by
  have hta : ∀ g, tamBlockBitmap fs'.sb g = tamBlockBitmap fs.sb g := by
    intro g
    rw [h.sb]
    rfl
  constructor
  · rw [h.blockSize, h.sb]
    exact hG.imagen
  · rw [h.sb]
    exact hG.primerBloque
  · rw [h.sb]
    exact hG.volumen
  · rw [h.sb]
    exact hG.porGrupo
  · rw [h.blockSize, h.sb]
    exact hG.bitmapCabe
  · rw [h.sb]
    exact hG.contador
  · simp only [h.cantGrupos, h.tamGrupo, hta]
    exact hG.cubierto
  · rw [h.largo, h.cantGrupos]
    exact hG.descriptores
  · rw [h.enVolumen]
    exact hG.cero
  · simp only [h.tamGrupo, h.enVolumen, h.bgBlockBitmap]
    exact hG.bitmapFijo
  · simp only [h.tamGrupo, h.bgBlockBitmap]
    exact hG.bitmapsDistintos
  · rw [h.blockSize, h.sInodesPerGroup]
    exact hG.inodosPorGrupo
  · rw [h.sInodesCount]
    exact hG.inodos
  · simp only [h.sInodesPerGroup, h.sInodesCount, h.bgInodeBitmap, h.bgInodeTable,
      h.bgBlockBitmap, h.tamGrupo, h.blockSize]
    exact hG.inodeBitmap
  · simp only [h.sInodesPerGroup, h.sInodesCount, h.bgInodeTable, h.bgBlockBitmap, h.tamGrupo,
      h.blockSize, h.enVolumen]
    exact hG.tabla
  · simp only [h.sInodesPerGroup, h.sInodesCount, h.bgInodeTable, h.blockSize]
    exact hG.tablasDistintas

end MismaForma

section Mismo

variable {fijo : Nat → Prop} {fs fs' fs'' : Ext2}

/-- A volume has its own layout. -/
theorem Mismo.refl (fs : Ext2) : Mismo fs fs := ⟨rfl, rfl, fun _ => rfl⟩

/-- A descriptor depends on the table alone. -/
theorem Ext2.grupo_congr (h : fs'.bgdt = fs.bgdt) (g : Nat) : fs'.grupo g = fs.grupo g := by
  rw [Ext2.grupo, Ext2.grupo, h]

/-- An equal superblock and an equal table. -/
theorem mismo_de (hsb : fs'.sb = fs.sb) (hbgdt : fs'.bgdt = fs.bgdt) : Mismo fs fs' := by
  refine ⟨?_, by rw [hbgdt], fun g => ?_⟩
  · rw [hsb]
  · rw [Ext2.grupo_congr hbgdt]

/-- The layout and the inode counters through two steps. -/
theorem Mismo.trans (h : Mismo fs fs') (h' : Mismo fs' fs'') : Mismo fs fs'' := by
  refine ⟨?_, h'.largo.trans h.largo, fun g => ?_⟩
  · rw [h'.sb, h.sb]
  · rw [h'.grupo g, h.grupo g]

/-- Less is asked of the layout alone. -/
theorem Mismo.forma (h : Mismo fs fs') : MismaForma fs fs' := by
  refine ⟨?_, h.largo, fun g => ?_⟩
  · rw [h.sb]
  · rw [h.grupo g]

theorem Mismo.blockSize (h : Mismo fs fs') : fs'.sb.blockSize = fs.sb.blockSize := h.forma.blockSize

theorem Mismo.cantGrupos (h : Mismo fs fs') : fs'.sb.cantGrupos = fs.sb.cantGrupos :=
  h.forma.cantGrupos

theorem Mismo.tamGrupo (h : Mismo fs fs') (g : Nat) : fs'.sb.tamGrupo g = fs.sb.tamGrupo g :=
  h.forma.tamGrupo g

theorem Mismo.enVolumen (h : Mismo fs fs') : fs'.sb.enVolumen = fs.sb.enVolumen := h.forma.enVolumen

theorem Mismo.esquema (h : Mismo fs fs') : esquema fs'.sb = esquema fs.sb := h.forma.esquema

theorem Mismo.offsetPtro (h : Mismo fs fs') (b pos : Nat) :
    offsetPtro fs' b pos = offsetPtro fs b pos := h.forma.offsetPtro b pos

theorem Mismo.bgBlockBitmap (h : Mismo fs fs') (g : Nat) :
    (fs'.grupo g).bgBlockBitmap = (fs.grupo g).bgBlockBitmap := h.forma.bgBlockBitmap g

theorem Mismo.bgInodeBitmap (h : Mismo fs fs') (g : Nat) :
    (fs'.grupo g).bgInodeBitmap = (fs.grupo g).bgInodeBitmap := h.forma.bgInodeBitmap g

theorem Mismo.bgInodeTable (h : Mismo fs fs') (g : Nat) :
    (fs'.grupo g).bgInodeTable = (fs.grupo g).bgInodeTable := h.forma.bgInodeTable g

theorem Mismo.sInodesPerGroup (h : Mismo fs fs') :
    fs'.sb.sInodesPerGroup = fs.sb.sInodesPerGroup := h.forma.sInodesPerGroup

theorem Mismo.sInodesCount (h : Mismo fs fs') :
    fs'.sb.sInodesCount = fs.sb.sInodesCount := h.forma.sInodesCount

theorem Mismo.offsetInodo (h : Mismo fs fs') (x : Nat) : offsetInodo fs' x = offsetInodo fs x :=
  h.forma.offsetInodo x

/-- A geometry depends on the layout alone. -/
theorem Mismo.geometria (h : Mismo fs fs') (hG : Geometria fijo fs) : Geometria fijo fs' :=
  h.forma.geometria hG

end Mismo

/-! ## One bit of a bitmap -/

/-- The block of a byte given as block and rest. -/
theorem bloque_de {q r bs : Nat} (hr : r < bs) : (q * bs + r) / bs = q := by
  rw [Nat.mul_comm, Nat.mul_add_div (by omega), Nat.div_eq_of_lt hr, Nat.add_zero]

/-- A sum in which one term changes. -/
theorem sum_un_cambio {n g : Nat} {f f' : Nat → Nat} (hg : g < n)
    (h : ∀ g', g' ≠ g → f' g' = f g') :
    ∑ i ∈ Finset.range n, f' i + f g = ∑ i ∈ Finset.range n, f i + f' g := by
  have hmem : g ∈ Finset.range n := Finset.mem_range.mpr hg
  have h1 := Finset.add_sum_erase (Finset.range n) f hmem
  have h2 := Finset.add_sum_erase (Finset.range n) f' hmem
  have h3 : ∑ i ∈ (Finset.range n).erase g, f' i = ∑ i ∈ (Finset.range n).erase g, f i :=
    Finset.sum_congr rfl fun i hi => h i (Finset.ne_of_mem_erase hi)
  omega

/-- The descriptors after one of them changed. -/
theorem grupo_conGrupo {fs : Ext2} {g : Nat} {f : GroupDescriptor → GroupDescriptor}
    (hg : g < fs.bgdt.length) (g' : Nat) :
    (fs.conGrupo g f).grupo g' = if g' = g then f (fs.grupo g') else fs.grupo g' := by
  unfold Ext2.grupo Ext2.conGrupo
  by_cases hgg : g' = g
  · subst hgg
    simp [List.getD_eq_getElem?_getD, hg]
  · have hne : g ≠ g' := fun h => hgg h.symm
    simp [List.getD_eq_getElem?_getD, hgg, List.getElem?_modify_ne _ _ hne]

/-- The padding of the block bitmaps stays: the bits past the last block of
    each group. -/
def MismoRelleno (fs fs' : Ext2) : Prop :=
  ∀ g j, 0 < fs.sb.tamGrupo g → fs.sb.tamGrupo g ≤ j → j < 8 * fs.sb.blockSize →
    fs'.bitGrupo g j = fs.bitGrupo g j

/-- Block `b` gets bit `v`; the rest of the volume keeps its bits, the padding
    of the bitmaps stays, and nothing is written outside the block bitmaps. -/
structure Marca (fs fs' : Ext2) (b : Nat) (v : Bool) : Prop where
  mismo : Mismo fs fs'
  bit : ∀ c, fs.sb.enVolumen c → fs'.bitBloque c = if c = b then v else fs.bitBloque c
  relleno : MismoRelleno fs fs'
  fuera : ∀ o, (∀ g, 0 < fs.sb.tamGrupo g → o / fs.sb.blockSize ≠ (fs.grupo g).bgBlockBitmap) →
    fs'.disco o = fs.disco o

section CambiaBit

variable {fijo : Nat → Prop} {fs fs' : Ext2} {g j : Nat} {f : UInt8 → UInt8} {v : Bool}

/-- Changing one byte of a bitmap by an operation on one bit. -/
theorem bitGrupo_cambia (hA : Agrupado fs) (hm : Mismo fs fs') (hg : 0 < fs.sb.tamGrupo g)
    (h1 : j / 8 < fs.sb.blockSize)
    (hd : fs'.disco = fun o =>
      if o = (fs.grupo g).bgBlockBitmap * fs.sb.blockSize + j / 8 then f (fs.disco o)
      else fs.disco o)
    (hf : ∀ c i, bitDe (f c) i = if i % 8 = j % 8 then v else bitDe c i)
    {g' j' : Nat} (hg' : 0 < fs.sb.tamGrupo g') (h2 : j' / 8 < fs.sb.blockSize) :
    fs'.bitGrupo g' j' = if g' = g ∧ j' = j then v else fs.bitGrupo g' j' := by
  unfold Ext2.bitGrupo
  rw [hm.bgBlockBitmap, hm.blockSize, hd]
  by_cases ha : (fs.grupo g').bgBlockBitmap * fs.sb.blockSize + j' / 8
      = (fs.grupo g).bgBlockBitmap * fs.sb.blockSize + j / 8
  · -- the same byte: the same bitmap block, hence the same group
    have hbm : (fs.grupo g').bgBlockBitmap = (fs.grupo g).bgBlockBitmap := by
      rw [← bloque_de (q := (fs.grupo g').bgBlockBitmap) h2, ha, bloque_de h1]
    obtain rfl := hA.bitmapsDistintos g' g hg' hg hbm
    have hbyte : j' / 8 = j / 8 := Nat.add_left_cancel ha
    simp only [ha, if_true, hf, mismo_bit hbyte, true_and]
  · have hne : ¬ (g' = g ∧ j' = j) := by
      rintro ⟨rfl, rfl⟩
      exact ha rfl
    simp only [if_neg ha, if_neg hne]

/-- The place of a block and the block determine each other. -/
theorem posicion_inj {b c : Nat} (hb : fs.sb.enVolumen b)
    (hc : fs.sb.enVolumen c) :
    (fs.sb.grupoDe c = fs.sb.grupoDe b ∧ fs.sb.posDe c = fs.sb.posDe b) ↔ c = b := by
  constructor
  · rintro ⟨h1, h2⟩
    unfold Superblock.grupoDe at h1
    unfold Superblock.posDe at h2
    have hc' := Nat.div_add_mod (c - fs.sb.sFirstDataBlock) fs.sb.sBlocksPerGroup
    have hb' := Nat.div_add_mod (b - fs.sb.sFirstDataBlock) fs.sb.sBlocksPerGroup
    rw [h1, h2] at hc'
    have := hb.1
    have := hc.1
    omega
  · rintro rfl
    exact ⟨rfl, rfl⟩

/-- The free bits of a group after one bit is set. -/
theorem card_libres_set {n j : Nat} {q q' : Nat → Bool} (hj : j < n) (hq : q j = false)
    (h : ∀ i, i < n → q' i = if i = j then true else q i) :
    ((Finset.range n).filter fun i => q' i = false).card + 1
      = ((Finset.range n).filter fun i => q i = false).card := by
  have hmem : j ∈ (Finset.range n).filter fun i => q i = false := by simp [hj, hq]
  have hset : ((Finset.range n).filter fun i => q' i = false)
      = ((Finset.range n).filter fun i => q i = false).erase j := by
    ext i
    simp only [Finset.mem_filter, Finset.mem_range, Finset.mem_erase]
    constructor
    · rintro ⟨hi, hqi⟩
      rw [h i hi] at hqi
      by_cases hij : i = j
      · rw [if_pos hij] at hqi
        exact Bool.noConfusion hqi
      · rw [if_neg hij] at hqi
        exact ⟨hij, hi, hqi⟩
    · rintro ⟨hij, hi, hqi⟩
      refine ⟨hi, ?_⟩
      rw [h i hi, if_neg hij, hqi]
  rw [hset]
  exact Finset.card_erase_add_one hmem

end CambiaBit

/-! ## The counters follow the bit -/

section Contar

variable {fijo : Nat → Prop} {fs : Ext2} {b : Nat}

/-- A whole dealt out in groups of one size, the last one taking what is left. -/
theorem suma_grupos (porGrupo total n : Nat) :
    ∑ g ∈ Finset.range n, min porGrupo (total - g * porGrupo) = min (n * porGrupo) total := by
  induction n with
  | zero => simp
  | succ n ih =>
      rw [Finset.sum_range_succ, ih, Nat.succ_mul]
      omega

/-- The free counter stays within the volume. -/
theorem Cuentas.total_le (hC : Cuentas fs) : fs.sb.sFreeBlocksCount ≤ fs.sb.sBlocksCount := by
  rw [hC.total]
  calc ∑ g ∈ Finset.range fs.sb.cantGrupos, (fs.grupo g).bgFreeBlocksCount
      ≤ ∑ g ∈ Finset.range fs.sb.cantGrupos, fs.sb.tamGrupo g := by
        refine Finset.sum_le_sum fun g hg => ?_
        rw [hC.grupos g (Finset.mem_range.mp hg)]
        exact le_trans (Finset.card_filter_le _ _) (by rw [Finset.card_range])
    _ ≤ fs.sb.sBlocksCount := by
        refine le_trans (le_of_eq (suma_grupos _ _ _)) ?_
        omega

/-- A group has no more free blocks than blocks. -/
theorem Cuentas.grupo_le (hC : Cuentas fs) {g : Nat} (hg : g < fs.sb.cantGrupos) :
    (fs.grupo g).bgFreeBlocksCount ≤ fs.sb.tamGrupo g := by
  rw [hC.grupos g hg]
  exact le_trans (Finset.card_filter_le _ _) (by rw [Finset.card_range])

/-- The descriptors after a block was counted. -/
theorem grupo_contarBloque {g d32 d16 : Nat} (hg : g < fs.bgdt.length) (g' : Nat) :
    (contarBloque fs g d32 d16).grupo g'
      = if g' = g then
          { fs.grupo g' with bgFreeBlocksCount := u16 ((fs.grupo g').bgFreeBlocksCount + d16) }
        else fs.grupo g' := grupo_conGrupo hg g'

/-- Rewriting a bitmap and its counters leaves the tables as they were. -/
theorem mismo_contarBloque {g d32 d16 : Nat} {l : List UInt8} (hg : g < fs.bgdt.length) :
    Mismo fs (contarBloque (escribirBlockBitmap fs g l) g d32 d16) := by
  refine ⟨rfl, by simp [contarBloque, escribirBlockBitmap, Ext2.conGrupo], fun g' => ?_⟩
  have hgr := @grupo_contarBloque (escribirBlockBitmap fs g l) g d32 d16 hg g'
  rw [hgr]
  split <;> rfl

/-- The group and the position of a block. -/
theorem Agrupado.lugar (hA : Agrupado fs) (hb : fs.sb.enVolumen b) :
    resta32 b fs.sb.sFirstDataBlock = b - fs.sb.sFirstDataBlock :=
  resta32_eq (lt_trans hb.2 hA.bloques) hb.1

variable {f : UInt8 → UInt8} {v : Bool} {l : List UInt8}

/-- One bit of the block's group changes, and the counters with it. -/
theorem contarBloque_spec (d32 d16 : Nat) {n : Nat} (hA : Agrupado fs) (hC : Cuentas fs)
    (hb : fs.sb.enVolumen b)
    (hbyte : fs.sb.posDe b / 8 < tamArray (tamBlockBitmap fs.sb (fs.sb.grupoDe b)))
    (hd : ∀ o, (escribirBlockBitmap fs (fs.sb.grupoDe b) l).disco o
      = if o = (fs.grupo (fs.sb.grupoDe b)).bgBlockBitmap * fs.sb.blockSize + fs.sb.posDe b / 8
        then f (fs.disco o) else fs.disco o)
    (hf : ∀ c i, bitDe (f c) i = if i % 8 = fs.sb.posDe b % 8 then v else bitDe c i)
    (hn : n = ((Finset.range (fs.sb.tamGrupo (fs.sb.grupoDe b))).filter fun i =>
      (if i = fs.sb.posDe b then v else fs.bitGrupo (fs.sb.grupoDe b) i) = false).card)
    (hgrupo : u16 ((fs.grupo (fs.sb.grupoDe b)).bgFreeBlocksCount + d16) = n)
    (htotal : u32 (fs.sb.sFreeBlocksCount + d32) + (fs.grupo (fs.sb.grupoDe b)).bgFreeBlocksCount
      = fs.sb.sFreeBlocksCount + n) :
    let fs' := contarBloque (escribirBlockBitmap fs (fs.sb.grupoDe b) l) (fs.sb.grupoDe b) d32 d16
    Marca fs fs' b v ∧ Cuentas fs' := by
  intro fs'
  have hpos := hA.posicion hb
  have hviva : 0 < fs.sb.tamGrupo (fs.sb.grupoDe b) := lt_of_le_of_lt (Nat.zero_le _) hpos
  have hbs := lt_of_lt_of_le hbyte (hA.tamArray_le _)
  have hreal := hA.grupo_real hviva
  have hlen : fs.sb.grupoDe b < fs.bgdt.length := hA.descriptores ▸ hreal
  have hcorto : ∀ g, fs.sb.tamGrupo g ≤ 8 * fs.sb.blockSize := fun g =>
    le_trans (Nat.min_le_left _ _) hA.bitmapCabe
  have hm : Mismo fs fs' := mismo_contarBloque hlen
  have htodos : ∀ g' j', 0 < fs.sb.tamGrupo g' → j' / 8 < fs.sb.blockSize → fs'.bitGrupo g' j'
      = if g' = fs.sb.grupoDe b ∧ j' = fs.sb.posDe b then v else fs.bitGrupo g' j' :=
    fun g' j' hg' hj' => bitGrupo_cambia hA hm hviva hbs (funext hd) hf hg' hj'
  have hbits : ∀ g' j', j' < fs.sb.tamGrupo g' → fs'.bitGrupo g' j'
      = if g' = fs.sb.grupoDe b ∧ j' = fs.sb.posDe b then v else fs.bitGrupo g' j' :=
    fun g' j' hj' => htodos g' j' (by omega) (by have := hcorto g'; omega)
  have hcuenta : ∀ g', (fs'.grupo g').bgFreeBlocksCount
      = if g' = fs.sb.grupoDe b then n else (fs.grupo g').bgFreeBlocksCount := by
    intro g'
    have hgr := @grupo_contarBloque (escribirBlockBitmap fs (fs.sb.grupoDe b) l)
      (fs.sb.grupoDe b) d32 d16 hlen g'
    show ((contarBloque _ _ _ _).grupo g').bgFreeBlocksCount = _
    rw [hgr]
    by_cases hg : g' = fs.sb.grupoDe b
    · rw [if_pos hg, if_pos hg, hg]
      exact hgrupo
    · rw [if_neg hg, if_neg hg]
      rfl
  refine ⟨⟨hm, ?_, ?_, ?_⟩, ?_⟩
  · intro c hc
    have hbit : fs'.bitBloque c = fs'.bitGrupo (fs.sb.grupoDe c) (fs.sb.posDe c) := by
      unfold Ext2.bitBloque
      rw [hm.sb]
      rfl
    rw [hbit, hbits _ _ (hA.posicion hc)]
    simp only [posicion_inj hb hc]
    rfl
  · intro g' j' hg' hj' hlt
    rw [htodos g' j' hg' (by omega), if_neg]
    rintro ⟨rfl, rfl⟩
    omega
  · intro o ho
    show (escribirBlockBitmap fs _ l).disco o = _
    rw [hd, if_neg]
    rintro rfl
    exact ho _ hviva (bloque_de hbs)
  · constructor
    · intro g' hg'
      rw [hm.cantGrupos] at hg'
      rw [hm.tamGrupo, hcuenta g']
      by_cases hgg : g' = fs.sb.grupoDe b
      · subst hgg
        rw [if_pos rfl, hn]
        refine congrArg Finset.card (Finset.filter_congr fun i hi => ?_)
        rw [hbits _ i (Finset.mem_range.mp hi)]
        simp only [true_and]
      · rw [if_neg hgg, hC.grupos g' hg']
        refine congrArg Finset.card (Finset.filter_congr fun i hi => ?_)
        rw [hbits g' i (Finset.mem_range.mp hi), if_neg fun h => hgg h.1]
    · have hresto : ∀ g', g' ≠ fs.sb.grupoDe b → (fun i => (fs'.grupo i).bgFreeBlocksCount) g'
          = (fun i => (fs.grupo i).bgFreeBlocksCount) g' := by
        intro g' hne
        show (fs'.grupo g').bgFreeBlocksCount = _
        rw [hcuenta g', if_neg hne]
      have hsum := sum_un_cambio hreal hresto
      have hng : (fs'.grupo (fs.sb.grupoDe b)).bgFreeBlocksCount = n := by
        rw [hcuenta, if_pos rfl]
      have ht := hC.total
      have hsb : fs'.sb.sFreeBlocksCount = u32 (fs.sb.sFreeBlocksCount + d32) := rfl
      simp only [hng] at hsum
      rw [hm.cantGrupos, hsb]
      omega

/-- The free bits a group has before and after one of them is set. -/
theorem libres_set {g j : Nat} (hj : j < fs.sb.tamGrupo g) (hq : fs.bitGrupo g j = false) :
    ((Finset.range (fs.sb.tamGrupo g)).filter fun i =>
        (if i = j then true else fs.bitGrupo g i) = false).card + 1
      = ((Finset.range (fs.sb.tamGrupo g)).filter fun i => fs.bitGrupo g i = false).card :=
  card_libres_set hj hq fun _ _ => rfl

/-- The free bits a group has before and after one of them is cleared. -/
theorem libres_clean {g j : Nat} (hj : j < fs.sb.tamGrupo g) (hq : fs.bitGrupo g j = true) :
    ((Finset.range (fs.sb.tamGrupo g)).filter fun i =>
        (if i = j then false else fs.bitGrupo g i) = false).card
      = ((Finset.range (fs.sb.tamGrupo g)).filter fun i => fs.bitGrupo g i = false).card + 1 := by
  refine (card_libres_set hj (by rw [if_pos rfl]) fun i _ => ?_).symm
  by_cases hij : i = j
  · rw [if_pos hij, hij, hq]
  · rw [if_neg hij, if_neg hij]

end Contar

/-! ## The two operations -/

section Operaciones

variable {fijo : Nat → Prop} {fs : Ext2} {b : Nat}

/-- The rest as the source computes it. -/
theorem mod_eq_sub (n d : Nat) : n - n / d * d = n % d := by
  have := Nat.div_add_mod n d
  rw [Nat.mul_comm] at this
  omega

/-- The bounds of the counters of a block's group and of the volume. -/
theorem Cuentas.cotas (hA : Agrupado fs) (hC : Cuentas fs) (hb : fs.sb.enVolumen b) :
    (fs.grupo (fs.sb.grupoDe b)).bgFreeBlocksCount ≤ fs.sb.sFreeBlocksCount := by
  have hreal := hA.grupo_real (lt_of_le_of_lt (Nat.zero_le _) (hA.posicion hb))
  rw [hC.total]
  exact Finset.single_le_sum (f := fun i => (fs.grupo i).bgFreeBlocksCount)
    (fun _ _ => Nat.zero_le _) (Finset.mem_range.mpr hreal)

/-- A counter that is not zero stands for a clear bit of its group. -/
theorem Cuentas.hay_libre (hC : Cuentas fs) {g : Nat} (hg : g < fs.sb.cantGrupos)
    (hne : (fs.grupo g).bgFreeBlocksCount ≠ 0) :
    ∃ j, j < fs.sb.tamGrupo g ∧ fs.bitGrupo g j = false := by
  rw [hC.grupos g hg, Finset.card_ne_zero] at hne
  obtain ⟨j, hj⟩ := hne
  obtain ⟨hjmem, hjbit⟩ := Finset.mem_filter.mp hj
  exact ⟨j, Finset.mem_range.mp hjmem, hjbit⟩

/-- A clear bit of a group is counted. -/
theorem Cuentas.cuenta_libre (hC : Cuentas fs) {g j : Nat} (hg : g < fs.sb.cantGrupos)
    (hj : j < fs.sb.tamGrupo g) (hlibre : fs.bitGrupo g j = false) :
    (fs.grupo g).bgFreeBlocksCount ≠ 0 := by
  rw [hC.grupos g hg, Finset.card_ne_zero]
  exact ⟨j, Finset.mem_filter.mpr ⟨Finset.mem_range.mpr hj, hlibre⟩⟩

/-- The blocks of a group fit the 16-bit counter. -/
theorem Geometria.tamGrupo_lt (hG : Geometria fijo fs) (g : Nat) : fs.sb.tamGrupo g < 2 ^ 16 :=
  lt_of_le_of_lt (Nat.min_le_left _ _) hG.contador

/-- `Grupos_utilizarBloqueEnBitmap` on a free block of the volume whose bit is
    among the bytes read. -/
theorem Agrupado.utilizarBloqueEnBitmap (hA : Agrupado fs) (hC : Cuentas fs)
    (hb : fs.sb.enVolumen b) (hlibre : fs.bitBloque b = false)
    (hbyte : fs.sb.posDe b / 8 < tamArray (tamBlockBitmap fs.sb (fs.sb.grupoDe b)))
    (hancho : (fs.grupo (fs.sb.grupoDe b)).bgFreeBlocksCount < 2 ^ 16) :
    Marca fs (utilizarBloqueEnBitmap fs b) b true ∧ Cuentas (utilizarBloqueEnBitmap fs b)
      ∧ (utilizarBloqueEnBitmap fs b).sb.sFreeBlocksCount + 1 = fs.sb.sFreeBlocksCount := by
  have hpos := hA.posicion hb
  have hreal := hA.grupo_real (lt_of_le_of_lt (Nat.zero_le _) hpos)
  have hcard := libres_set hpos hlibre
  have hsum := hC.cotas hA hb
  have hgrupo := hC.grupos _ hreal
  have hle := hC.grupo_le hreal
  have htot := hC.total_le
  have hlt := hA.bloques
  have hmenos : menosUno = 2 ^ 32 - 1 := rfl
  have heq : Rfs.utilizarBloqueEnBitmap fs b = contarBloque
      (escribirBlockBitmap fs (fs.sb.grupoDe b)
        (bitarraySetBit (leerBlockBitmap fs (fs.sb.grupoDe b)) (fs.sb.posDe b)))
      (fs.sb.grupoDe b) menosUno (2 ^ 16 - 1) := by
    simp only [Rfs.utilizarBloqueEnBitmap, hA.lugar hb, mod_eq_sub]
    rfl
  have hu32 : u32 (fs.sb.sFreeBlocksCount + menosUno) + 1 = fs.sb.sFreeBlocksCount := by
    unfold u32
    omega
  rw [heq]
  obtain ⟨hmarca, hcuentas⟩ := contarBloque_spec menosUno (2 ^ 16 - 1) hA hC hb hbyte
    (fun o => congrFun (Bytes.escribir_modify _ _ _ hbyte) o)
    (fun c i => bitDe_or c _ i) rfl
    (by unfold u16; omega) (by omega)
  exact ⟨hmarca, hcuentas, hu32⟩

/-- `Grupos_utilizarBloqueEnBitmap` on a free block of the volume. -/
theorem utilizarBloqueEnBitmap_spec (hG : Geometria fijo fs) (hC : Cuentas fs)
    (hb : fs.sb.enVolumen b) (hlibre : fs.bitBloque b = false) :
    Marca fs (utilizarBloqueEnBitmap fs b) b true ∧ Cuentas (utilizarBloqueEnBitmap fs b)
      ∧ (utilizarBloqueEnBitmap fs b).sb.sFreeBlocksCount + 1 = fs.sb.sFreeBlocksCount := by
  have hpos := hG.posicion hb
  have hle := hC.grupo_le (hG.grupo_real (lt_of_le_of_lt (Nat.zero_le _) hpos))
  exact hG.agrupado.utilizarBloqueEnBitmap hC hb hlibre (hG.byte_lt hpos)
    (lt_of_le_of_lt hle (hG.tamGrupo_lt _))

/-- `Grupos_liberarBloqueEnBitmap` on a taken block of the volume. -/
theorem liberarBloqueEnBitmap_spec (hG : Geometria fijo fs) (hC : Cuentas fs)
    (hb : fs.sb.enVolumen b) (hocupado : fs.bitBloque b = true) :
    Marca fs (liberarBloqueEnBitmap fs b) b false ∧ Cuentas (liberarBloqueEnBitmap fs b)
      ∧ (liberarBloqueEnBitmap fs b).sb.sFreeBlocksCount = fs.sb.sFreeBlocksCount + 1 := by
  have hpos := hG.posicion hb
  have hreal := hG.grupo_real (lt_of_le_of_lt (Nat.zero_le _) hpos)
  have hcard := libres_clean hpos hocupado
  have hsum := hC.cotas hG.agrupado hb
  have htam := hG.tamGrupo_lt (fs.sb.grupoDe b)
  have hgrupo := hC.grupos _ hreal
  have hle : (fs.grupo (fs.sb.grupoDe b)).bgFreeBlocksCount + 1
      ≤ fs.sb.tamGrupo (fs.sb.grupoDe b) := by
    rw [hgrupo, ← hcard]
    exact le_trans (Finset.card_filter_le _ _) (by rw [Finset.card_range])
  have htot := hC.total_le
  have hlt := hG.imagen
  have heq : liberarBloqueEnBitmap fs b = contarBloque (escribirBlockBitmap fs (fs.sb.grupoDe b)
      (bitarrayCleanBit (leerBlockBitmap fs (fs.sb.grupoDe b)) (fs.sb.posDe b)))
      (fs.sb.grupoDe b) 1 1 := by
    simp only [liberarBloqueEnBitmap, hG.agrupado.lugar hb, mod_eq_sub]
    rfl
  have hu32 : u32 (fs.sb.sFreeBlocksCount + 1) = fs.sb.sFreeBlocksCount + 1 := by
    have h1 : fs.sb.sBlocksCount * 1024 ≤ fs.sb.sBlocksCount * fs.sb.blockSize :=
      Nat.mul_le_mul_left _ (by
        rw [blockSize_eq]
        have := Nat.two_pow_pos fs.sb.sLogBlockSize
        omega)
    exact u32_eq (by omega)
  rw [heq]
  obtain ⟨hmarca, hcuentas⟩ := contarBloque_spec 1 1 hG.agrupado hC hb (hG.byte_lt hpos)
    (fun o => congrFun (Bytes.escribir_modify _ _ _ (hG.byte_lt hpos)) o)
    (fun c i => bitDe_and_not c _ i) rfl
    (by unfold u16; omega) (by omega)
  exact ⟨hmarca, hcuentas, hu32⟩

/-- A bit of the array read for a group is the bit of the image. -/
theorem testBit_leerBlockBitmap {g j : Nat} (hbyte : j / 8 < tamArray (tamBlockBitmap fs.sb g)) :
    bitarrayTestBit (leerBlockBitmap fs g) j = fs.bitGrupo g j := by
  have hget : (leerBlockBitmap fs g).getD (j / 8) 0
      = fs.disco ((fs.grupo g).bgBlockBitmap * fs.sb.blockSize + j / 8) := by
    simp [leerBlockBitmap, Bytes.leer, List.getD_eq_getElem?_getD, hbyte]
  rw [bitarrayTestBit_eq, hget]
  rfl

/-- A block of the volume from its group and its place. -/
theorem bloque_en {g j : Nat} (hj : j < fs.sb.tamGrupo g) :
    fs.sb.enVolumen (g * fs.sb.sBlocksPerGroup + j + fs.sb.sFirstDataBlock)
      ∧ fs.sb.grupoDe (g * fs.sb.sBlocksPerGroup + j + fs.sb.sFirstDataBlock) = g
      ∧ fs.sb.posDe (g * fs.sb.sBlocksPerGroup + j + fs.sb.sFirstDataBlock) = j := by
  have hlt : j < fs.sb.sBlocksPerGroup := lt_of_lt_of_le hj (Nat.min_le_left _ _)
  have hv : j < fs.sb.sBlocksCount - fs.sb.sFirstDataBlock - g * fs.sb.sBlocksPerGroup :=
    lt_of_lt_of_le hj (Nat.min_le_right _ _)
  refine ⟨⟨Nat.le_add_left _ _, by omega⟩, ?_, ?_⟩
  · rw [Superblock.grupoDe, Nat.add_sub_cancel]
    exact bloque_de hlt
  · rw [Superblock.posDe, Nat.add_sub_cancel, Nat.mul_comm, Nat.mul_add_mod, Nat.mod_eq_of_lt hlt]

/-- The first clear bit of a group, when one of those read is a block's. -/
theorem buscarBloqueLibrePorGrupo_cubierto {g j : Nat} (hj : j < fs.sb.tamGrupo g)
    (hbyte : j / 8 < tamArray (tamBlockBitmap fs.sb g)) (hlibre : fs.bitGrupo g j = false) :
    buscarBloqueLibrePorGrupo fs g < fs.sb.tamGrupo g
      ∧ buscarBloqueLibrePorGrupo fs g / 8 < tamArray (tamBlockBitmap fs.sb g)
      ∧ fs.bitGrupo g (buscarBloqueLibrePorGrupo fs g) = false := by
  have hlen : (leerBlockBitmap fs g).length = tamArray (tamBlockBitmap fs.sb g) :=
    Bytes.length_leer _ _ _
  have hin : j < (leerBlockBitmap fs g).length * 8 := by
    rw [hlen]
    omega
  obtain ⟨pos, hpos, hle, hp⟩ := buscarPosicionLibre_primera hin
    ((testBit_leerBlockBitmap hbyte).trans hlibre)
  have hpbyte : pos / 8 < tamArray (tamBlockBitmap fs.sb g) := by omega
  rw [buscarBloqueLibrePorGrupo, hpos]
  exact ⟨by omega, hpbyte, (testBit_leerBlockBitmap hpbyte).symm.trans hp⟩

/-- The first clear bit of a group with a free block is a block of the volume. -/
theorem buscarBloqueLibrePorGrupo_spec (hG : Geometria fijo fs) (hC : Cuentas fs) {g : Nat}
    (hg : g < fs.sb.cantGrupos) (hne : (fs.grupo g).bgFreeBlocksCount ≠ 0) :
    buscarBloqueLibrePorGrupo fs g < fs.sb.tamGrupo g
      ∧ fs.bitGrupo g (buscarBloqueLibrePorGrupo fs g) = false := by
  obtain ⟨j, hjlt, hjbit⟩ := hC.hay_libre hg hne
  obtain ⟨h1, -, h2⟩ := buscarBloqueLibrePorGrupo_cubierto hjlt (hG.byte_lt hjlt) hjbit
  exact ⟨h1, h2⟩

/-- The block found in the first group with a free block. -/
theorem buscarBloqueLibre_eq {g : Nat} (hf : (List.range fs.sb.cantGrupos).find?
      (fun g => (fs.grupo g).bgFreeBlocksCount != 0) = some g) :
    buscarBloqueLibre fs = u32 (g * fs.sb.sBlocksPerGroup + buscarBloqueLibrePorGrupo fs g
      + fs.sb.sFirstDataBlock) := by
  unfold buscarBloqueLibre
  rw [hf, Option.elim_some]

/-- `Grupos_buscarBloqueLibre` finds a free block of the volume when the
    counters say there is one. -/
theorem buscarBloqueLibre_spec (hG : Geometria fijo fs) (hC : Cuentas fs)
    (hlibres : 0 < fs.sb.sFreeBlocksCount) :
    fs.sb.enVolumen (buscarBloqueLibre fs) ∧ fs.bitBloque (buscarBloqueLibre fs) = false := by
  have hex : ∃ g, g < fs.sb.cantGrupos ∧ (fs.grupo g).bgFreeBlocksCount ≠ 0 := by
    by_contra hno
    refine absurd hlibres (Nat.not_lt.mpr (Nat.le_of_eq ?_))
    rw [hC.total]
    refine Finset.sum_eq_zero fun g hg => ?_
    by_contra hne
    exact hno ⟨g, Finset.mem_range.mp hg, hne⟩
  obtain ⟨g, hf⟩ : ∃ g, (List.range fs.sb.cantGrupos).find?
      (fun g => (fs.grupo g).bgFreeBlocksCount != 0) = some g := by
    obtain ⟨g, hg, hne⟩ := hex
    refine Option.isSome_iff_exists.mp (List.find?_isSome.mpr ⟨g, List.mem_range.mpr hg, ?_⟩)
    simpa using hne
  have hg : g < fs.sb.cantGrupos := List.mem_range.mp (List.mem_of_find?_eq_some hf)
  have hne : (fs.grupo g).bgFreeBlocksCount ≠ 0 := by simpa using List.find?_some hf
  obtain ⟨hplt, hlibre⟩ := buscarBloqueLibrePorGrupo_spec hG hC hg hne
  obtain ⟨hvol, hgde, hpde⟩ := bloque_en hplt
  rw [buscarBloqueLibre_eq hf, u32_eq (lt_trans hvol.2 hG.bloques_lt)]
  refine ⟨hvol, ?_⟩
  rw [Ext2.bitBloque, hgde, hpde, hlibre]

end Operaciones

/-- **TAKING A BLOCK**: with a free block left, `Grupos_pedirBloqueLibre` marks
    a block of the volume that was free and counts it. -/
theorem pedirBloqueLibre_spec {fijo : Nat → Prop} {fs : Ext2} (hG : Geometria fijo fs)
    (hC : Cuentas fs) (hlibres : 0 < fs.sb.sFreeBlocksCount) :
    ∃ fs' b, pedirBloqueLibre fs = (fs', b) ∧ fs.sb.enVolumen b ∧ fs.bitBloque b = false
      ∧ Marca fs fs' b true ∧ Cuentas fs'
      ∧ fs'.sb.sFreeBlocksCount + 1 = fs.sb.sFreeBlocksCount := by
  obtain ⟨hvol, hlibre⟩ := buscarBloqueLibre_spec hG hC hlibres
  obtain ⟨hm, hc, hs⟩ := utilizarBloqueEnBitmap_spec hG hC hvol hlibre
  exact ⟨_, _, rfl, hvol, hlibre, hm, hc, hs⟩

end Rfs
