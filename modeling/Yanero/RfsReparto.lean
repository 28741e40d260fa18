import Yanero.Arboles
import Yanero.RfsInode
import Yanero.RfsBitmapProofs
import Mathlib.Algebra.BigOperators.Group.Finset.Basic
import Mathlib.Algebra.BigOperators.Intervals

/-! # Who owns which block

    The consistency of an ext2 image: its geometry, the sites of a file in the
    scheme of 12 direct and 3 indirect pointers, the block bitmap of the whole
    volume and the free counters, and `Consistente`, which ties them. -/

namespace Rfs

open Arboles

/-- The block map of a file: pointers `0..11` are direct, `12`, `13` and `14`
    lead through one, two and three levels of pointer blocks. -/
def esquema (sb : Superblock) : Esquema where
  p := sb.cantPunteros
  raices := 15
  nivel := fun k => k - 11

/-- The root and the positions that lead to block `n` of a file. -/
def camino (p n : Nat) : Nat × List Nat :=
  if n < 12 then (n, [])
  else if n - 12 < p then (12, [n - 12])
  else if n - 12 - p < p * p then
    let n := n - 12 - p
    (13, [n / p, n % p])
  else
    let n := n - 12 - p - p * p
    (14, [n / p / p, n / p % p, n % p])

/-- The blocks a group has. -/
def Superblock.tamGrupo (sb : Superblock) (g : Nat) : Nat :=
  min sb.sBlocksPerGroup (sb.sBlocksCount - sb.sFirstDataBlock - g * sb.sBlocksPerGroup)

/-- The block numbers of the volume. -/
def Superblock.enVolumen (sb : Superblock) (b : Nat) : Prop :=
  sb.sFirstDataBlock ≤ b ∧ b < sb.sBlocksCount

instance (sb : Superblock) : DecidablePred sb.enVolumen := fun _ =>
  inferInstanceAs (Decidable (_ ∧ _))

/-- Bit `j` of the block bitmap of a group. -/
def Ext2.bitGrupo (fs : Ext2) (g j : Nat) : Bool :=
  bitDe (fs.disco ((fs.grupo g).bgBlockBitmap * fs.sb.blockSize + j / 8)) j

/-- The group of a block. -/
def Superblock.grupoDe (sb : Superblock) (b : Nat) : Nat :=
  (b - sb.sFirstDataBlock) / sb.sBlocksPerGroup

/-- The place of a block in its group. -/
def Superblock.posDe (sb : Superblock) (b : Nat) : Nat :=
  (b - sb.sFirstDataBlock) % sb.sBlocksPerGroup

/-- The bit of a block in the bitmap of its group. -/
def Ext2.bitBloque (fs : Ext2) (b : Nat) : Bool :=
  fs.bitGrupo (fs.sb.grupoDe b) (fs.sb.posDe b)

/-- The bit of an inode in the inode bitmap of its group. -/
def Ext2.bitInodo (fs : Ext2) (x : Nat) : Bool :=
  bitDe (fs.disco ((fs.grupo ((x - 1) / fs.sb.sInodesPerGroup)).bgInodeBitmap * fs.sb.blockSize
    + (x - 1) % fs.sb.sInodesPerGroup / 8)) ((x - 1) % fs.sb.sInodesPerGroup)

/-- An inode in use. -/
def Ext2.EnUso (fs : Ext2) (x : Nat) : Prop :=
  1 ≤ x ∧ x ≤ fs.sb.sInodesCount ∧ fs.bitInodo x = true

instance (fs : Ext2) : DecidablePred fs.EnUso := fun _ => inferInstanceAs (Decidable (_ ∧ _ ∧ _))

/-- The blocks the file of an inode has. -/
def Ext2.bloquesDe (fs : Ext2) (x : Nat) : Nat :=
  cantBloques fs.sb.blockSize (leerInodo fs x).iSize

/-- The geometry of an ext2 image below 4 GiB.  `fijo` are the metadata blocks:
    at least the block bitmaps, the inode bitmaps, the inode tables and block
    zero.  A group without blocks, which `cantGrupos` counts when the last
    group is full, is asked nothing. -/
structure Geometria (fijo : Nat → Prop) (fs : Ext2) : Prop where
  imagen : fs.sb.sBlocksCount * fs.sb.blockSize < 2 ^ 32
  primerBloque : fs.sb.sFirstDataBlock ≤ 1
  volumen : fs.sb.sFirstDataBlock < fs.sb.sBlocksCount
  porGrupo : 0 < fs.sb.sBlocksPerGroup
  bitmapCabe : fs.sb.sBlocksPerGroup ≤ 8 * fs.sb.blockSize
  contador : fs.sb.sBlocksPerGroup < 2 ^ 16
  cubierto : ∀ g, g < fs.sb.cantGrupos →
    fs.sb.tamGrupo g ≤ 8 * tamArray (tamBlockBitmap fs.sb g)
  descriptores : fs.bgdt.length = fs.sb.cantGrupos
  cero : fs.sb.enVolumen 0 → fijo 0
  bitmapFijo : ∀ g, 0 < fs.sb.tamGrupo g →
    fs.sb.enVolumen (fs.grupo g).bgBlockBitmap ∧ fijo (fs.grupo g).bgBlockBitmap
  bitmapsDistintos : ∀ g g', 0 < fs.sb.tamGrupo g → 0 < fs.sb.tamGrupo g' →
    (fs.grupo g).bgBlockBitmap = (fs.grupo g').bgBlockBitmap → g = g'
  inodosPorGrupo : 0 < fs.sb.sInodesPerGroup ∧ fs.sb.sInodesPerGroup ≤ 8 * fs.sb.blockSize
  inodos : fs.sb.sInodesCount < 2 ^ 32
  inodeBitmap : ∀ g, g * fs.sb.sInodesPerGroup < fs.sb.sInodesCount →
    fijo (fs.grupo g).bgInodeBitmap
      ∧ (∀ g', 0 < fs.sb.tamGrupo g' → (fs.grupo g').bgBlockBitmap ≠ (fs.grupo g).bgInodeBitmap)
      ∧ ∀ g' t, g' * fs.sb.sInodesPerGroup < fs.sb.sInodesCount →
        t * fs.sb.blockSize < fs.sb.sInodesPerGroup * tamanoInodo →
        (fs.grupo g').bgInodeTable + t ≠ (fs.grupo g).bgInodeBitmap
  tabla : ∀ g t, g * fs.sb.sInodesPerGroup < fs.sb.sInodesCount →
    t * fs.sb.blockSize < fs.sb.sInodesPerGroup * tamanoInodo →
    fs.sb.enVolumen ((fs.grupo g).bgInodeTable + t) ∧ fijo ((fs.grupo g).bgInodeTable + t)
      ∧ ∀ g', 0 < fs.sb.tamGrupo g' → (fs.grupo g').bgBlockBitmap ≠ (fs.grupo g).bgInodeTable + t
  tablasDistintas : ∀ g g' t t', g * fs.sb.sInodesPerGroup < fs.sb.sInodesCount →
    g' * fs.sb.sInodesPerGroup < fs.sb.sInodesCount →
    t * fs.sb.blockSize < fs.sb.sInodesPerGroup * tamanoInodo →
    t' * fs.sb.blockSize < fs.sb.sInodesPerGroup * tamanoInodo →
    (fs.grupo g).bgInodeTable + t = (fs.grupo g').bgInodeTable + t' → g = g'

/-- The free counters agree with the bitmaps, group by group. -/
structure Cuentas (fs : Ext2) : Prop where
  grupos : ∀ g, g < fs.sb.cantGrupos → (fs.grupo g).bgFreeBlocksCount
    = ((Finset.range (fs.sb.tamGrupo g)).filter fun j => fs.bitGrupo g j = false).card
  total : fs.sb.sFreeBlocksCount
    = ∑ g ∈ Finset.range fs.sb.cantGrupos, (fs.grupo g).bgFreeBlocksCount

/-- The blocks of the volume are shared by the files in use, given the roots
    and the number of blocks of each. -/
def Ext2.Repartido (fs : Ext2) (fijo : Nat → Prop) (F : Nat → Nat → Nat) (N : Nat → Nat) : Prop :=
  Reparto (esquema fs.sb) (buscarBloque fs) fs.bitBloque fs.sb.enVolumen fijo fs.EnUso F N

/-- A consistent image: every inode in use is dense, no two sites share a
    block, the bitmaps mark the metadata and the owned blocks, and the
    counters count the clear bits. -/
structure Consistente (fijo : Nat → Prop) (fs : Ext2) : Prop where
  geometria : Geometria fijo fs
  cuentas : Cuentas fs
  reparto : fs.Repartido fijo (fun x => (leerInodo fs x).iBlock) fs.bloquesDe

end Rfs
