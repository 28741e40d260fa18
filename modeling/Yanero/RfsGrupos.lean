import Yanero.Palabras

/-! # The ext2 image: superblock, groups and bitmaps

    The data model of `Superblock.h` and `Grupos.h`, the bit arrays of
    `commons/bitarray.c` and the routines of `Grupos.c` over the two bitmaps.

    The image is a flat byte map.  The server reads the superblock and the
    group descriptors once and keeps them in memory, so they are records here;
    the bitmaps, the inode tables and every other block live on the image.
    Numbers are naturals with the width of the C type made explicit wherever a
    routine can leave it; `fseek` takes offsets of a 64-bit `long`. -/

namespace Rfs

open Palabras

/-- `uint32_t` arithmetic. -/
def u32 (x : Nat) : Nat := x % 2 ^ 32

/-- `uint16_t` arithmetic. -/
def u16 (x : Nat) : Nat := x % 2 ^ 16

/-- `a - b` on `uint32_t`. -/
def resta32 (a b : Nat) : Nat := u32 (a + 2 ^ 32 - b)

/-- `-1` read as `uint32_t`. -/
def menosUno : Nat := 2 ^ 32 - 1

/-- `Superblock`, the fields the server looks at. -/
structure Superblock where
  sInodesCount : Nat
  sBlocksCount : Nat
  sFreeBlocksCount : Nat
  sFreeInodesCount : Nat
  sFirstDataBlock : Nat
  sLogBlockSize : Nat
  sBlocksPerGroup : Nat
  sInodesPerGroup : Nat
deriving DecidableEq

/-- `Group_descriptor`, the fields the server looks at. -/
structure GroupDescriptor where
  bgBlockBitmap : Nat := 0
  bgInodeBitmap : Nat := 0
  bgInodeTable : Nat := 0
  bgFreeBlocksCount : Nat := 0
  bgFreeInodesCount : Nat := 0
  bgUsedDirsCount : Nat := 0
deriving DecidableEq

/-- The open image: its bytes and the two tables kept in memory. -/
structure Ext2 where
  disco : Nat → UInt8
  sb : Superblock
  bgdt : List GroupDescriptor

/-- `1024 << sb.s_log_block_size`. -/
def Superblock.blockSize (sb : Superblock) : Nat := 1024 <<< sb.sLogBlockSize

/-- `1 + (s_blocks_count - s_first_data_block) / s_blocks_per_group`. -/
def Superblock.cantGrupos (sb : Superblock) : Nat :=
  u32 (1 + resta32 sb.sBlocksCount sb.sFirstDataBlock / sb.sBlocksPerGroup)

/-- `tabla[nroGrupo]`. -/
def Ext2.grupo (fs : Ext2) (nroGrupo : Nat) : GroupDescriptor := fs.bgdt.getD nroGrupo {}

/-- Update the descriptor of one group. -/
def Ext2.conGrupo (fs : Ext2) (nroGrupo : Nat) (f : GroupDescriptor → GroupDescriptor) : Ext2 :=
  { fs with bgdt := fs.bgdt.modify nroGrupo f }

/-! ## Bit arrays -/

/-- `BIT_IN_CHAR`. -/
def bitInChar (bit : Nat) : UInt8 := UInt8.ofNat (0x80 >>> (8 - 1 - bit % 8))

/-- `bitarray_test_bit`; the byte past the array reads as zero. -/
def bitarrayTestBit (self : List UInt8) (bitIndex : Nat) : Bool :=
  (self.getD (bitIndex / 8) 0 &&& bitInChar bitIndex) != 0

/-- `bitarray_set_bit`. -/
def bitarraySetBit (self : List UInt8) (bitIndex : Nat) : List UInt8 :=
  self.modify (bitIndex / 8) (· ||| bitInChar bitIndex)

/-- `bitarray_clean_bit`. -/
def bitarrayCleanBit (self : List UInt8) (bitIndex : Nat) : List UInt8 :=
  self.modify (bitIndex / 8) (· &&& ~~~ bitInChar bitIndex)

/-- `bitarray_buscarPosicionLibre`: the first clear bit, `-1` when the array
    is full.  The callers keep the result in a `uint32_t`. -/
def bitarrayBuscarPosicionLibre (self : List UInt8) : Nat :=
  ((List.range (self.length * 8)).find? fun pos => !bitarrayTestBit self pos).getD menosUno

/-! ## The two bitmaps of a group -/

/-- The bytes an array of `tam` bits takes: the rounding looks at the number
    of bytes, not at the number of bits. -/
def tamArray (tam : Nat) : Nat := if 0 < tam / 8 % 8 then tam / 8 + 1 else tam / 8

/-- The bits of the block bitmap of a group; the last one takes what is left. -/
def tamBlockBitmap (sb : Superblock) (nroGrupo : Nat) : Nat :=
  if nroGrupo = sb.cantGrupos - 1 then
    resta32 sb.sBlocksCount (u32 ((sb.cantGrupos - 1) * sb.sBlocksPerGroup))
  else sb.sBlocksPerGroup

/-- `Grupos_leerBlockBitmap`. -/
def leerBlockBitmap (fs : Ext2) (nroGrupo : Nat) : List UInt8 :=
  Bytes.leer fs.disco ((fs.grupo nroGrupo).bgBlockBitmap * fs.sb.blockSize)
    (tamArray (tamBlockBitmap fs.sb nroGrupo))

/-- `Grupos_escribirBlockBitmap`. -/
def escribirBlockBitmap (fs : Ext2) (nroGrupo : Nat) (blockBitmap : List UInt8) : Ext2 :=
  { fs with
    disco := Bytes.escribir fs.disco ((fs.grupo nroGrupo).bgBlockBitmap * fs.sb.blockSize)
      blockBitmap }

/-- `Grupos_leerInodeBitmap`. -/
def leerInodeBitmap (fs : Ext2) (nroGrupo : Nat) : List UInt8 :=
  Bytes.leer fs.disco ((fs.grupo nroGrupo).bgInodeBitmap * fs.sb.blockSize)
    (tamArray fs.sb.sInodesPerGroup)

/-- `Grupos_escribirInodeBitmap`. -/
def escribirInodeBitmap (fs : Ext2) (nroGrupo : Nat) (inodeBitmap : List UInt8) : Ext2 :=
  { fs with
    disco := Bytes.escribir fs.disco ((fs.grupo nroGrupo).bgInodeBitmap * fs.sb.blockSize)
      inodeBitmap }

/-- `sb->s_free_blocks_count += d` and the same on the group, `d` being `1`
    or `-1` of the counter's width. -/
def contarBloque (fs : Ext2) (nroGrupo d32 d16 : Nat) : Ext2 :=
  { fs with
    sb := { fs.sb with sFreeBlocksCount := u32 (fs.sb.sFreeBlocksCount + d32) } }.conGrupo nroGrupo
      fun g => { g with bgFreeBlocksCount := u16 (g.bgFreeBlocksCount + d16) }

/-- The same on the inode counters. -/
def contarInodo (fs : Ext2) (nroGrupo d32 d16 : Nat) : Ext2 :=
  { fs with
    sb := { fs.sb with sFreeInodesCount := u32 (fs.sb.sFreeInodesCount + d32) } }.conGrupo nroGrupo
      fun g => { g with bgFreeInodesCount := u16 (g.bgFreeInodesCount + d16) }

/-- `Grupos_liberarBloqueEnBitmap`. -/
def liberarBloqueEnBitmap (fs : Ext2) (nroBloque : Nat) : Ext2 :=
  let nroBloque := resta32 nroBloque fs.sb.sFirstDataBlock
  let nroGrupo := nroBloque / fs.sb.sBlocksPerGroup
  let blockBitmap := bitarrayCleanBit (leerBlockBitmap fs nroGrupo)
    (nroBloque - nroGrupo * fs.sb.sBlocksPerGroup)
  contarBloque (escribirBlockBitmap fs nroGrupo blockBitmap) nroGrupo 1 1

/-- `Grupos_utilizarBloqueEnBitmap`. -/
def utilizarBloqueEnBitmap (fs : Ext2) (nroBloque : Nat) : Ext2 :=
  let nroBloque := resta32 nroBloque fs.sb.sFirstDataBlock
  let nroGrupo := nroBloque / fs.sb.sBlocksPerGroup
  let blockBitmap := bitarraySetBit (leerBlockBitmap fs nroGrupo)
    (nroBloque - nroGrupo * fs.sb.sBlocksPerGroup)
  contarBloque (escribirBlockBitmap fs nroGrupo blockBitmap) nroGrupo menosUno (2 ^ 16 - 1)

/-- `Grupos_liberarInodoEnBitmap`. -/
def liberarInodoEnBitmap (fs : Ext2) (nroInodo : Nat) : Ext2 :=
  let nroInodo := resta32 nroInodo 1
  let nroGrupo := nroInodo / fs.sb.sInodesPerGroup
  let inodeBitmap := bitarrayCleanBit (leerInodeBitmap fs nroGrupo)
    (nroInodo - nroGrupo * fs.sb.sInodesPerGroup)
  contarInodo (escribirInodeBitmap fs nroGrupo inodeBitmap) nroGrupo 1 1

/-- `Grupos_utilizarInodoEnBitmap`: inodes are numbered from one. -/
def utilizarInodoEnBitmap (fs : Ext2) (nroInodo : Nat) : Ext2 :=
  let nroInodo := resta32 nroInodo 1
  let nroGrupo := nroInodo / fs.sb.sInodesPerGroup
  let inodeBitmap := bitarraySetBit (leerInodeBitmap fs nroGrupo)
    (nroInodo - nroGrupo * fs.sb.sInodesPerGroup)
  contarInodo (escribirInodeBitmap fs nroGrupo inodeBitmap) nroGrupo menosUno (2 ^ 16 - 1)

/-- `Grupos_buscarBloqueLibrePorGrupo`. -/
def buscarBloqueLibrePorGrupo (fs : Ext2) (nroGrupo : Nat) : Nat :=
  bitarrayBuscarPosicionLibre (leerBlockBitmap fs nroGrupo)

/-- `Grupos_buscarBloqueLibre`: the first clear bit of the first group whose
    counter is not zero, `-1` when there is none. -/
def buscarBloqueLibre (fs : Ext2) : Nat :=
  ((List.range fs.sb.cantGrupos).find? fun g => (fs.grupo g).bgFreeBlocksCount != 0).elim menosUno
    fun nroGrupo =>
      u32 (nroGrupo * fs.sb.sBlocksPerGroup + buscarBloqueLibrePorGrupo fs nroGrupo
        + fs.sb.sFirstDataBlock)

/-- `Grupos_pedirBloqueLibre`: the block found is marked even when it is `-1`. -/
def pedirBloqueLibre (fs : Ext2) : Ext2 × Nat :=
  let bloqueADevolver := buscarBloqueLibre fs
  (utilizarBloqueEnBitmap fs bloqueADevolver, bloqueADevolver)

end Rfs
