import Yanero.RfsGrupos

/-! # Inodes and the block map of a file

    `Inode.c`: the inode table, the walk from a block index of a file to a
    block of the image through up to three levels of pointer blocks, the
    assignment and release of one block, the two truncations, and the taking
    of an inode.

    An inode in memory is the record of the fields the server uses; writing it
    back leaves the other bytes of its 128-byte slot as they were read. -/

namespace Rfs

open Palabras

/-- `Inode`; `iBlock k` is `i_block[k]`, `k < 15`. -/
structure Inode where
  iMode : Nat
  iSize : Nat
  iLinksCount : Nat
  iBlock : Nat → Nat

/-- `inodo->i_block[k] = bloque`. -/
def Inode.conBloque (inodo : Inode) (k bloque : Nat) : Inode :=
  { inodo with iBlock := fun j => if j = k then bloque else inodo.iBlock j }

/-- `sizeof(Inode)`. -/
def tamanoInodo : Nat := 128

/-- The offset of an inode on the image. -/
def offsetInodo (fs : Ext2) (nroInodo : Nat) : Nat :=
  let n := resta32 nroInodo 1
  let inicioTablaInodo := u32 ((fs.grupo (n / fs.sb.sInodesPerGroup)).bgInodeTable
    * fs.sb.blockSize)
  u32 (inicioTablaInodo + u32 (n % fs.sb.sInodesPerGroup * tamanoInodo))

/-- `Inode_leerInodo`. -/
def leerInodo (fs : Ext2) (nroInodo : Nat) : Inode :=
  let o := offsetInodo fs nroInodo
  { iMode := leerPalabra 2 fs.disco o
    iSize := leerPalabra 4 fs.disco (o + 4)
    iLinksCount := leerPalabra 2 fs.disco (o + 26)
    iBlock := fun k => leerPalabra 4 fs.disco (o + 40 + 4 * k) }

/-- The bytes of an inode laid over its slot. -/
def inodoEnDisco (disco : Nat → UInt8) (o : Nat) (inodo : Inode) : Nat → UInt8 :=
  let disco := escribirPalabra 2 disco o inodo.iMode
  let disco := escribirPalabra 4 disco (o + 4) inodo.iSize
  let disco := escribirPalabra 2 disco (o + 26) inodo.iLinksCount
  escribirTabla disco (o + 40) inodo.iBlock 15

/-- `Inode_escribirInodo`. -/
def escribirInodo (fs : Ext2) (nroInodo : Nat) (inodo : Inode) : Ext2 :=
  { fs with disco := inodoEnDisco fs.disco (offsetInodo fs nroInodo) inodo }

/-- `cantPunteros`: the pointers that fit in a block. -/
def Superblock.cantPunteros (sb : Superblock) : Nat := sb.blockSize / 4

/-- The offset of pointer `pos` of a block. -/
def offsetPtro (fs : Ext2) (bloque pos : Nat) : Nat := u32 (bloque * fs.sb.blockSize + pos * 4)

/-- `buscarBloque`, and `esCero`, which reads the same word. -/
def buscarBloque (fs : Ext2) (bloque pos : Nat) : Nat :=
  leerPalabra 4 fs.disco (offsetPtro fs bloque pos)

/-- `escribirPtroBloq`. -/
def escribirPtroBloq (fs : Ext2) (bloque pos bloqAbs : Nat) : Ext2 :=
  { fs with disco := escribirPalabra 4 fs.disco (offsetPtro fs bloque pos) bloqAbs }

/-- `escribirCero`. -/
def escribirCero (fs : Ext2) (bloque pos : Nat) : Ext2 := escribirPtroBloq fs bloque pos 0

/-- `inicializarBloqdePtros`. -/
def inicializarBloqdePtros (fs : Ext2) (bloque : Nat) : Ext2 :=
  { fs with
    disco := Bytes.escribir fs.disco (u32 (bloque * fs.sb.blockSize))
      (List.replicate fs.sb.blockSize 0) }

/-- `Inode_leerBloque`; an index past the three levels reads as block zero. -/
def leerBloque (fs : Ext2) (nroBloque : Nat) (inodo : Inode) : Nat :=
  let cantPunteros := fs.sb.cantPunteros
  if nroBloque < 12 then inodo.iBlock nroBloque
  else
    let nroBloque := nroBloque - 12
    if nroBloque < cantPunteros then buscarBloque fs (inodo.iBlock 12) nroBloque
    else
      let nroBloque := nroBloque - cantPunteros
      if nroBloque < u32 (cantPunteros * cantPunteros) then
        buscarBloque fs (buscarBloque fs (inodo.iBlock 13) (nroBloque / cantPunteros))
          (nroBloque % cantPunteros)
      else
        let nroBloque := resta32 nroBloque (u32 (cantPunteros * cantPunteros))
        if nroBloque < u32 (cantPunteros * cantPunteros * cantPunteros) then
          buscarBloque fs
            (buscarBloque fs
              (buscarBloque fs (inodo.iBlock 14) (nroBloque / cantPunteros / cantPunteros))
              (nroBloque / cantPunteros % cantPunteros))
            (nroBloque % cantPunteros)
        else 0

/-- `Inode_liberarBloque`.  A pointer block goes with the first block index it
    leads to: the blocks of a file are released from the last one down. -/
def liberarBloque (fs : Ext2) (nroBloque : Nat) (inodo : Inode) : Ext2 × Inode :=
  let cantPunteros := fs.sb.cantPunteros
  if nroBloque < 12 then
    let bloque1 := inodo.iBlock nroBloque
    (liberarBloqueEnBitmap fs bloque1, inodo.conBloque nroBloque 0)
  else
    let nroBloque := nroBloque - 12
    if nroBloque < cantPunteros then
      let pos := nroBloque
      let bloque1 := inodo.iBlock 12
      let bloque2 := buscarBloque fs bloque1 pos
      let (fs, inodo) :=
        if pos = 0 then (liberarBloqueEnBitmap fs bloque1, inodo.conBloque 12 0)
        else (fs, inodo)
      (liberarBloqueEnBitmap (escribirCero fs bloque1 pos) bloque2, inodo)
    else
      let nroBloque := nroBloque - cantPunteros
      if nroBloque < u32 (cantPunteros * cantPunteros) then
        let pos2 := nroBloque % cantPunteros
        let pos := nroBloque / cantPunteros
        let bloque1 := inodo.iBlock 13
        let bloque2 := buscarBloque fs bloque1 pos
        let bloque3 := buscarBloque fs bloque2 pos2
        let (fs, inodo) :=
          if pos2 = 0 then
            let fs := liberarBloqueEnBitmap (escribirCero fs bloque1 pos) bloque2
            if pos = 0 then (liberarBloqueEnBitmap fs bloque1, inodo.conBloque 13 0)
            else (fs, inodo)
          else (fs, inodo)
        (liberarBloqueEnBitmap (escribirCero fs bloque2 pos2) bloque3, inodo)
      else
        let nroBloque := resta32 nroBloque (u32 (cantPunteros * cantPunteros))
        if nroBloque < u32 (cantPunteros * cantPunteros * cantPunteros) then
          let pos3 := nroBloque % cantPunteros
          let pos2 := nroBloque / cantPunteros % cantPunteros
          let pos := nroBloque / cantPunteros / cantPunteros
          let bloque1 := inodo.iBlock 14
          let bloque2 := buscarBloque fs bloque1 pos
          let bloque3 := buscarBloque fs bloque2 pos2
          let bloque4 := buscarBloque fs bloque3 pos3
          let (fs, inodo) :=
            if pos3 = 0 then
              let fs := liberarBloqueEnBitmap (escribirCero fs bloque2 pos2) bloque3
              if pos2 = 0 then
                let fs := liberarBloqueEnBitmap (escribirCero fs bloque1 pos) bloque2
                if pos = 0 then (liberarBloqueEnBitmap fs bloque1, inodo.conBloque 14 0)
                else (fs, inodo)
              else (fs, inodo)
            else (fs, inodo)
          (liberarBloqueEnBitmap (escribirCero fs bloque3 pos3) bloque4, inodo)
        else (fs, inodo)

/-- `Inode_asignarBloque`; `none` is the answer `-1`, given before anything is
    touched. -/
def asignarBloque (fs : Ext2) (nroBloque : Nat) (inodo : Inode) : Option (Ext2 × Inode) :=
  let cantPunteros := fs.sb.cantPunteros
  if nroBloque < 12 then
    if fs.sb.sFreeBlocksCount < 1 then none
    else
      let (fs, bloque1) := pedirBloqueLibre fs
      some (fs, inodo.conBloque nroBloque bloque1)
  else
    let nroBloque := nroBloque - 12
    if nroBloque < cantPunteros then
      let pos := nroBloque
      if inodo.iBlock 12 = 0 then
        if fs.sb.sFreeBlocksCount < 2 then none
        else
          let (fs, bloque1) := pedirBloqueLibre fs
          let inodo := inodo.conBloque 12 bloque1
          let (fs, bloque2) := pedirBloqueLibre fs
          let fs := inicializarBloqdePtros fs bloque1
          some (escribirPtroBloq fs bloque1 pos bloque2, inodo)
      else
        if fs.sb.sFreeBlocksCount < 1 then none
        else
          let bloque1 := inodo.iBlock 12
          let (fs, bloque2) := pedirBloqueLibre fs
          some (escribirPtroBloq fs bloque1 pos bloque2, inodo)
    else
      let nroBloque := nroBloque - cantPunteros
      if nroBloque < u32 (cantPunteros * cantPunteros) then
        let pos2 := nroBloque % cantPunteros
        let pos := nroBloque / cantPunteros
        if inodo.iBlock 13 = 0 then
          if fs.sb.sFreeBlocksCount < 3 then none
          else
            let (fs, bloque1) := pedirBloqueLibre fs
            let inodo := inodo.conBloque 13 bloque1
            let (fs, bloque2) := pedirBloqueLibre fs
            let (fs, bloque3) := pedirBloqueLibre fs
            let fs := inicializarBloqdePtros fs bloque1
            let fs := inicializarBloqdePtros fs bloque2
            let fs := escribirPtroBloq fs bloque1 pos bloque2
            some (escribirPtroBloq fs bloque2 pos2 bloque3, inodo)
        else
          let bloque1 := inodo.iBlock 13
          if buscarBloque fs bloque1 pos = 0 then
            if fs.sb.sFreeBlocksCount < 2 then none
            else
              let (fs, bloque2) := pedirBloqueLibre fs
              let (fs, bloque3) := pedirBloqueLibre fs
              let fs := inicializarBloqdePtros fs bloque2
              let fs := escribirPtroBloq fs bloque1 pos bloque2
              some (escribirPtroBloq fs bloque2 pos2 bloque3, inodo)
          else
            if fs.sb.sFreeBlocksCount < 1 then none
            else
              let bloque2 := buscarBloque fs bloque1 pos
              let (fs, bloque3) := pedirBloqueLibre fs
              some (escribirPtroBloq fs bloque2 pos2 bloque3, inodo)
      else
        let nroBloque := resta32 nroBloque (u32 (cantPunteros * cantPunteros))
        if nroBloque < u32 (cantPunteros * cantPunteros * cantPunteros) then
          let pos3 := nroBloque % cantPunteros
          let pos2 := nroBloque / cantPunteros % cantPunteros
          let pos := nroBloque / cantPunteros / cantPunteros
          if inodo.iBlock 14 = 0 then
            if fs.sb.sFreeBlocksCount < 4 then none
            else
              let (fs, bloque1) := pedirBloqueLibre fs
              let inodo := inodo.conBloque 14 bloque1
              let (fs, bloque2) := pedirBloqueLibre fs
              let (fs, bloque3) := pedirBloqueLibre fs
              let (fs, bloque4) := pedirBloqueLibre fs
              let fs := inicializarBloqdePtros fs bloque1
              let fs := inicializarBloqdePtros fs bloque2
              let fs := inicializarBloqdePtros fs bloque3
              let fs := escribirPtroBloq fs bloque1 pos bloque2
              let fs := escribirPtroBloq fs bloque2 pos2 bloque3
              some (escribirPtroBloq fs bloque3 pos3 bloque4, inodo)
          else
            let bloque1 := inodo.iBlock 14
            if buscarBloque fs bloque1 pos = 0 then
              if fs.sb.sFreeBlocksCount < 3 then none
              else
                let (fs, bloque2) := pedirBloqueLibre fs
                let (fs, bloque3) := pedirBloqueLibre fs
                let (fs, bloque4) := pedirBloqueLibre fs
                let fs := inicializarBloqdePtros fs bloque2
                let fs := inicializarBloqdePtros fs bloque3
                let fs := escribirPtroBloq fs bloque1 pos bloque2
                let fs := escribirPtroBloq fs bloque2 pos2 bloque3
                some (escribirPtroBloq fs bloque3 pos3 bloque4, inodo)
            else
              let bloque2 := buscarBloque fs bloque1 pos
              if buscarBloque fs bloque2 pos2 = 0 then
                if fs.sb.sFreeBlocksCount < 2 then none
                else
                  let (fs, bloque3) := pedirBloqueLibre fs
                  let (fs, bloque4) := pedirBloqueLibre fs
                  let fs := inicializarBloqdePtros fs bloque3
                  let fs := escribirPtroBloq fs bloque2 pos2 bloque3
                  some (escribirPtroBloq fs bloque3 pos3 bloque4, inodo)
              else
                if fs.sb.sFreeBlocksCount < 1 then none
                else
                  let bloque3 := buscarBloque fs bloque2 pos2
                  -- the pointer at `pos3` is not tested, it is taken to be zero
                  let (fs, bloque4) := pedirBloqueLibre fs
                  some (escribirPtroBloq fs bloque3 pos3 bloque4, inodo)
        else some (fs, inodo)

/-- The blocks `tam` bytes take. -/
def cantBloques (blockSize tam : Nat) : Nat :=
  if 0 < tam % blockSize then tam / blockSize + 1 else tam / blockSize

/-- The loop of `Inode_truncarAbajo`: release blocks from index `i - 1` down
    to index `hasta`. -/
def liberarHasta (hasta : Nat) : Nat → Ext2 → Inode → Ext2 × Inode
  | 0, fs, inodo => (fs, inodo)
  | i + 1, fs, inodo =>
      if hasta < i + 1 then
        let (fs, inodo) := liberarBloque fs i inodo
        liberarHasta hasta i fs inodo
      else (fs, inodo)

/-- `Inode_truncarAbajo`. -/
def truncarAbajo (fs : Ext2) (inodo : Inode) (nuevoTam : Nat) : Ext2 × Inode :=
  let blockSize := fs.sb.blockSize
  let (fs, inodo) :=
    liberarHasta (cantBloques blockSize nuevoTam) (cantBloques blockSize inodo.iSize) fs inodo
  (fs, { inodo with iSize := nuevoTam })

/-- The loop of `Inode_truncarArriba`: assign `resta` blocks from index `i`
    on.  The third component is the index that got no block, if one did not. -/
def asignarDesde (i : Nat) : Nat → Ext2 → Inode → Ext2 × Inode × Option Nat
  | 0, fs, inodo => (fs, inodo, none)
  | resta + 1, fs, inodo =>
      match asignarBloque fs i inodo with
      | none => (fs, inodo, some i)
      | some (fs, inodo) => asignarDesde (i + 1) resta fs inodo

/-- `Inode_truncarArriba`; `false` is the answer `-1`.  A failed growth
    releases what it had assigned by truncating down to the old size. -/
def truncarArriba (fs : Ext2) (inodo : Inode) (nuevoTam : Nat) : Ext2 × Inode × Bool :=
  let blockSize := fs.sb.blockSize
  let desde := cantBloques blockSize inodo.iSize
  match asignarDesde desde (cantBloques blockSize nuevoTam - desde) fs inodo with
  | (fs, inodo, some i) =>
      let tamanioAnterior := inodo.iSize
      let inodo := { inodo with iSize := u32 (i * blockSize) }
      let (fs, inodo) := truncarAbajo fs inodo tamanioAnterior
      (fs, inodo, false)
  | (fs, inodo, none) => (fs, { inodo with iSize := nuevoTam }, true)

/-! ## Taking an inode -/

/-- `Inode_buscarLibrePorGrupo`. -/
def buscarInodoPorGrupo (fs : Ext2) (nroGrupo : Nat) : Nat :=
  bitarrayBuscarPosicionLibre (leerInodeBitmap fs nroGrupo)

/-- `Inode_buscarLibre`: the first clear bit of the first group whose counter
    is not zero, `-1` when there is none. -/
def buscarInodo (fs : Ext2) : Nat :=
  ((List.range fs.sb.cantGrupos).find? fun g => (fs.grupo g).bgFreeInodesCount != 0).elim menosUno
    fun nroGrupo =>
      u32 (nroGrupo * fs.sb.sInodesPerGroup + 1 + buscarInodoPorGrupo fs nroGrupo)

/-- `Inode_pedirInodoLibre`: the inode found is marked even when it is `-1`. -/
def pedirInodoLibre (fs : Ext2) : Ext2 × Nat :=
  let inodoADevolver := buscarInodo fs
  (utilizarInodoEnBitmap fs inodoADevolver, inodoADevolver)

/-- `Inode_asignarInodo`; `none` is the answer `-1`. -/
def asignarInodo (fs : Ext2) (mode links : Nat) : Ext2 × Option Nat :=
  let (fs, nroInodo) := pedirInodoLibre fs
  if nroInodo = menosUno then (fs, none)
  else
    let inodo := { leerInodo fs nroInodo with iLinksCount := links, iMode := mode }
    (escribirInodo fs nroInodo inodo, some nroInodo)

end Rfs
