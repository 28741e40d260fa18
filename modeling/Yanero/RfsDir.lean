import Yanero.RfsInode

/-! # Directories

    `Dir.c`: the records of a directory block, its listing, the walk of a path
    from the root, and the insertion and removal of an entry.

    Every loop over a block advances by the `d_rec_len` it reads from the
    image and stops past the end of the block.  A turn that advances does so by
    at least one byte, so a loop that has not ended after `block_size` turns
    stands on a zero length and never ends: that answer is `none`. -/

namespace Rfs

open Palabras

/-- `OFF_NAME`. -/
def offName : Nat := 8

/-- `INODO_RAIZ`. -/
def inodoRaiz : Nat := 2

/-- `Dir`; `dName` is empty where the pointer is `NULL`. -/
structure Dir where
  dInode : Nat
  dRecLen : Nat
  dNameLen : Nat
  dFiletype : Nat
  dName : List UInt8
deriving DecidableEq

/-- `(bloque*block_size)+offset`. -/
def offsetBloque (fs : Ext2) (bloque offset : Nat) : Nat := u32 (bloque * fs.sb.blockSize + offset)

/-- The first `OFF_NAME` bytes of a record. -/
def leerEtiqueta (fs : Ext2) (o : Nat) : Dir where
  dInode := leerPalabra 4 fs.disco o
  dRecLen := leerPalabra 2 fs.disco (o + 4)
  dNameLen := leerPalabra 1 fs.disco (o + 6)
  dFiletype := leerPalabra 1 fs.disco (o + 7)
  dName := []

/-- A record with its name. -/
def leerDir (fs : Ext2) (o : Nat) : Dir :=
  let dir := leerEtiqueta fs o
  { dir with dName := Bytes.leer fs.disco (o + offName) dir.dNameLen }

/-- `serializarDir`. -/
def serializarDir (entrada : Dir) : List UInt8 :=
  bytesDe 4 entrada.dInode ++ bytesDe 2 entrada.dRecLen ++ bytesDe 1 entrada.dNameLen
    ++ bytesDe 1 entrada.dFiletype ++ entrada.dName.take entrada.dNameLen

/-- Write the serialised record at an offset of a block. -/
def escribirDir (fs : Ext2) (bloque offset : Nat) (entrada : Dir) : Ext2 :=
  { fs with
    disco := Bytes.escribir fs.disco (offsetBloque fs bloque offset) (serializarDir entrada) }

/-- What `strcmp` sees of a name. -/
def Dir.nombre (dir : Dir) : List UInt8 := dir.dName.takeWhile (· != 0)

/-! ## Listing -/

/-- The loop over the records of a block, from an offset on. -/
def entradasDesde (fs : Ext2) (bloque : Nat) : Nat → Nat → Option (List Dir)
  | 0, offset => if offset < fs.sb.blockSize then none else some []
  | turnos + 1, offset =>
      if offset < fs.sb.blockSize then
        let dir := leerDir fs (offsetBloque fs bloque offset)
        (entradasDesde fs bloque turnos (u32 (offset + dir.dRecLen))).map (dir :: ·)
      else some []

/-- The records of a block. -/
def entradasBloque (fs : Ext2) (bloque : Nat) : Option (List Dir) :=
  entradasDesde fs bloque fs.sb.blockSize 0

/-- The records of the blocks of an inode. -/
def entradasDe (fs : Ext2) (inodo : Inode) : Option (List Dir) :=
  ((List.range (cantBloques fs.sb.blockSize inodo.iSize)).mapM fun i =>
    entradasBloque fs (leerBloque fs i inodo)).map List.flatten

/-- A record with inode zero is a deleted one. -/
def vigentes (entradas : List Dir) : List Dir := entradas.filter (·.dInode != 0)

/-- `Dir_listar`. -/
def listar (fs : Ext2) (nroInodo : Nat) : Option (List Dir) :=
  (entradasDe fs (leerInodo fs nroInodo)).map vigentes

/-- `Dir_cantDirectorios`. -/
def cantDirectorios (fs : Ext2) (inodo : Inode) : Option Nat :=
  (entradasDe fs inodo).map fun entradas => (vigentes entradas).length

/-! ## Paths -/

/-- The tokens of `strtok_r(path, "/")`. -/
def componentes (path : List UInt8) : List (List UInt8) := (path.splitOn 47).filter (· ≠ [])

/-- `buscarNombreEnLista`: the inode of the first entry with the name, zero
    when there is none. -/
def buscarNombreEnLista (lista : List Dir) (archivo : List UInt8) : Nat :=
  ((lista.find? fun dir => dir.nombre == archivo).map Dir.dInode).getD 0

/-- The loop of `Dir_buscarPath`. -/
def buscarDesde (fs : Ext2) : Nat → List (List UInt8) → Option Nat
  | nroInodo, [] => some nroInodo
  | nroInodo, archivo :: resto =>
      if nroInodo = 0 then some 0
      else do
        let contenidoDir ← listar fs nroInodo
        buscarDesde fs (buscarNombreEnLista contenidoDir archivo) resto

/-- `Dir_buscarPath`. -/
def buscarPath (fs : Ext2) (path : List UInt8) : Option Nat :=
  buscarDesde fs inodoRaiz (componentes path)

/-! ## Entries -/

/-- A length rounded up to a multiple of four. -/
def redondear (n : Nat) : Nat := if n % 4 ≠ 0 then (n / 4 + 1) * 4 else n

/-- `tamEntrada`, the bytes an entry needs. -/
def Dir.tamEntrada (dir : Dir) : Nat := redondear (offName + dir.dNameLen)

/-- The loop of `Dir_crearNuevaEntrada` over a block: the first record with
    room for another one after it, with its offset. -/
def lugarDesde (fs : Ext2) (bloque tamNuevaEntrada : Nat) : Nat → Nat → Option (Option (Nat × Dir))
  | 0, offset => if offset < fs.sb.blockSize then none else some none
  | turnos + 1, offset =>
      if offset < fs.sb.blockSize then
        let entradaDir := leerEtiqueta fs (offsetBloque fs bloque offset)
        if tamNuevaEntrada ≤ resta32 entradaDir.dRecLen entradaDir.tamEntrada then
          some (some (offset, entradaDir))
        else lugarDesde fs bloque tamNuevaEntrada turnos (u32 (offset + entradaDir.dRecLen))
      else some none

/-- The loop over `resta` blocks from index `i` on. -/
def buscarLugar (fs : Ext2) (inodo : Inode) (tamNuevaEntrada i : Nat) :
    Nat → Option (Option (Nat × Nat × Dir))
  | 0 => some none
  | resta + 1 =>
      let bloqueDatos := leerBloque fs i inodo
      match lugarDesde fs bloqueDatos tamNuevaEntrada fs.sb.blockSize 0 with
      | none => none
      | some (some (offset, entradaDir)) => some (some (bloqueDatos, offset, entradaDir))
      | some none => buscarLugar fs inodo tamNuevaEntrada (i + 1) resta

/-- `Dir_crearNuevaEntrada`; `false` is the answer `-1`.  With no room in any
    block the directory grows by one; whether it did is not looked at. -/
def crearNuevaEntrada (fs : Ext2) (nombreArch : List UInt8) (nroInodoDir nroInodoCreado : Nat) :
    Option (Ext2 × Bool) :=
  let blockSize := fs.sb.blockSize
  let nuevaEntrada : Dir := ⟨nroInodoCreado, 0, nombreArch.length % 256, 0, nombreArch⟩
  let inodo := leerInodo fs nroInodoDir
  if inodo.iMode = 0 then some (fs, false)
  else
    let cantBloques := cantBloques blockSize inodo.iSize
    match buscarLugar fs inodo nuevaEntrada.tamEntrada 0 cantBloques with
    | none => none
    | some (some (bloqueDatos, offset, entradaDir)) =>
        let tamEntrada := entradaDir.tamEntrada
        let nuevaEntrada :=
          { nuevaEntrada with dRecLen := u16 (resta32 entradaDir.dRecLen tamEntrada) }
        let fs := escribirDir fs bloqueDatos offset { entradaDir with dRecLen := tamEntrada }
        some (escribirDir fs bloqueDatos (offset + tamEntrada) nuevaEntrada, true)
    | some none =>
        let (fs, inodo, _) := truncarArriba fs inodo (u32 (inodo.iSize + blockSize))
        let fs := escribirInodo fs nroInodoDir inodo
        let bloqueDatos := leerBloque fs cantBloques inodo
        some (escribirDir fs bloqueDatos 0 { nuevaEntrada with dRecLen := u16 blockSize }, true)

/-- The loop of `Dir_borrarEntrada` over a block, from the second record on:
    the record before the one with the inode, its offset, and the one with it. -/
def borrarDesde (fs : Ext2) (bloque nroInodoBorrar : Nat) :
    Nat → Nat → Nat → Dir → Option (Option (Nat × Dir × Nat × Dir))
  | 0, _, offset, _ => if offset < fs.sb.blockSize then none else some none
  | turnos + 1, offsetAnt, offset, entradaDir =>
      if offset < fs.sb.blockSize then
        let entradaDirSgte := leerEtiqueta fs (offsetBloque fs bloque offset)
        if entradaDirSgte.dInode = nroInodoBorrar then
          some (some (offsetAnt, entradaDir, offset, entradaDirSgte))
        else
          borrarDesde fs bloque nroInodoBorrar turnos offset
            (u32 (offset + entradaDirSgte.dRecLen)) entradaDirSgte
      else some none

/-- The loop over `resta` blocks from index `i` on. -/
def borrarEn (fs : Ext2) (inodo : Inode) (nroInodoBorrar i : Nat) : Nat → Option Ext2
  | 0 => some fs
  | resta + 1 =>
      let bloqueDatos := leerBloque fs i inodo
      let entradaDir := leerEtiqueta fs (offsetBloque fs bloqueDatos 0)
      if entradaDir.dInode = nroInodoBorrar then
        some (escribirDir fs bloqueDatos 0 { entradaDir with dInode := 0 })
      else
        match borrarDesde fs bloqueDatos nroInodoBorrar fs.sb.blockSize 0 entradaDir.dRecLen
          entradaDir with
        | none => none
        | some (some (offsetAnt, entradaDir, _, entradaDirSgte)) =>
            -- the predecessor takes the space of the entry
            some (escribirDir fs bloqueDatos offsetAnt
              { entradaDir with dRecLen := u16 (entradaDir.dRecLen + entradaDirSgte.dRecLen) })
        | some none => borrarEn fs inodo nroInodoBorrar (i + 1) resta

/-- `Dir_borrarEntrada`; `false` is the answer `-1`. -/
def borrarEntrada (fs : Ext2) (nroInodoDir nroInodoBorrar : Nat) : Option (Ext2 × Bool) :=
  let inodo := leerInodo fs nroInodoDir
  if inodo.iMode = 0 then some (fs, false)
  else
    (borrarEn fs inodo nroInodoBorrar 0 (cantBloques fs.sb.blockSize inodo.iSize)).map (·, true)

end Rfs
