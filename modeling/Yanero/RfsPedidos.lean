import Yanero.RfsSerial
import Yanero.RfsArchivo

/-! # The requests of the server

    The handlers of `Rfs.c`: what each one does to the image and what it
    answers.  The monitors that order the requests are left to `sincro.c`, and
    the copies of the superblock and of the group table that a handler writes
    back are the records themselves. -/

namespace Rfs

open Bloques

/-- What a handler sends: the error frame of `procesarError`, a result code,
    the count of a write, or the packet of a read. -/
inductive Respuesta where
  | error
  | result (respuesta : Int)
  | write (cantEscrita : Int)
  | read (paquete : List UInt8)
deriving DecidableEq

/-- `S_IFREG | 0444`. -/
def modoArchivo : Nat := 0x8000 + 0o444

/-- `S_IFDIR | 0755`. -/
def modoDirectorio : Nat := 0x4000 + 0o755

/-- `ENOENT`. -/
def enoent : Int := 2

/-- `ENOSPC`. -/
def enospc : Int := 28

/-- `ENOTEMPTY`. -/
def enotempty : Int := 39

/-- `separarPath`: what stands before the last slash and after it.  Without a
    slash the scan leaves the string. -/
def separarPath (path : List UInt8) : Option (List UInt8 × List UInt8) :=
  (path.reverse.findIdx? (· == 47)).map fun k =>
    let i := path.length - 1 - k
    (if i = 0 then [47] else path.take i, path.drop (i + 1))

/-! ## Reading, writing and truncating -/

/-- `serializar_Read_Rta` and the `sockets_send` after it: the length of the
    payload is a `uint16_t`, the number of bytes sent is not. -/
def enviarRead (basura : Nat → UInt8) (size : Nat) (buf : List UInt8) : Option (List UInt8) := do
  let payload ← sacar buf 0 (size % 65536)
  let paquete ← Fsc.serializarNipc basura ⟨Fsc.tipoRead, size % 65536, payload⟩
  sacar paquete 0 (u32 (size + 3))

/-- `procesarRead`; `offset` and `size` are the `uint32_t` they are compared as. -/
def procesarRead (basura : Nat → UInt8) (fs : Ext2) (cache : Cache) (path : List UInt8)
    (offset size : Nat) : Option (Cache × Respuesta) := do
  let nroInodo ← buscarPath fs path
  if nroInodo = 0 then some (cache, .error)
  else
    let inodo := leerInodo fs nroInodo
    let size := if inodo.iSize < u32 (offset + size) then resta32 inodo.iSize offset else size
    let (cache, buffread) ← leerArchivo basura fs cache inodo offset size
    let paquete ← enviarRead basura size buffread
    some (cache, .read paquete)

/-- `procesarWrite`. -/
def procesarWrite (fs : Ext2) (cache : Cache) (path : List UInt8) (offset size : Nat)
    (buf : List UInt8) : Option (Ext2 × Cache × Respuesta) := do
  let nroInodo ← buscarPath fs path
  if nroInodo = 0 then some (fs, cache, .error)
  else
    let inodo := leerInodo fs nroInodo
    let truncate := inodo.iSize < u32 (offset + size)
    let (fs, cache, inodo, cantEscrita) := escribirArchivo fs cache inodo offset size buf
    let fs := if cantEscrita ≠ -1 ∧ truncate then escribirInodo fs nroInodo inodo else fs
    some (fs, cache, .write (if cantEscrita = -1 then -enospc else cantEscrita))

/-- The body of `procesarTruncate`; the inode is written back when there was
    no error. -/
def truncarInodo (fs : Ext2) (nroInodo offset : Nat) : Ext2 × Bool :=
  let inodo := leerInodo fs nroInodo
  let (fs, inodo, pudo) :=
    if inodo.iSize < offset then truncarArriba fs inodo offset else (fs, inodo, true)
  let (fs, inodo) := if offset < inodo.iSize then truncarAbajo fs inodo offset else (fs, inodo)
  (if pudo then escribirInodo fs nroInodo inodo else fs, pudo)

/-- `procesarTruncate`. -/
def procesarTruncate (fs : Ext2) (path : List UInt8) (offset : Nat) :
    Option (Ext2 × Respuesta) := do
  let nroInodo ← buscarPath fs path
  if nroInodo = 0 then some (fs, .error)
  else
    let (fs, pudo) := truncarInodo fs nroInodo offset
    some (fs, .result (if pudo then 0 else -1))

/-! ## Creating -/

/-- `procesarCreate`: the inode is taken first and given back when the path
    cannot be created. -/
def procesarCreate (fs : Ext2) (path : List UInt8) : Option (Ext2 × Respuesta) := do
  let (pathDir, nombreArch) ← separarPath path
  match asignarInodo fs modoArchivo 1 with
  | (fs, none) => some (fs, .result (-enospc))
  | (fs, some nroInodoCreado) => do
      let nroInodoDir ← buscarPath fs pathDir
      let (fs, error) ←
        if nroInodoDir = 0 then some (fs, 0)
        else do
          let existe ← buscarPath fs path
          let error := if existe ≠ 0 then 0 else nroInodoDir
          -- the entry is added whether or not the path exists
          let (fs, pudo) ← crearNuevaEntrada fs nombreArch nroInodoDir nroInodoCreado
          some (fs, if pudo = false ∧ error ≠ 0 then 0 else error)
      if error = 0 then some (liberarInodoEnBitmap fs nroInodoCreado, .error)
      else some (fs, .result 0)

/-- `bg_used_dirs_count += d` on a group. -/
def contarDirectorio (fs : Ext2) (nroGrupo d16 : Nat) : Ext2 :=
  fs.conGrupo nroGrupo fun g => { g with bgUsedDirsCount := u16 (g.bgUsedDirsCount + d16) }

/-- The entries `.` and `..` of a new directory, and the link of its parent. -/
def iniciarDirectorio (fs : Ext2) (nroInodoDir nroInodoCreado : Nat) : Option Ext2 := do
  let (fs, _) ← crearNuevaEntrada fs [46] nroInodoCreado nroInodoCreado
  let (fs, _) ← crearNuevaEntrada fs [46, 46] nroInodoCreado nroInodoDir
  let inodo := leerInodo fs nroInodoDir
  let fs := escribirInodo fs nroInodoDir { inodo with iLinksCount := u16 (inodo.iLinksCount + 1) }
  some (contarDirectorio fs (nroInodoDir / fs.sb.sInodesPerGroup) 1)

/-- `procesarMkdir`. -/
def procesarMkdir (fs : Ext2) (path : List UInt8) : Option (Ext2 × Respuesta) := do
  let (pathDir, nombreArch) ← separarPath path
  match asignarInodo fs modoDirectorio 2 with
  | (fs, none) => some (fs, .result (-enospc))
  | (fs, some nroInodoCreado) => do
      let nroInodoDir ← buscarPath fs pathDir
      let (fs, error) ←
        if nroInodoDir = 0 then some (fs, 0)
        else do
          let existe ← buscarPath fs path
          let error := if existe ≠ 0 then 0 else nroInodoDir
          let (fs, pudo) ← crearNuevaEntrada fs nombreArch nroInodoDir nroInodoCreado
          if pudo = false ∧ error ≠ 0 then some (fs, 0)
          else do
            -- also when the path exists
            let fs ← iniciarDirectorio fs nroInodoDir nroInodoCreado
            some (fs, error)
      if error = 0 then some (liberarInodoEnBitmap fs nroInodoCreado, .error)
      else some (fs, .result 0)

/-! ## Removing -/

/-- Empty an inode and give it back. -/
def soltarInodo (fs : Ext2) (nroInodo : Nat) (inodo : Inode) : Ext2 :=
  let (fs, inodo) := truncarAbajo fs inodo 0
  let fs := liberarInodoEnBitmap fs nroInodo
  escribirInodo fs nroInodo { inodo with iLinksCount := 0, iMode := 0 }

/-- `procesarUnlink`. -/
def procesarUnlink (fs : Ext2) (path : List UInt8) : Option (Ext2 × Respuesta) := do
  let (pathDir, _) ← separarPath path
  let nroInodoArch ← buscarPath fs path
  let nroInodoDir ← buscarPath fs pathDir
  if nroInodoArch ≠ 0 ∧ nroInodoDir ≠ 0 then
    let inodo := leerInodo fs nroInodoArch
    if inodo.iMode ≠ 0 then do
      let (fs, _) ← borrarEntrada fs nroInodoDir nroInodoArch
      some (soltarInodo fs nroInodoArch inodo, .result 0)
    else some (fs, .error)
  else some (fs, .error)

/-- `procesarRmdir`: the directory goes when it has two entries. -/
def procesarRmdir (fs : Ext2) (path : List UInt8) : Option (Ext2 × Respuesta) := do
  let (pathDir, _) ← separarPath path
  let nroInodoArch ← buscarPath fs path
  let nroInodoDir ← buscarPath fs pathDir
  if nroInodoArch ≠ 0 ∧ nroInodoDir ≠ 0 then do
    let inodo := leerInodo fs nroInodoArch
    let cant ← cantDirectorios fs inodo
    if cant = 2 then do
      let (fs, _) ← borrarEntrada fs nroInodoDir nroInodoArch
      let fs := soltarInodo fs nroInodoArch inodo
      let inodoDir := leerInodo fs nroInodoDir
      let fs := escribirInodo fs nroInodoDir
        { inodoDir with iLinksCount := u16 (inodoDir.iLinksCount + (2 ^ 16 - 1)) }
      some (contarDirectorio fs (nroInodoArch / fs.sb.sInodesPerGroup) (2 ^ 16 - 1), .result 0)
    else some (fs, .result (if inodo.iMode = 0 then -enoent else -enotempty))
  else some (fs, .error)

end Rfs
