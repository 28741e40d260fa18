import Yanero.Bloques
import Yanero.RfsDir

/-! # Reading and writing the bytes of a file

    `Dir_leerArchivo` and `Dir_escribirArchivo`, with the block cache of
    `cacheInterface.c`: a read takes each block from the cache or, when it is
    not there, from the image, and a write goes to the image and uploads what
    it reads back.

    A freshly allocated buffer holds what was there before (`basura`); a copy
    that leaves its buffer is undefined and the answer is `none`. -/

namespace Rfs

open Bloques

/-- What the server keeps in memcached: the bytes of a block. -/
abbrev Cache := Nat → Option (List UInt8)

/-- `cache_subir_infoServer`: the length goes in a `uint16_t`. -/
def cacheSubirInfoServer (cache : Cache) (nroBloque : Nat) (payload : List UInt8) : Cache :=
  fun b => if b = nroBloque then some (payload.take (payload.length % 65536)) else cache b

/-! ## Reading -/

/-- The loop of `Dir_leerArchivo`: `cantBloques` blocks from index
    `nroBloque` on, copied to `buffTemp` from block `i` of it on. -/
def leerBloques (fs : Ext2) (inodo : Inode) : Nat → Nat → Nat → Cache → List UInt8 →
    Option (Cache × List UInt8)
  | 0, _, _, cache, buffTemp => some (cache, buffTemp)
  | cantBloques + 1, nroBloque, i, cache, buffTemp => do
      let blockSize := fs.sb.blockSize
      let bloque := leerBloque fs nroBloque inodo
      match cache bloque with
      | none =>
          let leido := Bytes.leer fs.disco (offsetBloque fs bloque 0) blockSize
          let buffTemp ← poner buffTemp (blockSize * i) leido
          leerBloques fs inodo cantBloques (nroBloque + 1) (i + 1)
            (cacheSubirInfoServer cache bloque leido) buffTemp
      | some lectCache =>
          let buffTemp ← poner buffTemp (blockSize * i) (← sacar lectCache 0 blockSize)
          leerBloques fs inodo cantBloques (nroBloque + 1) (i + 1) cache buffTemp

/-- `Dir_leerArchivo`: the number of blocks is that of `size` bytes, wherever
    in its first block the range starts. -/
def leerArchivo (basura : Nat → UInt8) (fs : Ext2) (cache : Cache) (inodo : Inode)
    (offset size : Nat) : Option (Cache × List UInt8) := do
  let blockSize := fs.sb.blockSize
  let buffTemp := malloc basura (u32 (size + blockSize * 2))
  let (cache, buffTemp) ← leerBloques fs inodo (cantBloques blockSize size) (offset / blockSize) 0
    cache buffTemp
  let buffer ← sacar buffTemp (offset % blockSize) size
  some (cache, buffer)

/-! ## Writing -/

/-- `int32_t`. -/
def aInt32 (x : Nat) : Int := if u32 x < 2 ^ 31 then u32 x else (u32 x : Int) - 2 ^ 32

/-- The variables of `Dir_escribirArchivo`: what is left to write and the
    index of the block it goes to. -/
structure Escritura where
  fs : Ext2
  cache : Cache
  nroBloqueComienzo : Nat
  size : Nat
  buf : List UInt8
  cantEscrita : Nat

/-- Write the next `cant` bytes at an offset of the current block, and upload
    `block_size` bytes from there. -/
def Escritura.parte (inodo : Inode) (offset cant : Nat) (e : Escritura) : Escritura :=
  let bloque := leerBloque e.fs e.nroBloqueComienzo inodo
  let o := offsetBloque e.fs bloque offset
  let fs := { e.fs with disco := Bytes.escribir e.fs.disco o (e.buf.take cant) }
  { e with
    fs := fs
    cache := cacheSubirInfoServer e.cache bloque (Bytes.leer fs.disco o fs.sb.blockSize)
    size := e.size - cant
    buf := e.buf.drop cant
    cantEscrita := e.cantEscrita + cant }

/-- `nroBloqueComienzo++`. -/
def Escritura.siguiente (e : Escritura) : Escritura :=
  { e with nroBloqueComienzo := e.nroBloqueComienzo + 1 }

/-- The loop `while(size > block_size)`; every turn writes a whole block. -/
def escribirBloques (inodo : Inode) : Nat → Escritura → Escritura
  | 0, e => e
  | turnos + 1, e =>
      if e.fs.sb.blockSize < e.size then
        escribirBloques inodo turnos (e.siguiente.parte inodo 0 e.fs.sb.blockSize)
      else e

/-- `Dir_escribirArchivo` once the file is large enough: the rest of the first
    block, whole blocks, and what is left, which may be nothing. -/
def escribirRango (fs : Ext2) (cache : Cache) (inodo : Inode) (offset size : Nat)
    (buf : List UInt8) : Escritura :=
  let blockSize := fs.sb.blockSize
  let offsetEnBloqueComienzo := offset % blockSize
  let bytesAEscribirEnBloqueComienzo := blockSize - offset % blockSize
  let e : Escritura := ⟨fs, cache, offset / blockSize, size, buf, 0⟩
  if size < bytesAEscribirEnBloqueComienzo then e.parte inodo offsetEnBloqueComienzo size
  else
    let e := e.parte inodo offsetEnBloqueComienzo bytesAEscribirEnBloqueComienzo
    let e := escribirBloques inodo e.size e
    e.siguiente.parte inodo 0 e.size

/-- `Dir_escribirArchivo`: the image, the cache, the inode in memory and the
    answer. -/
def escribirArchivo (fs : Ext2) (cache : Cache) (inodo : Inode) (offset size : Nat)
    (buf : List UInt8) : Ext2 × Cache × Inode × Int :=
  let (fs, inodo, pudo) :=
    if inodo.iSize < u32 (offset + size) then truncarArriba fs inodo (u32 (offset + size))
    else (fs, inodo, true)
  if pudo then
    let e := escribirRango fs cache inodo offset size buf
    (e.fs, e.cache, inodo, aInt32 e.cantEscrita)
  else (fs, cache, inodo, -1)

end Rfs
