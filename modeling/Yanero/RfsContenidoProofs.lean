import Yanero.RfsTruncarProofs
import Yanero.RfsArchivo

/-! # The bytes of a file

    Byte `i` of a file is byte `i % block_size` of the block that its map leads
    to at index `i / block_size` (`byteDe`).  The map is the scheme's: the
    pointer at the end of the positions of the index (`hojaDe`), which is what
    `Inode_leerBloque` computes on an image below 4 GiB. -/

namespace Rfs

open Arboles Bloques

/-- The block at an index of a file. -/
def hojaDe (fs : Ext2) (inodo : Inode) (n : Nat) : Nat :=
  nodo (buscarBloque fs) inodo.iBlock (camino fs.sb.cantPunteros n).1
    (camino fs.sb.cantPunteros n).2

/-- A byte of a file. -/
def byteDe (fs : Ext2) (inodo : Inode) (i : Nat) : UInt8 :=
  fs.disco (hojaDe fs inodo (i / fs.sb.blockSize) * fs.sb.blockSize + i % fs.sb.blockSize)

/-- The bytes of a file from `a` on, up to `b`. -/
def contenido (fs : Ext2) (inodo : Inode) (a b : Nat) : List UInt8 :=
  (List.range' a (b - a)).map (byteDe fs inodo)

/-- A dense file: no pointer of the blocks of its size is zero, and they are
    blocks of the volume. -/
def Denso (fs : Ext2) (inodo : Inode) : Prop :=
  ∀ n, n < cantBloques fs.sb.blockSize inodo.iSize →
    hojaDe fs inodo n ≠ 0 ∧ fs.sb.enVolumen (hojaDe fs inodo n)

section Contenido

variable {fs : Ext2} {inodo : Inode} {n a b c : Nat}

/-- The positions of an index are the ones the source computes. -/
theorem caminoBloque_camino {sb : Superblock} (hn : n * sb.blockSize < 2 ^ 32) :
    caminoBloque sb n = some (camino sb.cantPunteros n) := by
  unfold caminoBloque camino
  dsimp only
  by_cases h1 : n < 12
  · rw [if_pos h1, if_pos h1]
  rw [if_neg h1, if_neg h1]
  by_cases h2 : n - 12 < sb.cantPunteros
  · rw [if_pos h2, if_pos h2]
  rw [if_neg h2, if_neg h2]
  obtain ⟨hpp, hresto⟩ := anchos hn (by omega) (by omega)
  rw [hpp]
  by_cases h3 : n - 12 - sb.cantPunteros < sb.cantPunteros * sb.cantPunteros
  · rw [if_pos h3, if_pos h3]
  obtain ⟨hres, hlt⟩ := hresto (by omega)
  rw [if_neg h3, if_neg h3, hres, if_pos hlt]

/-- `Inode_leerBloque` leads to the block of the map. -/
theorem leerBloque_hoja (hn : n * fs.sb.blockSize < 2 ^ 32) :
    leerBloque fs n inodo = hojaDe fs inodo n := by
  rw [leerBloque_eq, caminoBloque_camino hn]
  rfl

@[simp] theorem length_contenido (fs : Ext2) (inodo : Inode) (a b : Nat) :
    (contenido fs inodo a b).length = b - a := by
  simp [contenido]

theorem getElem?_contenido {i : Nat} (hi : i < b - a) :
    (contenido fs inodo a b)[i]? = some (byteDe fs inodo (a + i)) := by
  simp [contenido, hi]

theorem contenido_append (hab : a ≤ b) (hbc : b ≤ c) :
    contenido fs inodo a b ++ contenido fs inodo b c = contenido fs inodo a c := by
  obtain ⟨m, rfl⟩ := Nat.exists_eq_add_of_le hab
  obtain ⟨k, rfl⟩ := Nat.exists_eq_add_of_le hbc
  rw [contenido, contenido, contenido, ← List.map_append, Nat.add_sub_cancel_left,
    Nat.add_sub_cancel_left, Nat.add_assoc a m k, Nat.add_sub_cancel_left, List.range'_append_1]

/-- A range of the file cut out of a larger one. -/
theorem sacar_contenido {d : Nat} (hab : a ≤ b) (hbc : b ≤ c) (hcd : c ≤ d) :
    ((contenido fs inodo a d).drop (b - a)).take (c - b) = contenido fs inodo b c := by
  rw [← contenido_append hab (Nat.le_trans hbc hcd), List.drop_left' (length_contenido ..),
    ← contenido_append hbc hcd, List.take_left' (length_contenido ..)]

/-- A whole block of the file. -/
theorem leer_hoja (fs : Ext2) (inodo : Inode) (n : Nat) :
    Bytes.leer fs.disco (hojaDe fs inodo n * fs.sb.blockSize) fs.sb.blockSize
      = contenido fs inodo (n * fs.sb.blockSize) ((n + 1) * fs.sb.blockSize) := by
  have hlen : (n + 1) * fs.sb.blockSize - n * fs.sb.blockSize = fs.sb.blockSize := by
    rw [Nat.succ_mul, Nat.add_sub_cancel_left]
  rw [contenido, hlen, Bytes.leer, List.range_eq_range', List.range'_eq_map_range (s := n * _),
    List.map_map, ← List.range_eq_range']
  refine List.map_congr_left fun i hi => ?_
  have hi' := List.mem_range.mp hi
  have hdiv : (n * fs.sb.blockSize + i) / fs.sb.blockSize = n := bloque_de hi'
  have hmod : (n * fs.sb.blockSize + i) % fs.sb.blockSize = i := by
    rw [Nat.mul_comm, Nat.mul_add_mod, Nat.mod_eq_of_lt hi']
  rw [Function.comp_apply, byteDe, hdiv, hmod]

end Contenido

end Rfs
