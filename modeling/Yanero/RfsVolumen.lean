import Yanero.RfsEntradasRunProofs
import Yanero.RfsNombres
import Yanero.RfsPedidos

/-! # A whole volume

    A volume is sound when its blocks and inodes are accounted for, its
    directories are well formed, its free inodes are clean and its names make a
    tree (`Sistema`).  What it is for is seen from the paths: `vista` says which
    file or directory is at each one.

    Lookup in the code agrees with the walk in the tree (`Sistema.ruta`), and
    what keeps an inode and its blocks keeps what is seen there. -/

namespace Rfs

open Arborescencia

/-- The pairs of the listing of an inode. -/
@[irreducible] def entradas (fs : Ext2) (d : Nat) : List (List UInt8 × Nat) :=
  ((listar fs d).getD []).map Dir.par

/-- The names of the image. -/
def nombresDe (fs : Ext2) : Nombres where
  dir := fun y => decide (fs.EnUso y ∧ EsDirectorio fs y)
  reg := fun y => decide (fs.EnUso y ∧ EsRegular fs y)
  ent := entradas fs

/-- A sound volume. -/
structure Sistema (fijo : Nat → Prop) (fs : Ext2) : Prop where
  consistente : Consistente fijo fs
  inodos : Inodos fs
  contador : fs.sb.sInodesPerGroup < 2 ^ 16
  blockSize : fs.sb.blockSize < 2 ^ 16
  limpios : Limpios fs
  sanos : ∀ y, fs.EnUso y → EsDirectorio fs y → DirectorioSano fs y
  nombres : (nombresDe fs).Bien

/-- What can be at a path. -/
inductive Nodo where
  | directorio
  | archivo (datos : List UInt8)
deriving DecidableEq

/-- What an inode is. -/
def nodo (fs : Ext2) (x : Nat) : Nodo :=
  if EsDirectorio fs x then .directorio
  else .archivo (contenido fs (leerInodo fs x) 0 (leerInodo fs x).iSize)

/-- What is at a path, given by its components. -/
def vista (fs : Ext2) (q : List (List UInt8)) : Option Nodo :=
  (andar (nombresDe fs).hijo inodoRaiz q).map (nodo fs)

/-- An absolute path to the name `c` in the directory of the components `p`,
    without a slash at the end. -/
structure Camino (path : List UInt8) (p : List (List UInt8)) (c : List UInt8) : Prop where
  absoluta : path.head? = some 47
  sinBarra : path.getLast? ≠ some 47
  partes : componentes path = p ++ [c]

section Volumen

variable {fijo : Nat → Prop} {fs fs' : Ext2} {x y z d : Nat} {p : List (List UInt8)}
  {c path : List UInt8}

/-- The directories of the names. -/
theorem nombresDe_dir : (nombresDe fs).dir y ↔ fs.EnUso y ∧ EsDirectorio fs y := by
  simp [nombresDe]

/-- And the regular files. -/
theorem nombresDe_reg : (nombresDe fs).reg y ↔ fs.EnUso y ∧ EsRegular fs y := by
  simp [nombresDe]

/-- A file in use is in the image. -/
theorem Sistema.enImagen (h : Sistema fijo fs) (hy : fs.EnUso y) :
    EnImagen fs (leerInodo fs y) (fs.bloquesDe y) :=
  (h.consistente.enMano hy).enImagen (rango_bloquesDe fs y)

/-- A directory is a chain of records, and its entries are their pairs. -/
theorem Sistema.directorio (h : Sistema fijo fs) (hy : fs.EnUso y) (hd : EsDirectorio fs y) :
    ∃ dss, Directorio fs (leerInodo fs y) (fs.bloquesDe y) dss
      ∧ entradas fs y = pares (registrosDe (fs.bloquesDe y) dss) := by
  obtain ⟨dss, hdss⟩ := (h.sanos y hy hd).directorio (h.enImagen hy)
  refine ⟨dss, hdss, ?_⟩
  rw [entradas, hdss.listar (h.enImagen hy)]
  rfl

/-- One component of a lookup, in a directory. -/
theorem Sistema.paso (h : Sistema fijo fs) (hy : fs.EnUso y) (hd : EsDirectorio fs y)
    (c : List UInt8) : Rfs.paso fs y c = some (buscarPar (entradas fs y) c) := by
  obtain ⟨dss, hdss, heq⟩ := h.directorio hy hd
  rw [heq, Rfs.paso, hdss.listar (h.enImagen hy), Option.map_some, buscarNombreEnLista_eq]
  rfl

/-- **THE WALK OF THE CODE** is the walk in the tree. -/
theorem Sistema.recto (h : Sistema fijo fs) : ∀ {p : List (List UInt8)} {y : Nat},
    andar (nombresDe fs).hijo y p = some z → Recto fs y p z := by
  intro p
  induction p with
  | nil =>
      intro y hy
      obtain rfl := Option.some.inj hy
      exact .fin y
  | cons c p ih =>
      intro y hy
      obtain ⟨w, hw, hz⟩ := Option.bind_eq_some_iff.mp hy
      obtain ⟨hdir, -, hbus, hne⟩ := Nombres.hijo_iff.mp hw
      obtain ⟨huso, hd⟩ := nombresDe_dir.mp hdir
      have hs := h.paso huso hd c
      rw [show buscarPar (entradas fs y) c = w from hbus] at hs
      exact .paso hd (sigue_de_paso hs hne) (ih hz)

/-- The root is there. -/
theorem Sistema.raiz (h : Sistema fijo fs) : fs.EnUso inodoRaiz ∧ EsDirectorio fs inodoRaiz :=
  nombresDe_dir.mp h.nombres.raiz

/-- An inode that the tree reaches is a directory or a regular file in use. -/
theorem Sistema.llega (h : Sistema fijo fs) (hz : andar (nombresDe fs).hijo inodoRaiz p = some z) :
    fs.EnUso z ∧ (EsDirectorio fs z ∨ EsRegular fs z) := by
  rcases List.eq_nil_or_concat p with rfl | ⟨q, c, rfl⟩
  · obtain rfl := Option.some.inj hz
    exact ⟨h.raiz.1, .inl h.raiz.2⟩
  · rw [List.concat_eq_append, andar_concat] at hz
    obtain ⟨y, -, hc⟩ := Option.bind_eq_some_iff.mp hz
    rcases h.nombres.destino hc with hd | hr
    · exact ⟨(nombresDe_dir.mp hd).1, .inl (nombresDe_dir.mp hd).2⟩
    · exact ⟨(nombresDe_reg.mp hr).1, .inr (nombresDe_reg.mp hr).2⟩

/-- The lookups of a request, once the way to the directory is walked. -/
theorem Camino.buscar (hc : Camino path p c) (hr : Recto fs inodoRaiz p d) : ∃ pathDir,
    separarPath path = some (pathDir, c) ∧ 47 ∉ c ∧ c ≠ [] ∧ buscarPath fs pathDir = some d
      ∧ buscarPath fs path = Rfs.paso fs d c := by
  obtain ⟨corte, nombre, rfl, hno⟩ := cortar_ultima (List.mem_of_head? hc.absoluta)
  have hne : nombre ≠ [] := by
    rintro rfl
    exact hc.sinBarra (by simp)
  have hcomp := hc.partes
  obtain ⟨hd, hbuscar⟩ := hr.buscarDesde (show inodoRaiz ≠ 0 by decide)
  have hx : buscarPath fs (corte ++ 47 :: nombre) = Rfs.paso fs d c := by
    rw [buscarPath, hcomp, hbuscar, buscarDesde_cons hd]
    cases Rfs.paso fs d c <;> rfl
  rw [componentes_barra, componentes_nombre hno hne] at hcomp
  obtain ⟨rfl, hnombre⟩ := List.append_inj' hcomp rfl
  obtain rfl := List.singleton_inj.mp hnombre
  refine ⟨dirDeCorte corte, separarPath_corte hno, hno, hne, ?_, hx⟩
  have hdir := hbuscar []
  rw [List.append_nil] at hdir
  rw [buscarPath, componentes_dirDeCorte, hdir]
  rfl

/-- A walk stays while the directories it goes through list the same. -/
theorem Recto.tras (h : Sistema fijo fs) (hr : Recto fs y p d) (hy : fs.EnUso y)
    (hfs : ∀ z, fs.EnUso z → EsDirectorio fs z → EsDirectorio fs' z ∧ ∀ c,
      Rfs.paso fs' z c = Rfs.paso fs z c) : Recto fs' y p d := by
  induction hr with
  | fin x => exact .fin x
  | @paso y z _ c cs hd hs _ ih =>
      obtain ⟨hd', hpaso⟩ := hfs y hy hd
      refine .paso hd' (sigue_de_paso ((hpaso c).trans hs.paso) hs.ne_cero) (ih ?_)
      have hbus : buscarPar (entradas fs y) c = z :=
        Option.some.inj ((h.paso hy hd c).symm.trans hs.paso)
      obtain ⟨q, hq, -, heq⟩ := mem_de_buscarPar (hbus.symm ▸ hs.ne_cero : _ ≠ 0)
      rcases h.nombres.destinos y (nombresDe_dir.mpr ⟨hy, hd⟩) q hq with hd | hr
      · exact hbus ▸ heq ▸ (nombresDe_dir.mp hd).1
      · exact hbus ▸ heq ▸ (nombresDe_reg.mp hr).1

/-! ## What stays -/

theorem esInodo_forma (hm : MismaForma fs fs') : fs'.sb.esInodo = fs.sb.esInodo := by
  funext y
  rw [Superblock.esInodo, Superblock.esInodo, hm.sInodesCount]

/-- A directory is known by its mode. -/
theorem esDirectorio_igual (hm : MismaForma fs fs')
    (h : (leerInodo fs' y).iMode = (leerInodo fs y).iMode) :
    EsDirectorio fs' y ↔ EsDirectorio fs y := by
  rw [EsDirectorio, EsDirectorio, esInodo_forma hm, h]

theorem esRegular_igual (hm : MismaForma fs fs')
    (h : (leerInodo fs' y).iMode = (leerInodo fs y).iMode) : EsRegular fs' y ↔ EsRegular fs y := by
  rw [EsRegular, EsRegular, esInodo_forma hm, h]

/-- A file that stays is seen as it was. -/
theorem Intacto.nodo (h : Intacto fs fs' y) (hm : MismaForma fs fs') :
    Rfs.nodo fs' y = Rfs.nodo fs y := by
  have hdir := esDirectorio_igual hm h.igual.iMode
  unfold Rfs.nodo
  by_cases hd : EsDirectorio fs y
  · rw [if_pos hd, if_pos (hdir.mpr hd)]
  · rw [if_neg hd, if_neg fun hd' => hd (hdir.mp hd'), h.contenido.2]

/-- A well-formed directory that stays lists its pairs. -/
theorem Intacto.lista (hi : Intacto fs fs' y)
    (him : EnImagen fs (leerInodo fs y) (fs.bloquesDe y)) (hs : DirectorioSano fs y) :
    Rfs.entradas fs' y = Rfs.entradas fs y := by
  obtain ⟨dss, hdss⟩ := hs.directorio him
  rw [Rfs.entradas, Rfs.entradas, hi.listar him hdss]

/-- A directory that was not touched has the same entries. -/
theorem Intacto.entradas (hi : Intacto fs fs' y) (h : Sistema fijo fs) (hy : fs.EnUso y)
    (hd : EsDirectorio fs y) : Rfs.entradas fs' y = Rfs.entradas fs y :=
  hi.lista (h.enImagen hy) (h.sanos y hy hd)

/-- A directory that was one is seen as one. -/
theorem nodo_directorio (hm : MismaForma fs fs')
    (h : (leerInodo fs' y).iMode = (leerInodo fs y).iMode) (hd : EsDirectorio fs y) :
    Rfs.nodo fs' y = Rfs.nodo fs y := by
  unfold Rfs.nodo
  rw [if_pos hd, if_pos ((esDirectorio_igual hm h).mpr hd)]

end Volumen

end Rfs
