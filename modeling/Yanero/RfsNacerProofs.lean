import Yanero.RfsVolumen
import Yanero.RfsCacheProofs

/-! # A request makes a file

    `procesarCreate` and `procesarMkdir` take an inode, look the two paths up
    and add the entry.  On a sound volume with a free inode, a directory at the
    parent path that has not the name, and room for the entry, they do so
    without a fault (`Sistema.reservar`), and everything else is as it was
    (`Reservada`).  For CREATE that is all: there is an empty file at the path
    and nothing changed anywhere else (`Sistema.create`). -/

namespace Rfs

open Arborescencia

section Reservar

variable {fijo : Nat → Prop} {fs fs₁ fs₂ fs' : Ext2} {d x y modo links : Nat} {esDir : Bool}
  {p : List (List UInt8)} {c path : List UInt8} {dss : Nat → List Dir}

/-- What a request that makes a file asks of the volume: the parent path leads
    to a directory without the name, and there is an inode and room for the
    entry, in a record or in a block more. -/
structure Creable (fs : Ext2) (path : List UInt8) (p : List (List UInt8)) (c : List UInt8)
    (d : Nat) : Prop where
  camino : Camino path p c
  nombre : NombreBien c
  padre : andar (nombresDe fs).hijo inodoRaiz p = some d
  dir : (nombresDe fs).dir d
  ausente : (nombresDe fs).hijo d c = none
  inodo : fs.HayInodoLibre
  lugar : HayHueco fs d (entradaNueva c 0 0).tamEntrada ∨ HayBloque fs d

/-- A listing that stays is looked up the same. -/
theorem Intacto.pasos (hi : Intacto fs fs' y) (h : Sistema fijo fs) (hy : fs.EnUso y)
    (hd : EsDirectorio fs y) (c : List UInt8) : Rfs.paso fs' y c = Rfs.paso fs y c := by
  obtain ⟨dss, hdss, -⟩ := h.directorio hy hd
  rw [Rfs.paso, Rfs.paso, hi.listar (h.enImagen hy) hdss]

/-- The name is missing, and the lookup says so. -/
theorem Creable.paso (hc : Creable fs path p c d) (h : Sistema fijo fs) :
    Rfs.paso fs d c = some 0 := by
  obtain ⟨huso, hd⟩ := nombresDe_dir.mp hc.dir
  rw [h.paso huso hd]
  by_contra hne
  have hhijo := Nombres.hijo_iff.mpr ⟨hc.dir, hc.nombre.noPunto, rfl,
    fun h0 => hne (congrArg some h0)⟩
  rw [hc.ausente] at hhijo
  cases hhijo

/-- Room for an entry stays with the directory. -/
theorem Intacto.hueco (hi : Intacto fs fs₁ d) (h : Sistema fijo fs) (hd : fs.EnUso d)
    (hdir : EsDirectorio fs d) {tam : Nat} (hh : HayHueco fs d tam) : HayHueco fs₁ d tam := by
  obtain ⟨dss, hdss, -⟩ := h.directorio hd hdir
  have him := h.enImagen hd
  rw [hayHueco_iff him hdss] at hh
  have him' := hi.enImagen him
  have hd' := hi.directorio hdss
  rw [← hi.bloquesDe] at him' hd'
  rw [hayHueco_iff him' hd', hi.bloquesDe]
  exact hh

theorem Intacto.bloquesTotales (hi : Intacto fs fs₁ d) (n : Nat) :
    bloquesTotales fs₁.sb n = bloquesTotales fs.sb n := by
  rw [Rfs.bloquesTotales, Rfs.bloquesTotales, hi.esquema]

/-- So does a block more, with the free blocks. -/
theorem Intacto.hayBloque (hi : Intacto fs fs₁ d)
    (hlibres : fs₁.sb.sFreeBlocksCount = fs.sb.sFreeBlocksCount) (hb : HayBloque fs d) :
    HayBloque fs₁ d := by
  rw [HayBloque] at hb ⊢
  rwa [hi.bloquesDe, hi.bloquesTotales, hi.bloquesTotales, hlibres]

/-- What the request leaves once the entry is added. -/
structure Reservada (fijo : Nat → Prop) (fs : Ext2) (d : Nat) (c : List UInt8) (x modo : Nat)
    (fs' : Ext2) : Prop where
  libre : Libre (nombresDe fs) d c x
  esInodo : fs.sb.esInodo x
  libreBit : fs.bitInodo x = false
  consistente : Consistente fijo fs'
  inodos : Inodos fs'
  forma : MismaForma fs fs'
  enUso : fs'.EnUso = fun y => fs.EnUso y ∨ y = x
  modo : (leerInodo fs' x).iMode = modo
  iMode : (leerInodo fs' d).iMode = (leerInodo fs d).iMode
  slots : ∀ y, fs.sb.esInodo y → y ≠ x → y ≠ d → (leerInodo fs' y).Igual (leerInodo fs y)
  intacto : ∀ y, fs.EnUso y → y ≠ d → Intacto fs fs' y
  gana : Gana (entradas fs d) (entradas fs' d) (c, x)
  sano : DirectorioSano fs' d

/-- What the entry takes of the free blocks: none with room for it, and at most
    one block of the directory. -/
structure Gasto (fs : Ext2) (d : Nat) (c : List UInt8) (fs' : Ext2) : Prop where
  hueco : HayHueco fs d (entradaNueva c 0 0).tamEntrada →
    fs'.sb.sFreeBlocksCount = fs.sb.sFreeBlocksCount
  bloque : fs.sb.sFreeBlocksCount + bloquesTotales fs.sb (fs.bloquesDe d)
    ≤ fs'.sb.sFreeBlocksCount + bloquesTotales fs.sb (fs.bloquesDe d + 1)

/-- **AN INODE AND ITS ENTRY**. -/
theorem Sistema.reservar (h : Sistema fijo fs) (hc : Creable fs path p c d) (hmodo : modo < 2 ^ 16)
    (hlinks : links < 2 ^ 16) : ∃ pathDir fs₁ fs₂ x, separarPath path = some (pathDir, c)
      ∧ asignarInodo fs modo links = (fs₁, some x) ∧ buscarPath fs₁ pathDir = some d ∧ d ≠ 0
      ∧ buscarPath fs₁ path = some 0 ∧ crearNuevaEntrada fs₁ c d x = some (fs₂, true)
      ∧ Reservada fijo fs d c x modo fs₂ ∧ (leerInodo fs₂ x).Limpio ∧ Gasto fs d c fs₂ := by
  obtain ⟨hdu, hdd⟩ := nombresDe_dir.mp hc.dir
  obtain ⟨fs₁, x, hasig, ha⟩ := asignarInodo_toma h.consistente h.inodos h.contador h.limpios
    hc.inodo
    hmodo hlinks
  have hno : ¬ fs.EnUso x := by
    rw [← bitInodo_iff ha.dentro, ha.libre]
    exact Bool.false_ne_true
  have hlibre : Libre (nombresDe fs) d c x := by
    refine ⟨hc.dir, hc.nombre, hc.ausente, ?_, ?_, ?_⟩
    · rw [Bool.eq_false_iff]
      exact fun hx => hno (nombresDe_dir.mp hx).1
    · rw [Bool.eq_false_iff]
      exact fun hx => hno (nombresDe_reg.mp hx).1
    · have := ha.dentro.1
      omega
  have hdx : d ≠ x := hlibre.ne hc.dir
  have hid := ha.intacto d hdu
  -- the lookups of the request
  have hrecto : Recto fs₁ inodoRaiz p d := (h.recto hc.padre).tras h h.raiz.1 fun z hz hzd =>
    ⟨(esDirectorio_igual ha.forma (ha.intacto z hz).igual.iMode).mpr hzd,
      (ha.intacto z hz).pasos h hz hzd⟩
  obtain ⟨pathDir, hsep, -, -, hpadre, hpath⟩ := hc.camino.buscar hrecto
  rw [hid.pasos h hdu hdd, hc.paso h] at hpath
  -- the entry
  have hdu₁ : fs₁.EnUso d := by
    rw [ha.enUso]
    exact .inl hdu
  obtain ⟨dss, hdss, hent⟩ := h.directorio hdu hdd
  have hdss₁ := hid.directorio hdss
  rw [← hid.bloquesDe] at hdss₁
  have hnombra : Nombra c x := by
    have hnum := h.inodos.numeros
    have hmenos : menosUno = 2 ^ 32 - 1 := rfl
    have hx := ha.dentro
    exact ⟨hc.nombre.largo, hx.1, by have := hx.2; omega⟩
  have hmodo₁ : (leerInodo fs₁ d).iMode ≠ 0 := by
    rw [hid.igual.iMode]
    exact hdd.iMode
  have hlugar : HayHueco fs₁ d (entradaNueva c x 0).tamEntrada ∨ HayBloque fs₁ d :=
    hc.lugar.imp (hid.hueco h hdu hdd) (hid.hayBloque ha.sFreeBlocksCount)
  obtain ⟨fs₂, hcrear, hanot⟩ := ha.consistente.anotar hdu₁ hdss₁ hnombra hmodo₁
    (by rw [ha.forma.blockSize]; exact h.blockSize) hlugar
  obtain ⟨hhueco, hbloque⟩ := crearNuevaEntrada_libres ha.consistente hdu₁ hdss₁ hmodo₁ hcrear
  rw [hid.bloquesDe, hid.bloquesTotales, hid.bloquesTotales, ha.sFreeBlocksCount] at hbloque
  obtain ⟨dss', hdss', hgana, him'⟩ := hanot.directorio hdu₁
  have hG₁ := ha.consistente.geometria
  have hes₁ := esInodo_forma ha.forma
  have hnuevo := (hanot.leerInodo hG₁ hdu₁ (hes₁ ▸ ha.dentro) hdx.symm).trans ha.nuevo
  have hlimpio := h.limpios x ha.dentro ha.libre
  refine ⟨pathDir, fs₁, fs₂, x, hsep, hasig, hpadre, by have := hdu.1; omega, hpath, hcrear,
    ⟨hlibre, ha.dentro, ha.libre, hanot.creada.consistente, hanot.inodos hG₁ hdu₁ ha.inodos,
      ha.forma.trans hanot.mismo.forma, ?_, hnuevo.iMode, ?_, ?_, ?_, ?_, hdss'.sano him'⟩,
    ⟨hnuevo.iSize.trans hlimpio.1, fun k hk => (hnuevo.iBlock k hk).trans (hlimpio.2 k hk)⟩,
    ⟨fun hh => (hhueco (hid.hueco h hdu hdd hh)).trans ha.sFreeBlocksCount, hbloque⟩⟩
  · rw [hanot.creada.enUso, ha.enUso]
  · rw [hanot.creada.iMode, hid.igual.iMode]
  · exact fun y hy hyx hyd => (hanot.leerInodo hG₁ hdu₁ (hes₁ ▸ hy) hyd).trans (ha.otros y hy hyx)
  · intro y hy hyd
    have hy₁ : fs₁.EnUso y := by
      rw [ha.enUso]
      exact .inl hy
    exact (ha.intacto y hy).trans (hanot.intacto ha.consistente hdu₁ hy₁ hyd)
  · rw [hent, entradas, hdss'.listar him']
    rwa [hid.bloquesDe] at hgana

/-! ## What is seen afterwards -/

/-- Something new is in the tree, and the rest is as it was. -/
structure Nace (fijo : Nat → Prop) (fs : Ext2) (d : Nat) (c : List UInt8) (x : Nat) (n : Nodo)
    (fs' : Ext2) : Prop where
  sistema : Sistema fijo fs'
  pone : Pone (nombresDe fs).hijo (nombresDe fs').hijo d c x
  hoja : (nombresDe fs).dir x = false
  otros : ∀ y, fs.EnUso y → nodo fs' y = nodo fs y
  nuevo : nodo fs' x = n

/-- **ONE PATH MORE**. -/
theorem Nace.vista {n : Nodo} (hn : Nace fijo fs d c x n fs') (h : Sistema fijo fs)
    (hd : andar (nombresDe fs).hijo inodoRaiz p = some d) (hdir : (nombresDe fs).dir d)
    (hlibre : (nombresDe fs).hijo d c = none) :
    Rfs.vista fs' = Function.update (Rfs.vista fs) (p ++ [c]) (some n) := by
  have hxd : x ≠ d := by
    rintro rfl
    rw [hn.hoja] at hdir
    cases hdir
  funext q
  have hq := hn.pone.andar h.nombres.arbol (Nombres.hijo_hoja hn.hoja) hxd hlibre hd q
  rw [Rfs.vista, hq]
  by_cases hqp : q = p ++ [c]
  · rw [if_pos hqp, hqp, Function.update_self, Option.map_some, hn.nuevo]
  · rw [if_neg hqp, Function.update_of_ne hqp, Rfs.vista]
    cases hz : andar (nombresDe fs).hijo inodoRaiz q with
    | none => rw [Option.map_none, Option.map_none]
    | some z => rw [Option.map_some, Option.map_some, hn.otros z (h.llega hz).1]

/-- A file of size zero has no bytes. -/
theorem nodo_vacio (hno : ¬ EsDirectorio fs x) (hs : (leerInodo fs x).iSize = 0) :
    nodo fs x = .archivo [] := by
  rw [nodo, if_neg hno, hs]
  rfl

theorem Reservada.otros (hr : Reservada fijo fs d c x modo fs') (hy : fs.EnUso y) :
    nodo fs' y = nodo fs y := by
  by_cases hyd : y = d
  · subst hyd
    exact nodo_directorio hr.forma hr.iMode (nombresDe_dir.mp hr.libre.dir).2
  · exact (hr.intacto y hy hyd).nodo hr.forma

theorem Reservada.iMode_otro (hr : Reservada fijo fs d c x modo fs') (hy : fs.EnUso y) :
    (leerInodo fs' y).iMode = (leerInodo fs y).iMode := by
  by_cases hyd : y = d
  · subst hyd
    exact hr.iMode
  · exact (hr.intacto y hy hyd).igual.iMode

theorem Reservada.ne (hr : Reservada fijo fs d c x modo fs') (hy : fs.EnUso y) : y ≠ x := by
  rintro rfl
  rw [← bitInodo_iff hr.esInodo, hr.libreBit] at hy
  cases hy

/-- The inodes that are free afterwards are clean. -/
theorem Reservada.limpios (hr : Reservada fijo fs d c x modo fs') (h : Sistema fijo fs) :
    Limpios fs' := by
  intro y hy hlibre
  have hy₀ : fs.sb.esInodo y := esInodo_forma hr.forma ▸ hy
  have hno : ¬ (fs.EnUso y ∨ y = x) := by
    have huso : ¬ fs'.EnUso y := by
      rw [← bitInodo_iff hy, hlibre]
      exact Bool.false_ne_true
    rwa [hr.enUso] at huso
  have hyd : y ≠ d := by
    rintro rfl
    exact hno (.inl (nombresDe_dir.mp hr.libre.dir).1)
  have hbit : fs.bitInodo y = false := by
    rw [Bool.eq_false_iff]
    exact fun hb => hno (.inl ((bitInodo_iff hy₀).mp hb))
  exact (h.limpios y hy₀ hbit).igual (hr.slots y hy₀ (fun heq => hno (.inr heq)) hyd)

/-- The directories that there were are well formed. -/
theorem Reservada.sanos (hr : Reservada fijo fs d c x modo fs') (h : Sistema fijo fs)
    (hy : fs.EnUso y) (hd : EsDirectorio fs y) : DirectorioSano fs' y := by
  by_cases hyd : y = d
  · subst hyd
    exact hr.sano
  · exact (hr.intacto y hy hyd).sano (h.enImagen hy) (h.sanos y hy hd)

/-- Of the classes of the inodes only that of the new one changes. -/
theorem Reservada.clases (hr : Reservada fijo fs d c x modo fs') (hy : y ≠ x) :
    (nombresDe fs').dir y = (nombresDe fs).dir y
      ∧ (nombresDe fs').reg y = (nombresDe fs).reg y := by
  have huso : fs'.EnUso y ↔ fs.EnUso y := by
    rw [hr.enUso]
    exact or_iff_left hy
  constructor
  · rw [Bool.eq_iff_iff, nombresDe_dir, nombresDe_dir, huso]
    exact and_congr_right fun hu => esDirectorio_igual hr.forma (hr.iMode_otro hu)
  · rw [Bool.eq_iff_iff, nombresDe_reg, nombresDe_reg, huso]
    exact and_congr_right fun hu => esRegular_igual hr.forma (hr.iMode_otro hu)

theorem Reservada.enUso_nuevo (hr : Reservada fijo fs d c x modo fs') : fs'.EnUso x := by
  rw [hr.enUso]
  exact .inr rfl

/-- A new directory lists the dots. -/
structure Puntos (fs : Ext2) (d x : Nat) : Prop where
  lista : ∀ p, p ∈ entradas fs x ↔ p = ([46], x) ∨ p = ([46, 46], d)
  distintos : ((entradas fs x).map nombreDe).Nodup
  sano : DirectorioSano fs x

/-- What the new inode is, by its mode: a directory with the dots, or a file. -/
inductive Clase (fs : Ext2) (d x modo : Nat) : Bool → Prop
  | archivo : modo / 2 ^ 12 = 8 → Clase fs d x modo false
  | directorio : modo / 2 ^ 12 = 4 → Puntos fs d x → Clase fs d x modo true

theorem Reservada.regular (hr : Reservada fijo fs d c x modo fs') (hm : modo / 2 ^ 12 = 8) :
    EsRegular fs' x :=
  ⟨esInodo_forma hr.forma ▸ hr.esInodo, by rw [hr.modo]; exact hm⟩

theorem Reservada.directorio (hr : Reservada fijo fs d c x modo fs') (hm : modo / 2 ^ 12 = 4) :
    EsDirectorio fs' x :=
  ⟨esInodo_forma hr.forma ▸ hr.esInodo, by rw [hr.modo]; exact hm⟩

/-- **SOMETHING NEW** in the tree of names. -/
theorem Reservada.alta (hr : Reservada fijo fs d c x modo fs') (h : Sistema fijo fs)
    (hcl : Clase fs' d x modo esDir) : Alta (nombresDe fs) (nombresDe fs') esDir d c x := by
  have hnuevo := hr.enUso_nuevo
  refine ⟨fun y => ?_, fun y => ?_, fun y hy hyd => ?_, hr.gana, fun he => ?_, fun he => ?_⟩
  · by_cases hyx : y = x
    · rw [if_pos hyx, hyx]
      cases hcl with
      | archivo hm =>
          rw [Bool.eq_false_iff]
          exact fun hd => (hr.regular hm).no_directorio (nombresDe_dir.mp hd).2
      | directorio hm _ => exact nombresDe_dir.mpr ⟨hnuevo, hr.directorio hm⟩
    · rw [if_neg hyx, (hr.clases hyx).1]
  · by_cases hyx : y = x
    · rw [if_pos hyx, hyx]
      cases hcl with
      | archivo hm => exact nombresDe_reg.mpr ⟨hnuevo, hr.regular hm⟩
      | directorio hm _ =>
          refine Bool.eq_false_iff.mpr fun hreg => ?_
          exact (nombresDe_reg.mp hreg).2.no_directorio (hr.directorio hm)
    · rw [if_neg hyx, (hr.clases hyx).2]
  · obtain ⟨huso, hd⟩ := nombresDe_dir.mp hy
    exact (hr.intacto y huso hyd).entradas h huso hd
  · cases hcl with
    | archivo => cases he
    | directorio _ hp => exact hp.lista
  · cases hcl with
    | archivo => cases he
    | directorio _ hp => exact hp.distintos

theorem Reservada.sistema (hr : Reservada fijo fs d c x modo fs') (h : Sistema fijo fs)
    (hcl : Clase fs' d x modo esDir) : Sistema fijo fs' := by
  refine ⟨hr.consistente, hr.inodos, ?_, ?_, hr.limpios h, fun y hy hd => ?_,
    (hr.alta h hcl).bien hr.libre h.nombres⟩
  · rw [hr.forma.sInodesPerGroup]
    exact h.contador
  · rw [hr.forma.blockSize]
    exact h.blockSize
  · rw [hr.enUso] at hy
    rcases hy with hy | rfl
    · exact hr.sanos h hy ((esDirectorio_igual hr.forma (hr.iMode_otro hy)).mp hd)
    · cases hcl with
      | archivo hm => exact absurd hd (hr.regular hm).no_directorio
      | directorio _ hp => exact hp.sano

/-- What is seen of it is new, and nothing else changes. -/
theorem Reservada.nace (hr : Reservada fijo fs d c x modo fs') (h : Sistema fijo fs)
    (hcl : Clase fs' d x modo esDir) : Nace fijo fs d c x (nodo fs' x) fs' :=
  ⟨hr.sistema h hcl, (hr.alta h hcl).pone hr.libre h.nombres, hr.libre.noDir,
    fun _ hy => hr.otros hy, rfl⟩

/-- The cache stays up to date: the entry is in a directory, and a new file has
    no blocks. -/
theorem Reservada.frescos (hr : Reservada fijo fs d c x modo fs')
    (hx : EsRegular fs' x → fs'.bloquesDe x = 0) {cache : Cache} (hf : Frescos fs cache) :
    Frescos fs' cache := by
  refine hf.tras fun y hy hreg => ?_
  rw [hr.enUso] at hy
  rcases hy with hy | rfl
  · have hreg₀ := (esRegular_igual hr.forma (hr.iMode_otro hy)).mp hreg
    have hyd : y ≠ d := by
      rintro rfl
      exact hreg₀.no_directorio (nombresDe_dir.mp hr.libre.dir).2
    exact .inr ⟨hy, hreg₀, hr.intacto y hy hyd⟩
  · exact .inl (hx hreg)

/-- What the request does when it meets no obstacle. -/
theorem procesarCreate_de {pathDir : List UInt8} (hsep : separarPath path = some (pathDir, c))
    (hasig : asignarInodo fs modoArchivo 1 = (fs₁, some x))
    (hpadre : buscarPath fs₁ pathDir = some d) (hd : d ≠ 0) (hpath : buscarPath fs₁ path = some 0)
    (hcrear : crearNuevaEntrada fs₁ c d x = some (fs₂, true)) :
    procesarCreate fs path = some (fs₂, .result 0) := by
  rw [procesarCreate, hsep, hasig]
  dsimp only [Option.bind_eq_bind, Option.bind_some]
  rw [hpadre]
  dsimp only [Option.bind_some]
  rw [if_neg hd, hpath]
  dsimp only [Option.bind_some]
  rw [hcrear]
  dsimp only [Option.bind_some]
  simp [hd]

/-- **CREATE**: the request answers success, and there is an empty file at the
    path and nothing else is new. -/
theorem Sistema.create (h : Sistema fijo fs) (hc : Creable fs path p c d) : ∃ fs',
    procesarCreate fs path = some (fs', .result 0) ∧ Sistema fijo fs'
      ∧ Rfs.vista fs' = Function.update (Rfs.vista fs) (p ++ [c]) (some (.archivo []))
      ∧ ∀ cache, Frescos fs cache → Frescos fs' cache := by
  obtain ⟨pathDir, fs₁, fs₂, x, hsep, hasig, hpadre, hd0, hpath, hcrear, hr, hlimpio, -⟩ :=
    h.reservar hc (show modoArchivo < 2 ^ 16 by decide) (show 1 < 2 ^ 16 by decide)
  have hclase : modoArchivo / 2 ^ 12 = 8 := by decide
  have hn := hr.nace h (.archivo hclase)
  rw [nodo_vacio (hr.regular hclase).no_directorio hlimpio.1] at hn
  exact ⟨fs₂, procesarCreate_de hsep hasig hpadre hd0 hpath hcrear, hn.sistema,
    hn.vista h hc.padre hc.dir hc.ausente, fun _ => hr.frescos fun _ => hlimpio.bloquesDe⟩

end Reservar

end Rfs
