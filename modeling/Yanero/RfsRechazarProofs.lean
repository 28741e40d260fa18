import Yanero.RfsMirarProofs
import Yanero.RfsMkdirProofs
import Yanero.RfsQuitarProofs

/-! # A request is refused

    CREATE and MKDIR take an inode before they look the path up.  When the
    directory is not there they give it back: its slot keeps the mode that was
    written, and everything else is as it was before, the listings, the links,
    both bitmaps and every counter (`Sistema.sinPadre`).

    The other requests that name something missing change nothing at all. -/

namespace Rfs

open Arborescencia

/-- What a refused request leaves: nothing that a file in use, a bitmap or a
    counter says has changed. -/
structure Devuelta (fijo : Nat → Prop) (fs fs' : Ext2) : Prop where
  consistente : Consistente fijo fs'
  inodos : Inodos fs'
  forma : MismaForma fs fs'
  limpios : Limpios fs'
  intacto : ∀ y, fs.EnUso y → Intacto fs fs' y
  bitInodo : ∀ y, fs.sb.esInodo y → fs'.bitInodo y = fs.bitInodo y
  bitBloque : ∀ b, fs.sb.enVolumen b → fs'.bitBloque b = fs.bitBloque b
  sFreeBlocksCount : fs'.sb.sFreeBlocksCount = fs.sb.sFreeBlocksCount
  sFreeInodesCount : fs'.sb.sFreeInodesCount = fs.sb.sFreeInodesCount
  bgUsedDirsCount : ∀ g, (fs'.grupo g).bgUsedDirsCount = (fs.grupo g).bgUsedDirsCount

section Rechazar

variable {fijo : Nat → Prop} {fs fs₁ fs' : Ext2} {x y modo links : Nat} {p : List (List UInt8)}
  {c path : List UInt8}

/-! ## The names of a request -/

/-- The directory and the name, whether they are there or not. -/
theorem Camino.separar (hc : Camino path p c) : ∃ pathDir,
    separarPath path = some (pathDir, c) ∧ componentes pathDir = p := by
  obtain ⟨corte, nombre, rfl, hno⟩ := cortar_ultima (List.mem_of_head? hc.absoluta)
  have hne : nombre ≠ [] := by
    rintro rfl
    exact hc.sinBarra (by simp)
  have hcomp := hc.partes
  rw [componentes_barra, componentes_nombre hno hne] at hcomp
  obtain ⟨rfl, hnombre⟩ := List.append_inj' hcomp rfl
  obtain rfl := List.singleton_inj.mp hnombre
  exact ⟨dirDeCorte corte, separarPath_corte hno, componentes_dirDeCorte corte⟩

theorem Directa.padre (h : Directa fs (p ++ [c])) : Directa fs p := by
  refine ⟨fun e he => h.sinPuntos e (List.mem_append_left _ he), fun r e resto heq => ?_⟩
  refine h.directorios r e (resto ++ [c]) ?_
  rw [heq, List.append_assoc, List.cons_append]

theorem MismosPasos.refl (fs : Ext2) : MismosPasos fs fs := fun _ _ _ _ => rfl

theorem mismosPasos_de (h : Sistema fijo fs) (hi : ∀ y, fs.EnUso y → Intacto fs fs' y) :
    MismosPasos fs fs' := fun y c hy hd => (hi y hy).pasos h hy hd c

/-! ## The inode that is given back -/

theorem Devuelta.enUso (hd : Devuelta fijo fs fs') : fs'.EnUso = fs.EnUso := by
  funext y
  unfold Ext2.EnUso
  rw [hd.forma.sInodesCount]
  refine propext (and_congr_right fun h1 => and_congr_right fun h2 => ?_)
  rw [hd.bitInodo y ⟨h1, h2⟩]

/-- **TAKEN AND GIVEN BACK**: the bits and the counters are those of before. -/
theorem Asignado.devuelta (ha : Asignado fijo fs x modo links fs₁) (h : Sistema fijo fs) :
    Devuelta fijo fs (liberarInodoEnBitmap fs₁ x) := by
  have hm₁ := ha.forma
  have hx₁ : fs₁.sb.esInodo x := esInodo_forma hm₁ ▸ ha.dentro
  have hcont₁ : fs₁.sb.sInodesPerGroup < 2 ^ 16 := by
    rw [hm₁.sInodesPerGroup]
    exact h.contador
  have hbit₁ : fs₁.bitInodo x = true := by
    rw [ha.bitInodo x ha.dentro, if_pos rfl]
  have hlibre := ha.inodos.liberarInodoEnBitmap hcont₁ hx₁ hbit₁
  obtain ⟨fs₂, hfs₂⟩ : ∃ w, liberarInodoEnBitmap fs₁ x = w := ⟨_, rfl⟩
  rw [hfs₂] at hlibre ⊢
  have hb := hlibre.bit
  have hG₁ := ha.consistente.geometria
  have hslot : ∀ y, fs.sb.esInodo y → (leerInodo fs₂ y).Igual (leerInodo fs₁ y) := fun y hy =>
    hlibre.leerInodo hG₁ ha.inodos hx₁ (esInodo_forma hm₁ ▸ hy)
  have hlimpio : (leerInodo fs₁ x).Limpio :=
    have hl := h.limpios x ha.dentro ha.libre
    ⟨ha.nuevo.iSize.trans hl.1, fun k hk => (ha.nuevo.iBlock k hk).trans (hl.2 k hk)⟩
  have hbits : ∀ y, fs.sb.esInodo y → fs₂.bitInodo y = fs.bitInodo y := by
    intro y hy
    rw [hlibre.bitInodo ha.inodos hx₁ (esInodo_forma hm₁ ▸ hy), ha.bitInodo y hy]
    by_cases hyx : y = x
    · rw [if_pos hyx, hyx, ha.libre]
    · rw [if_neg hyx, if_neg hyx]
  refine ⟨hlibre.consistente ha.consistente ha.inodos hx₁ hlimpio.bloquesDe,
    hb.inodos ha.inodos hcont₁ hx₁ hbit₁, hm₁.trans hlibre.forma, fun y hy hy0 => ?_,
    fun y hy => ?_, hbits, fun b hb' => ?_, ?_, ?_, fun g => ?_⟩
  · have hy₀ : fs.sb.esInodo y := esInodo_forma (hm₁.trans hlibre.forma) ▸ hy
    by_cases hyx : y = x
    · rw [hyx]
      exact hlimpio.igual (hslot x ha.dentro)
    · rw [hbits y hy₀] at hy0
      exact (h.limpios y hy₀ hy0).igual ((hslot y hy₀).trans (ha.otros y hy₀ hyx))
  · have hy₁ : fs₁.EnUso y := by
      rw [ha.enUso]
      exact .inl hy
    exact (ha.intacto y hy).trans (hlibre.intacto ha.consistente ha.inodos hx₁ hy₁)
  · rw [hlibre.bitBloque hG₁ ha.inodos hx₁ (hm₁.enVolumen ▸ hb'), ha.bitBloque b hb']
  · rw [hlibre.sb]
    exact ha.sFreeBlocksCount
  · rw [hlibre.sb]
    exact ha.sFreeInodesCount
  · rw [hb.grupo]
    exact ha.bgUsedDirsCount g

/-! ## What is seen afterwards -/

theorem Devuelta.iMode (hd : Devuelta fijo fs fs') (hy : fs.EnUso y) :
    (leerInodo fs' y).iMode = (leerInodo fs y).iMode :=
  (hd.intacto y hy).igual.iMode

theorem Devuelta.nombres (hd : Devuelta fijo fs fs') (h : Sistema fijo fs) :
    (∀ y, (nombresDe fs').dir y = (nombresDe fs).dir y)
      ∧ (∀ y, (nombresDe fs').reg y = (nombresDe fs).reg y)
      ∧ ∀ y, (nombresDe fs).dir y → (nombresDe fs').ent y = (nombresDe fs).ent y := by
  refine ⟨fun y => ?_, fun y => ?_, fun y hy => ?_⟩
  · rw [Bool.eq_iff_iff, nombresDe_dir, nombresDe_dir, hd.enUso]
    exact and_congr_right fun hu => esDirectorio_igual hd.forma (hd.iMode hu)
  · rw [Bool.eq_iff_iff, nombresDe_reg, nombresDe_reg, hd.enUso]
    exact and_congr_right fun hu => esRegular_igual hd.forma (hd.iMode hu)
  · obtain ⟨huso, hes⟩ := nombresDe_dir.mp hy
    exact (hd.intacto y huso).entradas h huso hes

theorem Devuelta.sistema (hd : Devuelta fijo fs fs') (h : Sistema fijo fs) : Sistema fijo fs' := by
  obtain ⟨hdir, hreg, hent⟩ := hd.nombres h
  refine ⟨hd.consistente, hd.inodos, ?_, ?_, hd.limpios, fun y hy hes => ?_,
    h.nombres.congr hdir hreg hent⟩
  · rw [hd.forma.sInodesPerGroup]
    exact h.contador
  · rw [hd.forma.blockSize]
    exact h.blockSize
  · rw [hd.enUso] at hy
    have hes₀ := (esDirectorio_igual hd.forma (hd.iMode hy)).mp hes
    exact (hd.intacto y hy).sano (h.enImagen hy) (h.sanos y hy hes₀)

/-- **NOTHING** is seen to change. -/
theorem Devuelta.vista (hd : Devuelta fijo fs fs') (h : Sistema fijo fs) :
    Rfs.vista fs' = Rfs.vista fs := by
  obtain ⟨hdir, -, hent⟩ := hd.nombres h
  have handar : ∀ r, andar (nombresDe fs').hijo inodoRaiz r
      = andar (nombresDe fs).hijo inodoRaiz r :=
    andar_congr (fun y c => Nombres.hijo_igual (hdir y) fun hy => by rw [hent y hy]) inodoRaiz
  funext r
  rw [Rfs.vista, handar, Rfs.vista]
  cases hz : andar (nombresDe fs).hijo inodoRaiz r with
  | none => rw [Option.map_none, Option.map_none]
  | some z => rw [Option.map_some, Option.map_some, (hd.intacto z (h.llega hz).1).nodo hd.forma]

/-- Nor does what the cache holds. -/
theorem Devuelta.frescos (hd : Devuelta fijo fs fs') {cache : Cache} (hf : Frescos fs cache) :
    Frescos fs' cache := by
  refine hf.tras fun y hy hreg => ?_
  rw [hd.enUso] at hy
  exact .inr ⟨hy, (esRegular_igual hd.forma (hd.iMode hy)).mp hreg, hd.intacto y hy⟩

/-! ## The requests -/

/-- What both requests do when the directory is not there. -/
theorem procesarCreate_sinPadre {pathDir : List UInt8} (hsep : separarPath path = some (pathDir, c))
    (hasig : asignarInodo fs modoArchivo 1 = (fs₁, some x))
    (hpadre : buscarPath fs₁ pathDir = some 0) :
    procesarCreate fs path = some (liberarInodoEnBitmap fs₁ x, .error) := by
  rw [procesarCreate, hsep, hasig]
  dsimp only [Option.bind_eq_bind, Option.bind_some]
  rw [hpadre]
  rfl

theorem procesarMkdir_sinPadre {pathDir : List UInt8} (hsep : separarPath path = some (pathDir, c))
    (hasig : asignarInodo fs modoDirectorio 2 = (fs₁, some x))
    (hpadre : buscarPath fs₁ pathDir = some 0) :
    procesarMkdir fs path = some (liberarInodoEnBitmap fs₁ x, .error) := by
  rw [procesarMkdir, hsep, hasig]
  dsimp only [Option.bind_eq_bind, Option.bind_some]
  rw [hpadre]
  rfl

/-- The inode is taken, and the directory is not found. -/
theorem Sistema.asignarSinPadre (h : Sistema fijo fs) (hc : Camino path p c) (hq : Directa fs p)
    (hv : vista fs p = none) (hl : fs.HayInodoLibre) (hmodo : modo < 2 ^ 16)
    (hlinks : links < 2 ^ 16) : ∃ pathDir fs₁ x, separarPath path = some (pathDir, c)
      ∧ asignarInodo fs modo links = (fs₁, some x) ∧ buscarPath fs₁ pathDir = some 0
      ∧ Devuelta fijo fs (liberarInodoEnBitmap fs₁ x) := by
  obtain ⟨pathDir, hsep, hcomp⟩ := hc.separar
  obtain ⟨fs₁, x, hasig, ha⟩ := asignarInodo_toma h.consistente h.inodos h.contador h.limpios hl
    hmodo hlinks
  exact ⟨pathDir, fs₁, x, hsep, hasig, h.busca_none (mismosPasos_de h ha.intacto) hcomp hq hv,
    ha.devuelta h⟩

/-- **CREATE AND MKDIR** in a directory that is not there answer the error and
    leave the volume as it was. -/
theorem Sistema.sinPadre (h : Sistema fijo fs) (hc : Camino path p c) (hq : Directa fs p)
    (hv : vista fs p = none) (hl : fs.HayInodoLibre) :
    (∃ fs', procesarCreate fs path = some (fs', .error) ∧ Devuelta fijo fs fs')
      ∧ ∃ fs', procesarMkdir fs path = some (fs', .error) ∧ Devuelta fijo fs fs' := by
  constructor
  · obtain ⟨pathDir, fs₁, x, hsep, hasig, hpadre, hd⟩ := h.asignarSinPadre hc hq hv hl
      (show modoArchivo < 2 ^ 16 by decide) (show 1 < 2 ^ 16 by decide)
    exact ⟨_, procesarCreate_sinPadre hsep hasig hpadre, hd⟩
  · obtain ⟨pathDir, fs₁, x, hsep, hasig, hpadre, hd⟩ := h.asignarSinPadre hc hq hv hl
      (show modoDirectorio < 2 ^ 16 by decide) (show 2 < 2 ^ 16 by decide)
    exact ⟨_, procesarMkdir_sinPadre hsep hasig hpadre, hd⟩

/-- **UNLINK AND RMDIR** of what is not there change nothing. -/
theorem Sistema.quitarAusente (h : Sistema fijo fs) (hc : Camino path p c)
    (hq : Directa fs (p ++ [c])) (hv : vista fs (p ++ [c]) = none) :
    procesarUnlink fs path = some (fs, .error) ∧ procesarRmdir fs path = some (fs, .error) := by
  obtain ⟨pathDir, hsep, hcomp⟩ := hc.separar
  have hpath := h.busca_none (MismosPasos.refl fs) hc.partes hq hv
  have hpadre := h.busca (MismosPasos.refl fs) hcomp hq.padre
  constructor
  · rw [procesarUnlink, hsep, hpath]
    dsimp only [Option.bind_eq_bind, Option.bind_some]
    rw [hpadre]
    rfl
  · rw [procesarRmdir, hsep, hpath]
    dsimp only [Option.bind_eq_bind, Option.bind_some]
    rw [hpadre]
    rfl

end Rechazar

end Rfs
