import Yanero.RfsEnlacesProofs

/-! # A request makes a directory

    `procesarMkdir` takes an inode and adds the entry as CREATE does, and then
    gives the new directory its two dots.  The first of them fills the first
    block, so the second is split from it.  On a sound volume with blocks for
    this there is an empty directory at the path, and nothing else is new
    (`Sistema.mkdir`). -/

namespace Rfs

open Arborescencia Arboles Palabras Tramos

section Mkdir

variable {fijo : Nat → Prop} {fs fs₁ fs' : Ext2} {d x y n modo nroInodo : Nat}
  {p : List (List UInt8)} {c path nombreArch : List UInt8} {dss : Nat → List Dir}
  {q : List UInt8 × Nat}

/-! ## What the later steps keep -/

theorem Anotada.alterada (h : Anotada fijo fs x dss q fs') (hC : Consistente fijo fs)
    (hI : Inodos fs) (hx : fs.EnUso x) : Alterada fijo fs x fs' :=
  ⟨h.creada.consistente, h.inodos hC.geometria hx hI, h.mismo.forma, h.creada.enUso,
    h.creada.iMode, fun _ hy hne => h.leerInodo hC.geometria hx hy hne,
    fun _ hy hne => h.intacto hC hx hy hne⟩

/-- Work on the new inode keeps what the request had done. -/
theorem Reservada.alterada (hr : Reservada fijo fs d c x modo fs₁) (ha : Alterada fijo fs₁ x fs') :
    Reservada fijo fs d c x modo fs' := by
  have hd := (nombresDe_dir.mp hr.libre.dir).1
  have hdx : d ≠ x := hr.libre.ne hr.libre.dir
  have huso : ∀ y, fs.EnUso y → fs₁.EnUso y := fun y hy => by
    rw [hr.enUso]
    exact .inl hy
  have hid := ha.intacto d (huso d hd) hdx
  have him := (hr.consistente.enMano (huso d hd)).enImagen (rango_bloquesDe fs₁ d)
  refine ⟨hr.libre, hr.esInodo, hr.libreBit, ha.consistente, ha.inodos, hr.forma.trans ha.forma,
    ha.enUso.trans hr.enUso, ha.iMode.trans hr.modo, hid.igual.iMode.trans hr.iMode,
    fun y hy hyx hyd => ?_, fun y hy hyd => ?_, ?_, hid.sano him hr.sano⟩
  · have hy₁ : fs₁.sb.esInodo y := by
      rw [esInodo_forma hr.forma]
      exact hy
    exact (ha.slots y hy₁ hyx).trans (hr.slots y hy hyx hyd)
  · exact (hr.intacto y hy hyd).trans (ha.intacto y (huso y hy) (hr.ne hy))
  · rw [hid.lista him hr.sano]
    exact hr.gana

/-- So does the link of the parent. -/
theorem Reservada.enlazada (hr : Reservada fijo fs d c x modo fs₁) (he : Enlazada fijo fs₁ d fs') :
    Reservada fijo fs d c x modo fs' := by
  have ha := he.alterada
  have hd := (nombresDe_dir.mp hr.libre.dir).1
  have hdx : d ≠ x := hr.libre.ne hr.libre.dir
  have huso : ∀ y, fs.EnUso y → fs₁.EnUso y := fun y hy => by
    rw [hr.enUso]
    exact .inl hy
  have hes := esInodo_forma hr.forma
  obtain ⟨hsano, hlista⟩ := he.lista hr.consistente (huso d hd) hr.sano
  refine ⟨hr.libre, hr.esInodo, hr.libreBit, ha.consistente, ha.inodos, hr.forma.trans ha.forma,
    ha.enUso.trans hr.enUso, ?_, he.iMode.trans hr.iMode, fun y hy hyx hyd => ?_,
    fun y hy hyd => (hr.intacto y hy hyd).trans (ha.intacto y (huso y hy) hyd), ?_, hsano⟩
  · rw [(ha.slots x (hes ▸ hr.esInodo) hdx.symm).iMode, hr.modo]
  · exact (ha.slots y (hes ▸ hy) hyd).trans (hr.slots y hy hyx hyd)
  · rw [hlista]
    exact hr.gana

/-! ## The two dots -/

/-- **THE FIRST ENTRY** of a directory without blocks fills its first one. -/
theorem Consistente.primera (h : Consistente fijo fs) (hx : fs.EnUso x)
    (hl : (leerInodo fs x).Limpio) (hmodo : (leerInodo fs x).iMode ≠ 0)
    (hbs : fs.sb.blockSize < 2 ^ 16) (hp : Nombra nombreArch nroInodo) (hhay : HayBloque fs x) :
    ∃ fs', crearNuevaEntrada fs nombreArch x nroInodo = some (fs', true)
      ∧ Anotada fijo fs x (fun _ => []) (nombreArch, nroInodo) fs' ∧ fs'.bloquesDe x = 1
      ∧ Directorio fs' (leerInodo fs' x) 1
        (fun _ => [entradaNueva nombreArch nroInodo fs.sb.blockSize]) := by
  have h0 := hl.bloquesDe
  have hd : Directorio fs (leerInodo fs x) (fs.bloquesDe x) (fun _ => []) := by
    rw [h0]
    exact ⟨by rw [hl.1, Nat.zero_mul], fun i hi => absurd hi (Nat.not_lt_zero i)⟩
  rcases crearNuevaEntrada_casos h hx hd hp hmodo with
    ⟨⟨i, hi, -⟩, -⟩ | ⟨-, -, fs₁, inodo₁, hcrece, heq⟩ | ⟨-, hno, -⟩
  · rw [h0] at hi
    exact absurd hi (Nat.not_lt_zero i)
  · obtain ⟨fs', hfs⟩ : ∃ w, escribirDir fs₁ (leerBloque fs₁ (fs.bloquesDe x) inodo₁) 0
      (entradaNueva nombreArch nroInodo (u16 fs.sb.blockSize)) = w := ⟨_, rfl⟩
    rw [hfs] at heq
    have hcreada := hcrece.crear hx hd hp hbs hfs
    have hrec : u16 fs.sb.blockSize = fs.sb.blockSize := Nat.mod_eq_of_lt hbs
    rw [hrec, h0] at hfs
    rw [h0] at hcrece
    have hcabe := @Nombra.cabe nombreArch nroInodo hp fs.sb.blockSize hbs
    have hbs1024 := blockSize_eq fs.sb
    have hpot := Nat.two_pow_pos fs.sb.sLogBlockSize
    have hnl := hp.largo_lt fs.sb.blockSize
    have hser := hcabe.length_serializar
    have hoff : offName = 8 := rfl
    have hpuesto := hcrece.poner hx (entradaNueva nombreArch nroInodo fs.sb.blockSize) (by omega)
    rw [hfs] at hpuesto
    obtain ⟨-, higual, -⟩ := (hcrece.enMano hx).deHojas hcrece.rango hcrece.bloquesDe hpuesto.solo
    have hm := hcrece.mismo.trans hpuesto.solo.mismo
    have htam : (leerInodo fs' x).iSize = 1 * fs'.sb.blockSize := by
      rw [higual.iSize, hcrece.igual.iSize, hcrece.iSize, hm.blockSize]
    refine ⟨fs', heq, ⟨hcreada, crearNuevaEntrada_mismo h hx hd heq⟩, ?_,
      Directorio.igual ⟨?_, fun i hi => ?_⟩ higual⟩
    · rw [Ext2.bloquesDe, htam, cantBloques_mul (blockSize_pos fs'.sb)]
    · rw [← higual.iSize, htam]
    · obtain rfl : i = 0 := by omega
      rw [hm.blockSize]
      refine Tramo.congr ?_ fun b _ h2 => hpuesto.bytes b (by rwa [hcrece.mismo.blockSize])
      have hbien : Dir.Bien (entradaNueva nombreArch nroInodo fs.sb.blockSize) := by
        refine ⟨?_, ?_⟩
        · show 4 ∣ fs.sb.blockSize
          omega
        · show redondear (offName + (entradaNueva nombreArch nroInodo fs.sb.blockSize).dNameLen)
            ≤ fs.sb.blockSize
          have := redondear_lt (offName
            + (entradaNueva nombreArch nroInodo fs.sb.blockSize).dNameLen)
          omega
      exact tramo_uno (F := formatoDir) (dirDe_serializar _ _ hcabe) hbien (Nat.succ_mul ..).symm
  · exact absurd hhay hno

/-- The dots are put in the new directory. -/
theorem Reservada.puntos (hr : Reservada fijo fs d c x modo fs₁) (hbs : fs.sb.blockSize < 2 ^ 16)
    (hm : modo ≠ 0) (hl : (leerInodo fs₁ x).Limpio) (hhay : HayBloque fs₁ x) : ∃ fs₂ fs',
      crearNuevaEntrada fs₁ [46] x x = some (fs₂, true)
      ∧ crearNuevaEntrada fs₂ [46, 46] x d = some (fs', true)
      ∧ Reservada fijo fs d c x modo fs' ∧ Puntos fs' d x := by
  have hx₁ := hr.enUso_nuevo
  have hbs₁ : fs₁.sb.blockSize < 2 ^ 16 := by
    rw [hr.forma.blockSize]
    exact hbs
  have hd := (nombresDe_dir.mp hr.libre.dir).1
  have hancho : ∀ y, fs.sb.esInodo y → 0 < y ∧ y < 2 ^ 32 := fun y hy => by
    have hnum := hr.inodos.numeros
    rw [hr.forma.sInodesCount] at hnum
    have hmenos : menosUno = 2 ^ 32 - 1 := rfl
    have := hy.2
    exact ⟨hy.1, by omega⟩
  obtain ⟨hx0, hx32⟩ := hancho x hr.esInodo
  obtain ⟨hd0, hd32⟩ := hancho d ⟨hd.1, hd.2.1⟩
  -- the first dot
  have hmodo : ∀ {w}, Reservada fijo fs d c x modo w → (leerInodo w x).iMode ≠ 0 := fun hw => by
    rw [hw.modo]
    exact hm
  obtain ⟨fs₂, heq₂, ha₂, hn₂, hd₂⟩ := hr.consistente.primera hx₁ hl (hmodo hr) hbs₁
    (show Nombra [46] x from ⟨by decide, hx0, hx32⟩) hhay
  have hr₂ := hr.alterada (ha₂.alterada hr.consistente hr.inodos hx₁)
  have hx₂ := hr₂.enUso_nuevo
  rw [← hn₂] at hd₂
  have him₂ := (hr₂.consistente.enMano hx₂).enImagen (rango_bloquesDe fs₂ x)
  have hhueco : HayHueco fs₂ x (entradaNueva [46, 46] d 0).tamEntrada := by
    rw [hayHueco_iff him₂ hd₂]
    refine ⟨0, by omega, _, List.mem_singleton_self _, ?_⟩
    have hbs1024 := blockSize_eq fs₁.sb
    have hpot := Nat.two_pow_pos fs₁.sb.sLogBlockSize
    have h1 : (entradaNueva [46] x fs₁.sb.blockSize).tamEntrada = 12 := by
      show redondear (offName + 1) = 12
      decide
    have h2 : (entradaNueva [46, 46] d 0).tamEntrada = 12 := by
      show redondear (offName + 2) = 12
      decide
    rw [Hueco, h1, h2]
    show 12 + 12 ≤ fs₁.sb.blockSize
    omega
  -- the second one
  have hbs₂ : fs₂.sb.blockSize < 2 ^ 16 := by
    rw [hr₂.forma.blockSize]
    exact hbs
  obtain ⟨fs', heq, ha⟩ := hr₂.consistente.anotar hx₂ hd₂
    (show Nombra [46, 46] d from ⟨by decide, hd0, hd32⟩) (hmodo hr₂) hbs₂ (.inl hhueco)
  have hr' := hr₂.alterada (ha.alterada hr₂.consistente hr₂.inodos hx₂)
  obtain ⟨dss', hd', hgana, him'⟩ := ha.directorio hx₂
  have huno : pares (registrosDe (fs₂.bloquesDe x)
      fun _ => [entradaNueva [46] x fs₁.sb.blockSize]) = [([46], x)] := by
    rw [hn₂]
    show pares [entradaNueva [46] x fs₁.sb.blockSize] = _
    rw [pares_cons, if_neg (by show x ≠ 0; omega)]
    rfl
  rw [huno] at hgana
  refine ⟨fs₂, fs', heq₂, heq, hr', fun r => ?_, ?_, hd'.sano him'⟩
  · rw [entradas, hd'.listar him']
    show r ∈ pares _ ↔ _
    rw [hgana.mem, List.mem_singleton, or_comm]
  · rw [entradas, hd'.listar him']
    refine hgana.nombres (by simp) fun r hr => ?_
    rw [List.mem_singleton.mp hr, Punto.nombreDe_uno, Punto.nombreDe_dos]
    decide

/-! ## The whole request -/

/-- The dots of a directory stay with it. -/
theorem Puntos.intacto (hp : Puntos fs₁ d x) (hi : Intacto fs₁ fs' x)
    (him : EnImagen fs₁ (leerInodo fs₁ x) (fs₁.bloquesDe x)) : Puntos fs' d x := by
  have hent := hi.lista him hp.sano
  refine ⟨?_, ?_, hi.sano him hp.sano⟩
  · rw [hent]
    exact hp.lista
  · rw [hent]
    exact hp.distintos

/-- What MKDIR asks of the volume: what CREATE does, one block more for the
    dots, and the parent counted in a group of the table. -/
structure CreableDir (fs : Ext2) (path : List UInt8) (p : List (List UInt8)) (c : List UInt8)
    (d : Nat) : Prop where
  creable : Creable fs path p c d
  bloques : HayHueco fs d (entradaNueva c 0 0).tamEntrada
      ∧ bloquesTotales fs.sb 1 ≤ fs.sb.sFreeBlocksCount
    ∨ bloquesTotales fs.sb (fs.bloquesDe d + 1) + bloquesTotales fs.sb 1
      ≤ fs.sb.sFreeBlocksCount + bloquesTotales fs.sb (fs.bloquesDe d)
  grupo : d / fs.sb.sInodesPerGroup < fs.sb.cantGrupos

/-- The block for the dots is there after the entry. -/
theorem Gasto.hayBloque (hg : Gasto fs d c fs₁) (hc : CreableDir fs path p c d)
    (hm : MismaForma fs fs₁) (hl : (leerInodo fs₁ x).Limpio) : HayBloque fs₁ x := by
  have htot : ∀ n, bloquesTotales fs₁.sb n = bloquesTotales fs.sb n := fun n => by
    rw [bloquesTotales, bloquesTotales, hm.esquema]
  rw [HayBloque, hl.bloquesDe, Nat.zero_add, htot, htot, bloquesTotales_cero, Nat.add_zero]
  rcases hc.bloques with ⟨hhueco, hhay⟩ | hhay
  · rw [hg.hueco hhueco]
    exact hhay
  · have := hg.bloque
    omega

/-- What the request does when it meets no obstacle. -/
theorem procesarMkdir_de {pathDir : List UInt8} {fs₂ fs₃ fs₄ fs₅ : Ext2} {l : Nat}
    (hsep : separarPath path = some (pathDir, c))
    (hasig : asignarInodo fs modoDirectorio 2 = (fs₁, some x))
    (hpadre : buscarPath fs₁ pathDir = some d) (hd : d ≠ 0) (hpath : buscarPath fs₁ path = some 0)
    (hcrear : crearNuevaEntrada fs₁ c d x = some (fs₂, true))
    (huno : crearNuevaEntrada fs₂ [46] x x = some (fs₃, true))
    (hdos : crearNuevaEntrada fs₃ [46, 46] x d = some (fs₄, true))
    (hl : u16 ((leerInodo fs₄ d).iLinksCount + 1) = l)
    (hfs₅ : escribirInodo fs₄ d { leerInodo fs₄ d with iLinksCount := l } = fs₅) :
    procesarMkdir fs path
      = some (contarDirectorio fs₅ (d / fs₅.sb.sInodesPerGroup) 1, .result 0) := by
  rw [procesarMkdir, hsep, hasig]
  dsimp only [Option.bind_eq_bind, Option.bind_some]
  rw [hpadre]
  dsimp only [Option.bind_some]
  rw [if_neg hd, hpath]
  dsimp only [Option.bind_some]
  rw [hcrear]
  dsimp only [Option.bind_some]
  rw [if_neg (fun hc => Bool.noConfusion hc.1), iniciarDirectorio, huno]
  dsimp only [Option.bind_eq_bind, Option.bind_some]
  rw [hdos]
  dsimp only [Option.bind_some]
  rw [hl, hfs₅]
  simp [hd]

/-- **MKDIR**: the request answers success, and there is an empty directory at
    the path and nothing else is new. -/
theorem Sistema.mkdir (h : Sistema fijo fs) (hc : CreableDir fs path p c d) : ∃ fs',
    procesarMkdir fs path = some (fs', .result 0) ∧ Sistema fijo fs'
      ∧ Rfs.vista fs' = Function.update (Rfs.vista fs) (p ++ [c]) (some .directorio)
      ∧ ∀ cache, Frescos fs cache → Frescos fs' cache := by
  obtain ⟨pathDir, fs₁, fs₂, x, hsep, hasig, hpadre, hd0, hpath, hcrear, hr₂, hlimpio, hgasto⟩ :=
    h.reservar hc.creable (show modoDirectorio < 2 ^ 16 by decide) (show 2 < 2 ^ 16 by decide)
  obtain ⟨fs₃, fs₄, huno, hdos, hr₄, hpuntos⟩ := hr₂.puntos h.blockSize
    (show modoDirectorio ≠ 0 by decide) hlimpio (hgasto.hayBloque hc hr₂.forma hlimpio)
  have hdu : fs.EnUso d := (nombresDe_dir.mp hc.creable.dir).1
  have hdx : d ≠ x := hr₂.libre.ne hc.creable.dir
  have hd₄ : fs₄.EnUso d := by
    rw [hr₄.enUso]
    exact .inl hdu
  obtain ⟨l, hl⟩ : ∃ l, u16 ((leerInodo fs₄ d).iLinksCount + 1) = l := ⟨_, rfl⟩
  have hl16 : l < 2 ^ 16 := hl ▸ u16_lt _
  obtain ⟨fs₅, hfs₅⟩ : ∃ w, escribirInodo fs₄ d { leerInodo fs₄ d with iLinksCount := l } = w :=
    ⟨_, rfl⟩
  have henl := hr₄.consistente.enlazar hr₄.inodos hd₄ hl16 (d / fs₅.sb.sInodesPerGroup) 1
  rw [hfs₅] at henl
  have hr' := hr₄.enlazada henl
  have hx₄ := hr₄.enUso_nuevo
  have him₄ := (hr₄.consistente.enMano hx₄).enImagen (rango_bloquesDe fs₄ x)
  have hclase : modoDirectorio / 2 ^ 12 = 4 := by decide
  have hn := hr'.nace h
    (.directorio hclase (hpuntos.intacto (henl.alterada.intacto x hx₄ hdx.symm) him₄))
  rw [nodo, if_pos (hr'.directorio hclase)] at hn
  exact ⟨_, procesarMkdir_de hsep hasig hpadre hd0 hpath hcrear huno hdos hl hfs₅, hn.sistema,
    hn.vista h hc.creable.padre hc.creable.dir hc.creable.ausente,
    fun _ => hr'.frescos fun hreg => absurd (hr'.directorio hclase) hreg.no_directorio⟩

end Mkdir

end Rfs
