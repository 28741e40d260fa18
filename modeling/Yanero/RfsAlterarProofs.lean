import Yanero.RfsCacheProofs
import Yanero.RfsExtenderProofs
import Yanero.RfsNacerProofs

/-! # A request changes the bytes of a file

    WRITE and TRUNCATE work on one file: blocks come and go, the inode is kept in
    memory and written back when its size changed.  The names of the volume and
    every other file stay (`Alterada`), so what is seen changes at one path
    (`Alterada.vista`).

    When the free blocks are too few the growth is undone, and the answer is an
    error on a volume that is seen as it was. -/

namespace Rfs

open Arborescencia Arboles Palabras

/-! ## What a file is left with -/

/-- `l'` is `l` with `bytes` from `off` on.  What is between the old end and
    `off` is not said: the request does not write it. -/
structure Escribe (off : Nat) (bytes l l' : List UInt8) : Prop where
  largo : l'.length = max l.length (off + bytes.length)
  rango : (l'.drop off).take bytes.length = bytes
  resto : ∀ i, i < l.length → i < off ∨ off + bytes.length ≤ i → l'[i]? = l[i]?

/-- `l'` is `l` cut, or made longer, to `n` bytes; the new ones are not said. -/
structure Trunca (n : Nat) (l l' : List UInt8) : Prop where
  largo : l'.length = n
  resto : ∀ i, i < l.length → i < n → l'[i]? = l[i]?

/-- The free blocks are enough for a file of `tam` bytes to get to `n`. -/
def Caben (fs : Ext2) (tam n : Nat) : Prop :=
  bloquesTotales fs.sb (cantBloques fs.sb.blockSize n)
    ≤ fs.sb.sFreeBlocksCount + bloquesTotales fs.sb (cantBloques fs.sb.blockSize tam)

/-- What a request about the file of inode `x` leaves of the volume. -/
structure Alterada (fijo : Nat → Prop) (fs : Ext2) (x : Nat) (fs' : Ext2) : Prop where
  consistente : Consistente fijo fs'
  inodos : Inodos fs'
  forma : MismaForma fs fs'
  enUso : fs'.EnUso = fs.EnUso
  iMode : (leerInodo fs' x).iMode = (leerInodo fs x).iMode
  slots : ∀ y, fs.sb.esInodo y → y ≠ x → (leerInodo fs' y).Igual (leerInodo fs y)
  intacto : ∀ y, fs.EnUso y → y ≠ x → Intacto fs fs' y

/-- What was in memory of the file is on the image. -/
structure Quedo (fijo : Nat → Prop) (fs : Ext2) (x : Nat) (fs₁ : Ext2) (inodo : Inode)
    (fs' : Ext2) : Prop where
  alterada : Alterada fijo fs x fs'
  iSize : (leerInodo fs' x).iSize = inodo.iSize
  hojas : ∀ m, m < cantBloques fs.sb.blockSize inodo.iSize →
    hojaDe fs' (leerInodo fs' x) m = hojaDe fs₁ inodo m
  bytes : ∀ i, i < cantBloques fs.sb.blockSize inodo.iSize * fs.sb.blockSize →
    byteDe fs' (leerInodo fs' x) i = byteDe fs₁ inodo i

section Alterar

variable {fijo : Nat → Prop} {fs fs₁ fs' : Ext2} {x n off size : Nat} {inodo : Inode}
  {q : List (List UInt8)} {path buf : List UInt8}

/-- The inode of the image is the one in memory, and is not written. -/
theorem Conserva.puesta (h : Consistente fijo fs) (hI : Inodos fs) (hx : fs.EnUso x)
    (hc : Conserva fijo fs x (leerInodo fs x) n fs₁ inodo)
    (h₁ : EnMano fijo fs₁ x inodo (cantBloques fs.sb.blockSize inodo.iSize))
    (hb : ∀ k, k < 15 → inodo.iBlock k = (leerInodo fs x).iBlock k)
    (hs : inodo.iSize = (leerInodo fs x).iSize) : Quedo fijo fs x fs₁ inodo fs₁ := by
  have hG := h.geometria
  have hg := hc.guarda
  have hes : fs.sb.esInodo x := ⟨hx.1, hx.2.1⟩
  have higual := hg.leerInodo hG hes
  have hb' : ∀ k, k < 15 → (leerInodo fs₁ x).iBlock k = inodo.iBlock k := fun k hk =>
    (higual.iBlock k hk).trans (hb k hk).symm
  have hs' : (leerInodo fs₁ x).iSize = inodo.iSize := higual.iSize.trans hs.symm
  refine ⟨⟨(hg.mismo.blockSize ▸ h₁ : EnMano fijo fs₁ x inodo
    (cantBloques fs₁.sb.blockSize inodo.iSize)).consistente hb' hs', hg.inodos hG hI,
    hg.mismo.forma, hg.enUso hG, higual.iMode, fun y hy _ => hg.leerInodo hG hy,
    fun y hy hne => ?_⟩, hs', fun m _ => hojaDe_igual fs₁ hb' m, fun i _ => byteDe_igual fs₁ hb' i⟩
  exact h.intacto hy hg.mismo.forma (hg.leerInodo hG ⟨hy.1, hy.2.1⟩) (hc.datosAjenos y hy hne)

/-- The inode in memory is written back. -/
theorem Conserva.volcada (h : Consistente fijo fs) (hI : Inodos fs) (hx : fs.EnUso x)
    (hc : Conserva fijo fs x (leerInodo fs x) n fs₁ inodo)
    (h₁ : EnMano fijo fs₁ x inodo (cantBloques fs.sb.blockSize inodo.iSize))
    (hcabe : inodo.Cabe) (hm : inodo.iMode = (leerInodo fs x).iMode) :
    Quedo fijo fs x fs₁ inodo (escribirInodo fs₁ x inodo) := by
  have hs : inodo.iSize < 2 ^ 32 := potencia32 ▸ hcabe.iSize
  have hG := h.geometria
  have hg := hc.guarda
  have hG₁ := h₁.geometria
  have hes : fs.sb.esInodo x := ⟨hx.1, hx.2.1⟩
  have hes₁ : fs₁.sb.esInodo x := ⟨h₁.enUso.1, h₁.enUso.2.1⟩
  have hbs := hg.mismo.blockSize
  have hrango : EnRango fs₁.sb (cantBloques fs.sb.blockSize inodo.iSize) := by
    rw [← hbs]
    exact enRango_cantBloques fs₁.sb hs
  have hvol := h₁.volcado hrango (by rw [hbs]) hcabe
  have hsolo := soloBloque_escribirInodo hG₁ hes₁ inodo
  have hforma := hg.mismo.forma.trans (mismo_escribirInodo fs₁ x inodo).forma
  have hslots : ∀ y, fs.sb.esInodo y → y ≠ x →
      (leerInodo (escribirInodo fs₁ x inodo) y).Igual (leerInodo fs y) := by
    intro y hy hne
    have hy₁ : fs₁.sb.esInodo y := by
      rw [esInodo_forma hg.mismo.forma]
      exact hy
    exact (leerInodo_escribirInodo_otro hG₁ hes₁ hy₁ hne inodo).trans (hg.leerInodo hG hy)
  refine ⟨⟨hvol.consistente, inodos_escribirInodo hG₁ hes₁ (hg.inodos hG hI) inodo, hforma, ?_,
    hvol.igual.iMode.trans hm, hslots, fun y hy hne => ?_⟩, hvol.igual.iSize, fun m hm => ?_,
    fun i hi => ?_⟩
  · exact (hsolo.enUso hG₁ fun g hgr => hG₁.tabla_no_bitmap hes₁ hgr).trans (hg.enUso hG)
  · refine h.intacto hy hforma (hslots y ⟨hy.1, hy.2.1⟩ hne) fun k ps hv o ho => ?_
    rw [hsolo.fuera o, hc.datosAjenos y hy hne k ps hv o ho]
    -- the slot is in a table, and the block is one of data
    intro heq
    have hdato := ((h.enMano hy).dato hv).1.2
    have htab := (hG₁.bloqueInodo hes₁).2.1
    rw [hbs, ho] at heq
    exact hdato (heq ▸ htab)
  · rw [hojaDe_igual _ hvol.igual.iBlock, hojaDe, hojaDe,
      (mismo_escribirInodo fs₁ x inodo).cantPunteros]
    exact hvol.sitios _ _ (camino_hoja hrango hm).1
  · rw [byteDe_igual _ hvol.igual.iBlock, hvol.bytes i (by rwa [hbs])]

/-- The bytes of the file, seen as a list. -/
theorem Quedo.contenido (h : Quedo fijo fs x fs₁ inodo fs') :
    contenido fs' (leerInodo fs' x) 0 (leerInodo fs' x).iSize
      = Rfs.contenido fs₁ inodo 0 inodo.iSize := by
  rw [h.iSize]
  refine List.map_congr_left fun i hi => h.bytes i ?_
  have := List.mem_range'_1.mp hi
  have := (cantBloques_cotas (blockSize_pos fs.sb) inodo.iSize).1
  omega

/-- What was up to date in memory is on the image. -/
theorem Quedo.fresca (h : Quedo fijo fs x fs₁ inodo fs') (hbs : fs₁.sb.blockSize = fs.sb.blockSize)
    {cache : Cache} (hdia : ∀ m, m < cantBloques fs.sb.blockSize inodo.iSize →
      AlDia fs₁ cache (hojaDe fs₁ inodo m)) : Fresca fs' cache x := by
  intro m hm
  rw [Ext2.bloquesDe, h.alterada.forma.blockSize, h.iSize] at hm
  refine (hdia m hm).hoja (h.alterada.forma.blockSize.trans hbs.symm) (h.hojas m hm) fun i hi =>
    h.bytes i ?_
  rw [hbs] at hi
  exact lt_of_lt_of_le hi (Nat.mul_le_mul_right _ hm)

/-! ## One path changes -/

/-- The names make a tree as long as the inodes in use keep their classes and
    the directories their pairs. -/
theorem Nombres.Bien.congr {N N' : Nombres} (h : N.Bien) (hdir : ∀ y, N'.dir y = N.dir y)
    (hreg : ∀ y, N'.reg y = N.reg y) (hent : ∀ y, N.dir y → N'.ent y = N.ent y) : N'.Bien := by
  have hhijo : ∀ y c, N'.hijo y c = N.hijo y c := fun y c =>
    Nombres.hijo_igual (hdir y) fun hy => by rw [hent y hy]
  have harbol : N'.hijo = N.hijo := by
    funext y c
    exact hhijo y c
  refine ⟨by rw [hdir]; exact h.raiz, fun y hy => ?_, by rw [hdir, hreg]; exact h.cero,
    fun y hy => ?_, fun y hy p hp => ?_, by rw [harbol]; exact h.arbol, fun y hy => ?_,
    fun y hy => ?_⟩
  all_goals rw [hdir] at hy
  · rw [hreg]
    exact h.clases y hy
  · rw [hent y hy]
    exact h.nombres y hy
  · rw [hent y hy] at hp
    rw [hdir, hreg]
    exact h.destinos y hy p hp
  · rw [hent y hy]
    exact h.punto y hy
  · rw [hent y hy, harbol]
    exact h.padre y hy

theorem Alterada.iMode_todos (ha : Alterada fijo fs x fs') {y : Nat} (hy : fs.EnUso y) :
    (leerInodo fs' y).iMode = (leerInodo fs y).iMode := by
  by_cases hyx : y = x
  · rw [hyx, ha.iMode]
  · exact (ha.intacto y hy hyx).igual.iMode

/-- The names of the volume, when the file is not a directory. -/
theorem Alterada.nombres (ha : Alterada fijo fs x fs') (h : Sistema fijo fs)
    (hreg : EsRegular fs x) :
    (∀ y, (nombresDe fs').dir y = (nombresDe fs).dir y)
      ∧ (∀ y, (nombresDe fs').reg y = (nombresDe fs).reg y)
      ∧ ∀ y, (nombresDe fs).dir y → (nombresDe fs').ent y = (nombresDe fs).ent y := by
  refine ⟨fun y => ?_, fun y => ?_, fun y hy => ?_⟩
  · rw [Bool.eq_iff_iff, nombresDe_dir, nombresDe_dir, ha.enUso]
    exact and_congr_right fun hu => esDirectorio_igual ha.forma (ha.iMode_todos hu)
  · rw [Bool.eq_iff_iff, nombresDe_reg, nombresDe_reg, ha.enUso]
    exact and_congr_right fun hu => esRegular_igual ha.forma (ha.iMode_todos hu)
  · obtain ⟨huso, hd⟩ := nombresDe_dir.mp hy
    have hyx : y ≠ x := by
      rintro rfl
      exact hreg.no_directorio hd
    exact (ha.intacto y huso hyx).entradas h huso hd

theorem Alterada.sistema (ha : Alterada fijo fs x fs') (h : Sistema fijo fs) (hx : fs.EnUso x)
    (hreg : EsRegular fs x) : Sistema fijo fs' := by
  obtain ⟨hdir, hregs, hent⟩ := ha.nombres h hreg
  refine ⟨ha.consistente, ha.inodos, ?_, ?_, fun y hy hlibre => ?_, fun y hy hd => ?_,
    h.nombres.congr hdir hregs hent⟩
  · rw [ha.forma.sInodesPerGroup]
    exact h.contador
  · rw [ha.forma.blockSize]
    exact h.blockSize
  · have hy₀ : fs.sb.esInodo y := esInodo_forma ha.forma ▸ hy
    have hno : ¬ fs.EnUso y := by
      rw [← ha.enUso, ← bitInodo_iff hy, hlibre]
      exact Bool.false_ne_true
    refine (h.limpios y hy₀ ?_).igual (ha.slots y hy₀ ?_)
    · rw [Bool.eq_false_iff]
      exact fun hb => hno ((bitInodo_iff hy₀).mp hb)
    · rintro rfl
      exact hno hx
  · rw [ha.enUso] at hy
    have hd₀ := (esDirectorio_igual ha.forma (ha.iMode_todos hy)).mp hd
    have hyx : y ≠ x := by
      rintro rfl
      exact hreg.no_directorio hd₀
    exact (ha.intacto y hy hyx).sano (h.enImagen hy) (h.sanos y hy hd₀)

/-- **ONE PATH** is seen to change. -/
theorem Alterada.vista (ha : Alterada fijo fs x fs') (h : Sistema fijo fs) (hreg : EsRegular fs x)
    (hq : andar (nombresDe fs).hijo inodoRaiz q = some x) :
    Rfs.vista fs' = Function.update (Rfs.vista fs) q
      (some (.archivo (contenido fs' (leerInodo fs' x) 0 (leerInodo fs' x).iSize))) := by
  obtain ⟨hdir, -, hent⟩ := ha.nombres h hreg
  have hreg' := (esRegular_igual ha.forma ha.iMode).mpr hreg
  have handar : ∀ r, andar (nombresDe fs').hijo inodoRaiz r
      = andar (nombresDe fs).hijo inodoRaiz r :=
    andar_congr (fun y c => Nombres.hijo_igual (hdir y) fun hy => by rw [hent y hy]) inodoRaiz
  funext r
  rw [Rfs.vista, handar]
  by_cases hr : r = q
  · rw [hr, hq, Function.update_self, Option.map_some, nodo, if_neg hreg'.no_directorio]
  · rw [Function.update_of_ne hr, Rfs.vista]
    cases hz : andar (nombresDe fs).hijo inodoRaiz r with
    | none => rw [Option.map_none, Option.map_none]
    | some z =>
        have hzx : z ≠ x := by
          rintro rfl
          exact hr (h.nombres.arbol.andar_unico hz hq)
        rw [Option.map_some, Option.map_some, (ha.intacto z (h.llega hz).1 hzx).nodo ha.forma]

/-! ## A growth that is refused, and one that is not -/

theorem Consistente.extendido (h : Consistente fijo fs) (hx : fs.EnUso x) (hn : n < 2 ^ 32)
    (hle : (leerInodo fs x).iSize ≤ n)
    (hr : truncarArriba fs (leerInodo fs x) n = (fs₁, inodo, true)) :
    Caben fs (leerInodo fs x).iSize n ∧ Extendido fijo fs x (leerInodo fs x) n fs₁ inodo := by
  rcases (h.enMano hx).truncarArriba hn hle with ⟨hcaben, -, hext⟩ | ⟨-, hno, -⟩
  · rw [hr] at hext
    exact ⟨hcaben, hext⟩
  · rw [hr] at hno
    cases hno

/-- The undo leaves the file as it was. -/
theorem Consistente.deshecho (h : Consistente fijo fs) (hI : Inodos fs) (hx : fs.EnUso x)
    (hn : n < 2 ^ 32) (hle : (leerInodo fs x).iSize ≤ n)
    (hr : truncarArriba fs (leerInodo fs x) n = (fs₁, inodo, false)) :
    ¬ Caben fs (leerInodo fs x).iSize n ∧ Alterada fijo fs x fs₁
      ∧ inodo.iSize = (leerInodo fs x).iSize
      ∧ contenido fs₁ (leerInodo fs₁ x) 0 (leerInodo fs₁ x).iSize
        = contenido fs (leerInodo fs x) 0 (leerInodo fs x).iSize
      ∧ ∀ cache, Fresca fs cache x → Fresca fs₁ cache x := by
  have hmano := h.enMano hx
  rcases hmano.truncarArriba hn hle with ⟨-, hsi, -⟩ | ⟨hfaltan, -, hdes⟩
  · rw [hr] at hsi
    cases hsi
  · rw [hr] at hdes
    dsimp only at hdes
    have hres := hmano.restaurado hdes.enMano hdes.conserva
    have hs : inodo.iSize = (leerInodo fs x).iSize := hdes.datos.2.1
    have hq : Quedo fijo fs x fs₁ inodo fs₁ :=
      hdes.conserva.puesta h hI hx (hs.symm ▸ hdes.enMano) hres.iBlock hs
    refine ⟨Nat.not_le.mpr hfaltan, hq.alterada, hs, ?_, fun cache hf => ?_⟩
    · rw [hq.contenido, hs]
      refine List.map_congr_left fun i hi => hdes.conserva.byteDe (rango_bloquesDe fs x) ?_
      have hi' := List.mem_range'_1.mp hi
      have htope := (cantBloques_cotas (blockSize_pos fs.sb) (leerInodo fs x).iSize).1
      omega
    · refine hq.fresca hdes.conserva.guarda.mismo.blockSize fun m hm => ?_
      rw [hs] at hm
      exact hdes.conserva.alDia (rango_bloquesDe fs x) hm (hf m hm)

/-! ## The two requests -/

/-- Where a path leads, by the code and in the tree. -/
theorem Sistema.buscar (h : Sistema fijo fs) (hp : componentes path = q)
    (hq : andar (nombresDe fs).hijo inodoRaiz q = some x) :
    buscarPath fs path = some x ∧ x ≠ 0 := by
  obtain ⟨hx, hbuscar⟩ := (h.recto hq).buscarDesde (show inodoRaiz ≠ 0 by decide)
  refine ⟨?_, hx⟩
  have := hbuscar []
  rw [List.append_nil] at this
  rw [buscarPath, hp, this]
  rfl

/-- The regular file that is seen at a path. -/
theorem Sistema.archivo (h : Sistema fijo fs) {datos : List UInt8}
    (hv : Rfs.vista fs q = some (.archivo datos)) : ∃ x, fs.EnUso x ∧ EsRegular fs x
      ∧ andar (nombresDe fs).hijo inodoRaiz q = some x
      ∧ datos = contenido fs (leerInodo fs x) 0 (leerInodo fs x).iSize := by
  obtain ⟨x, hx, hnodo⟩ := Option.map_eq_some_iff.mp hv
  obtain ⟨huso, hclase⟩ := h.llega hx
  unfold nodo at hnodo
  split at hnodo
  case isTrue => cases hnodo
  case isFalse hno =>
    exact ⟨x, huso, hclase.resolve_left hno, hx, (Nodo.archivo.inj hnodo).symm⟩

/-- A view that is the same at the path of the file is the same. -/
theorem vista_igual {datos : List UInt8} {v : List (List UInt8) → Option Nodo}
    (hv : v q = some (.archivo datos)) : Function.update v q (some (.archivo datos)) = v := by
  rw [← hv, Function.update_eq_self]

/-- What a range leaves of the file in memory. -/
theorem Escribe.de (hrango : contenido fs₁ inodo off (off + size) = buf.take size)
    (hresto : ∀ i, i < (leerInodo fs x).iSize → i < off ∨ off + size ≤ i →
      byteDe fs₁ inodo i = byteDe fs (leerInodo fs x) i)
    (htam : inodo.iSize = max (leerInodo fs x).iSize (off + size)) (hbuf : size ≤ buf.length) :
    Escribe off (buf.take size) (contenido fs (leerInodo fs x) 0 (leerInodo fs x).iSize)
      (contenido fs₁ inodo 0 inodo.iSize) := by
  have hlen : (buf.take size).length = size := by
    rw [List.length_take]
    omega
  refine ⟨?_, ?_, fun i hi hfuera => ?_⟩
  · rw [length_contenido, length_contenido, hlen, htam]
    omega
  · have hsacar := @sacar_contenido fs₁ inodo 0 off (off + size) inodo.iSize (Nat.zero_le off)
      (by omega) (by omega)
    rw [Nat.sub_zero, Nat.add_sub_cancel_left] at hsacar
    rw [hlen, hsacar, hrango]
  · rw [length_contenido, Nat.sub_zero] at hi
    rw [hlen] at hfuera
    rw [getElem?_contenido (by omega), getElem?_contenido (by omega), Nat.zero_add,
      hresto i hi hfuera]

/-- The range goes into a file that is large enough. -/
theorem Conserva.escribe (hG : Geometria fijo fs)
    (hc : Conserva fijo fs x (leerInodo fs x) (fs.bloquesDe x) fs₁ inodo)
    (h₁ : EnMano fijo fs₁ x inodo (cantBloques fs.sb.blockSize inodo.iSize))
    (hs : inodo.iSize < 2 ^ 32) (htam : inodo.iSize = max (leerInodo fs x).iSize (off + size))
    (hbuf : size ≤ buf.length) (cache : Cache) {e : Escritura}
    (he : escribirRango fs₁ cache inodo off size buf = e) :
    EnMano fijo e.fs x inodo (cantBloques fs.sb.blockSize inodo.iSize)
      ∧ Conserva fijo fs x (leerInodo fs x) 0 e.fs inodo ∧ e.cantEscrita = size
      ∧ Escribe off (buf.take size) (contenido fs (leerInodo fs x) 0 (leerInodo fs x).iSize)
        (contenido e.fs inodo 0 inodo.iSize) := by
  have hbs : fs₁.sb.blockSize = fs.sb.blockSize := hc.guarda.mismo.blockSize
  have hrango : EnRango fs₁.sb (cantBloques fs.sb.blockSize inodo.iSize) := by
    rw [← hbs]
    exact enRango_cantBloques fs₁.sb hs
  have htope := (cantBloques_cotas (blockSize_pos fs.sb) inodo.iSize).1
  have hviejo := (cantBloques_cotas (blockSize_pos fs.sb) (leerInodo fs x).iSize).1
  have hdentro : off + size ≤ cantBloques fs.sb.blockSize inodo.iSize * fs₁.sb.blockSize := by
    rw [hbs]
    omega
  obtain ⟨hp, hcant⟩ := h₁.escribirRango hrango hdentro hbuf cache
  obtain ⟨hcont, hresto, hc'⟩ := h₁.escrito hrango hdentro hbuf cache rfl
  rw [he] at hp hcant hcont hresto hc'
  refine ⟨hp.enMano, Conserva.trans hG (hc.mono (Nat.zero_le _)) hc', hcant,
    Escribe.de hcont (fun i hi hfuera => ?_) htam hbuf⟩
  rw [hresto i (by rw [hbs]; omega) hfuera]
  exact hc.byteDe (rango_bloquesDe fs x) (lt_of_lt_of_le hi hviejo)

/-- The regular files are the same ones. -/
theorem Alterada.frescos (ha : Alterada fijo fs x fs') {cache : Cache} (hx : Fresca fs' cache x)
    (hotros : ∀ y, fs.EnUso y → EsRegular fs y → y ≠ x → Fresca fs' cache y) :
    Frescos fs' cache := by
  intro y hy hr
  rw [ha.enUso] at hy
  by_cases hyx : y = x
  · exact hyx ▸ hx
  · exact hotros y hy ((esRegular_igual ha.forma (ha.iMode_todos hy)).mp hr) hyx

/-- The cache stays, and the file is up to date. -/
theorem Alterada.frescos_quieta (ha : Alterada fijo fs x fs') {cache : Cache}
    (hf : Frescos fs cache) (hx : Fresca fs' cache x) : Frescos fs' cache :=
  ha.frescos hx fun y hy hr hyx => (ha.intacto y hy hyx).fresca (hf y hy hr)

/-- **A WRITE FROM THE FIRST BYTE OF A BLOCK**, not past the end of the file,
    leaves the files up to date in the cache. -/
theorem Conserva.escribe_frescos (h : Consistente fijo fs) (hbs : fs.sb.blockSize < 2 ^ 16)
    (hc : Conserva fijo fs x (leerInodo fs x) (fs.bloquesDe x) fs₁ inodo)
    (h₁ : EnMano fijo fs₁ x inodo (cantBloques fs.sb.blockSize inodo.iSize))
    (hs : inodo.iSize < 2 ^ 32) (htam : inodo.iSize = max (leerInodo fs x).iSize (off + size))
    (hbuf : size ≤ buf.length) {cache : Cache} {e : Escritura}
    (he : escribirRango fs₁ cache inodo off size buf = e)
    (hce : Conserva fijo fs x (leerInodo fs x) 0 e.fs inodo)
    (hq : Quedo fijo fs x e.fs inodo fs') (halineado : off % fs.sb.blockSize = 0)
    (hsin : off ≤ (leerInodo fs x).iSize) (hreg : EsRegular fs x) (hx : fs.EnUso x)
    (hf : Frescos fs cache) : Frescos fs' e.cache := by
  have hsb : fs₁.sb.blockSize = fs.sb.blockSize := hc.guarda.mismo.blockSize
  have hrango : EnRango fs₁.sb (cantBloques fs.sb.blockSize inodo.iSize) := by
    rw [← hsb]
    exact enRango_cantBloques fs₁.sb hs
  have htope := (cantBloques_cotas (blockSize_pos fs.sb) inodo.iSize).1
  have hdentro : off + size ≤ cantBloques fs.sb.blockSize inodo.iSize * fs₁.sb.blockSize := by
    rw [hsb]
    omega
  have hpuesto := (h₁.escribirRango hrango hdentro hbuf cache).1
  have hcant := (h₁.escribirRango hrango hdentro hbuf cache).2
  have hsub := h₁.escribirRango_subida hrango (hsb ▸ hbs) hdentro hbuf (hsb ▸ halineado) cache
  rw [he] at hpuesto hcant hsub
  have hesb : e.fs.sb.blockSize = fs.sb.blockSize := hce.guarda.mismo.blockSize
  refine hq.alterada.frescos (hq.fresca hesb fun m hm => ?_) fun y hy hr hyx m hm => ?_
  · rw [hpuesto.hojas m hm]
    by_cases hescrito : off ≤ m * fs.sb.blockSize ∧ m * fs.sb.blockSize < off + size
    · refine hsub.escritos m (hsb ▸ hescrito.1) ?_
      rw [hsb, hcant]
      exact hescrito.2
    · -- a block that the file had
      have hviejo : m < fs.bloquesDe x := by
        have hlt := mul_lt_de_cantBloques (blockSize_pos fs.sb) hm
        refine (lt_cantBloques_iff (blockSize_pos fs.sb)).mpr ?_
        omega
      have hdia := hc.alDia (rango_bloquesDe fs x) hviejo (hf x hx hreg m hviejo)
      have hvol := (h₁.dato_hoja hrango hm).1
      rcases hsub.otros _ hvol with hsi | ⟨hca, hdi⟩
      · exact hsi
      · exact hdia.congr (hesb.trans hsb.symm) hdi hca
  · rw [(hq.alterada.intacto y hy hyx).bloquesDe] at hm
    refine (hq.alterada.intacto y hy hyx).alDia hm ?_
    have hvol := ((h.enMano hy).dato_hoja (rango_bloquesDe fs y) hm).1
    have hvivo := (camino_hoja (rango_bloquesDe fs y) hm).1
    rcases hsub.otros _ (hc.guarda.mismo.forma.enVolumen ▸ hvol) with hsi | ⟨hca, -⟩
    · exact hsi.congr hesb.symm (fun o ho => (hce.datosAjenos y hy hyx _ _ hvivo o
        (hesb ▸ ho)).symm) rfl
    · exact (hf y hy hr m hm).congr rfl (fun _ _ => rfl) hca

/-- `Dir_escribirArchivo` on a file of the volume, and the inode written back
    when the file grew. -/
theorem Sistema.escribirArchivo (h : Sistema fijo fs) (hx : fs.EnUso x) (hsize : size ≤ 65535)
    (hbuf : size ≤ buf.length) (hrango : off + size < 2 ^ 32) (cache : Cache) :
    ∃ fs₁ cache' inodo r, escribirArchivo fs cache (leerInodo fs x) off size buf
        = (fs₁, cache', inodo, r)
      ∧ ∃ fs', (if r ≠ -1 ∧ (leerInodo fs x).iSize < u32 (off + size) then escribirInodo fs₁ x inodo
          else fs₁) = fs'
      ∧ Alterada fijo fs x fs'
      ∧ (Caben fs (leerInodo fs x).iSize (max (leerInodo fs x).iSize (off + size))
          ∧ r = size
          ∧ Escribe off (buf.take size) (contenido fs (leerInodo fs x) 0 (leerInodo fs x).iSize)
            (contenido fs' (leerInodo fs' x) 0 (leerInodo fs' x).iSize)
        ∨ ¬ Caben fs (leerInodo fs x).iSize (max (leerInodo fs x).iSize (off + size)) ∧ r = -1
          ∧ contenido fs' (leerInodo fs' x) 0 (leerInodo fs' x).iSize
            = contenido fs (leerInodo fs x) 0 (leerInodo fs x).iSize)
      ∧ (off % fs.sb.blockSize = 0 → off ≤ (leerInodo fs x).iSize → EsRegular fs x →
        Frescos fs cache → Frescos fs' cache') := by
  have hC := h.consistente
  have haInt : aInt32 size = size := by
    rw [aInt32, u32_eq (by omega), if_pos (by omega)]
  have hno : (size : Int) ≠ -1 := by omega
  rw [Rfs.escribirArchivo, u32_eq hrango]
  by_cases hcrece : (leerInodo fs x).iSize < off + size
  · rw [if_pos hcrece, Nat.max_eq_right (Nat.le_of_lt hcrece)]
    obtain ⟨fs₁, inodo, ok, hr⟩ : ∃ a b c,
        truncarArriba fs (leerInodo fs x) (off + size) = (a, b, c) := ⟨_, _, _, rfl⟩
    rw [hr]
    dsimp only
    cases ok with
    | false =>
        obtain ⟨hfaltan, ha, -, hcont, hfresca⟩ := hC.deshecho h.inodos hx hrango
          (Nat.le_of_lt hcrece) hr
        rw [if_neg Bool.false_ne_true]
        exact ⟨fs₁, cache, inodo, -1, rfl, fs₁, if_neg fun hc => hc.1 rfl, ha,
          .inr ⟨hfaltan, rfl, hcont⟩, fun _ _ hreg hf =>
            ha.frescos_quieta hf (hfresca cache (hf x hx hreg))⟩
    | true =>
        obtain ⟨hcaben, hext⟩ := hC.extendido hx hrango (Nat.le_of_lt hcrece) hr
        have htam := hext.iSize
        have hmax : inodo.iSize = max (leerInodo fs x).iSize (off + size) := by omega
        obtain ⟨e, he⟩ : ∃ e, escribirRango fs₁ cache inodo off size buf = e := ⟨_, rfl⟩
        obtain ⟨hmano, hcons, hcant, hescribe⟩ := hext.conserva.escribe hC.geometria
          (htam.symm ▸ hext.enMano) (by omega) hmax hbuf cache he
        have hq := hcons.volcada hC h.inodos hx hmano (hmano.cabe_inodo (by omega) hext.iMode
          hext.iLinksCount (leerInodo_cabe fs x)) hext.iMode
        rw [if_pos rfl, he]
        refine ⟨e.fs, e.cache, inodo, size, ?_, _, if_pos ⟨hno, hcrece⟩, hq.alterada,
          .inl ⟨hcaben, rfl, ?_⟩, fun hal hle hreg hf => hext.conserva.escribe_frescos hC
            h.blockSize (htam.symm ▸ hext.enMano) (by omega)
              hmax hbuf he hcons hq hal hle hreg hx hf⟩
        · rw [hcant, haInt]
        · rw [hq.contenido]
          exact hescribe
  · have hmax := Nat.max_eq_left (Nat.le_of_not_lt hcrece)
    rw [if_neg hcrece, hmax]
    dsimp only
    obtain ⟨e, he⟩ : ∃ e, escribirRango fs cache (leerInodo fs x) off size buf = e := ⟨_, rfl⟩
    have hrefl := Conserva.refl fijo fs x (leerInodo fs x) (fs.bloquesDe x)
    obtain ⟨hmano, hcons, hcant, hescribe⟩ := hrefl.escribe hC.geometria (hC.enMano hx)
      (leerInodo_iSize_lt fs x) hmax.symm hbuf cache he
    have hq := hcons.puesta hC h.inodos hx hmano (fun _ _ => rfl) rfl
    rw [if_pos rfl, he]
    refine ⟨e.fs, e.cache, leerInodo fs x, size, ?_, _, if_neg fun hc => hcrece hc.2, hq.alterada,
      .inl ⟨Nat.le_add_left _ _, rfl, ?_⟩, fun hal hle hreg hf =>
        hrefl.escribe_frescos hC h.blockSize (hC.enMano hx) (leerInodo_iSize_lt fs x) hmax.symm
          hbuf he hcons hq hal hle hreg hx hf⟩
    · rw [hcant, haInt]
    · rw [hq.contenido]
      exact hescribe

/-- **WRITE**: with blocks for it, the request answers the size and the range of
    the file holds the bytes; without, it answers `-ENOSPC`.  Nothing is seen to
    change at any other path. -/
theorem Sistema.write (h : Sistema fijo fs) (hp : componentes path = q) {datos : List UInt8}
    (hv : Rfs.vista fs q = some (.archivo datos)) (hsize : size ≤ 65535) (hbuf : size ≤ buf.length)
    (hrango : off + size < 2 ^ 32) (cache : Cache) : ∃ fs' cache' r,
      procesarWrite fs cache path off size buf = some (fs', cache', .write r) ∧ Sistema fijo fs'
      ∧ (Caben fs datos.length (max datos.length (off + size)) ∧ r = size
          ∧ (∃ datos', Escribe off (buf.take size) datos datos'
            ∧ Rfs.vista fs' = Function.update (Rfs.vista fs) q (some (.archivo datos')))
        ∨ ¬ Caben fs datos.length (max datos.length (off + size)) ∧ r = -enospc
          ∧ Rfs.vista fs' = Rfs.vista fs)
      ∧ (off % fs.sb.blockSize = 0 → off ≤ datos.length → Frescos fs cache
        → Frescos fs' cache') := by
  obtain ⟨x, hx, hreg, hq, rfl⟩ := h.archivo hv
  obtain ⟨hbuscar, hx0⟩ := h.buscar hp hq
  obtain ⟨fs₁, cache', inodo, r, heq, fs', hfs', ha, hfin, hfrescos⟩ :=
    h.escribirArchivo hx hsize hbuf hrango cache
  refine ⟨fs', cache', if r = -1 then -enospc else r, ?_, ha.sistema h hx hreg, ?_,
    fun hal hle => hfrescos hal (by rwa [length_contenido, Nat.sub_zero] at hle) hreg⟩
  · rw [procesarWrite, hbuscar]
    dsimp only [Option.bind_eq_bind, Option.bind_some]
    rw [if_neg hx0, heq]
    dsimp only
    rw [hfs']
  · rw [length_contenido, Nat.sub_zero]
    rcases hfin with ⟨hcaben, rfl, hescribe⟩ | ⟨hfaltan, rfl, hcont⟩
    · exact .inl ⟨hcaben, if_neg (by omega), _, hescribe, ha.vista h hreg hq⟩
    · refine .inr ⟨hfaltan, if_pos rfl, ?_⟩
      rw [ha.vista h hreg hq, hcont, vista_igual hv]

/-- The bytes that the old and the new file have in common. -/
theorem Conserva.trunca {m : Nat} (hc : Conserva fijo fs x (leerInodo fs x) m fs₁ inodo)
    (hrango : EnRango fs.sb m)
    (hm : ∀ i, i < (leerInodo fs x).iSize → i < n → i < m * fs.sb.blockSize)
    (htam : inodo.iSize = n) (hq : Quedo fijo fs x fs₁ inodo fs') :
    Trunca n (contenido fs (leerInodo fs x) 0 (leerInodo fs x).iSize)
      (contenido fs' (leerInodo fs' x) 0 (leerInodo fs' x).iSize) := by
  rw [hq.contenido]
  refine ⟨by rw [length_contenido, htam, Nat.sub_zero], fun i hi hin => ?_⟩
  rw [length_contenido, Nat.sub_zero] at hi
  rw [getElem?_contenido (by omega), getElem?_contenido (by omega), Nat.zero_add,
    hc.byteDe hrango (hm i hi hin)]

/-- A file that takes no block keeps the copies of those that stay. -/
theorem Conserva.fresca {m : Nat} (hc : Conserva fijo fs x (leerInodo fs x) m fs₁ inodo)
    (hrango : EnRango fs.sb m)
    (hm : cantBloques fs.sb.blockSize inodo.iSize ≤ m ∧ m ≤ fs.bloquesDe x)
    (hq : Quedo fijo fs x fs₁ inodo fs') (cache : Cache) (hf : Fresca fs cache x) :
    Fresca fs' cache x := by
  refine hq.fresca hc.guarda.mismo.blockSize fun i hi => ?_
  have him := lt_of_lt_of_le hi hm.1
  exact hc.alDia hrango him (hf i (lt_of_lt_of_le him hm.2))

/-- A file of the volume goes to another length, in memory and back. -/
theorem Sistema.truncarInodo (h : Sistema fijo fs) (hx : fs.EnUso x) (hn : n < 2 ^ 32) :
    ∃ fs' ok, truncarInodo fs x n = (fs', ok) ∧ Alterada fijo fs x fs'
      ∧ (Caben fs (leerInodo fs x).iSize n ∧ ok = true
          ∧ Trunca n (contenido fs (leerInodo fs x) 0 (leerInodo fs x).iSize)
            (contenido fs' (leerInodo fs' x) 0 (leerInodo fs' x).iSize)
        ∨ ¬ Caben fs (leerInodo fs x).iSize n ∧ ok = false
          ∧ contenido fs' (leerInodo fs' x) 0 (leerInodo fs' x).iSize
            = contenido fs (leerInodo fs x) 0 (leerInodo fs x).iSize)
      ∧ ∀ cache, n ≤ fs.bloquesDe x * fs.sb.blockSize → Fresca fs cache x → Fresca fs' cache x := by
  have hC := h.consistente
  have hlt := leerInodo_iSize_lt fs x
  have hbs := blockSize_pos fs.sb
  have hviejo := (cantBloques_cotas hbs (leerInodo fs x).iSize).1
  rw [Rfs.truncarInodo]
  rcases Nat.lt_trichotomy (leerInodo fs x).iSize n with hcrece | heq | hachica
  · rw [if_pos hcrece]
    obtain ⟨fs₁, inodo, ok, hr⟩ : ∃ a b c, truncarArriba fs (leerInodo fs x) n = (a, b, c) :=
      ⟨_, _, _, rfl⟩
    rw [hr]
    dsimp only
    cases ok with
    | false =>
        obtain ⟨hfaltan, ha, htam, hcont, hfresca⟩ := hC.deshecho h.inodos hx hn
          (Nat.le_of_lt hcrece) hr
        rw [if_neg Bool.false_ne_true, if_neg (by omega)]
        exact ⟨fs₁, false, rfl, ha, .inr ⟨hfaltan, rfl, hcont⟩, fun cache _ => hfresca cache⟩
    | true =>
        obtain ⟨hcaben, hext⟩ := hC.extendido hx hn (Nat.le_of_lt hcrece) hr
        have htam := hext.iSize
        have hq := hext.conserva.volcada hC h.inodos hx (htam.symm ▸ hext.enMano)
          (hext.enMano.cabe_inodo (by omega) hext.iMode hext.iLinksCount (leerInodo_cabe fs x))
          hext.iMode
        rw [if_pos rfl, if_neg (by omega)]
        refine ⟨_, true, rfl, hq.alterada, .inl ⟨hcaben, rfl, ?_⟩, fun cache hle =>
          hext.conserva.fresca (rango_bloquesDe fs x) ?_ hq cache⟩
        · exact hext.conserva.trunca (rango_bloquesDe fs x)
            (fun i hi _ => lt_of_lt_of_le hi hviejo) htam hq
        · rw [htam]
          exact ⟨Nat.le_of_not_lt fun hlt => Nat.not_le_of_lt (mul_lt_de_cantBloques hbs hlt) hle,
            Nat.le_refl _⟩
  · subst heq
    have hmano := hC.enMano hx
    have hq := (Conserva.refl fijo fs x (leerInodo fs x) (fs.bloquesDe x)).puesta hC h.inodos hx
      hmano (fun _ _ => rfl) rfl
    rw [if_neg (Nat.lt_irrefl _)]
    dsimp only
    rw [if_neg (Nat.lt_irrefl _), if_pos rfl, escribirInodo_leerInodo]
    exact ⟨fs, true, rfl, hq.alterada, .inl ⟨Nat.le_add_left _ _, rfl,
      (Conserva.refl ..).trunca (rango_bloquesDe fs x)
        (fun i hi _ => lt_of_lt_of_le hi hviejo) rfl hq⟩, fun _ _ hf => hf⟩
  · rw [if_neg (by omega)]
    dsimp only
    rw [if_pos hachica]
    obtain ⟨h₁, hc, htam, hmodo, hlinks, -⟩ := (hC.enMano hx).truncarAbajo hlt
      (Nat.le_of_lt hachica)
    obtain ⟨fs₁, inodo, hr⟩ : ∃ a b, truncarAbajo fs (leerInodo fs x) n = (a, b) := ⟨_, _, rfl⟩
    rw [hr] at h₁ hc htam hmodo hlinks ⊢
    dsimp only at h₁ hc htam hmodo hlinks ⊢
    have hq := hc.volcada hC h.inodos hx (htam.symm ▸ h₁)
      (h₁.cabe_inodo (by omega) hmodo hlinks (leerInodo_cabe fs x)) hmodo
    have hmenos := cantBloques_mono hbs (Nat.le_of_lt hachica)
    rw [if_pos rfl]
    refine ⟨_, true, rfl, hq.alterada, .inl ⟨?_, rfl, hc.trunca
      (enRango_cantBloques fs.sb hn) (fun i _ hi => ?_) htam hq⟩, fun cache _ =>
        hc.fresca (enRango_cantBloques fs.sb hn) ⟨htam ▸ Nat.le_refl _, hmenos⟩ hq cache⟩
    · exact Nat.le_trans (bloquesTotales_mono hmenos) (Nat.le_add_left _ _)
    · exact lt_of_lt_of_le hi (cantBloques_cotas hbs n).1

/-- **TRUNCATE**: with blocks for it, the request answers success and the file
    has the length; without, it answers `-1`.  Nothing is seen to change at any
    other path. -/
theorem Sistema.truncate (h : Sistema fijo fs) (hp : componentes path = q) {datos : List UInt8}
    (hv : Rfs.vista fs q = some (.archivo datos)) (hn : n < 2 ^ 32) : ∃ fs' r,
      procesarTruncate fs path n = some (fs', .result r) ∧ Sistema fijo fs'
      ∧ (Caben fs datos.length n ∧ r = 0 ∧ (∃ datos', Trunca n datos datos'
            ∧ Rfs.vista fs' = Function.update (Rfs.vista fs) q (some (.archivo datos')))
        ∨ ¬ Caben fs datos.length n ∧ r = -1 ∧ Rfs.vista fs' = Rfs.vista fs)
      ∧ ∀ cache, n ≤ cantBloques fs.sb.blockSize datos.length * fs.sb.blockSize →
        Frescos fs cache → Frescos fs' cache := by
  obtain ⟨x, hx, hreg, hq, rfl⟩ := h.archivo hv
  obtain ⟨hbuscar, hx0⟩ := h.buscar hp hq
  obtain ⟨fs', ok, heq, ha, hfin, hfresca⟩ := h.truncarInodo hx hn
  refine ⟨fs', if ok then 0 else -1, ?_, ha.sistema h hx hreg, ?_, fun cache hle hf => ?_⟩
  · rw [procesarTruncate, hbuscar]
    dsimp only [Option.bind_eq_bind, Option.bind_some]
    rw [if_neg hx0, heq]
  · rw [length_contenido, Nat.sub_zero]
    rcases hfin with ⟨hcaben, rfl, htrunca⟩ | ⟨hfaltan, rfl, hcont⟩
    · exact .inl ⟨hcaben, rfl, _, htrunca, ha.vista h hreg hq⟩
    · refine .inr ⟨hfaltan, rfl, ?_⟩
      rw [ha.vista h hreg hq, hcont, vista_igual hv]
  · rw [length_contenido, Nat.sub_zero] at hle
    exact ha.frescos_quieta hf (hfresca cache hle (hf x hx hreg))

end Alterar

end Rfs
