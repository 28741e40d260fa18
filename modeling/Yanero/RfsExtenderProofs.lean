import Yanero.RfsCrearProofs
import Yanero.RfsPedidos

/-! # The content of a truncated file

    `procesarTruncate` keeps the bytes up to the new length.  Past the old end
    nothing is written: a longer file shows the bytes that its last block had
    there, and then those of the blocks it takes, which were free and hold what
    their last owner left (`procesarTruncate_contenido`). -/

namespace Rfs

open Arboles Palabras

section Extender

variable {fijo : Nat → Prop} {fs fs' fs₁ : Ext2} {x n m : Nat} {inodo inodo' inodo₁ : Inode}

/-- The byte `i` of a file that grew from `fs` to `fs'`, as the disk had it
    before: in a block of the file, or in the block that is now at its index. -/
def expuesto (fs fs' : Ext2) (x i : Nat) : UInt8 :=
  if i < fs.bloquesDe x * fs.sb.blockSize then byteDe fs (leerInodo fs x) i
  else fs.disco (hojaDe fs' (leerInodo fs' x) (i / fs.sb.blockSize) * fs.sb.blockSize
    + i % fs.sb.blockSize)

/-- What a truncation of `x` to `n` bytes leaves. -/
structure Truncada (fijo : Nat → Prop) (fs : Ext2) (x n : Nat) (fs' : Ext2) : Prop where
  consistente : Consistente fijo fs'
  enUso : fs'.EnUso = fs.EnUso
  iSize : (leerInodo fs' x).iSize = n
  bytes : ∀ i, i < n → byteDe fs' (leerInodo fs' x) i = expuesto fs fs' x i
  tomados : ∀ m, fs.bloquesDe x ≤ m → m < fs'.bloquesDe x →
    fs.sb.enVolumen (hojaDe fs' (leerInodo fs' x) m)
      ∧ fs.bitBloque (hojaDe fs' (leerInodo fs' x) m) = false

/-- A block of the file that it did not have was free. -/
theorem Conserva.hoja_libre (h : EnMano fijo fs x inodo n)
    (hc : Conserva fijo fs x inodo n fs' inodo') {n' : Nat} (h' : EnMano fijo fs' x inodo' n')
    (hn' : EnRango fs.sb n') (hm : n ≤ m) (hm' : m < n') :
    fs.sb.enVolumen (hojaDe fs' inodo' m) ∧ fs.bitBloque (hojaDe fs' inodo' m) = false := by
  have hmis := hc.guarda.mismo
  have hrango : EnRango fs'.sb n' := fun i hi => by
    rw [hmis.blockSize]
    exact hn' i hi
  obtain ⟨hvol, hfijo⟩ := h'.dato_hoja hrango hm'
  obtain ⟨hv', -, hprim⟩ := camino_hoja hrango hm'
  rw [hmis.enVolumen] at hvol
  refine ⟨hvol, ?_⟩
  by_contra hbit
  rcases (h.reparto.bits _ hvol).mp (by simpa using hbit) with hf | ⟨y, k, ps, hy, hv, heq⟩
  · exact hfijo hf
  · by_cases hyx : y = x
    · subst hyx
      rw [Function.update_self] at hv heq
      have hsitio := hc.propio k ps hv
      obtain ⟨rfl, rfl⟩ := h'.distintos (k := k) (by
        rw [hmis.esquema]
        exact hv.mono (by omega)) hv' (hsitio.trans heq)
      have hantes := hv.antes
      rw [← hmis.esquema, hprim] at hantes
      omega
    · rw [Function.update_of_ne hyx] at hv heq
      have hes : fs.sb.esInodo y := ⟨hy.1, hy.2.1⟩
      have hy' : fs'.EnUso y := by
        rw [hc.guarda.enUso h.geometria]
        exact hy
      have hvy : Vivo (esquema fs'.sb) (fs'.bloquesDe y) k ps := by
        rwa [hmis.esquema, hc.guarda.bloquesDe h.geometria hes]
      refine h'.ajeno_ne_hoja hrango hy' hyx hvy hm' ?_
      rw [nodo_raices ((hc.guarda.leerInodo h.geometria hes).iBlock k hv.valido.raiz),
        hc.ajeno y hy hyx k ps hv, heq]

/-- A growth does not write the data blocks. -/
theorem EnMano.truncarArriba_hoja
    (h : EnMano fijo fs x inodo (cantBloques fs.sb.blockSize inodo.iSize))
    (hn : n < 2 ^ 32) (hle : inodo.iSize ≤ n)
    (hr : Rfs.truncarArriba fs inodo n = (fs₁, inodo₁, true))
    (h₁ : EnMano fijo fs₁ x inodo₁ (cantBloques fs.sb.blockSize n)) (hmis : Mismo fs fs₁)
    (hm : m < cantBloques fs.sb.blockSize n) {r : Nat} (hr' : r < fs.sb.blockSize) :
    fs₁.disco (hojaDe fs₁ inodo₁ m * fs.sb.blockSize + r)
      = fs.disco (hojaDe fs₁ inodo₁ m * fs.sb.blockSize + r) := by
  have hrango : EnRango fs₁.sb (cantBloques fs.sb.blockSize n) := by
    rw [← hmis.blockSize]
    exact enRango_cantBloques fs₁.sb hn
  refine h.truncarArriba_fuera hn hle hr ⟨fun g hg => ?_, fun k ps hv hl => ?_⟩
  · rw [hmis.blockSize, bloque_de hr']
    intro heq
    exact (h₁.dato_hoja hrango hm).2 (heq ▸ (h₁.geometria.bitmapFijo g hg).2)
  · rw [hmis.blockSize, bloque_de hr']
    exact (h₁.puntero_ne_hoja hrango hv hl hm).symm

theorem Volcado.hojaDe (h : Volcado fijo fs x inodo n fs') (hn : EnRango fs.sb n)
    (hmis : Mismo fs fs') (hm : m < n) :
    hojaDe fs' (leerInodo fs' x) m = hojaDe fs inodo m := by
  rw [hojaDe_igual fs' h.igual.iBlock, Rfs.hojaDe, Rfs.hojaDe, hmis.cantPunteros]
  exact h.sitios _ _ (camino_hoja hn hm).1

/-- A file of `n` bytes in memory, written back. -/
theorem EnMano.truncada (hg : Guarda fijo fs fs₁) (hG : Geometria fijo fs)
    (h₁ : EnMano fijo fs₁ x inodo₁ (cantBloques fs.sb.blockSize n)) (hn : n < 2 ^ 32)
    (htam : inodo₁.iSize = n) (hmodo : inodo₁.iMode = (leerInodo fs x).iMode)
    (hlinks : inodo₁.iLinksCount = (leerInodo fs x).iLinksCount)
    (hbytes : ∀ i, i < n → byteDe fs₁ inodo₁ i =
      if i < fs.bloquesDe x * fs.sb.blockSize then byteDe fs (leerInodo fs x) i
      else fs.disco (hojaDe fs₁ inodo₁ (i / fs.sb.blockSize) * fs.sb.blockSize
        + i % fs.sb.blockSize))
    (htomados : ∀ m, fs.bloquesDe x ≤ m → m < cantBloques fs.sb.blockSize n →
      fs.sb.enVolumen (hojaDe fs₁ inodo₁ m) ∧ fs.bitBloque (hojaDe fs₁ inodo₁ m) = false) :
    Truncada fijo fs x n (escribirInodo fs₁ x inodo₁) := by
  have hmis := hg.mismo
  have hbs := blockSize_pos fs.sb
  have hrango : EnRango fs₁.sb (cantBloques fs.sb.blockSize n) := by
    rw [← hmis.blockSize]
    exact enRango_cantBloques fs₁.sb hn
  have hes₁ : fs₁.sb.esInodo x := ⟨h₁.enUso.1, h₁.enUso.2.1⟩
  have hvol := h₁.volcado hrango (by rw [htam, hmis.blockSize])
    (h₁.cabe_inodo (htam ▸ hn) hmodo hlinks (leerInodo_cabe fs x))
  have hsolo := soloBloque_escribirInodo h₁.geometria hes₁ inodo₁
  have huso := hsolo.enUso h₁.geometria fun g hg => h₁.geometria.tabla_no_bitmap hes₁ hg
  obtain ⟨fs', hfs'⟩ : ∃ fs', escribirInodo fs₁ x inodo₁ = fs' := ⟨_, rfl⟩
  rw [hfs'] at hvol hsolo huso ⊢
  have hhoja : ∀ m, m < cantBloques fs.sb.blockSize n →
      hojaDe fs' (leerInodo fs' x) m = hojaDe fs₁ inodo₁ m := fun m hm =>
    hvol.hojaDe hrango hsolo.mismo hm
  refine ⟨hvol.consistente, huso.trans (hg.enUso hG), hvol.igual.iSize.trans htam,
    fun i hi => ?_, fun m hm hm' => ?_⟩
  · have htope : i < cantBloques fs.sb.blockSize n * fs.sb.blockSize :=
      lt_of_lt_of_le hi ((cantBloques_cotas hbs n).1)
    have hq : i / fs.sb.blockSize < cantBloques fs.sb.blockSize n :=
      Nat.div_lt_of_lt_mul (by rwa [Nat.mul_comm])
    rw [byteDe_igual fs' hvol.igual.iBlock, hvol.bytes i (by rwa [hmis.blockSize]), hbytes i hi,
      expuesto, hhoja _ hq]
  · have hcant : fs'.bloquesDe x = cantBloques fs.sb.blockSize n := by
      rw [Ext2.bloquesDe, hvol.igual.iSize, htam, hsolo.sb, hmis.blockSize]
    rw [hcant] at hm'
    rw [hhoja m hm']
    exact htomados m hm hm'

/-- **TO A SHORTER LENGTH** the bytes that stay are the first ones. -/
theorem Consistente.abajo_truncada (h : Consistente fijo fs) (hx : fs.EnUso x)
    (hle : n ≤ (leerInodo fs x).iSize) (hr : truncarAbajo fs (leerInodo fs x) n = (fs₁, inodo₁)) :
    Truncada fijo fs x n (escribirInodo fs₁ x inodo₁) := by
  have hlt := leerInodo_iSize_lt fs x
  have hbs := blockSize_pos fs.sb
  have hcant : cantBloques fs.sb.blockSize n ≤ fs.bloquesDe x := cantBloques_mono hbs hle
  obtain ⟨h₁, hcons, htam, hmodo, hlinks, -⟩ := (h.enMano hx).truncarAbajo hlt hle
  rw [hr] at h₁ hcons htam hmodo hlinks
  have hrango : EnRango fs.sb (cantBloques fs.sb.blockSize n) := enRango_cantBloques fs.sb
    (by omega)
  refine EnMano.truncada hcons.guarda h.geometria h₁ (by omega) htam hmodo hlinks
    (fun i hi => ?_) fun m hm hm' => absurd hm' (by omega)
  have htope : i < cantBloques fs.sb.blockSize n * fs.sb.blockSize :=
    lt_of_lt_of_le hi ((cantBloques_cotas hbs n).1)
  rw [if_pos (lt_of_lt_of_le htope (Nat.mul_le_mul_right _ hcant)), hcons.byteDe hrango htope]

/-- **TO A LONGER LENGTH** the bytes past the end are those on the disk. -/
theorem Consistente.arriba_truncada (h : Consistente fijo fs) (hx : fs.EnUso x) (hn : n < 2 ^ 32)
    (hle : (leerInodo fs x).iSize ≤ n)
    (hr : truncarArriba fs (leerInodo fs x) n = (fs₁, inodo₁, true)) :
    Truncada fijo fs x n (escribirInodo fs₁ x inodo₁) := by
  have hbs := blockSize_pos fs.sb
  have hmano := h.enMano hx
  have hext : Extendido fijo fs x (leerInodo fs x) n fs₁ inodo₁ := by
    rcases hmano.truncarArriba hn hle with ⟨-, -, hext⟩ | ⟨-, hno, -⟩
    · rwa [hr] at hext
    · rw [hr] at hno
      cases hno
  have hcons := hext.conserva
  have hmis := hcons.guarda.mismo
  have hrango : EnRango fs.sb (fs.bloquesDe x) := enRango_cantBloques fs.sb
    (leerInodo_iSize_lt fs x)
  refine EnMano.truncada hcons.guarda h.geometria hext.enMano hn hext.iSize hext.iMode
    hext.iLinksCount (fun i hi => ?_) fun m hm hm' => ?_
  · have hq : i / fs.sb.blockSize < cantBloques fs.sb.blockSize n :=
      Nat.div_lt_of_lt_mul (by
        rw [Nat.mul_comm]
        exact lt_of_lt_of_le hi ((cantBloques_cotas hbs n).1))
    split
    case isTrue hviejo => exact hcons.byteDe hrango hviejo
    case isFalse =>
      rw [byteDe, hmis.blockSize]
      exact hmano.truncarArriba_hoja hn hle hr hext.enMano hmis hq (Nat.mod_lt i hbs)
  · exact hcons.hoja_libre hmano hext.enMano (enRango_cantBloques fs.sb hn) hm hm'

/-- The content of a truncated file: what stays of the old one, and what was
    on the disk. -/
theorem Truncada.contenido (h : Truncada fijo fs x n fs') :
    contenido fs' (leerInodo fs' x) 0 n
      = (Rfs.contenido fs (leerInodo fs x) 0 (leerInodo fs x).iSize).take n
        ++ (List.range' (leerInodo fs x).iSize (n - (leerInodo fs x).iSize)).map
          (expuesto fs fs' x) := by
  have hcota : (leerInodo fs x).iSize ≤ fs.bloquesDe x * fs.sb.blockSize :=
    (cantBloques_cotas (blockSize_pos fs.sb) (leerInodo fs x).iSize).1
  have hviejo : ∀ b, b ≤ (leerInodo fs x).iSize → b ≤ n →
      Rfs.contenido fs' (leerInodo fs' x) 0 b = Rfs.contenido fs (leerInodo fs x) 0 b := by
    intro b hb hbn
    refine List.map_congr_left fun i hi => ?_
    have hib : i < b := by simpa using hi
    rw [h.bytes i (by omega), expuesto, if_pos (by omega)]
  rcases Nat.le_total n (leerInodo fs x).iSize with hle | hge
  · have hsacar := @sacar_contenido fs (leerInodo fs x) 0 0 n (leerInodo fs x).iSize
      (Nat.le_refl 0) (Nat.zero_le n) hle
    rw [hviejo n hle (Nat.le_refl n), ← hsacar, Nat.sub_eq_zero_of_le hle, List.range'_zero,
      List.map_nil, List.append_nil]
    rfl
  · rw [List.take_of_length_le (by rwa [length_contenido, Nat.sub_zero]),
      ← hviejo _ (Nat.le_refl _) hge, ← contenido_append (Nat.zero_le _) hge]
    refine congrArg (_ ++ ·) (List.map_congr_left fun i hi => h.bytes i ?_)
    have := List.mem_range'_1.mp hi
    omega

theorem procesarTruncate_truncada {path : List UInt8} (h : Consistente fijo fs)
    (hp : buscarPath fs path = some x) (hx : fs.EnUso x) (hn : n < 2 ^ 32)
    (hr : procesarTruncate fs path n = some (fs', .result 0)) : Truncada fijo fs x n fs' := by
  have hx0 : x ≠ 0 := Nat.pos_iff_ne_zero.mp hx.1
  simp only [procesarTruncate, hp, Option.bind_eq_bind, Option.bind_some, if_neg hx0,
    Option.some.injEq, Prod.mk.injEq] at hr
  obtain ⟨hfs, hok⟩ := hr
  have hpudo : (truncarInodo fs x n).2 = true := by
    cases hv : (truncarInodo fs x n).2 with
    | true => rfl
    | false =>
        rw [hv] at hok
        cases hok
  rw [truncarInodo] at hfs hpudo
  rcases Nat.lt_trichotomy (leerInodo fs x).iSize n with hlt | heq | hgt
  · rw [if_pos hlt] at hfs hpudo
    rcases hta : truncarArriba fs (leerInodo fs x) n with ⟨fs₁, inodo₁, pudo⟩
    rw [hta] at hfs hpudo
    obtain rfl : pudo = true := hpudo
    have htam : inodo₁.iSize = n := by
      rcases (h.enMano hx).truncarArriba hn (Nat.le_of_lt hlt) with ⟨-, -, hext⟩ | ⟨-, hno, -⟩
      · rw [hta] at hext
        exact hext.iSize
      · rw [hta] at hno
        cases hno
    dsimp only at hfs
    rw [if_pos rfl, if_neg (by omega)] at hfs
    rw [← hfs]
    exact h.arriba_truncada hx hn (Nat.le_of_lt hlt) hta
  · -- the same length: the inode is written as it was read
    rw [if_neg (by omega)] at hfs
    dsimp only at hfs
    rw [if_pos rfl, if_neg (by omega)] at hfs
    rw [← hfs]
    have hmano := h.enMano hx
    refine EnMano.truncada (Guarda.refl fijo fs) h.geometria ?_ hn heq rfl rfl (fun i hi => ?_)
      fun m hm hm' => ?_
    · rw [← heq]
      exact hmano
    · rw [if_pos]
      exact lt_of_lt_of_le (heq ▸ hi) (cantBloques_cotas (blockSize_pos fs.sb) _).1
    · rw [← heq] at hm'
      exact absurd hm' (Nat.not_lt_of_le hm)
  · rw [if_neg (by omega)] at hfs hpudo
    dsimp only at hfs hpudo
    rw [if_pos rfl, if_pos hgt] at hfs
    rw [← hfs]
    exact h.abajo_truncada hx (Nat.le_of_lt hgt) Prod.mk.eta.symm

/-- **TRUNCATE**: a successful answer leaves the first bytes of the file, and
    past its old end the bytes that its last block and the blocks taken, which
    were free, had on the disk. -/
theorem procesarTruncate_contenido {path : List UInt8} (h : Consistente fijo fs)
    (hp : buscarPath fs path = some x) (hx : fs.EnUso x) (hn : n < 2 ^ 32)
    (hr : procesarTruncate fs path n = some (fs', .result 0)) :
    Truncada fijo fs x n fs' ∧ contenido fs' (leerInodo fs' x) 0 n
      = (contenido fs (leerInodo fs x) 0 (leerInodo fs x).iSize).take n
        ++ (List.range' (leerInodo fs x).iSize (n - (leerInodo fs x).iSize)).map
          (expuesto fs fs' x) :=
  have htr := procesarTruncate_truncada h hp hx hn hr
  ⟨htr, htr.contenido⟩

end Extender

/-! ## A byte that comes back -/

/-- The root, inode 2, has one entry `f`, inode 3: a regular file with the bytes
    65 and 66.  No block is free. -/
def imagenArchivo : Ext2 where
  disco := fun o => ((
    [(3072, 0x7F), (4096, 6), (5248, 0xED), (5249, 0x41), (5253, 4), (5288, 6), (5376, 0xA4),
      (5377, 0x81), (5380, 2), (5416, 7), (6144, 3), (6149, 4), (6150, 1), (6152, 102),
      (7168, 65), (7169, 66)].find? fun p => p.1 == o).map Prod.snd).getD 0
  sb := ⟨8, 8, 0, 6, 1, 0, 8, 8⟩
  bgdt := [{ bgBlockBitmap := 3, bgInodeBitmap := 4, bgInodeTable := 5, bgFreeBlocksCount := 0,
             bgFreeInodesCount := 6 }]

/-- Without block 6, which is not of the metadata. -/
theorem geometria_cinco : Geometria (· ≤ 5) imagenChica := geometria_chica (Nat.le_refl 5)

theorem consistente_imagenArchivo : Consistente (· ≤ 5) imagenArchivo := by
  have hm : Mismo imagenChica imagenArchivo := by
    refine ⟨rfl, rfl, fun g => ?_⟩
    cases g with
    | zero => rfl
    | succ g => rfl
  exact ArchivosChicos.consistente (by decide) (hm.geometria geometria_cinco)

theorem enUso_imagenArchivo : imagenArchivo.EnUso 3 := by decide

/-- The path `/f`. -/
def pathF : List UInt8 := [47, 102]

theorem buscarPath_imagenArchivo : buscarPath imagenArchivo pathF = some 3 := by decide

/-- The same file on a disk with sixteen free blocks, 8 to 23; block 20 has a
    byte of an older file. -/
def imagenHuecos : Ext2 where
  disco := fun o => if o = 20480 then 88 else imagenArchivo.disco o
  sb := ⟨8, 24, 16, 6, 1, 0, 24, 8⟩
  bgdt := [{ bgBlockBitmap := 3, bgInodeBitmap := 4, bgInodeTable := 5, bgFreeBlocksCount := 16,
             bgFreeInodesCount := 6 }]

theorem consistente_imagenHuecos : Consistente (· ≤ 5) imagenHuecos := by
  have hm : Mismo imagenAmplia imagenHuecos := by
    refine ⟨rfl, rfl, fun g => ?_⟩
    cases g with
    | zero => rfl
    | succ g => rfl
  exact ArchivosChicos.consistente (by decide) (hm.geometria (geometria_amplia (Nat.le_refl 5)))

/-- The file keeps its two bytes and grows to thirteen blocks.  What it shows past
    them is the rest of its block, and behind the indirect block the old byte. -/
theorem procesarTruncate_contenido_crece : ∃ fs', procesarTruncate imagenHuecos pathF 13312
      = some (fs', .result 0) ∧ Truncada (· ≤ 5) imagenHuecos 3 13312 fs'
    ∧ contenido fs' (leerInodo fs' 3) 0 13312
      = [65, 66] ++ (List.range' 2 13310).map (expuesto imagenHuecos fs' 3)
    ∧ expuesto imagenHuecos fs' 3 2 = 0 ∧ expuesto imagenHuecos fs' 3 12288 = 88 := by
  have hver : (procesarTruncate imagenHuecos pathF 13312).map (fun r =>
      (r.2, expuesto imagenHuecos r.1 3 2, expuesto imagenHuecos r.1 3 12288))
      = some (.result 0, 0, 88) := by decide +kernel
  have hant : contenido imagenHuecos (leerInodo imagenHuecos 3) 0 (leerInodo imagenHuecos 3).iSize
      = [65, 66] ∧ (leerInodo imagenHuecos 3).iSize = 2 := by decide
  have hpath : buscarPath imagenHuecos pathF = some 3 := by decide
  have huso : imagenHuecos.EnUso 3 := by decide
  obtain ⟨⟨fs', r⟩, hr, heq⟩ := Option.map_eq_some_iff.mp hver
  obtain ⟨rfl, hexp⟩ := Prod.mk.inj heq
  obtain ⟨hcero, hviejo⟩ := Prod.mk.inj hexp
  obtain ⟨htr, hcon⟩ := procesarTruncate_contenido consistente_imagenHuecos hpath huso
    (by decide) hr
  rw [hant.1, hant.2] at hcon
  exact ⟨fs', hr, htr, hcon, hcero, hviejo⟩

/-- **THE BYTE COMES BACK**: the file is cut to one byte and made of two again,
    and the second one is the old one, not a zero. -/
theorem procesarTruncate_revive : Consistente (· ≤ 5) imagenArchivo ∧ imagenArchivo.EnUso 3
    ∧ ∃ fs₁ fs₂, procesarTruncate imagenArchivo pathF 1 = some (fs₁, .result 0)
      ∧ Consistente (· ≤ 5) fs₁ ∧ contenido fs₁ (leerInodo fs₁ 3) 0 (leerInodo fs₁ 3).iSize = [65]
      ∧ procesarTruncate fs₁ pathF 2 = some (fs₂, .result 0)
      ∧ contenido fs₂ (leerInodo fs₂ 3) 0 2 = [65, 66] := by
  have hver : ((procesarTruncate imagenArchivo pathF 1).bind fun r₁ =>
      (procesarTruncate r₁.1 pathF 2).map fun r₂ =>
        (r₁.2, contenido r₁.1 (leerInodo r₁.1 3) 0 (leerInodo r₁.1 3).iSize,
          r₂.2, contenido r₂.1 (leerInodo r₂.1 3) 0 2))
      = some (.result 0, [65], .result 0, [65, 66]) := by decide
  obtain ⟨⟨fs₁, res₁⟩, h1, hver⟩ := Option.bind_eq_some_iff.mp hver
  obtain ⟨⟨fs₂, res₂⟩, h2, heq⟩ := Option.map_eq_some_iff.mp hver
  obtain ⟨rfl, heq⟩ := Prod.mk.inj heq
  obtain ⟨hcon₁, heq⟩ := Prod.mk.inj heq
  obtain ⟨rfl, hcon₂⟩ := Prod.mk.inj heq
  exact ⟨consistente_imagenArchivo, enUso_imagenArchivo, fs₁, fs₂, h1,
    (procesarTruncate_truncada consistente_imagenArchivo buscarPath_imagenArchivo
      enUso_imagenArchivo (by decide) h1).consistente, hcon₁, h2, hcon₂⟩

end Rfs
