import Yanero.RfsEscribirProofs
import Yanero.RfsLeerProofs
import Yanero.RfsUnlinkProofs

/-! # The cache of blocks

    A read uploads the blocks that it did not find in the cache, and a write the
    `block_size` bytes from where it wrote.  So a read keeps what the cache has of
    any block up to date, and so does a write that starts at the first byte of a
    block, which leaves what it wrote up to date as well
    (`EnMano.escribirRango_subida`).  A write that starts inside a block uploads
    the bytes of a displaced window, and says nothing here. -/

namespace Rfs

open Arboles Palabras

/-- What the cache holds of a block, if anything, are its bytes. -/
def AlDia (fs : Ext2) (cache : Cache) (b : Nat) : Prop :=
  ∀ l, cache b = some l → l = Bytes.leer fs.disco (b * fs.sb.blockSize) fs.sb.blockSize

/-- What the cache holds of the blocks of an inode are their bytes. -/
def Fresca (fs : Ext2) (cache : Cache) (x : Nat) : Prop :=
  ∀ m, m < fs.bloquesDe x → AlDia fs cache (hojaDe fs (leerInodo fs x) m)

/-- What the cache holds of the blocks of the regular files are their bytes. -/
def Frescos (fs : Ext2) (cache : Cache) : Prop :=
  ∀ x, fs.EnUso x → EsRegular fs x → Fresca fs cache x

section Cache

variable {fijo : Nat → Prop} {fs fs' : Ext2} {x y n a m b cant size : Nat} {inodo inodo' : Inode}
  {cache cache' : Cache} {buf : List UInt8} {e : Escritura}

/-- The bytes of a block are up to date as long as they and the cache stay. -/
theorem AlDia.congr (h : AlDia fs cache b) (hsb : fs'.sb.blockSize = fs.sb.blockSize)
    (hdisco : ∀ o, o / fs.sb.blockSize = b → fs'.disco o = fs.disco o)
    (hcache : cache' b = cache b) :
    AlDia fs' cache' b := by
  intro l hl
  rw [hcache] at hl
  rw [h l hl, Bytes.leer, Bytes.leer, hsb]
  refine List.map_congr_left fun i hi => (hdisco _ ?_).symm
  exact bloque_de (List.mem_range.mp hi)

/-- A block of a file that has the same bytes at another place of an image. -/
theorem AlDia.hoja (h : AlDia fs cache (hojaDe fs inodo m))
    (hsb : fs'.sb.blockSize = fs.sb.blockSize) (hhoja : hojaDe fs' inodo' m = hojaDe fs inodo m)
    (hbytes : ∀ i, i < (m + 1) * fs.sb.blockSize → byteDe fs' inodo' i = byteDe fs inodo i) :
    AlDia fs' cache (hojaDe fs' inodo' m) := by
  intro l hl
  rw [hhoja] at hl
  rw [h l hl, leer_hoja, leer_hoja, hsb]
  refine List.map_congr_left fun i hi => (hbytes i ?_).symm
  have hi' := List.mem_range'_1.mp hi
  have := Nat.mul_le_mul_right fs.sb.blockSize (Nat.le_succ m)
  omega

/-- A block of a file that stays. -/
theorem Intacto.alDia (hi : Intacto fs fs' y) (hm : m < fs.bloquesDe y)
    (h : AlDia fs cache (hojaDe fs (leerInodo fs y) m)) :
    AlDia fs' cache (hojaDe fs' (leerInodo fs' y) m) :=
  h.hoja hi.blockSize (hi.hojas hm) fun i hlt =>
    hi.bytes i (lt_of_lt_of_le hlt (Nat.mul_le_mul_right _ hm))

theorem Intacto.fresca (hi : Intacto fs fs' y) (h : Fresca fs cache y) : Fresca fs' cache y := by
  intro m hm
  rw [hi.bloquesDe] at hm
  exact hi.alDia hm (h m hm)

/-- The files that are there have no blocks, or are files that stay. -/
theorem Frescos.tras (hf : Frescos fs cache) (h : ∀ y, fs'.EnUso y → EsRegular fs' y →
    fs'.bloquesDe y = 0 ∨ fs.EnUso y ∧ EsRegular fs y ∧ Intacto fs fs' y) : Frescos fs' cache := by
  intro y hy hr
  rcases h y hy hr with hcero | ⟨hu, hreg, hi⟩
  · intro m hm
    omega
  · exact hi.fresca (hf y hu hreg)

/-- The first blocks of a file in memory that stay. -/
theorem Conserva.hojas (hc : Conserva fijo fs x inodo n fs' inodo') (hn : EnRango fs.sb n)
    (hm : m < n) : hojaDe fs' inodo' m = hojaDe fs inodo m := by
  rw [hojaDe, hojaDe, hc.guarda.mismo.cantPunteros]
  exact hc.propio _ _ (camino_hoja hn hm).1

theorem Conserva.alDia (hc : Conserva fijo fs x inodo n fs' inodo') (hn : EnRango fs.sb n)
    (hm : m < n) (h : AlDia fs cache (hojaDe fs inodo m)) : AlDia fs' cache (hojaDe fs' inodo' m) :=
  h.hoja hc.guarda.mismo.blockSize (hc.hojas hn hm) fun _ hlt =>
    hc.byteDe hn (lt_of_lt_of_le hlt (Nat.mul_le_mul_right _ hm))

/-! ## One upload -/

/-- The length of the bytes of a block fits the `uint16_t`. -/
theorem subir_leer {disco : Nat → UInt8} {o bs c : Nat} (hbs : bs < 2 ^ 16) :
    cacheSubirInfoServer cache b (Bytes.leer disco o bs) c
      = if c = b then some (Bytes.leer disco o bs) else cache c := by
  rw [cacheSubirInfoServer, Bytes.length_leer, Nat.mod_eq_of_lt (show bs < 65536 from hbs),
    List.take_of_length_le (by rw [Bytes.length_leer])]

/-- The bytes of a block of the volume. -/
theorem Geometria.offsetBloque (hG : Geometria fijo fs) (hb : fs.sb.enVolumen b) :
    offsetBloque fs b 0 = b * fs.sb.blockSize :=
  u32_eq (hG.bytes_lt hb (blockSize_pos fs.sb))

/-! ## A read -/

/-- **THE LOOP OF A READ** keeps what it finds up to date. -/
theorem leerBloques_alDia (hbs : fs.sb.blockSize < 2 ^ 16) : ∀ (cant n i : Nat)
    {cache cache' : Cache}
    {b₀ b₁ : List UInt8}, (∀ m, n ≤ m → m < n + cant → Legible fs inodo m) →
    leerBloques fs inodo cant n i cache b₀ = some (cache', b₁) → AlDia fs cache b →
    AlDia fs cache' b := by
  intro cant
  induction cant with
  | zero =>
      intro n i cache cache' b₀ b₁ _ h hb
      obtain ⟨rfl, -⟩ := Prod.mk.inj (Option.some.inj h)
      exact hb
  | succ cant ih =>
      intro n i cache cache' b₀ b₁ hleg h hb
      have hl := hleg n (Nat.le_refl n) (by omega)
      rw [leerBloques] at h
      dsimp only at h
      rw [hl.leerBloque] at h
      cases hc : cache (hojaDe fs inodo n) with
      | none =>
          rw [hc, hl.lugar] at h
          obtain ⟨b₂, -, h⟩ := Option.bind_eq_some_iff.mp h
          refine ih (n + 1) (i + 1) (fun m h1 h2 => hleg m (by omega) (by omega)) h fun l hl => ?_
          rw [subir_leer hbs] at hl
          split at hl
          case isTrue heq => rw [heq, ← Option.some.inj hl]
          case isFalse => exact hb l hl
      | some lect =>
          rw [hc] at h
          obtain ⟨datos, -, h⟩ := Option.bind_eq_some_iff.mp h
          obtain ⟨b₂, -, h⟩ := Option.bind_eq_some_iff.mp h
          exact ih (n + 1) (i + 1) (fun m h1 h2 => hleg m (by omega) (by omega)) h hb

theorem leerArchivo_alDia (hbs : fs.sb.blockSize < 2 ^ 16) {basura : Nat → UInt8} {off : Nat}
    {l : List UInt8} (hleg : ∀ m, off / fs.sb.blockSize ≤ m →
      m < off / fs.sb.blockSize + cantBloques fs.sb.blockSize size → Legible fs inodo m)
    (h : leerArchivo basura fs cache inodo off size = some (cache', l)) (hb : AlDia fs cache b) :
    AlDia fs cache' b := by
  obtain ⟨⟨c, b₁⟩, hbloques, h⟩ := Option.bind_eq_some_iff.mp h
  obtain ⟨l', -, h⟩ := Option.bind_eq_some_iff.mp h
  obtain ⟨rfl, -⟩ := Prod.mk.inj (Option.some.inj h)
  exact leerBloques_alDia hbs _ _ 0 hleg hbloques hb

/-! ## A write -/

/-- One part of a write, from the first byte of a block on: the block is up to
    date, and the others are as they were. -/
structure Parte (e e' : Escritura) (b : Nat) : Prop where
  sb : e'.fs.sb = e.fs.sb
  alDia : e.fs.sb.enVolumen b → AlDia e'.fs e'.cache b
  cache : ∀ c, c ≠ b → e'.cache c = e.cache c
  disco : ∀ o, o / e.fs.sb.blockSize ≠ b → e'.fs.disco o = e.fs.disco o

theorem Escritura.parte_parte (hG : Geometria fijo e.fs) (hbs : e.fs.sb.blockSize < 2 ^ 16)
    (hcant : cant ≤ e.fs.sb.blockSize)
    (hvol : cant = 0 ∨ e.fs.sb.enVolumen (leerBloque e.fs e.nroBloqueComienzo inodo)) :
    Parte e (e.parte inodo 0 cant) (leerBloque e.fs e.nroBloqueComienzo inodo) := by
  obtain ⟨b, hb⟩ : ∃ b, leerBloque e.fs e.nroBloqueComienzo inodo = b := ⟨_, rfl⟩
  have hcache : ∀ c, (e.parte inodo 0 cant).cache c = if c = b
      then some (Bytes.leer (e.parte inodo 0 cant).fs.disco (offsetBloque e.fs b 0)
        e.fs.sb.blockSize) else e.cache c := by
    intro c
    rw [← hb]
    exact subir_leer hbs
  rw [hb] at hvol ⊢
  refine ⟨rfl, fun hb' l hl => ?_, fun c hc => ?_, fun o ho => ?_⟩
  · rw [hcache, if_pos rfl, hG.offsetBloque hb'] at hl
    exact (Option.some.inj hl).symm
  · rw [hcache, if_neg hc]
  · show Bytes.escribir e.fs.disco (offsetBloque e.fs (leerBloque e.fs e.nroBloqueComienzo inodo) 0)
      (e.buf.take cant) o = e.fs.disco o
    rcases hvol with rfl | hvol
    · rw [List.take_zero, Bytes.escribir_nil]
    · rw [hb, hG.offsetBloque hvol]
      refine if_neg fun hin => ho ?_
      have hlen := List.length_take_le cant e.buf
      obtain ⟨r, rfl⟩ := Nat.exists_eq_add_of_le hin.1
      exact bloque_de (by omega)

/-- A block that was up to date is. -/
theorem Parte.sigue {e' : Escritura} (hp : Parte e e' b) {c : Nat} (hc : e.fs.sb.enVolumen c)
    (h : AlDia e.fs e.cache c) : AlDia e'.fs e'.cache c := by
  by_cases hcb : c = b
  · subst hcb
    exact hp.alDia hc
  · exact h.congr (by rw [hp.sb]) (fun o ho => hp.disco o (ho ▸ hcb)) (hp.cache c hcb)

/-- What the cache has after a part of a write from block index `a / block_size`
    on: the blocks written are up to date, and so is any other one, unless it and
    what the cache has of it are as they were. -/
structure Subida (fs : Ext2) (cache : Cache) (inodo : Inode) (a : Nat) (e : Escritura) : Prop where
  escritos : ∀ m, a ≤ m * fs.sb.blockSize → m * fs.sb.blockSize < a + e.cantEscrita →
    AlDia e.fs e.cache (hojaDe fs inodo m)
  otros : ∀ b, fs.sb.enVolumen b → AlDia e.fs e.cache b
    ∨ e.cache b = cache b ∧ ∀ o, o / fs.sb.blockSize = b → e.fs.disco o = fs.disco o

/-- **ONE PART** uploads what it wrote. -/
theorem Subida.parte (hm : EnMano fijo fs x inodo n) (hn : EnRango fs.sb n)
    (hbs : fs.sb.blockSize < 2 ^ 16) (h : EnCurso fijo fs x inodo n a size buf e)
    (hs : Subida fs cache inodo a e)
    (hpos : a + e.cantEscrita = e.nroBloqueComienzo * fs.sb.blockSize)
    (hcant : cant ≤ e.size) (hcabe : cant ≤ fs.sb.blockSize) :
    Subida fs cache inodo a (e.parte inodo 0 cant) := by
  have hsb := h.puesto.solo.sb
  have hbs' : e.fs.sb.blockSize = fs.sb.blockSize := by rw [hsb]
  have hG := h.puesto.enMano.geometria
  -- the block of the part, when there is something to write
  have hblo : cant ≠ 0 → leerBloque e.fs e.nroBloqueComienzo inodo
        = hojaDe fs inodo e.nroBloqueComienzo
          ∧ fs.sb.enVolumen (hojaDe fs inodo e.nroBloqueComienzo) := by
    intro h0
    have hlt : e.nroBloqueComienzo < n := by
      have h1 := h.dentro
      have h2 := h.falta
      by_contra hge
      have := Nat.mul_le_mul_right fs.sb.blockSize (Nat.le_of_not_lt hge)
      omega
    refine ⟨?_, (hm.dato_hoja hn hlt).1⟩
    rw [leerBloque_hoja (hbs' ▸ hn _ hlt), h.puesto.hojas _ hlt]
  have hp := Escritura.parte_parte hG (hbs' ▸ hbs) (hbs' ▸ hcabe)
    ((Nat.eq_zero_or_pos cant).imp_right fun h0 => by
      rw [(hblo (Nat.ne_of_gt h0)).1, hsb]
      exact (hblo (Nat.ne_of_gt h0)).2)
  refine ⟨fun m h1 h2 => ?_, fun b hb => ?_⟩
  · have h2' : m * fs.sb.blockSize < a + (e.cantEscrita + cant) := h2
    have hlt : m < n := by
      have h3 := h.dentro
      have h4 := h.falta
      by_contra hge
      have := Nat.mul_le_mul_right fs.sb.blockSize (Nat.le_of_not_lt hge)
      omega
    have hvol := (hm.dato_hoja hn hlt).1
    by_cases hviejo : m * fs.sb.blockSize < a + e.cantEscrita
    · exact hp.sigue (hsb ▸ hvol) (hs.escritos m h1 hviejo)
    · -- it is the block of the part
      have h0 : cant ≠ 0 := by omega
      have hmn : m = e.nroBloqueComienzo := by
        refine Nat.le_antisymm (Nat.le_of_not_lt fun hgt => ?_) ?_
        · have := Nat.mul_le_mul_right fs.sb.blockSize (Nat.succ_le_of_lt hgt)
          rw [Nat.succ_mul] at this
          omega
        · exact Nat.le_of_mul_le_mul_right (by omega) (blockSize_pos fs.sb)
      have := hp.alDia (by rw [(hblo h0).1, hsb]; exact (hblo h0).2)
      rwa [(hblo h0).1, ← hmn] at this
  · rcases hs.otros b hb with hdia | ⟨hca, hdi⟩
    · exact .inl (hp.sigue (hsb ▸ hb) hdia)
    · by_cases hbB : b = leerBloque e.fs e.nroBloqueComienzo inodo
      · exact .inl (hbB ▸ hp.alDia (by rw [← hbB, hsb]; exact hb))
      · refine .inr ⟨(hp.cache b hbB).trans hca, fun o ho => ?_⟩
        rw [hp.disco o (by rw [hbs', ho]; exact hbB), hdi o ho]

theorem Subida.siguiente (hs : Subida fs cache inodo a e) : Subida fs cache inodo a e.siguiente :=
  ⟨hs.escritos, hs.otros⟩

/-- **THE LOOP** uploads the whole blocks. -/
theorem Subida.bloques (hm : EnMano fijo fs x inodo n) (hn : EnRango fs.sb n)
    (hbs : fs.sb.blockSize < 2 ^ 16) : ∀ (turnos : Nat) {e : Escritura},
    EnCurso fijo fs x inodo n a size buf e → Subida fs cache inodo a e →
    a + e.cantEscrita = (e.nroBloqueComienzo + 1) * fs.sb.blockSize →
    Subida fs cache inodo a (escribirBloques inodo turnos e) := by
  intro turnos
  induction turnos with
  | zero => exact fun _ hs _ => hs
  | succ turnos ih =>
      intro e h hs hpos
      rw [escribirBloques, show e.fs.sb.blockSize = fs.sb.blockSize by rw [h.puesto.solo.sb]]
      by_cases hlt : fs.sb.blockSize < e.size
      · rw [if_pos hlt]
        have hle := Nat.le_of_lt hlt
        have h' := h.siguiente.parte hm hn 0 _ hpos hle (by omega)
        refine ih h' (Subida.parte hm hn hbs h.siguiente hs.siguiente hpos hle (Nat.le_refl _)) ?_
        show a + (e.cantEscrita + fs.sb.blockSize) = (e.nroBloqueComienzo + 1 + 1) * fs.sb.blockSize
        rw [Nat.succ_mul, ← hpos, Nat.add_assoc]
      · rw [if_neg hlt]
        exact hs

/-- **A WRITE FROM THE FIRST BYTE OF A BLOCK** leaves what it wrote up to date,
    and every other block as it was, up to date or not. -/
theorem EnMano.escribirRango_subida (hm : EnMano fijo fs x inodo n) (hn : EnRango fs.sb n)
    (hbs : fs.sb.blockSize < 2 ^ 16) (hdentro : a + size ≤ n * fs.sb.blockSize)
    (hbuf : size ≤ buf.length) (ha : a % fs.sb.blockSize = 0) (cache : Cache) :
    Subida fs cache inodo a (Rfs.escribirRango fs cache inodo a size buf) := by
  have hbs0 := blockSize_pos fs.sb
  have hdm := Nat.div_add_mod' a fs.sb.blockSize
  rw [ha, Nat.add_zero] at hdm
  have h₀ : EnCurso fijo fs x inodo n a size buf ⟨fs, cache, a / fs.sb.blockSize, size, buf, 0⟩ :=
    ⟨hm.puestoNada a, rfl, Nat.zero_add size, hdentro, hbuf⟩
  have hs₀ : Subida fs cache inodo a ⟨fs, cache, a / fs.sb.blockSize, size, buf, 0⟩ := by
    refine ⟨fun m h1 h2 => absurd (show m * fs.sb.blockSize < a from h2) (Nat.not_lt_of_le h1),
      fun b _ => .inr ⟨rfl, fun _ _ => rfl⟩⟩
  unfold Rfs.escribirRango
  dsimp only
  rw [ha, Nat.sub_zero]
  by_cases hcorto : size < fs.sb.blockSize
  · rw [if_pos hcorto]
    exact Subida.parte hm hn hbs h₀ hs₀ hdm.symm (Nat.le_refl size) (Nat.le_of_lt hcorto)
  · rw [if_neg hcorto]
    have hle : fs.sb.blockSize ≤ size := Nat.le_of_not_lt hcorto
    have h₁ := h₀.parte hm hn 0 _ hdm.symm hle (by omega)
    have hs₁ := Subida.parte hm hn hbs h₀ hs₀ hdm.symm hle (Nat.le_refl _)
    have hpos₁ : a + (0 + fs.sb.blockSize) = (a / fs.sb.blockSize + 1) * fs.sb.blockSize := by
      rw [Nat.succ_mul]
      omega
    obtain ⟨e₁, he₁⟩ : ∃ e₁, Escritura.parte inodo 0 fs.sb.blockSize
      ⟨fs, cache, a / fs.sb.blockSize, size, buf, 0⟩ = e₁ := ⟨_, rfl⟩
    have hpos : a + e₁.cantEscrita = (e₁.nroBloqueComienzo + 1) * fs.sb.blockSize := by
      rw [← he₁]
      exact hpos₁
    rw [he₁] at h₁ hs₁ ⊢
    obtain ⟨e, heq, he, hfin, hresto⟩ := EnCurso.bloques hm hn _ h₁ hpos (Nat.le_refl _)
    have hs := Subida.bloques hm hn hbs e₁.size h₁ hs₁ hpos
    rw [heq] at hs ⊢
    exact Subida.parte hm hn hbs he.siguiente hs.siguiente hfin (Nat.le_refl e.size) hresto

end Cache

end Rfs
