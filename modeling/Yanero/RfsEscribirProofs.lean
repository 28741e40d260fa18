import Yanero.RfsHojasProofs

/-! # Writing a file

    `Dir_escribirArchivo` writes the rest of the first block, whole blocks, and
    what is left.  Each part writes the next bytes of the buffer after the ones
    written before (`EnCurso.parte`), whatever the cut, so the whole write puts
    the buffer at the offset and nothing else changes.  The growth before it
    keeps the bytes that the file had. -/

namespace Rfs

open Arboles Palabras

section Escribir

variable {fijo : Nat → Prop} {fs fs' : Ext2} {x n a size : Nat} {inodo inodo' : Inode}
  {buf : List UInt8} {e : Escritura}

/-- A write of `size` bytes of `buf` at byte `a` of the file, on its way. -/
structure EnCurso (fijo : Nat → Prop) (fs : Ext2) (x : Nat) (inodo : Inode) (n a size : Nat)
    (buf : List UInt8) (e : Escritura) : Prop where
  puesto : Puesto fijo fs x inodo n a (buf.take e.cantEscrita) e.fs
  resto : e.buf = buf.drop e.cantEscrita
  falta : e.cantEscrita + e.size = size
  dentro : a + size ≤ n * fs.sb.blockSize
  alcanza : size ≤ buf.length

theorem EnCurso.siguiente (h : EnCurso fijo fs x inodo n a size buf e) :
    EnCurso fijo fs x inodo n a size buf e.siguiente :=
  ⟨h.puesto, h.resto, h.falta, h.dentro, h.alcanza⟩

/-- **ONE PART** writes the next bytes of the buffer. -/
theorem EnCurso.parte (hm : EnMano fijo fs x inodo n) (hn : EnRango fs.sb n)
    (h : EnCurso fijo fs x inodo n a size buf e) (off cant : Nat)
    (hpos : a + e.cantEscrita = e.nroBloqueComienzo * fs.sb.blockSize + off)
    (hcant : cant ≤ e.size) (hcabe : off + cant ≤ fs.sb.blockSize) :
    EnCurso fijo fs x inodo n a size buf (e.parte inodo off cant) := by
  have hsb := h.puesto.solo.sb
  have hle : e.cantEscrita + cant ≤ buf.length := by
    have := h.falta
    have := h.alcanza
    omega
  have htake : buf.take (e.cantEscrita + cant) = buf.take e.cantEscrita ++ e.buf.take cant := by
    rw [h.resto, List.take_add]
  have hlen : (buf.take e.cantEscrita).length = e.cantEscrita := by
    rw [List.length_take]
    omega
  refine ⟨?_, ?_, ?_, h.dentro, h.alcanza⟩
  · show Puesto fijo fs x inodo n a (buf.take (e.cantEscrita + cant)) _
    rw [htake]
    refine Puesto.trans hm hn h.puesto ?_
    rw [hlen, hpos]
    rcases Nat.eq_zero_or_pos cant with rfl | hcero
    · -- nothing is written, wherever the index leads
      have hdisco : (e.parte inodo off 0).fs = e.fs := by
        unfold Escritura.parte
        dsimp only
        rw [List.take_zero, Bytes.escribir_nil]
      rw [List.take_zero, hdisco]
      exact h.puesto.enMano.puestoNada _
    · have hm' : e.nroBloqueComienzo < n := by
        have h1 := h.dentro
        have h2 := h.falta
        by_contra hge
        have := Nat.mul_le_mul_right fs.sb.blockSize (Nat.le_of_not_lt hge)
        omega
      have hbs : e.fs.sb.blockSize = fs.sb.blockSize := by rw [hsb]
      have hn' : EnRango e.fs.sb n := by rwa [hsb]
      have hbuf : (e.buf.take cant).length ≤ cant := List.length_take_le ..
      have hlee := @leerBloque_hoja e.fs inodo _ (hn' _ hm')
      have hdato := h.puesto.enMano.dato_hoja hn' hm'
      have ho := h.puesto.enMano.geometria.bytes_lt hdato.1 (r := off) (by omega)
      rw [← hbs]
      refine h.puesto.enMano.poner hn' hm' (by omega) rfl rfl ?_
      show Bytes.escribir e.fs.disco (offsetBloque e.fs
        (leerBloque e.fs e.nroBloqueComienzo inodo) off)
        (e.buf.take cant) = _
      rw [hlee, offsetBloque, u32_eq ho]
  · show e.buf.drop cant = buf.drop (e.cantEscrita + cant)
    rw [h.resto, List.drop_drop]
  · show e.cantEscrita + cant + (e.size - cant) = size
    have := h.falta
    omega

/-- **THE LOOP** writes whole blocks until at most one is left. -/
theorem EnCurso.bloques (hm : EnMano fijo fs x inodo n) (hn : EnRango fs.sb n) :
    ∀ (turnos : Nat) {e : Escritura}, EnCurso fijo fs x inodo n a size buf e →
    a + e.cantEscrita = (e.nroBloqueComienzo + 1) * fs.sb.blockSize → e.size ≤ turnos →
    ∃ e', escribirBloques inodo turnos e = e' ∧ EnCurso fijo fs x inodo n a size buf e'
      ∧ a + e'.cantEscrita = (e'.nroBloqueComienzo + 1) * fs.sb.blockSize
      ∧ e'.size ≤ fs.sb.blockSize := by
  intro turnos
  induction turnos with
  | zero =>
      intro e h hpos ht
      exact ⟨e, rfl, h, hpos, by omega⟩
  | succ turnos ih =>
      intro e h hpos ht
      have hbs : e.fs.sb.blockSize = fs.sb.blockSize := by rw [h.puesto.solo.sb]
      have hbs0 := blockSize_pos fs.sb
      rw [escribirBloques, hbs]
      by_cases hlt : fs.sb.blockSize < e.size
      · rw [if_pos hlt]
        refine ih (h.siguiente.parte hm hn 0 _ hpos (Nat.le_of_lt hlt) (by omega)) ?_ ?_
        · show a + (e.cantEscrita + fs.sb.blockSize) = (e.nroBloqueComienzo + 1 + 1)
            * fs.sb.blockSize
          rw [Nat.succ_mul, ← hpos, Nat.add_assoc]
        · show e.size - fs.sb.blockSize ≤ turnos
          omega
      · rw [if_neg hlt]
        exact ⟨e, rfl, h, hpos, by omega⟩

/-- **THE RANGE**: all of the buffer is written, and counted. -/
theorem EnMano.escribirRango (hm : EnMano fijo fs x inodo n) (hn : EnRango fs.sb n)
    (hdentro : a + size ≤ n * fs.sb.blockSize) (hbuf : size ≤ buf.length) (cache : Cache) :
    Puesto fijo fs x inodo n a (buf.take size) (escribirRango fs cache inodo a size buf).fs
      ∧ (escribirRango fs cache inodo a size buf).cantEscrita = size := by
  have hbs := blockSize_pos fs.sb
  have hdm := Nat.div_add_mod' a fs.sb.blockSize
  have hmod := Nat.mod_lt a hbs
  have h₀ : EnCurso fijo fs x inodo n a size buf ⟨fs, cache, a / fs.sb.blockSize, size, buf, 0⟩ :=
    ⟨hm.puestoNada a, rfl, Nat.zero_add size, hdentro, hbuf⟩
  -- once nothing is left, what is written is the buffer
  have hfin : ∀ {e : Escritura}, EnCurso fijo fs x inodo n a size buf e → e.size = 0 →
      Puesto fijo fs x inodo n a (buf.take size) e.fs ∧ e.cantEscrita = size := by
    intro e he h0
    have hc : e.cantEscrita = size := by
      have := he.falta
      omega
    exact ⟨hc ▸ he.puesto, hc⟩
  unfold Rfs.escribirRango
  dsimp only
  by_cases hcorto : size < fs.sb.blockSize - a % fs.sb.blockSize
  · rw [if_pos hcorto]
    exact hfin (h₀.parte hm hn _ _ hdm.symm (Nat.le_refl size) (by omega)) (Nat.sub_self size)
  · rw [if_neg hcorto]
    have h₁ := h₀.parte hm hn _ (fs.sb.blockSize - a % fs.sb.blockSize) hdm.symm
      (show _ ≤ size by omega) (by omega)
    obtain ⟨e, heq, he, hpos, hle⟩ := EnCurso.bloques hm hn _ h₁ (by
      show a + (0 + (fs.sb.blockSize - a % fs.sb.blockSize))
        = (a / fs.sb.blockSize + 1) * fs.sb.blockSize
      rw [Nat.succ_mul]
      omega) (Nat.le_refl _)
    rw [heq]
    exact hfin (he.siguiente.parte hm hn 0 _ hpos (Nat.le_refl e.size) (by omega))
      (Nat.sub_self e.size)

/-! ## With the growth before it -/

/-- What a write of `size` bytes of `buf` from `offset` on leaves: the answer,
    the size of the file, its bytes, and the blocks of the other files. -/
structure Escrito (fs : Ext2) (x offset size : Nat) (buf : List UInt8) (fs' : Ext2)
    (inodo' : Inode) (respuesta : Int) : Prop where
  respuesta : respuesta = size
  iSize : inodo'.iSize = max (leerInodo fs x).iSize (offset + size)
  rango : contenido fs' inodo' offset (offset + size) = buf.take size
  resto : ∀ i, i < (leerInodo fs x).iSize → i < offset ∨ offset + size ≤ i →
    byteDe fs' inodo' i = byteDe fs (leerInodo fs x) i
  ajenos : ∀ y, fs.EnUso y → y ≠ x → ∀ k ps, Vivo (esquema fs.sb) (fs.bloquesDe y) k ps →
    ∀ o, o / fs.sb.blockSize = nodo (buscarBloque fs) (leerInodo fs y).iBlock k ps →
      fs'.disco o = fs.disco o

/-- A range written into a file that is large enough. -/
theorem EnMano.escrito (hm : EnMano fijo fs x inodo n) (hn : EnRango fs.sb n)
    (hdentro : a + size ≤ n * fs.sb.blockSize) (hbuf : size ≤ buf.length) (cache : Cache)
    (hfs : (Rfs.escribirRango fs cache inodo a size buf).fs = fs') :
    contenido fs' inodo a (a + size) = buf.take size
      ∧ (∀ i, i < n * fs.sb.blockSize → i < a ∨ a + size ≤ i →
        byteDe fs' inodo i = byteDe fs inodo i)
      ∧ Conserva fijo fs x inodo 0 fs' inodo := by
  obtain ⟨hp, -⟩ := hm.escribirRango hn hdentro hbuf cache
  rw [hfs] at hp
  have hlen : (buf.take size).length = size := by
    rw [List.length_take]
    omega
  refine ⟨?_, fun i hi hno => ?_, hm.conservaHojas hn hp.solo⟩
  · refine List.ext_getElem? fun i => ?_
    by_cases hi : i < size
    · rw [getElem?_contenido (by omega), hp.bytes _ (by omega), Bytes.escribir,
        if_pos (by omega), Nat.add_sub_cancel_left, List.getElem?_eq_getElem (by omega),
        List.getD_eq_getElem _ _ (by omega)]
    · rw [List.getElem?_eq_none (by rw [length_contenido]; omega),
        List.getElem?_eq_none (by omega)]
  · rw [hp.bytes i hi]
    exact if_neg (by omega)

/-- The file is large enough when the write starts: it was, or it grew. -/
theorem EnMano.lista (h : EnMano fijo fs x inodo (cantBloques fs.sb.blockSize inodo.iSize))
    {offset : Nat} (hr : offset + size < 2 ^ 32) {pudo : Bool}
    (hc : (if inodo.iSize < u32 (offset + size) then Rfs.truncarArriba fs inodo
      (u32 (offset + size))
      else (fs, inodo, true)) = (fs', inodo', pudo)) (hpudo : pudo = true) :
    inodo'.iSize = max inodo.iSize (offset + size)
      ∧ EnMano fijo fs' x inodo' (cantBloques fs.sb.blockSize inodo'.iSize)
      ∧ Conserva fijo fs x inodo (cantBloques fs.sb.blockSize inodo.iSize) fs' inodo' := by
  rw [u32_eq hr] at hc
  by_cases hcrece : inodo.iSize < offset + size
  · rw [if_pos hcrece] at hc
    rcases h.truncarArriba hr (Nat.le_of_lt hcrece) with ⟨-, -, hext⟩ | ⟨-, hno, -⟩
    · rw [hc] at hext
      dsimp only at hext
      refine ⟨?_, ?_, hext.conserva⟩
      · rw [hext.iSize, Nat.max_eq_right (Nat.le_of_lt hcrece)]
      · rw [hext.iSize]
        exact hext.enMano
    · rw [hc, hpudo] at hno
      exact Bool.noConfusion hno
  · rw [if_neg hcrece] at hc
    obtain ⟨rfl, hc'⟩ := Prod.mk.inj hc
    obtain ⟨rfl, -⟩ := Prod.mk.inj hc'
    refine ⟨?_, h, Conserva.refl ..⟩
    rw [Nat.max_eq_left (Nat.le_of_not_lt hcrece)]

/-- **WRITING A FILE**: a write that does not answer `-1` answers the size, the
    range holds the buffer, and neither the rest of the file nor any block of
    another file changes. -/
theorem escribirArchivo_escrito {cache cache' : Cache} {offset : Nat} {respuesta : Int}
    (h : Consistente fijo fs) (hx : fs.EnUso x) (hsize : size ≤ 65535) (hbuf : size ≤ buf.length)
    (hrango : offset + size < 2 ^ 32)
    (hr : escribirArchivo fs cache (leerInodo fs x) offset size buf
      = (fs', cache', inodo', respuesta)) (hno : respuesta ≠ -1) :
    Escrito fs x offset size buf fs' inodo' respuesta := by
  have hmano := h.enMano hx
  have hi := leerInodo_iSize_lt fs x
  rw [escribirArchivo] at hr
  rcases hc : (if (leerInodo fs x).iSize < u32 (offset + size) then
      truncarArriba fs (leerInodo fs x) (u32 (offset + size)) else (fs, leerInodo fs x, true))
    with ⟨fs₁, inodo₁, pudo⟩
  rw [hc] at hr
  dsimp only at hr
  cases pudo with
  | false =>
      rw [if_neg Bool.false_ne_true] at hr
      simp only [Prod.mk.injEq] at hr
      exact absurd hr.2.2.2.symm hno
  | true =>
      rw [if_pos rfl] at hr
      simp only [Prod.mk.injEq] at hr
      obtain ⟨hfs, -, rfl, rfl⟩ := hr
      obtain ⟨htam, hmano₁, hcons⟩ := hmano.lista hrango hc rfl
      have hsb : fs₁.sb.blockSize = fs.sb.blockSize := hcons.guarda.mismo.blockSize
      have hn₁ : EnRango fs₁.sb (cantBloques fs.sb.blockSize inodo₁.iSize) := by
        rw [← hsb]
        exact enRango_cantBloques fs₁.sb (by omega)
      have hdentro : offset + size
        ≤ cantBloques fs.sb.blockSize inodo₁.iSize * fs₁.sb.blockSize := by
        rw [hsb]
        have := (cantBloques_cotas (blockSize_pos fs.sb) inodo₁.iSize).1
        omega
      obtain ⟨hcont, hresto, hcons'⟩ := hmano₁.escrito hn₁ hdentro hbuf cache hfs
      have hcuenta := (hmano₁.escribirRango hn₁ hdentro hbuf cache).2
      have hviejo : (leerInodo fs x).iSize
          ≤ cantBloques fs.sb.blockSize (leerInodo fs x).iSize * fs.sb.blockSize :=
        (cantBloques_cotas (blockSize_pos fs.sb) _).1
      refine ⟨?_, htam, hcont, fun i hlt hfuera => ?_, ?_⟩
      · rw [hcuenta, aInt32, u32_eq (by omega), if_pos (by omega)]
      · rw [hresto i ?_ hfuera, hcons.byteDe (enRango_cantBloques fs.sb hi) (by omega)]
        have := (cantBloques_cotas (blockSize_pos fs.sb) inodo₁.iSize).1
        rw [hsb]
        omega
      · exact (Conserva.trans h.geometria (hcons.mono (Nat.zero_le _)) hcons').datosAjenos

end Escribir

/-- On the disk with one free block: the empty file of inode 1 gets four bytes
    from byte 10 on. -/
theorem escribirArchivo_escrito_cuatro : ∃ fs' inodo',
    Escrito imagenChica 1 10 4 [1, 2, 3, 4] fs' inodo' 4 := by
  rcases hr : escribirArchivo imagenChica (fun _ => none) (leerInodo imagenChica 1) 10 4
      [1, 2, 3, 4]
    with ⟨fs', cache', inodo', r⟩
  have h4 : (escribirArchivo imagenChica (fun _ => none) (leerInodo imagenChica 1) 10 4
      [1, 2, 3, 4]).2.2.2 = 4 := by decide
  rw [hr] at h4
  obtain rfl : r = 4 := h4
  exact ⟨fs', inodo', escribirArchivo_escrito arranque_tallerChico.consistente
    ⟨by decide, by decide, by decide⟩ (by decide) (by decide) (by decide) hr (by decide)⟩

end Rfs
