import Yanero.RfsContenidoProofs
import Yanero.RfsVolcarProofs

/-! # Writes to the data of a file

    A write that stays inside the data blocks of one file (`SoloHojas`) moves
    nothing: every file keeps its blocks, the other files keep their bytes and
    the image stays consistent, since data blocks hold no pointers
    (`EnMano.trasHojas`).  Seen from the file, the write to the image is a write
    to the bytes of the file (`Puesto`). -/

namespace Rfs

open Arboles Palabras

section Hojas

variable {fijo : Nat → Prop} {fs fs' fs'' : Ext2} {x y n m : Nat} {inodo : Inode}

/-- The two images differ in bytes of the first `n` data blocks of a file only. -/
structure SoloHojas (fs : Ext2) (inodo : Inode) (n : Nat) (fs' : Ext2) : Prop where
  sb : fs'.sb = fs.sb
  bgdt : fs'.bgdt = fs.bgdt
  fuera : ∀ o, (∀ m, m < n → o / fs.sb.blockSize ≠ hojaDe fs inodo m) → fs'.disco o = fs.disco o

theorem SoloHojas.refl (fs : Ext2) (inodo : Inode) (n : Nat) : SoloHojas fs inodo n fs :=
  ⟨rfl, rfl, fun _ _ => rfl⟩

theorem SoloHojas.mismo (h : SoloHojas fs inodo n fs') : Mismo fs fs' := mismo_de h.sb h.bgdt

/-- `n` blocks whose first bytes have offsets of 32 bits. -/
def EnRango (sb : Superblock) (n : Nat) : Prop := ∀ m, m < n → m * sb.blockSize < 2 ^ 32

theorem enRango_cantBloques (sb : Superblock) {tam : Nat} (h : tam < 2 ^ 32) :
    EnRango sb (cantBloques sb.blockSize tam) := fun _ hm =>
  Nat.lt_trans (mul_lt_de_cantBloques (blockSize_pos sb) hm) h

/-- The path of an index is a live site of full length. -/
theorem camino_hoja {sb : Superblock} (hn : EnRango sb n) (hm : m < n) :
    Vivo (esquema sb) n (camino sb.cantPunteros m).1 (camino sb.cantPunteros m).2
      ∧ (camino sb.cantPunteros m).2.length = (esquema sb).nivel (camino sb.cantPunteros m).1
      ∧ (esquema sb).primero (camino sb.cantPunteros m).1 (camino sb.cantPunteros m).2 = m := by
  obtain ⟨k, ds, hc, hv, hlen, hprim⟩ := caminoBloque_valido (hn m hm)
  rw [caminoBloque_camino (hn m hm)] at hc
  rw [Option.some.inj hc]
  exact ⟨⟨hv, hprim ▸ hm⟩, hlen, hprim⟩

/-- The data blocks are data blocks of the volume. -/
theorem EnMano.dato_hoja (h : EnMano fijo fs x inodo n) (hn : EnRango fs.sb n) (hm : m < n) :
    Dato fijo fs (hojaDe fs inodo m) := (h.dato (camino_hoja hn hm).1).1

/-- No two indices share a block. -/
theorem EnMano.hoja_unica (h : EnMano fijo fs x inodo n) (hn : EnRango fs.sb n) {m' : Nat}
    (hm : m < n) (hm' : m' < n) (heq : hojaDe fs inodo m = hojaDe fs inodo m') : m = m' := by
  obtain ⟨hv, -, hprim⟩ := camino_hoja hn hm
  obtain ⟨hv', -, hprim'⟩ := camino_hoja hn hm'
  obtain ⟨hk, hds⟩ := h.distintos hv hv' heq
  rw [← hprim, ← hprim', hk, hds]

/-- A block with pointers of the file holds no data of it. -/
theorem EnMano.puntero_ne_hoja (h : EnMano fijo fs x inodo n) (hn : EnRango fs.sb n)
    {k : Nat} {ps : List Nat} (hv : Vivo (esquema fs.sb) n k ps)
    (hl : ps.length < (esquema fs.sb).nivel k) (hm : m < n) :
    nodo (buscarBloque fs) inodo.iBlock k ps ≠ hojaDe fs inodo m := by
  intro heq
  obtain ⟨hv', hlen, -⟩ := camino_hoja hn hm
  obtain ⟨hk, hds⟩ := h.distintos hv hv' heq
  rw [hk, hds, hlen] at hl
  exact Nat.lt_irrefl _ hl

/-- A block of another file holds no data of this one. -/
theorem EnMano.ajeno_ne_hoja (h : EnMano fijo fs x inodo n) (hn : EnRango fs.sb n)
    (hy : fs.EnUso y) (hne : y ≠ x) {k : Nat} {ps : List Nat}
    (hv : Vivo (esquema fs.sb) (fs.bloquesDe y) k ps) (hm : m < n) :
    nodo (buscarBloque fs) (leerInodo fs y).iBlock k ps ≠ hojaDe fs inodo m := by
  intro heq
  have hN : Function.update fs.bloquesDe x n y = fs.bloquesDe y := Function.update_of_ne hne ..
  have hx : Function.update fs.bloquesDe x n x = n := Function.update_self ..
  refine hne (h.reparto.distintos y x hy h.enUso k ps (camino fs.sb.cantPunteros m).1
    (camino fs.sb.cantPunteros m).2 ?_ ?_ ?_).1
  · rwa [hN]
  · rw [hx]
    exact (camino_hoja hn hm).1
  · rw [Function.update_of_ne hne, Function.update_self, heq]
    rfl

/-- The block bitmaps are not data. -/
theorem EnMano.bitGrupo_hojas (h : EnMano fijo fs x inodo n) (hn : EnRango fs.sb n)
    (hs : SoloHojas fs inodo n fs') {g j : Nat} (hg : 0 < fs.sb.tamGrupo g)
    (hj : j / 8 < fs.sb.blockSize) : fs'.bitGrupo g j = fs.bitGrupo g j := by
  rw [Ext2.bitGrupo, Ext2.bitGrupo, hs.mismo.bgBlockBitmap, hs.mismo.blockSize, hs.fuera]
  intro m hm heq
  rw [bloque_de hj] at heq
  exact (h.dato_hoja hn hm).2 (heq ▸ (h.geometria.bitmapFijo g hg).2)

theorem EnMano.bitBloque_hojas (h : EnMano fijo fs x inodo n) (hn : EnRango fs.sb n)
    (hs : SoloHojas fs inodo n fs') {b : Nat} (hb : fs.sb.enVolumen b) :
    fs'.bitBloque b = fs.bitBloque b := by
  have hG := h.geometria
  have hj := hG.posicion hb
  rw [Ext2.bitBloque, Ext2.bitBloque, hs.sb]
  exact h.bitGrupo_hojas hn hs (by omega) (lt_of_lt_of_le (hG.byte_lt hj) (hG.tamArray_le _))

/-- Data blocks hold no metadata. -/
theorem EnMano.guardaHojas (h : EnMano fijo fs x inodo n) (hn : EnRango fs.sb n)
    (hs : SoloHojas fs inodo n fs') : Guarda fijo fs fs' := by
  refine ⟨hs.mismo, fun g j hg _ hlt => h.bitGrupo_hojas hn hs hg (by omega), fun o hf _ =>
    hs.fuera o fun m hm heq => ?_⟩
  exact (h.dato_hoja hn hm).2 (heq ▸ hf)

/-- The pointers of the live sites stay, of whatever file. -/
theorem EnMano.punteros_hojas (h : EnMano fijo fs x inodo n) (hn : EnRango fs.sb n)
    (hs : SoloHojas fs inodo n fs') (hy : fs.EnUso y) {k pos : Nat} {ps : List Nat}
    (hv : Vivo (esquema fs.sb) (Function.update fs.bloquesDe x n y) k ps)
    (hl : ps.length < (esquema fs.sb).nivel k) (hpos : pos < fs.sb.cantPunteros) :
    buscarBloque fs' (nodo (buscarBloque fs)
        (Function.update (fun y => (leerInodo fs y).iBlock) x inodo.iBlock y) k ps) pos
      = buscarBloque fs (nodo (buscarBloque fs)
        (Function.update (fun y => (leerInodo fs y).iBlock) x inodo.iBlock y) k ps) pos := by
  have hvol := (h.reparto.dentro y hy k ps hv).1
  refine buscarBloque_congr h.geometria hs.mismo.forma hvol hpos fun o ho => hs.fuera o fun m hm =>
    ?_
  rw [ho]
  by_cases hyx : y = x
  · subst hyx
    rw [Function.update_self] at hv ⊢
    exact h.puntero_ne_hoja hn hv hl hm
  · rw [Function.update_of_ne hyx] at hv ⊢
    exact h.ajeno_ne_hoja hn hy hyx hv hm

/-- **A WRITE TO DATA** of a file moves no block. -/
theorem EnMano.trasHojas (h : EnMano fijo fs x inodo n) (hn : EnRango fs.sb n)
    (hs : SoloHojas fs inodo n fs') : EnMano fijo fs' x inodo n := by
  have hG := h.geometria
  have hg := h.guardaHojas hn hs
  have hbits : ∀ g j, j < fs.sb.tamGrupo g → fs'.bitGrupo g j = fs.bitGrupo g j := fun g j hj =>
    h.bitGrupo_hojas hn hs (by omega) (lt_of_lt_of_le (hG.byte_lt hj) (hG.tamArray_le g))
  exact h.tras hg (h.cuentas.congr hs.sb hs.bgdt hbits) (h.reparto.congr_leer
    (fun y hy k ps hv hl pos hpos => h.punteros_hojas hn hs hy hv hl hpos) fun b hb =>
      h.bitBloque_hojas hn hs hb) h.cabe

/-- The other files keep their blocks and their bytes. -/
theorem EnMano.conservaHojas (h : EnMano fijo fs x inodo n) (hn : EnRango fs.sb n)
    (hs : SoloHojas fs inodo n fs') : Conserva fijo fs x inodo 0 fs' inodo := by
  have hno : ∀ k ps, ¬ Vivo (esquema fs.sb) 0 k ps := fun _ _ hv => absurd hv.antes
    (Nat.not_lt_zero _)
  refine ⟨h.guardaHojas hn hs, fun k ps hv => absurd hv (hno k ps), fun y hy hne k ps hv => ?_,
    fun k ps hv => absurd hv (hno k ps), fun y hy hne k ps hv o ho => ?_⟩
  · have hN : Function.update fs.bloquesDe x n y = fs.bloquesDe y := Function.update_of_ne hne ..
    have hF := Function.update_of_ne hne inodo.iBlock fun y => (leerInodo fs y).iBlock
    refine nodo_congr (fun k ps hv hl pos hpos => ?_) k ps hv
    have hp := h.punteros_hojas hn hs hy (hN.symm ▸ hv) hl hpos
    rwa [hF] at hp
  · exact hs.fuera o fun m hm => ho ▸ h.ajeno_ne_hoja hn hy hne hv hm

/-- The file keeps its blocks. -/
theorem EnMano.sitio_hojas (h : EnMano fijo fs x inodo n) (hn : EnRango fs.sb n)
    (hs : SoloHojas fs inodo n fs') {k : Nat} {ps : List Nat}
    (hv : Vivo (esquema fs.sb) n k ps) :
    nodo (buscarBloque fs') inodo.iBlock k ps = nodo (buscarBloque fs) inodo.iBlock k ps := by
  have hF : Function.update (fun y => (leerInodo fs y).iBlock) x inodo.iBlock x = inodo.iBlock :=
    Function.update_self ..
  have hN : Function.update fs.bloquesDe x n x = n := Function.update_self ..
  refine nodo_congr (fun k ps hv hl pos hpos => ?_) k ps hv
  have hp := h.punteros_hojas hn hs h.enUso (hN.symm ▸ hv) hl hpos
  rwa [hF] at hp

theorem EnMano.hojaDe_hojas (h : EnMano fijo fs x inodo n) (hn : EnRango fs.sb n)
    (hs : SoloHojas fs inodo n fs') (hm : m < n) : hojaDe fs' inodo m = hojaDe fs inodo m := by
  rw [hojaDe, hojaDe, hs.sb]
  exact h.sitio_hojas hn hs (camino_hoja hn hm).1

theorem SoloHojas.trans (h : EnMano fijo fs x inodo n) (hn : EnRango fs.sb n)
    (hs : SoloHojas fs inodo n fs') (hs' : SoloHojas fs' inodo n fs'') :
    SoloHojas fs inodo n fs'' := by
  refine ⟨hs'.sb.trans hs.sb, hs'.bgdt.trans hs.bgdt, fun o ho => ?_⟩
  rw [hs'.fuera o, hs.fuera o ho]
  intro m hm
  rw [hs.sb, h.hojaDe_hojas hn hs hm]
  exact ho m hm

end Hojas

/-! ## The bytes of the file -/

section Puesto

variable {fijo : Nat → Prop} {fs fs' fs'' : Ext2} {x n m a : Nat} {inodo inodo' : Inode}
  {datos datos' : List UInt8}

/-- The file in memory got `datos` from its byte `a` on, and nothing else of
    the image changed. -/
structure Puesto (fijo : Nat → Prop) (fs : Ext2) (x : Nat) (inodo : Inode) (n a : Nat)
    (datos : List UInt8) (fs' : Ext2) : Prop where
  enMano : EnMano fijo fs' x inodo n
  solo : SoloHojas fs inodo n fs'
  hojas : ∀ m, m < n → hojaDe fs' inodo m = hojaDe fs inodo m
  bytes : ∀ i, i < n * fs.sb.blockSize →
    byteDe fs' inodo i = Bytes.escribir (byteDe fs inodo) a datos i

theorem EnMano.puestoNada (h : EnMano fijo fs x inodo n) (a : Nat) :
    Puesto fijo fs x inodo n a [] fs := by
  refine ⟨h, SoloHojas.refl fs inodo n, fun _ _ => rfl, fun i _ => ?_⟩
  rw [Bytes.escribir_nil]

/-- What is written next goes after what was written. -/
theorem Puesto.trans (h : EnMano fijo fs x inodo n) (hn : EnRango fs.sb n)
    (hp : Puesto fijo fs x inodo n a datos fs')
    (hp' : Puesto fijo fs' x inodo n (a + datos.length) datos' fs'') :
    Puesto fijo fs x inodo n a (datos ++ datos') fs'' := by
  refine ⟨hp'.enMano, SoloHojas.trans h hn hp.solo hp'.solo, fun m hm => ?_, fun i hi => ?_⟩
  · rw [hp'.hojas m hm, hp.hojas m hm]
  · rw [hp'.bytes i (by rwa [hp.solo.sb]), ← Bytes.escribir_append]
    exact Bytes.escribir_congr (hp.bytes i hi) _ _

/-- A write inside one block, seen from the bytes of another or of the same. -/
theorem escribir_en_bloque {disco : Nat → UInt8} {bs b c off r : Nat} (hr : r < bs)
    (hcabe : off + datos.length ≤ bs) :
    Bytes.escribir disco (b * bs + off) datos (c * bs + r) =
      if c = b then Bytes.escribir (fun r => disco (c * bs + r)) off datos r
      else disco (c * bs + r) := by
  by_cases hcb : c = b
  · subst hcb
    rw [if_pos rfl]
    unfold Bytes.escribir
    by_cases hin : off ≤ r ∧ r < off + datos.length
    · rw [if_pos hin, if_pos (by omega), Nat.add_sub_add_left]
    · rw [if_neg hin, if_neg (by omega)]
  · rw [if_neg hcb]
    refine if_neg fun hin => hcb ?_
    obtain ⟨s, hs⟩ := Nat.exists_eq_add_of_le hin.1
    have h1 := @bloque_de c r bs hr
    rw [hs, Nat.add_assoc, bloque_de (by omega)] at h1
    exact h1.symm

/-- **ONE WRITE** inside a data block of the file. -/
theorem EnMano.poner (h : EnMano fijo fs x inodo n) (hn : EnRango fs.sb n) {off : Nat}
    (hm : m < n) (hcabe : off + datos.length ≤ fs.sb.blockSize) (hsb : fs'.sb = fs.sb)
    (hbgdt : fs'.bgdt = fs.bgdt) (hdisco : fs'.disco
      = Bytes.escribir fs.disco (hojaDe fs inodo m * fs.sb.blockSize + off) datos) :
    Puesto fijo fs x inodo n (m * fs.sb.blockSize + off) datos fs' := by
  have hsolo : SoloHojas fs inodo n fs' := by
    refine ⟨hsb, hbgdt, fun o ho => ?_⟩
    rw [hdisco]
    refine if_neg fun hin => ho m hm ?_
    obtain ⟨r, rfl⟩ := Nat.exists_eq_add_of_le hin.1
    rw [Nat.add_assoc]
    exact bloque_de (by omega)
  refine ⟨h.trasHojas hn hsolo, hsolo, fun m hm => h.hojaDe_hojas hn hsolo hm, fun i hi => ?_⟩
  have hq : i / fs.sb.blockSize < n := Nat.div_lt_of_lt_mul (by rwa [Nat.mul_comm])
  have hr := Nat.mod_lt i (blockSize_pos fs.sb)
  have hdm := Nat.div_add_mod' i fs.sb.blockSize
  rw [byteDe, hsb, h.hojaDe_hojas hn hsolo hq, hdisco, escribir_en_bloque hr hcabe]
  have hiff : hojaDe fs inodo (i / fs.sb.blockSize) = hojaDe fs inodo m ↔ i / fs.sb.blockSize = m :=
    ⟨fun heq => h.hoja_unica hn hq hm heq, fun heq => by rw [heq]⟩
  rw [if_congr hiff rfl rfl]
  conv_rhs => rw [← hdm]
  rw [escribir_en_bloque hr hcabe, hdm]
  by_cases hqm : i / fs.sb.blockSize = m
  · rw [if_pos hqm, if_pos hqm]
    refine Bytes.escribir_congr ?_ _ _
    rw [byteDe, hdm]
  · rw [if_neg hqm, if_neg hqm]
    rfl

/-- Bytes of the blocks that stay are the same bytes. -/
theorem Conserva.byteDe (h : Conserva fijo fs x inodo n fs' inodo') (hn : EnRango fs.sb n) {i : Nat}
    (hi : i < n * fs.sb.blockSize) : byteDe fs' inodo' i = byteDe fs inodo i := by
  have hq : i / fs.sb.blockSize < n := Nat.div_lt_of_lt_mul (by rwa [Nat.mul_comm])
  obtain ⟨hv, hlen, -⟩ := camino_hoja hn hq
  have hhoja : hojaDe fs' inodo' (i / fs.sb.blockSize) = hojaDe fs inodo (i / fs.sb.blockSize) := by
    rw [hojaDe, hojaDe, h.guarda.mismo.cantPunteros]
    exact h.propio _ _ hv
  rw [Rfs.byteDe, Rfs.byteDe, h.guarda.mismo.blockSize, hhoja]
  exact h.datos _ _ hv hlen _ (bloque_de (Nat.mod_lt i (blockSize_pos fs.sb)))

end Puesto

end Rfs
