import Yanero.Tramos
import Yanero.RfsPathProofs
import Yanero.RfsHojasProofs

/-! # A directory as a file of records

    The bytes of a directory, block after block, are one memory (`byteDe`), and
    a well-formed directory is that memory cut into records (`Directorio`).  The
    listing and the searches of the source, which go through the image block by
    block, are followed over it. -/

namespace Rfs

open Arboles Cadenas Palabras Tramos

/-! ## The format -/

/-- The record at an offset of a byte memory. -/
def dirDe (m : Nat → UInt8) (o : Nat) : Dir where
  dInode := leerPalabra 4 m o
  dRecLen := leerPalabra 2 m (o + 4)
  dNameLen := leerPalabra 1 m (o + 6)
  dFiletype := leerPalabra 1 m (o + 7)
  dName := Bytes.leer m (o + offName) (leerPalabra 1 m (o + 6))

theorem leerDir_eq (fs : Ext2) (o : Nat) : leerDir fs o = dirDe fs.disco o := rfl

/-- A record without its name. -/
def Dir.etiqueta (dir : Dir) : Dir := { dir with dName := [] }

theorem leerEtiqueta_eq (fs : Ext2) (o : Nat) : leerEtiqueta fs o = (leerDir fs o).etiqueta := rfl

/-- A record of whole words, with room for its name. -/
structure Dir.Bien (dir : Dir) : Prop where
  palabras : 4 ∣ dir.dRecLen
  nombre : dir.tamEntrada ≤ dir.dRecLen

theorem le_redondear (n : Nat) : n ≤ redondear n := by
  unfold redondear
  split <;> omega

theorem redondear_lt (n : Nat) : redondear n < n + 4 := by
  unfold redondear
  split <;> omega

theorem dvd_redondear (n : Nat) : 4 ∣ redondear n := by
  unfold redondear
  split <;> omega

/-- The bytes that are read of a record are inside it. -/
theorem Dir.Bien.leidos {dir : Dir} (h : dir.Bien) : offName + dir.dNameLen ≤ dir.dRecLen :=
  Nat.le_trans (le_redondear _) h.nombre

/-- A record is read from its first bytes. -/
theorem dirDe_congr {m m' : Nat → UInt8} {o o' : Nat}
    (h : ∀ j, j < offName + (dirDe m o).dNameLen → m' (o' + j) = m (o + j)) :
    dirDe m' o' = dirDe m o := by
  have hpal : ∀ d k, d + k ≤ offName → leerPalabra k m' (o' + d) = leerPalabra k m (o + d) := by
    intro d k hd
    refine congrArg valor (Bytes.leer_congr fun i hi => ?_)
    rw [Nat.add_assoc, Nat.add_assoc]
    exact h (d + i) (by omega)
  have hlen := hpal 6 1 (by decide)
  have hino := hpal 0 4 (by decide)
  rw [Nat.add_zero, Nat.add_zero] at hino
  unfold dirDe
  rw [hino, hpal 4 2 (by decide), hlen, hpal 7 1 (by decide)]
  congr 1
  refine Bytes.leer_congr fun i hi => ?_
  rw [Nat.add_assoc, Nat.add_assoc]
  exact h (offName + i) (Nat.add_lt_add_left hi _)

/-- The records of a directory. -/
def formatoDir : Formato Dir where
  leer := dirDe
  largo := Dir.dRecLen
  Bien := Dir.Bien
  largo_pos := fun dir h => Nat.lt_of_lt_of_le (tamEntrada_pos dir) h.nombre
  propio := fun _ _ o h hm => dirDe_congr fun j hj =>
    hm (o + j) (Nat.le_add_right o j) (Nat.add_lt_add_left (Nat.lt_of_lt_of_le hj h.leidos) o)

/-! ## Writing a record -/

/-- The fields fit their widths. -/
structure Dir.Cabe (dir : Dir) : Prop where
  dInode : dir.dInode < 256 ^ 4
  dRecLen : dir.dRecLen < 256 ^ 2
  dNameLen : dir.dNameLen < 256 ^ 1
  dFiletype : dir.dFiletype < 256 ^ 1
  dName : dir.dName.length = dir.dNameLen

theorem dirDe_cabe (m : Nat → UInt8) (o : Nat) : (dirDe m o).Cabe :=
  ⟨leerPalabra_lt .., leerPalabra_lt .., leerPalabra_lt .., leerPalabra_lt .., Bytes.length_leer ..⟩

/-- The first `OFF_NAME` bytes of a record. -/
def Dir.cabecera (dir : Dir) : List UInt8 :=
  bytesDe 4 dir.dInode ++ bytesDe 2 dir.dRecLen ++ bytesDe 1 dir.dNameLen
    ++ bytesDe 1 dir.dFiletype

@[simp] theorem Dir.length_cabecera (dir : Dir) : dir.cabecera.length = offName := by
  simp [Dir.cabecera, offName]

theorem serializarDir_eq (dir : Dir) :
    serializarDir dir = dir.cabecera ++ dir.dName.take dir.dNameLen := rfl

theorem serializarDir_etiqueta (dir : Dir) : serializarDir dir.etiqueta = dir.cabecera := by
  rw [serializarDir_eq]
  show dir.cabecera ++ List.take dir.dNameLen [] = _
  rw [List.take_nil, List.append_nil]

theorem Dir.Cabe.length_serializar {dir : Dir} (h : dir.Cabe) :
    (serializarDir dir).length = offName + dir.dNameLen := by
  rw [serializarDir_eq, List.length_append, Dir.length_cabecera, List.length_take, h.dName,
    Nat.min_self]

/-- A record is read off its first bytes and its name. -/
theorem dirDe_de {m : Nat → UInt8} {o : Nat} {dir : Dir} (h : dir.Cabe)
    (hcab : Bytes.leer m o offName = dir.cabecera)
    (hnom : Bytes.leer m (o + offName) dir.dNameLen = dir.dName) : dirDe m o = dir := by
  have hpal : ∀ j k v, j + k ≤ offName → v < 256 ^ k →
      (dir.cabecera.drop j).take k = bytesDe k v → leerPalabra k m (o + j) = v := by
    intro j k v hjk hv heq
    rw [leerPalabra, Bytes.leer_trozo m o hjk, hcab, heq, valor_bytesDe, Nat.mod_eq_of_lt hv]
  have h1 := hpal 0 4 dir.dInode (by decide) h.dInode (by simp [Dir.cabecera])
  have h2 := hpal 4 2 dir.dRecLen (by decide) h.dRecLen (by simp [Dir.cabecera])
  have h3 := hpal 6 1 dir.dNameLen (by decide) h.dNameLen (by simp [Dir.cabecera, bytesDe])
  have h4 := hpal 7 1 dir.dFiletype (by decide) h.dFiletype (by simp [Dir.cabecera, bytesDe])
  rw [Nat.add_zero] at h1
  rw [dirDe, h1, h2, h3, h4, hnom]

/-- A record reads back what was written. -/
theorem dirDe_serializar (m : Nat → UInt8) (o : Nat) {dir : Dir} (h : dir.Cabe) :
    dirDe (Bytes.escribir m o (serializarDir dir)) o = dir := by
  have hleer := Bytes.leer_escribir m o (serializarDir dir)
  rw [h.length_serializar] at hleer
  have htodo : dir.dName.take dir.dNameLen = dir.dName := by rw [← h.dName, List.take_length]
  refine dirDe_de h ?_ ?_
  · have := @Bytes.leer_trozo (Bytes.escribir m o (serializarDir dir)) o (offName + dir.dNameLen)
      0 offName (by omega)
    rw [Nat.add_zero, hleer, List.drop_zero, serializarDir_eq] at this
    rw [serializarDir_eq, this]
    exact List.take_left' dir.length_cabecera
  · rw [Bytes.leer_trozo _ o (Nat.le_refl (offName + dir.dNameLen)), hleer, serializarDir_eq,
      List.drop_left' dir.length_cabecera, htodo, ← h.dName, List.take_length]

/-- Only the fields before the name are written again. -/
theorem dirDe_retoque {m : Nat → UInt8} {o : Nat} {dir dir' : Dir} (hd : dirDe m o = dir)
    (hlen : dir'.dNameLen = dir.dNameLen) (hnom : dir'.dName = dir.dName) (h : dir'.Cabe) :
    dirDe (Bytes.escribir m o (serializarDir dir'.etiqueta)) o = dir' := by
  rw [serializarDir_etiqueta]
  refine dirDe_de h ?_ ?_
  · have := Bytes.leer_escribir m o dir'.cabecera
    rwa [Dir.length_cabecera] at this
  · rw [Bytes.leer_escribir_ajeno (.inr (by rw [Dir.length_cabecera])), hlen, hnom, ← hd]
    rfl

/-- A write past the bytes of a record leaves it alone. -/
theorem dirDe_ajeno {m : Nat → UInt8} {o b : Nat} {v : List UInt8}
    (h : o + (offName + (dirDe m o).dNameLen) ≤ b) : dirDe (Bytes.escribir m b v) o = dirDe m o :=
  dirDe_congr fun _ hj => if_neg (by omega)

/-- **A RECORD SPLIT** in two: the old one keeps what it needs. -/
theorem tramo_partir {m : Nat → UInt8} {a fin : Nat} {dir nueva : Dir} {post : List Dir}
    (ht : Tramo formatoDir m a fin (dir :: post))
    (hhueco : dir.tamEntrada + nueva.tamEntrada ≤ dir.dRecLen)
    (hrec : nueva.dRecLen = dir.dRecLen - dir.tamEntrada) (hn : nueva.Cabe) :
    Tramo formatoDir
      (Bytes.escribir (Bytes.escribir m a
          (serializarDir ({ dir with dRecLen := dir.tamEntrada } : Dir).etiqueta))
        (a + dir.tamEntrada) (serializarDir nueva)) a fin
      ({ dir with dRecLen := dir.tamEntrada } :: nueva :: post) := by
  obtain ⟨hd, hb, ht⟩ := ht.cons
  have hc : dir.Cabe := hd ▸ dirDe_cabe m a
  have hnombre := le_redondear (offName + dir.dNameLen)
  have hpal := hb.palabras
  have h4 : 4 ∣ dir.tamEntrada := dvd_redondear _
  have hcorta : ({ dir with dRecLen := dir.tamEntrada } : Dir).Cabe :=
    ⟨hc.dInode, lt_of_le_of_lt hb.nombre hc.dRecLen, hc.dNameLen, hc.dFiletype, hc.dName⟩
  have h1 := @dirDe_retoque m a dir { dir with dRecLen := dir.tamEntrada } hd rfl rfl hcorta
  have hlargo : formatoDir.largo dir = dir.dRecLen := rfl
  have hfin := ht.le
  rw [hlargo] at ht hfin
  have hser := hn.length_serializar
  have hnn : offName + nueva.dNameLen ≤ nueva.tamEntrada := le_redondear _
  have hbcorta : Dir.Bien { dir with dRecLen := dir.tamEntrada } := ⟨h4, Nat.le_refl _⟩
  have hbnueva : nueva.Bien := by
    refine ⟨?_, ?_⟩
    · rw [hrec]
      exact Nat.dvd_sub hpal h4
    · rw [hrec]
      omega
  refine tramo_cons (F := formatoDir) ?_ hbcorta (tramo_cons (dirDe_serializar _ _ hn) hbnueva ?_)
  · show dirDe _ a = _
    rw [dirDe_ajeno, h1]
    rw [h1]
    exact Nat.add_le_add_left hnombre a
  · show Tramo formatoDir _ (a + dir.tamEntrada + nueva.dRecLen) fin post
    have hsig : a + dir.tamEntrada + nueva.dRecLen = a + dir.dRecLen := by omega
    rw [hsig]
    refine ht.congr fun i hi _ => ?_
    have hcab := ({ dir with dRecLen := dir.tamEntrada } : Dir).length_cabecera
    rw [serializarDir_etiqueta]
    exact (if_neg (by omega)).trans (if_neg (by omega))

/-! ## Directories -/

/-- A directory of `n` blocks, block `i` with the records `dss i`. -/
structure Directorio (fs : Ext2) (inodo : Inode) (n : Nat) (dss : Nat → List Dir) : Prop where
  entero : inodo.iSize = n * fs.sb.blockSize
  bloques : ∀ i, i < n → Tramo formatoDir (byteDe fs inodo) (i * fs.sb.blockSize)
    ((i + 1) * fs.sb.blockSize) (dss i)

/-- All the records of a directory. -/
def registrosDe (n : Nat) (dss : Nat → List Dir) : List Dir := ((List.range n).map dss).flatten

section Directorio

variable {fijo : Nat → Prop} {fs : Ext2} {x n i o : Nat} {inodo : Inode} {dir : Dir}
  {ds : List Dir} {dss : Nat → List Dir}

/-- A byte of a block of the file. -/
theorem byteDe_bloque (fs : Ext2) (inodo : Inode) (i : Nat) {r : Nat} (hr : r < fs.sb.blockSize) :
    byteDe fs inodo (i * fs.sb.blockSize + r)
      = fs.disco (hojaDe fs inodo i * fs.sb.blockSize + r) := by
  rw [byteDe, bloque_de hr, Nat.mul_comm i, Nat.mul_add_mod, Nat.mod_eq_of_lt hr]

/-- The first `n` data blocks are blocks of an image below 4 GiB. -/
structure EnImagen (fs : Ext2) (inodo : Inode) (n : Nat) : Prop where
  rango : EnRango fs.sb n
  bytes : ∀ i, i < n → ∀ o, o < fs.sb.blockSize →
    hojaDe fs inodo i * fs.sb.blockSize + o < 2 ^ 32
  blockSize : fs.sb.blockSize < 2 ^ 32

theorem Geometria.blockSize_lt (hG : Geometria fijo fs) : fs.sb.blockSize < 2 ^ 32 :=
  lt_of_le_of_lt (Nat.le_mul_of_pos_left _ (Nat.lt_of_le_of_lt (Nat.zero_le _) hG.volumen))
    hG.imagen

theorem EnMano.enImagen (h : EnMano fijo fs x inodo n) (hn : EnRango fs.sb n) :
    EnImagen fs inodo n :=
  ⟨hn, fun _ hi _ ho => h.geometria.bytes_lt (h.dato_hoja hn hi).1 ho, h.geometria.blockSize_lt⟩

/-- The address of an offset of a data block. -/
theorem EnImagen.offset_hoja (h : EnImagen fs inodo n) (hi : i < n) (ho : o < fs.sb.blockSize) :
    offsetBloque fs (leerBloque fs i inodo) o = hojaDe fs inodo i * fs.sb.blockSize + o := by
  rw [leerBloque_hoja (h.rango i hi), offsetBloque]
  exact u32_eq (h.bytes i hi o ho)

/-- A record that ends in its block is the one the source reads there. -/
theorem EnImagen.leerDir_hoja (h : EnImagen fs inodo n) (hi : i < n)
    (hd : dirDe (byteDe fs inodo) (i * fs.sb.blockSize + o) = dir)
    (hfin : o + (offName + dir.dNameLen) ≤ fs.sb.blockSize) :
    leerDir fs (offsetBloque fs (leerBloque fs i inodo) o) = dir := by
  have ho : o < fs.sb.blockSize := by
    unfold offName at hfin
    omega
  rw [h.offset_hoja hi ho, leerDir_eq, ← hd]
  refine dirDe_congr fun j hj => ?_
  rw [hd] at hj
  rw [Nat.add_assoc, Nat.add_assoc]
  exact (byteDe_bloque fs inodo i (by omega)).symm

/-- The records of a stretch are the ones the source finds in the block. -/
theorem EnImagen.registros_hoja (h : EnImagen fs inodo n) (hi : i < n)
    (ht : Tramo formatoDir (byteDe fs inodo) (i * fs.sb.blockSize + o)
      ((i + 1) * fs.sb.blockSize) ds) : Registros fs (leerBloque fs i inodo) o ds := by
  induction ds generalizing o with
  | nil =>
      have hfin := ht.nil
      rw [Nat.succ_mul] at hfin
      obtain rfl : o = fs.sb.blockSize := by omega
      exact .fin
  | cons dir ds ih =>
      obtain ⟨hd, hb, ht⟩ := ht.cons
      have hle := ht.le
      rw [Nat.succ_mul] at hle
      have hlargo : formatoDir.largo dir = dir.dRecLen := rfl
      have hleido := h.leerDir_hoja hi hd (by
        have := Dir.Bien.leidos hb
        omega)
      rw [hlargo, Nat.add_assoc] at ht
      have hpaso := ih ht
      rw [← hleido] at hpaso ⊢
      exact .paso (hleido.symm ▸ hb.palabras) (hleido.symm ▸ hb.nombre) hpaso

/-- The records the source finds in a block are a stretch. -/
theorem EnImagen.tramo_hoja (h : EnImagen fs inodo n) (hi : i < n)
    (hr : Registros fs (leerBloque fs i inodo) o ds) :
    Tramo formatoDir (byteDe fs inodo) (i * fs.sb.blockSize + o)
      ((i + 1) * fs.sb.blockSize) ds := by
  induction hr with
  | fin =>
      rw [Nat.succ_mul]
      exact .fin _
  | @paso o ds h4 htam hresto ih =>
      have hle := hresto.le_blockSize
      have hb : Dir.Bien (leerDir fs (offsetBloque fs (leerBloque fs i inodo) o)) := ⟨h4, htam⟩
      have hleidos := hb.leidos
      have ho : o < fs.sb.blockSize := by
        unfold offName at hleidos
        omega
      have hd : dirDe (byteDe fs inodo) (i * fs.sb.blockSize + o)
          = leerDir fs (offsetBloque fs (leerBloque fs i inodo) o) := by
        rw [leerDir_eq] at hleidos hle ⊢
        rw [h.offset_hoja hi ho] at hleidos hle ⊢
        refine dirDe_congr fun j hj => ?_
        rw [Nat.add_assoc, Nat.add_assoc]
        exact byteDe_bloque fs inodo i (by omega)
      refine tramo_cons (F := formatoDir) hd hb ?_
      rw [Nat.add_assoc]
      exact ih

/-- **THE LISTING** of a directory. -/
theorem Directorio.listar (h : EnImagen fs (leerInodo fs x) n)
    (hd : Directorio fs (leerInodo fs x) n dss) :
    listar fs x = some (vigentes (registrosDe n dss)) := by
  have hbloques : fs.bloquesDe x = n := by
    rw [Ext2.bloquesDe, hd.entero, cantBloques_mul (blockSize_pos fs.sb)]
  refine listar_iff.mpr ⟨(List.range n).map dss, ?_, rfl⟩
  rw [hbloques, List.forall₂_map_right_iff, List.forall₂_same]
  intro i hi
  have hi := List.mem_range.mp hi
  exact (h.registros_hoja hi (o := 0) (hd.bloques i hi)).cadena h.blockSize

/-- A block starts with a record of length zero. -/
def Atascado (fs : Ext2) (inodo : Inode) (n : Nat) : Prop :=
  ∃ i, i < n ∧ (dirDe (byteDe fs inodo) (i * fs.sb.blockSize)).dRecLen = 0
    ∧ offName + (dirDe (byteDe fs inodo) (i * fs.sb.blockSize)).dNameLen ≤ fs.sb.blockSize

/-- The listing never gets past such a record. -/
theorem EnImagen.listar_atascado (h : EnImagen fs (leerInodo fs x) n) (hx : fs.bloquesDe x = n)
    (ha : Atascado fs (leerInodo fs x) n) : Rfs.listar fs x = none := by
  obtain ⟨i, hi, hrec, hfin⟩ := ha
  have hleido := h.leerDir_hoja (o := 0) hi rfl (by rwa [Nat.zero_add])
  refine listar_quieta (by rwa [hx]) ?_
  rw [hleido, Nat.add_zero]
  exact hrec

/-! ## Looking for room -/

/-- The record leaves room for another one of `tam` bytes after it. -/
def Hueco (tam : Nat) (dir : Dir) : Prop := dir.tamEntrada + tam ≤ dir.dRecLen

instance (tam : Nat) : DecidablePred (Hueco tam) := fun dir =>
  inferInstanceAs (Decidable (dir.tamEntrada + tam ≤ dir.dRecLen))

/-- The record `dir` at offset `a` of the block at index `i`, with the records
    before and after it. -/
structure EnLugar (fs : Ext2) (inodo : Inode) (i a : Nat) (pre : List Dir) (dir : Dir)
    (post ds : List Dir) : Prop where
  lista : ds = pre ++ dir :: post
  antes : Tramo formatoDir (byteDe fs inodo) (i * fs.sb.blockSize) (i * fs.sb.blockSize + a) pre
  desde : Tramo formatoDir (byteDe fs inodo) (i * fs.sb.blockSize + a)
    ((i + 1) * fs.sb.blockSize) (dir :: post)

/-- The test of the source, on a well-formed record. -/
theorem hueco_iff {tam : Nat} (hrec : dir.dRecLen < 2 ^ 16) (hb : dir.Bien) :
    tam ≤ resta32 dir.dRecLen dir.tamEntrada ↔ Hueco tam dir := by
  have h := hb.nombre
  rw [resta32_eq (by omega) h, Hueco]
  omega

theorem dirDe_dRecLen_lt (m : Nat → UInt8) (o : Nat) : (dirDe m o).dRecLen < 2 ^ 16 :=
  leerPalabra_lt 2 m (o + 4)

/-- **THE SEARCH IN A BLOCK** stops at the first record with room. -/
theorem EnImagen.lugarDesde (h : EnImagen fs inodo n) (hi : i < n)
    (tam : Nat) : ∀ {ds : List Dir} {o turnos : Nat}, ds.length ≤ turnos →
    Tramo formatoDir (byteDe fs inodo) (i * fs.sb.blockSize + o) ((i + 1) * fs.sb.blockSize) ds →
    (∀ dir ∈ ds, ¬ Hueco tam dir)
        ∧ lugarDesde fs (leerBloque fs i inodo) tam turnos o = some none
      ∨ ∃ pre dir post a, ds = pre ++ dir :: post ∧ Hueco tam dir
        ∧ Tramo formatoDir (byteDe fs inodo) (i * fs.sb.blockSize + o)
          (i * fs.sb.blockSize + a) pre
        ∧ Tramo formatoDir (byteDe fs inodo) (i * fs.sb.blockSize + a)
          ((i + 1) * fs.sb.blockSize) (dir :: post)
        ∧ lugarDesde fs (leerBloque fs i inodo) tam turnos o = some (some (a, dir.etiqueta)) := by
  intro ds
  induction ds with
  | nil =>
      intro o turnos _ ht
      have hfin := ht.nil
      rw [Nat.succ_mul] at hfin
      refine .inl ⟨by simp, ?_⟩
      cases turnos with
      | zero => rw [Rfs.lugarDesde, if_neg (by omega)]
      | succ turnos => rw [Rfs.lugarDesde, if_neg (by omega)]
  | cons dir ds ih =>
      intro o turnos hturnos ht
      have ht₀ := ht
      obtain ⟨hd, hb, ht⟩ := ht.cons
      have hlargo : formatoDir.largo dir = dir.dRecLen := rfl
      have hle := ht.le
      rw [Nat.succ_mul, hlargo] at hle
      have hleidos := Dir.Bien.leidos hb
      have hlt : o < fs.sb.blockSize := by
        unfold offName at hleidos
        omega
      have hbs := h.blockSize
      have hrec : dir.dRecLen < 2 ^ 16 := hd ▸ dirDe_dRecLen_lt _ _
      have hleido := h.leerDir_hoja hi hd (by omega)
      obtain ⟨turnos, rfl⟩ : ∃ t, turnos = t + 1 := ⟨turnos - 1, by
        rw [List.length_cons] at hturnos
        omega⟩
      rw [Rfs.lugarDesde, if_pos hlt, leerEtiqueta_eq, hleido]
      have hiff : tam ≤ resta32 dir.etiqueta.dRecLen dir.etiqueta.tamEntrada ↔ Hueco tam dir :=
        show tam ≤ resta32 dir.dRecLen dir.tamEntrada ↔ _ from hueco_iff hrec hb
      by_cases hhueco : Hueco tam dir
      · refine .inr ⟨[], dir, ds, o, rfl, hhueco, .fin _, ht₀, ?_⟩
        exact if_pos (hiff.mpr hhueco)
      · have hsig : u32 (o + dir.etiqueta.dRecLen) = o + dir.dRecLen :=
          u32_eq (show o + dir.dRecLen < 2 ^ 32 by omega)
        dsimp only
        rw [if_neg fun hp => hhueco (hiff.mp hp), hsig]
        rw [hlargo, Nat.add_assoc] at ht
        rcases ih (by simpa using hturnos) ht with
          ⟨hno, heq⟩ | ⟨pre, d, post, a, rfl, hhd, hpre, hpost, heq⟩
        · refine .inl ⟨fun d hmem => ?_, heq⟩
          rcases List.mem_cons.mp hmem with rfl | hmem
          · exact hhueco
          · exact hno d hmem
        · refine .inr ⟨dir :: pre, d, post, a, rfl, hhd, ?_, hpost, heq⟩
          refine tramo_cons hd hb ?_
          rw [hlargo, Nat.add_assoc]
          exact hpre

/-- The first record with room, in the blocks from index `i` on. -/
theorem EnImagen.buscarLugar (h : EnImagen fs inodo n)
    (hd : Directorio fs inodo n dss) (tam : Nat) : ∀ {resta i : Nat}, i + resta = n →
    (∀ j, i ≤ j → j < n → ∀ dir ∈ dss j, ¬ Hueco tam dir)
        ∧ buscarLugar fs inodo tam i resta = some none
      ∨ ∃ j pre dir post a, j < n ∧ Hueco tam dir ∧ EnLugar fs inodo j a pre dir post (dss j)
        ∧ buscarLugar fs inodo tam i resta
          = some (some (leerBloque fs j inodo, a, dir.etiqueta)) := by
  intro resta
  induction resta with
  | zero =>
      intro i hi
      exact .inl ⟨fun j h1 h2 => absurd h2 (by omega), rfl⟩
  | succ resta ih =>
      intro i hi
      have hin : i < n := by omega
      have hbloque := hd.bloques i hin
      have hlen := hbloque.length_le
      rw [Nat.succ_mul] at hlen
      rcases h.lugarDesde hin tam (o := 0) (show (dss i).length ≤ fs.sb.blockSize by omega) hbloque
        with ⟨hno, heq⟩ | ⟨pre, dir, post, a, hlista, hhueco, hpre, hpost, heq⟩
      · rcases ih (i := i + 1) (by omega) with ⟨hno', heq'⟩ | ⟨j, pre, dir, post, a, hj, hh, hl,
          heq'⟩
        · refine .inl ⟨fun j h1 h2 => ?_, ?_⟩
          · rcases Nat.eq_or_lt_of_le h1 with rfl | hlt
            · exact hno
            · exact hno' j hlt h2
          · rw [Rfs.buscarLugar, heq]
            exact heq'
        · refine .inr ⟨j, pre, dir, post, a, hj, hh, hl, ?_⟩
          rw [Rfs.buscarLugar, heq]
          exact heq'
      · refine .inr ⟨i, pre, dir, post, a, hin, hhueco, ⟨hlista, hpre, hpost⟩, ?_⟩
        rw [Rfs.buscarLugar, heq]

end Directorio

end Rfs
