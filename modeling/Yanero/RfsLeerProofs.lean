import Yanero.RfsContenidoProofs
import Yanero.RfsVolcarProofs
import Yanero.RfsPathProofs
import Yanero.RfsPedidos
import Yanero.NipcProofs

/-! # What a READ answers

    `Dir_leerArchivo` fetches as many blocks as `size` bytes take, from the
    block of `offset` on, into a fresh buffer, and cuts the range out of it.
    What it fetches is the file's (`leerBloques_eq`), from the cache or from the
    image; when the range starts inside a block and ends past the blocks
    fetched, the rest of the answer is what the buffer held before.  Past the
    end of the file the subtraction of `procesarRead` wraps. -/

namespace Rfs

open Bloques Palabras Nipc

/-- What the cache holds of a block of the volume are its bytes. -/
def Coherente (fs : Ext2) (cache : Cache) : Prop :=
  ∀ b l, fs.sb.enVolumen b → cache b = some l →
    l = Bytes.leer fs.disco (b * fs.sb.blockSize) fs.sb.blockSize

/-- A READ answers with the file's bytes of the range, up to its end, whatever
    the fresh buffers hold and whatever of the file is in the cache. -/
def LeeBien (fs : Ext2) (path : List UInt8) (x offset size : Nat) : Prop :=
  ∀ basura cache, Coherente fs cache →
    ∃ cache', procesarRead basura fs cache path offset size
      = some (cache', .read (trama Fsc.tipoRead
      (contenido fs (leerInodo fs x) offset (min (offset + size) (leerInodo fs x).iSize))))

/-- The range starts within the file, its end fits in 32 bits, and the blocks
    that its bytes would take reach that end. -/
def LecturaEntera (blockSize iSize offset size : Nat) : Prop :=
  offset ≤ iSize ∧ offset + size < 2 ^ 32 ∧
    (min size (iSize - offset) = 0 ∨ offset % blockSize + min size (iSize - offset)
      ≤ cantBloques blockSize (min size (iSize - offset)) * blockSize)

section Leer

variable {fs : Ext2} {inodo : Inode} {cache : Cache} {basura : Nat → UInt8}
  {offset size : Nat}

/-- An index whose block is read at its place. -/
structure Legible (fs : Ext2) (inodo : Inode) (n : Nat) : Prop where
  leerBloque : leerBloque fs n inodo = hojaDe fs inodo n
  enVolumen : fs.sb.enVolumen (hojaDe fs inodo n)
  lugar : offsetBloque fs (hojaDe fs inodo n) 0 = hojaDe fs inodo n * fs.sb.blockSize

theorem Denso.legible (h : Denso fs inodo) (himg : fs.sb.sBlocksCount * fs.sb.blockSize < 2 ^ 32)
    (htam : inodo.iSize < 2 ^ 32) {n : Nat} (hn : n < cantBloques fs.sb.blockSize inodo.iSize) :
    Legible fs inodo n := by
  obtain ⟨-, hvol⟩ := h n hn
  refine ⟨leerBloque_hoja (lt_trans (mul_lt_de_cantBloques (blockSize_pos fs.sb) hn) htam), hvol,
    ?_⟩
  exact u32_eq (lt_of_le_of_lt (Nat.mul_le_mul_right _ (Nat.le_of_lt hvol.2)) himg)

theorem Coherente.subir (h : Coherente fs cache) {b : Nat}
    (hcorto : fs.sb.blockSize < 65536) :
    Coherente fs (cacheSubirInfoServer cache b
      (Bytes.leer fs.disco (b * fs.sb.blockSize) fs.sb.blockSize)) := by
  intro c l hc hl
  rw [cacheSubirInfoServer] at hl
  split at hl
  case isTrue heq =>
    rw [Bytes.length_leer, Nat.mod_eq_of_lt hcorto,
      List.take_of_length_le (by rw [Bytes.length_leer])] at hl
    rw [heq, ← Option.some.inj hl]
  case isFalse => exact h c l hc hl

/-- **THE LOOP OF A READ** copies the blocks of the file one after another,
    whether they are in the cache or not. -/
theorem leerBloques_eq {b₀ : List UInt8} : ∀ (cant n i : Nat) (cache : Cache) (hecho : List UInt8),
    (∀ m, n ≤ m → m < n + cant → Legible fs inodo m) → Coherente fs cache →
    (cant ≤ 1 ∨ fs.sb.blockSize < 65536) → hecho.length = fs.sb.blockSize * i →
    fs.sb.blockSize * (i + cant) ≤ b₀.length →
    ∃ cache', leerBloques fs inodo cant n i cache (hecho ++ b₀.drop (fs.sb.blockSize * i))
      = some (cache', hecho ++ contenido fs inodo (n * fs.sb.blockSize)
        ((n + cant) * fs.sb.blockSize)
        ++ b₀.drop (fs.sb.blockSize * (i + cant))) := by
  intro cant
  induction cant with
  | zero =>
      intro n i cache hecho _ _ _ _ _
      refine ⟨cache, ?_⟩
      have hvacio : contenido fs inodo (n * fs.sb.blockSize) ((n + 0) * fs.sb.blockSize) = [] := by
        rw [Nat.add_zero, contenido, Nat.sub_self]
        rfl
      rw [leerBloques, hvacio, List.append_nil, Nat.add_zero]
  | succ cant ih =>
      intro n i cache hecho hleg hcoh hcorto hhecho hlen
      have hl := hleg n (Nat.le_refl n) (by omega)
      have hbloque := leer_hoja fs inodo n
      have hpaso : fs.sb.blockSize * i + (Bytes.leer fs.disco (hojaDe fs inodo n * fs.sb.blockSize)
          fs.sb.blockSize).length = fs.sb.blockSize * (i + 1) := by
        rw [Bytes.length_leer, Nat.mul_succ]
      have hsub : fs.sb.blockSize * (i + 1) ≤ b₀.length :=
        le_trans (Nat.mul_le_mul_left _ (by omega)) hlen
      have hcopia := @poner_resto b₀ hecho (Bytes.leer fs.disco (hojaDe fs inodo n
        * fs.sb.blockSize) fs.sb.blockSize) (fs.sb.blockSize * i) hhecho.symm
          (by rw [hpaso]; exact hsub)
      rw [hpaso] at hcopia
      have hsig : ∀ cache', Coherente fs cache' ∨ cant = 0 →
          ∃ cache'', leerBloques fs inodo cant (n + 1) (i + 1) cache'
            (hecho ++ Bytes.leer fs.disco (hojaDe fs inodo n * fs.sb.blockSize) fs.sb.blockSize
              ++ b₀.drop (fs.sb.blockSize * (i + 1)))
            = some (cache'', hecho
              ++ contenido fs inodo (n * fs.sb.blockSize) ((n + (cant + 1)) * fs.sb.blockSize)
              ++ b₀.drop (fs.sb.blockSize * (i + (cant + 1)))) := by
        intro cache' hc
        have hjunta : hecho
            ++ Bytes.leer fs.disco (hojaDe fs inodo n * fs.sb.blockSize) fs.sb.blockSize
            ++ contenido fs inodo ((n + 1) * fs.sb.blockSize) ((n + 1 + cant) * fs.sb.blockSize)
            = hecho
              ++ contenido fs inodo (n * fs.sb.blockSize) ((n + (cant + 1)) * fs.sb.blockSize) := by
          rw [List.append_assoc, hbloque, contenido_append (Nat.mul_le_mul_right _ (by omega))
            (Nat.mul_le_mul_right _ (by omega)), show n + 1 + cant = n + (cant + 1) by omega]
        rcases hc with hc | rfl
        · obtain ⟨cache'', he⟩ := ih (n + 1) (i + 1) cache' (hecho ++ Bytes.leer fs.disco
              (hojaDe fs inodo n * fs.sb.blockSize) fs.sb.blockSize)
            (fun m h1 h2 => hleg m (by omega) (by omega)) hc (by omega)
            (by rw [List.length_append, hhecho, hpaso])
            (by rw [show i + 1 + cant = i + (cant + 1) by omega]; exact hlen)
          rw [hjunta, show i + 1 + cant = i + (cant + 1) by omega] at he
          exact ⟨cache'', he⟩
        · refine ⟨cache', ?_⟩
          rw [leerBloques, hbloque]
      rw [leerBloques]
      dsimp only
      rw [hl.leerBloque]
      cases hc : cache (hojaDe fs inodo n) with
      | none =>
          simp only [hl.lugar, hcopia, Option.bind_eq_bind, Option.bind_some]
          refine hsig _ ?_
          rcases hcorto with h1 | hcorto
          · exact .inr (by omega)
          · exact .inl (hcoh.subir hcorto)
      | some l =>
          obtain rfl := hcoh _ l hl.enVolumen hc
          have hsacar := sacar_todo (Bytes.leer fs.disco (hojaDe fs inodo n * fs.sb.blockSize)
            fs.sb.blockSize)
          rw [Bytes.length_leer] at hsacar
          simp only [hsacar, hcopia, Option.bind_eq_bind, Option.bind_some]
          exact hsig _ (.inl hcoh)

/-- Two blocks of a volume with a dense file that is not empty. -/
theorem Denso.dos_bloques (h : Denso fs inodo)
    (himg : fs.sb.sBlocksCount * fs.sb.blockSize < 2 ^ 32)
    (hpos : 0 < inodo.iSize) : fs.sb.blockSize * 2 ≤ 2 ^ 31 := by
  have hbs := blockSize_pos fs.sb
  obtain ⟨hne, -, hlt⟩ := h 0 ((lt_cantBloques_iff hbs).mpr (by omega))
  have h2 : 2 * fs.sb.blockSize ≤ fs.sb.sBlocksCount * fs.sb.blockSize :=
    Nat.mul_le_mul_right _ (by omega)
  have hpot : 2 * fs.sb.blockSize = 2 ^ (fs.sb.sLogBlockSize + 11) := by
    rw [blockSize_eq, Nat.pow_add]
    omega
  have hexp : fs.sb.sLogBlockSize + 11 < 32 :=
    (Nat.pow_lt_pow_iff_right (by decide : 1 < 2)).mp (by omega)
  rw [Nat.mul_comm, hpot]
  exact Nat.pow_le_pow_right (by decide) (by omega)

/-- `Dir_leerArchivo` on a range of the file: the blocks fetched, then what the
    buffer held. -/
theorem leerArchivo_eq (hd : Denso fs inodo) (himg : fs.sb.sBlocksCount * fs.sb.blockSize < 2 ^ 32)
    (htam : inodo.iSize < 2 ^ 32) (hcoh : Coherente fs cache) (hs : size ≤ 65535) (hpos : 0 < size)
    (hfin : offset + size ≤ inodo.iSize) :
    ∃ cache', leerArchivo basura fs cache inodo offset size = some (cache',
      ((contenido fs inodo (offset / fs.sb.blockSize * fs.sb.blockSize)
          ((offset / fs.sb.blockSize + cantBloques fs.sb.blockSize size) * fs.sb.blockSize)
        ++ (malloc basura (size + fs.sb.blockSize * 2)).drop
          (fs.sb.blockSize * cantBloques fs.sb.blockSize size)).drop
        (offset % fs.sb.blockSize)).take size) := by
  have hbs := blockSize_pos fs.sb
  have h2 := hd.dos_bloques himg (by omega)
  obtain ⟨hc1, hc2⟩ := cantBloques_cotas hbs size
  have hmod := Nat.mod_lt offset hbs
  have hdm := Nat.div_add_mod offset fs.sb.blockSize
  rw [Nat.mul_comm] at hdm
  have hcab : fs.sb.blockSize * (0 + cantBloques fs.sb.blockSize size)
      ≤ (malloc basura (size + fs.sb.blockSize * 2)).length := by
    rw [length_malloc, Nat.zero_add, Nat.mul_comm]
    omega
  have hleg : ∀ m, offset / fs.sb.blockSize ≤ m →
      m < offset / fs.sb.blockSize + cantBloques fs.sb.blockSize size → Legible fs inodo m := by
    intro m _ hm
    -- a block that is fetched starts before the range ends
    have hle : m * fs.sb.blockSize + fs.sb.blockSize
        ≤ offset / fs.sb.blockSize * fs.sb.blockSize
          + cantBloques fs.sb.blockSize size * fs.sb.blockSize := by
      rw [← Nat.succ_mul, ← Nat.add_mul]
      exact Nat.mul_le_mul_right _ hm
    exact hd.legible himg htam ((lt_cantBloques_iff hbs).mpr (by omega))
  have hcorto : cantBloques fs.sb.blockSize size ≤ 1 ∨ fs.sb.blockSize < 65536 := by
    by_contra hno
    have : 2 * fs.sb.blockSize ≤ cantBloques fs.sb.blockSize size * fs.sb.blockSize :=
      Nat.mul_le_mul_right _ (by omega)
    omega
  obtain ⟨cache', he⟩ := leerBloques_eq _ _ 0 cache [] hleg hcoh hcorto rfl hcab
  rw [Nat.mul_zero, List.drop_zero, List.nil_append, List.nil_append, Nat.zero_add] at he
  have hsacar : ∀ b : List UInt8, offset % fs.sb.blockSize + size ≤ b.length →
      sacar b (offset % fs.sb.blockSize) size
        = some ((b.drop (offset % fs.sb.blockSize)).take size) := fun b hb => if_pos hb
  refine ⟨cache', ?_⟩
  rw [leerArchivo]
  simp only [u32_eq (show size + fs.sb.blockSize * 2 < 2 ^ 32 by omega), he, Option.bind_eq_bind,
    Option.bind_some]
  rw [hsacar]
  · rfl
  · rw [List.length_append, length_contenido, List.length_drop, length_malloc, Nat.add_mul,
      Nat.add_sub_cancel_left, Nat.mul_comm fs.sb.blockSize (cantBloques _ _)]
    omega

/-- A packet that is sent has the bytes announced to the socket. -/
theorem length_enviarRead {buf p : List UInt8} (h : enviarRead basura size buf = some p) :
    p.length = u32 (size + 3) := by
  simp only [enviarRead, Option.bind_eq_bind, Option.bind_eq_some_iff] at h
  obtain ⟨payload, -, paquete, -, hp⟩ := h
  unfold sacar at hp
  split at hp
  case isTrue hle =>
    rw [← Option.some.inj hp, List.length_take, List.length_drop]
    omega
  case isFalse => cases hp

theorem enviarRead_eq {buf : List UInt8} (hlen : buf.length = size) (hs : size ≤ 65535) :
    enviarRead basura size buf = some (trama Fsc.tipoRead buf) := by
  have hmod : size % 65536 = size := Nat.mod_eq_of_lt (by omega)
  have hpay : sacar buf 0 size = some buf := by rw [← hlen, sacar_todo]
  have htodo : sacar (trama Fsc.tipoRead buf) 0 (u32 (size + 3))
      = some (trama Fsc.tipoRead buf) := by
    have hu : u32 (size + 3) = (trama Fsc.tipoRead buf).length := by
      rw [u32_eq (by omega), length_trama, hlen, Nat.add_comm]
    rw [hu, sacar_todo]
  have hnipc := serializarNipc_eq basura Fsc.tipoRead buf
  rw [hlen] at hnipc
  simp only [enviarRead, hmod, hpay, hnipc, htodo, Option.bind_eq_bind, Option.bind_some]

theorem drop_trama (tipo : UInt8) (c : List UInt8) : (trama tipo c).drop 3 = c := by
  have h : trama tipo c = ([tipo] ++ bytesDe 2 c.length) ++ c := by rw [trama, List.append_assoc]
  rw [h, List.drop_left' (by rw [List.length_append, length_bytesDe, List.length_singleton])]

/-- The size that is left of a request once it is compared with the file. -/
def recortado (iSize offset size : Nat) : Nat :=
  if iSize < u32 (offset + size) then resta32 iSize offset else size

theorem recortado_eq {iSize : Nat} (hle : offset ≤ iSize) (htam : iSize < 2 ^ 32)
    (hsum : offset + size < 2 ^ 32) : recortado iSize offset size = min size (iSize - offset) := by
  rw [recortado, u32_eq hsum]
  split
  · rw [resta32_eq htam hle]
    omega
  · omega

theorem procesarRead_eq {path : List UInt8} {x : Nat} (hp : buscarPath fs path = some x)
    (hx : x ≠ 0) : procesarRead basura fs cache path offset size
      = (leerArchivo basura fs cache (leerInodo fs x) offset
          (recortado (leerInodo fs x).iSize offset size)).bind fun r =>
        (enviarRead basura (recortado (leerInodo fs x).iSize offset size) r.2).bind fun paquete =>
          some (r.1, .read paquete) := by
  simp only [procesarRead, hp, Option.bind_eq_bind, Option.bind_some, if_neg hx]
  rfl

/-- What a READ that answers well has sent. -/
theorem LeeBien.enviado {path : List UInt8} {x : Nat} (h : LeeBien fs path x offset size)
    (hp : buscarPath fs path = some x) (hx : x ≠ 0) (basura : Nat → UInt8) :
    ∃ r, leerArchivo basura fs (fun _ => none) (leerInodo fs x) offset
        (recortado (leerInodo fs x).iSize offset size) = some r
      ∧ enviarRead basura (recortado (leerInodo fs x).iSize offset size) r.2
        = some (trama Fsc.tipoRead (contenido fs (leerInodo fs x) offset
          (min (offset + size) (leerInodo fs x).iSize))) := by
  obtain ⟨cache', he⟩ := h basura (fun _ => none) fun _ _ _ hl => by cases hl
  rw [procesarRead_eq hp hx] at he
  obtain ⟨r, hr, he⟩ := Option.bind_eq_some_iff.mp he
  obtain ⟨p, hp', he⟩ := Option.bind_eq_some_iff.mp he
  have hres : Respuesta.read p = .read _ := (Prod.mk.inj (Option.some.inj he)).2
  exact ⟨r, hr, hp'.trans (congrArg some (Respuesta.read.inj hres))⟩

/-- Past the blocks fetched the answer is what the buffer held. -/
theorem sobra_basura {n : Nat} (hpos : 0 < size) (hno : cantBloques fs.sb.blockSize size
      * fs.sb.blockSize < offset % fs.sb.blockSize + size) :
    (((contenido fs inodo (n * fs.sb.blockSize)
          ((n + cantBloques fs.sb.blockSize size) * fs.sb.blockSize)
        ++ (malloc basura (size + fs.sb.blockSize * 2)).drop
          (fs.sb.blockSize * cantBloques fs.sb.blockSize size)).drop
        (offset % fs.sb.blockSize)).take size)[cantBloques fs.sb.blockSize size * fs.sb.blockSize
          - offset % fs.sb.blockSize]?
      = some (basura (fs.sb.blockSize * cantBloques fs.sb.blockSize size)) := by
  have hbs := blockSize_pos fs.sb
  obtain ⟨hc1, hc2⟩ := cantBloques_cotas hbs size
  have hmod := Nat.mod_lt offset hbs
  have huno : 1 * fs.sb.blockSize ≤ cantBloques fs.sb.blockSize size * fs.sb.blockSize :=
    Nat.mul_le_mul_right _ ((lt_cantBloques_iff hbs).mpr (by omega))
  have hlen : (contenido fs inodo (n * fs.sb.blockSize)
      ((n + cantBloques fs.sb.blockSize size) * fs.sb.blockSize)).length
      = cantBloques fs.sb.blockSize size * fs.sb.blockSize := by
    rw [length_contenido, Nat.add_mul, Nat.add_sub_cancel_left]
  rw [List.getElem?_take_of_lt (by omega), List.getElem?_drop,
    List.getElem?_append_right (by rw [hlen]; omega), List.getElem?_drop, hlen, malloc,
    Nat.mul_comm fs.sb.blockSize (cantBloques _ _)]
  rw [show cantBloques fs.sb.blockSize size * fs.sb.blockSize
      + (offset % fs.sb.blockSize + (cantBloques fs.sb.blockSize size * fs.sb.blockSize
        - offset % fs.sb.blockSize) - cantBloques fs.sb.blockSize size * fs.sb.blockSize)
      = cantBloques fs.sb.blockSize size * fs.sb.blockSize by omega, List.getElem?_map,
    List.getElem?_range (by omega)]
  rfl

/-- A READ that answers well has its range within the file, and 32 bits are
    enough for its end. -/
theorem LeeBien.dentro {path : List UInt8} {x : Nat} (h : LeeBien fs path x offset size)
    (hp : buscarPath fs path = some x) (hx : x ≠ 0) (ho : offset < 2 ^ 32) (hs : size ≤ 65535) :
    offset ≤ (leerInodo fs x).iSize ∧ offset + size < 2 ^ 32 := by
  have htam := leerInodo_iSize_lt fs x
  have hlargo : 3 + (min (offset + size) (leerInodo fs x).iSize - offset)
      = u32 (recortado (leerInodo fs x).iSize offset size + 3) := by
    obtain ⟨r, -, he⟩ := h.enviado hp hx fun _ => 0
    rw [← length_enviarRead he, length_trama, length_contenido]
  -- past the end the size that is left is not zero
  have hle : offset ≤ (leerInodo fs x).iSize := by
    by_contra hgt
    unfold recortado resta32 u32 at hlargo
    split at hlargo <;> omega
  have hsum : offset + size < 2 ^ 32 := by
    by_contra hgt
    unfold recortado u32 at hlargo
    rw [if_neg (by omega)] at hlargo
    omega
  exact ⟨hle, hsum⟩

/-- In a READ that answers well the blocks fetched reach the end of the range:
    what comes after them is the buffer's. -/
theorem LeeBien.entera {path : List UInt8} {x : Nat} (h : LeeBien fs path x offset size)
    (hp : buscarPath fs path = some x) (hx : x ≠ 0) (hd : Denso fs (leerInodo fs x))
    (himg : fs.sb.sBlocksCount * fs.sb.blockSize < 2 ^ 32) (ho : offset < 2 ^ 32)
    (hs : size ≤ 65535) : LecturaEntera fs.sb.blockSize (leerInodo fs x).iSize offset size := by
  have hbs := blockSize_pos fs.sb
  have htam := leerInodo_iSize_lt fs x
  have hmod := Nat.mod_lt offset hbs
  have hdm := Nat.div_add_mod offset fs.sb.blockSize
  rw [Nat.mul_comm] at hdm
  obtain ⟨hle, hsum⟩ := h.dentro hp hx ho hs
  refine ⟨hle, hsum, ?_⟩
  by_contra hno
  rw [not_or] at hno
  obtain ⟨hne, hcorta⟩ := hno
  obtain ⟨s, hs'⟩ : ∃ s, min size ((leerInodo fs x).iSize - offset) = s := ⟨_, rfl⟩
  rw [hs'] at hne hcorta
  obtain ⟨hc1, hc2⟩ := cantBloques_cotas hbs s
  -- a buffer that holds something else there
  obtain ⟨r, hr, he⟩ := h.enviado hp hx fun _ => byteDe fs (leerInodo fs x)
    (offset + (cantBloques fs.sb.blockSize s * fs.sb.blockSize - offset % fs.sb.blockSize)) + 1
  rw [recortado_eq hle htam hsum, hs'] at hr he
  obtain ⟨cache', hb⟩ := @leerArchivo_eq fs (leerInodo fs x) (fun _ => none) (fun _ =>
    byteDe fs (leerInodo fs x) (offset + (cantBloques fs.sb.blockSize s * fs.sb.blockSize
      - offset % fs.sb.blockSize)) + 1) offset s hd himg htam (fun _ _ _ hl => by cases hl)
    (by omega) (by omega) (by omega)
  rw [hb] at hr
  obtain rfl := Option.some.inj hr
  have hbuf : ∀ buf : List UInt8, buf.length = s → enviarRead (fun _ => byteDe fs (leerInodo fs x)
      (offset + (cantBloques fs.sb.blockSize s * fs.sb.blockSize - offset % fs.sb.blockSize)) + 1)
      s buf = some (trama Fsc.tipoRead (contenido fs (leerInodo fs x) offset
        (min (offset + size) (leerInodo fs x).iSize))) →
      buf = contenido fs (leerInodo fs x) offset (offset + s) := by
    intro buf hlen hbuf
    rw [enviarRead_eq hlen (by omega)] at hbuf
    have := congrArg (List.drop 3) (Option.some.inj hbuf)
    rw [drop_trama, drop_trama] at this
    rw [this]
    congr 1
    omega
  have heq := hbuf _ (by
    rw [List.length_take, List.length_drop, List.length_append, length_contenido,
      List.length_drop, length_malloc, Nat.add_mul, Nat.add_sub_cancel_left,
      Nat.mul_comm fs.sb.blockSize (cantBloques _ _)]
    omega) he
  have hpos := congrArg (fun l => l[cantBloques fs.sb.blockSize s * fs.sb.blockSize
    - offset % fs.sb.blockSize]?) heq
  dsimp only at hpos
  rw [sobra_basura (by omega) (by omega), getElem?_contenido (by omega)] at hpos
  have := Option.some.inj hpos
  simp at this

/-- A range that the blocks fetched reach is cut out of them. -/
theorem LecturaEntera.leeBien {path : List UInt8} {x : Nat}
    (h : LecturaEntera fs.sb.blockSize (leerInodo fs x).iSize offset size)
    (hp : buscarPath fs path = some x) (hx : x ≠ 0) (hd : Denso fs (leerInodo fs x))
    (himg : fs.sb.sBlocksCount * fs.sb.blockSize < 2 ^ 32) (hs : size ≤ 65535) :
    LeeBien fs path x offset size := by
  have hbs := blockSize_pos fs.sb
  have htam := leerInodo_iSize_lt fs x
  have hmod := Nat.mod_lt offset hbs
  have hdm := Nat.div_add_mod offset fs.sb.blockSize
  rw [Nat.mul_comm] at hdm
  obtain ⟨hle, hsum, hcabe⟩ := h
  intro basura cache hcoh
  have hmin : min (offset + size) (leerInodo fs x).iSize
      = offset + min size ((leerInodo fs x).iSize - offset) := by omega
  rw [procesarRead_eq hp hx, recortado_eq hle htam hsum, hmin]
  obtain ⟨s, hs'⟩ : ∃ s, min size ((leerInodo fs x).iSize - offset) = s := ⟨_, rfl⟩
  rw [hs'] at hcabe ⊢
  suffices hleer : ∃ cache', leerArchivo basura fs cache (leerInodo fs x) offset s
      = some (cache', contenido fs (leerInodo fs x) offset (offset + s)) by
    obtain ⟨cache', hleer⟩ := hleer
    refine ⟨cache', ?_⟩
    rw [hleer, Option.bind_some, enviarRead_eq (by rw [length_contenido]; omega) (by omega),
      Option.bind_some]
  rcases Nat.eq_zero_or_pos s with rfl | hpos
  · refine ⟨cache, ?_⟩
    have hvacio : contenido fs (leerInodo fs x) offset (offset + 0) = [] := by
      rw [contenido, Nat.add_sub_cancel_left]
      rfl
    have hentra : offset % fs.sb.blockSize + 0 ≤ u32 (0 + fs.sb.blockSize * 2) := by
      rcases Nat.eq_zero_or_pos (leerInodo fs x).iSize with h0 | hlleno
      · rw [show offset = 0 by omega, Nat.zero_mod]
        exact Nat.zero_le _
      · rw [u32_eq (by have := hd.dos_bloques himg hlleno; omega)]
        omega
    have hcero : cantBloques fs.sb.blockSize 0 = 0 := by
      rw [cantBloques, Nat.zero_mod, if_neg (Nat.lt_irrefl 0), Nat.zero_div]
    have hsacar : sacar (malloc basura (u32 (0 + fs.sb.blockSize * 2)))
        (offset % fs.sb.blockSize) 0 = some [] := by
      rw [sacar, if_pos (by rw [length_malloc]; exact hentra), List.take_zero]
    simp only [leerArchivo, hcero, leerBloques, hsacar, hvacio, Option.bind_eq_bind,
      Option.bind_some]
  · have hcabe := hcabe.resolve_left (by omega)
    obtain ⟨cache', hb⟩ := @leerArchivo_eq fs (leerInodo fs x) cache basura offset s hd himg htam
      hcoh (by omega) hpos (by omega)
    have hlen : (contenido fs (leerInodo fs x) (offset / fs.sb.blockSize * fs.sb.blockSize)
        ((offset / fs.sb.blockSize + cantBloques fs.sb.blockSize s) * fs.sb.blockSize)).length
        = cantBloques fs.sb.blockSize s * fs.sb.blockSize := by
      rw [length_contenido, Nat.add_mul, Nat.add_sub_cancel_left]
    have hini : offset - offset / fs.sb.blockSize * fs.sb.blockSize
        = offset % fs.sb.blockSize := by omega
    have hfin : offset + s
        ≤ (offset / fs.sb.blockSize + cantBloques fs.sb.blockSize s) * fs.sb.blockSize := by
      rw [Nat.add_mul]
      omega
    refine ⟨cache', ?_⟩
    rw [hb, List.drop_append_of_le_length (by omega), List.take_append_of_le_length (by
      rw [List.length_drop]
      omega), ← sacar_contenido (show offset / fs.sb.blockSize * fs.sb.blockSize ≤ offset by omega)
        (Nat.le_add_right offset s) hfin, hini, Nat.add_sub_cancel_left]

end Leer

/-! ## A file of two blocks -/

theorem denso_imagenRaiz : Denso imagenRaiz (leerInodo imagenRaiz 3) := by
  intro n hn
  have hdos : cantBloques imagenRaiz.sb.blockSize (leerInodo imagenRaiz 3).iSize = 2 := by
    decide
  rw [hdos] at hn
  interval_cases n <;> exact ⟨by decide, by decide, by decide⟩

end Rfs
