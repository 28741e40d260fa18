import Yanero.RfsRegistrosProofs
import Yanero.RfsTocaProofs

/-! # A new entry in a directory

    `Dir_crearNuevaEntrada` puts the entry after the first record with room, or
    at the start of a block that the directory grows by. -/

namespace Rfs

open Arboles Cadenas Palabras Tramos

section Crear

variable {fijo : Nat → Prop} {fs fs' : Ext2} {x n i o : Nat} {inodo : Inode} {dir nueva : Dir}
  {dss : Nat → List Dir}

/-- A record written inside a data block. -/
theorem EnMano.ponerDir (h : EnMano fijo fs x inodo n) (hn : EnRango fs.sb n) (hi : i < n)
    (dir : Dir) (hcabe : o + (serializarDir dir).length ≤ fs.sb.blockSize)
    (ho : o < fs.sb.blockSize) :
    Puesto fijo fs x inodo n (i * fs.sb.blockSize + o) (serializarDir dir)
      (escribirDir fs (leerBloque fs i inodo) o dir) := by
  refine h.poner hn hi hcabe rfl rfl ?_
  show Bytes.escribir fs.disco (offsetBloque fs (leerBloque fs i inodo) o) _ = _
  rw [(h.enImagen hn).offset_hoja hi ho]

/-- **ROOM FOUND**: the record is split and the entry put in the rest. -/
theorem EnMano.insertar (h : EnMano fijo fs x inodo n) (hn : EnRango fs.sb n)
    (hd : Directorio fs inodo n dss) (hi : i < n) {a : Nat} {pre post : List Dir}
    (hl : EnLugar fs inodo i a pre dir post (dss i))
    (hhueco : dir.tamEntrada + nueva.tamEntrada ≤ dir.dRecLen)
    (hrec : nueva.dRecLen = dir.dRecLen - dir.tamEntrada) (hc : nueva.Cabe)
    (hfs : escribirDir (escribirDir fs (leerBloque fs i inodo) a
        ({ dir with dRecLen := dir.tamEntrada } : Dir).etiqueta) (leerBloque fs i inodo)
        (a + dir.tamEntrada) nueva = fs') :
    EnMano fijo fs' x inodo n ∧ SoloHojas fs inodo n fs'
      ∧ Directorio fs' inodo n (Function.update dss i
          (pre ++ ({ dir with dRecLen := dir.tamEntrada } :: nueva :: post))) := by
  obtain ⟨fs₁, hfs₁⟩ : ∃ fs₁, escribirDir fs (leerBloque fs i inodo) a
      ({ dir with dRecLen := dir.tamEntrada } : Dir).etiqueta = fs₁ := ⟨_, rfl⟩
  have hbs : fs₁.sb = fs.sb := by rw [← hfs₁]; rfl
  have hfin := hl.desde.cons.2.2.le
  have hb := hl.desde.cons.2.1
  have hlargo : formatoDir.largo dir = dir.dRecLen := rfl
  rw [Nat.succ_mul, hlargo] at hfin
  have hcab : (serializarDir ({ dir with dRecLen := dir.tamEntrada } : Dir).etiqueta).length
      = offName := by
    rw [serializarDir_etiqueta, Dir.length_cabecera]
  have hser := hc.length_serializar
  have hnn : offName + nueva.dNameLen ≤ nueva.tamEntrada := le_redondear _
  have hdn : offName + dir.dNameLen ≤ dir.tamEntrada := le_redondear _
  have hpos : 0 < offName := by decide
  have h₁ := h.ponerDir hn hi (o := a) ({ dir with dRecLen := dir.tamEntrada } : Dir).etiqueta
    (by omega) (by omega)
  rw [hfs₁] at h₁
  have hn₁ : EnRango fs₁.sb n := by rwa [hbs]
  have hmismo : leerBloque fs₁ i inodo = leerBloque fs i inodo := by
    rw [leerBloque_hoja (hn₁ i hi), leerBloque_hoja (hn i hi), h₁.hojas i hi]
  have h₂ := h₁.enMano.ponerDir hn₁ hi (o := a + dir.tamEntrada) nueva (by rw [hbs]; omega)
    (by rw [hbs]; omega)
  rw [hmismo, ← hfs₁, hfs, hfs₁] at h₂
  refine ⟨h₂.enMano, SoloHojas.trans h hn h₁.solo h₂.solo, ?_, fun j hj => ?_⟩
  · rw [h₂.solo.sb, hbs]
    exact hd.entero
  rw [h₂.solo.sb, hbs]
  -- the bytes of the file after the two writes
  have hbytes : ∀ b, b < n * fs.sb.blockSize → byteDe fs' inodo b =
      Bytes.escribir (Bytes.escribir (byteDe fs inodo) (i * fs.sb.blockSize + a)
          (serializarDir ({ dir with dRecLen := dir.tamEntrada } : Dir).etiqueta))
        (i * fs.sb.blockSize + a + dir.tamEntrada) (serializarDir nueva) b := by
    intro b hb
    rw [h₂.bytes b (by rwa [hbs]), hbs, Nat.add_assoc]
    exact Bytes.escribir_congr (h₁.bytes b hb) _ _
  have htope : (j + 1) * fs.sb.blockSize ≤ n * fs.sb.blockSize := Nat.mul_le_mul_right _ hj
  by_cases hji : j = i
  · subst hji
    rw [Function.update_self]
    have hpartido := tramo_partir hl.desde hhueco hrec hc
    refine ((hl.antes.congr fun b _ h2 => ?_).append hpartido).congr fun b _ h2 =>
      hbytes b (by omega)
    refine (if_neg (by omega)).trans (if_neg (by omega))
  · rw [Function.update_of_ne hji]
    refine (hd.bloques j hj).congr fun b h1 h2 => ?_
    rw [hbytes b (by omega)]
    have hlejos : b < i * fs.sb.blockSize ∨ (i + 1) * fs.sb.blockSize ≤ b := by
      rcases Nat.lt_or_gt_of_ne hji with hlt | hgt
      · exact .inl (Nat.lt_of_lt_of_le h2 (Nat.mul_le_mul_right _ hlt))
      · exact .inr (Nat.le_trans (Nat.mul_le_mul_right _ hgt) h1)
    rw [Nat.succ_mul] at hlejos
    exact (if_neg (by omega)).trans (if_neg (by omega))

/-! ## The inode in memory and on the image -/

/-- A path begins at a root of the inode. -/
theorem camino_lt (p m : Nat) : (camino p m).1 < 15 := by
  unfold camino
  split
  · show m < 15
    omega
  split
  · exact show 12 < 15 by decide
  dsimp only
  split
  · exact show 13 < 15 by decide
  · exact show 14 < 15 by decide

/-- Only the pointers of the scheme count. -/
theorem hojaDe_igual {inodo' : Inode} (fs : Ext2)
    (h : ∀ k, k < 15 → inodo'.iBlock k = inodo.iBlock k)
    (m : Nat) : hojaDe fs inodo' m = hojaDe fs inodo m := nodo_raices (h _ (camino_lt _ _))

/-- A byte of a file depends on its pointers. -/
theorem byteDe_igual {inodo' : Inode} (fs : Ext2)
    (h : ∀ k, k < 15 → inodo'.iBlock k = inodo.iBlock k)
    (b : Nat) : byteDe fs inodo' b = byteDe fs inodo b := by
  rw [byteDe, byteDe, hojaDe_igual fs h]

/-- A file in memory depends on its pointers. -/
theorem EnMano.igual {inodo' : Inode} (h : EnMano fijo fs x inodo n)
    (hi : ∀ k, k < 15 → inodo'.iBlock k = inodo.iBlock k) : EnMano fijo fs x inodo' n := by
  refine ⟨h.geometria, h.cuentas, h.enUso, h.reparto.congr (fun y _ k hk => ?_) fun _ _ => rfl,
    fun k hk => ?_⟩
  · by_cases hyx : y = x
    · rw [hyx, Function.update_self, Function.update_self]
      exact hi k hk
    · rw [Function.update_of_ne hyx, Function.update_of_ne hyx]
  · rw [hi k hk]
    exact h.cabe k hk

/-- What writing the inode back leaves: the file as it was in memory. -/
structure Volcado (fijo : Nat → Prop) (fs : Ext2) (x : Nat) (inodo : Inode) (n : Nat) (fs' : Ext2) :
    Prop where
  consistente : Consistente fijo fs'
  igual : (leerInodo fs' x).Igual inodo
  sitios : ∀ k ps, Vivo (esquema fs.sb) n k ps →
    nodo (buscarBloque fs') inodo.iBlock k ps = nodo (buscarBloque fs) inodo.iBlock k ps
  bytes : ∀ b, b < n * fs.sb.blockSize → byteDe fs' inodo b = byteDe fs inodo b

/-- Writing the inode back keeps the file. -/
theorem EnMano.volcado (h : EnMano fijo fs x inodo n) (hn : EnRango fs.sb n)
    (htam : cantBloques fs.sb.blockSize inodo.iSize = n) (hcabe : inodo.Cabe) :
    Volcado fijo fs x inodo n (escribirInodo fs x inodo) := by
  have hG := h.geometria
  have hx : fs.sb.esInodo x := ⟨h.enUso.1, h.enUso.2.1⟩
  have hsolo := soloBloque_escribirInodo hG hx inodo
  have htab := (hG.bloqueInodo hx).2.1
  have hm := mismo_escribirInodo fs x inodo
  have hsitios : ∀ k ps, Vivo (esquema fs.sb) n k ps →
      nodo (buscarBloque (escribirInodo fs x inodo)) inodo.iBlock k ps
        = nodo (buscarBloque fs) inodo.iBlock k ps := by
    refine nodo_congr fun k ps hv _ pos hpos => ?_
    have hdato := (h.dato hv).1
    exact hsolo.buscarBloque hG hdato.1 (fun heq => hdato.2 (heq ▸ htab)) hpos
  refine ⟨(htam ▸ h).volcar hcabe, leerInodo_escribirInodo hcabe, hsitios, fun b hb => ?_⟩
  have hq : b / fs.sb.blockSize < n := Nat.div_lt_of_lt_mul (by rwa [Nat.mul_comm])
  have hhoja : hojaDe (escribirInodo fs x inodo) inodo (b / fs.sb.blockSize)
      = hojaDe fs inodo (b / fs.sb.blockSize) := by
    rw [hojaDe, hojaDe, hm.cantPunteros]
    exact hsitios _ _ (camino_hoja hn hq).1
  rw [byteDe, byteDe, hm.blockSize, hhoja]
  refine hsolo.fuera _ ?_
  rw [bloque_de (Nat.mod_lt b (blockSize_pos fs.sb))]
  exact fun heq => (h.dato_hoja hn hq).2 (heq ▸ htab)

/-- A block bitmap takes a block, so the data blocks are fewer than the blocks. -/
theorem EnMano.hojas_lt (h : EnMano fijo fs x inodo n) (hn : EnRango fs.sb n) :
    n < fs.sb.sBlocksCount := by
  have hG := h.geometria
  -- the first block of the volume is in a group, and that group has a bitmap
  obtain ⟨b, hvol, hfijo⟩ : ∃ b, fs.sb.enVolumen b ∧ fijo b := by
    have h0 : fs.sb.enVolumen fs.sb.sFirstDataBlock := ⟨Nat.le_refl _, hG.volumen⟩
    have hpos := hG.posicion h0
    exact ⟨_, hG.bitmapFijo (fs.sb.grupoDe fs.sb.sFirstDataBlock) (by omega)⟩
  have hinj : Set.InjOn (hojaDe fs inodo) (Finset.range n : Set Nat) := by
    intro i hi j hj heq
    exact h.hoja_unica hn (Finset.mem_range.mp hi) (Finset.mem_range.mp hj) heq
  have hsub : (Finset.range n).image (hojaDe fs inodo)
      ⊆ (Finset.range fs.sb.sBlocksCount).erase b := by
    intro c hc
    obtain ⟨i, hi, rfl⟩ := Finset.mem_image.mp hc
    obtain ⟨hv, hno⟩ := h.dato_hoja hn (Finset.mem_range.mp hi)
    exact Finset.mem_erase.mpr ⟨fun heq => hno (heq ▸ hfijo), Finset.mem_range.mpr hv.2⟩
  have hcard := Finset.card_le_card hsub
  rw [Finset.card_image_of_injOn hinj, Finset.card_range,
    Finset.card_erase_of_mem (Finset.mem_range.mpr hvol.2), Finset.card_range] at hcard
  have := hvol.2
  omega

/-! ## The listing as pairs -/

/-- What an entry says: its name and its inode. -/
def Dir.par (dir : Dir) : List UInt8 × Nat := (dir.dName, dir.dInode)

/-- The pairs of the entries that are not deleted. -/
def pares (ds : List Dir) : List (List UInt8 × Nat) := (vigentes ds).map Dir.par

/-- The pairs of two lists of records. -/
theorem pares_append (ds es : List Dir) : pares (ds ++ es) = pares ds ++ pares es := by
  rw [pares, vigentes, List.filter_append, List.map_append]
  rfl

/-- An erased record has no pair. -/
theorem pares_cons (dir : Dir) (ds : List Dir) :
    pares (dir :: ds) = if dir.dInode = 0 then pares ds else dir.par :: pares ds := by
  unfold pares vigentes
  rw [List.filter_cons]
  by_cases h0 : dir.dInode = 0 <;> simp [h0]

/-- One entry more, between the ones that were there. -/
def Gana (antes despues : List (List UInt8 × Nat)) (p : List UInt8 × Nat) : Prop :=
  ∃ l r, antes = l ++ r ∧ despues = l ++ p :: r

/-- The records of a directory around those of one block. -/
theorem registrosDe_update (dss : Nat → List Dir) (hi : i < n) : ∃ l r,
    (∀ dir ∈ l, ∃ k, k < i ∧ dir ∈ dss k)
      ∧ ∀ ds, registrosDe n (Function.update dss i ds) = l ++ (ds ++ r) := by
  obtain ⟨k, rfl⟩ : ∃ k, n = i + (k + 1) := ⟨n - i - 1, by omega⟩
  refine ⟨((List.range i).map dss).flatten,
    (((List.range k).map fun j => i + (j + 1)).map dss).flatten, fun dir hdir => ?_, fun ds => ?_⟩
  · obtain ⟨l, hl, hdirl⟩ := List.mem_flatten.mp hdir
    obtain ⟨j, hj, rfl⟩ := List.mem_map.mp hl
    exact ⟨j, List.mem_range.mp hj, hdirl⟩
  have hrango : List.range (i + (k + 1))
      = List.range i ++ i :: (List.range k).map fun j => i + (j + 1) := by
    rw [List.range_add, List.range_succ_eq_map, List.map_cons, List.map_map, Nat.add_zero]
    rfl
  have h1 : (List.range i).map (Function.update dss i ds) = (List.range i).map dss := by
    refine List.map_congr_left fun j hj => Function.update_of_ne ?_ ..
    have := List.mem_range.mp hj
    omega
  have h2 : ((List.range k).map fun j => i + (j + 1)).map (Function.update dss i ds)
      = ((List.range k).map fun j => i + (j + 1)).map dss := by
    refine List.map_congr_left fun j hj => Function.update_of_ne ?_ ..
    obtain ⟨j', -, rfl⟩ := List.mem_map.mp hj
    omega
  rw [registrosDe, hrango, List.map_append, List.flatten_append, List.map_cons, List.flatten_cons,
    h1, h2, Function.update_self]

/-- The records of one block more. -/
theorem registrosDe_succ (dss : Nat → List Dir) (n : Nat) (ds : List Dir) :
    registrosDe (n + 1) (Function.update dss n ds) = registrosDe n dss ++ ds := by
  have h1 : (List.range n).map (Function.update dss n ds) = (List.range n).map dss := by
    refine List.map_congr_left fun j hj => Function.update_of_ne ?_ ..
    have := List.mem_range.mp hj
    omega
  rw [registrosDe, List.range_succ, List.map_append, List.flatten_append, h1]
  simp [registrosDe]

/-! ## The whole call -/

/-- A directory depends on size and pointers. -/
theorem Directorio.igual {inodo' : Inode} (h : Directorio fs inodo n dss)
    (hi : inodo'.Igual inodo) : Directorio fs inodo' n dss := by
  refine ⟨hi.iSize.trans h.entero, fun i hin => (h.bloques i hin).congr fun b _ _ => ?_⟩
  rw [byteDe_igual fs hi.iBlock]

/-- So does one whose listing does not end. -/
theorem Atascado.igual {inodo' : Inode} (h : inodo'.Igual inodo) (ha : Atascado fs inodo n) :
    Atascado fs inodo' n := by
  unfold Atascado
  rwa [funext (byteDe_igual fs h.iBlock)]

/-- A byte of the blocks of an inode, of a block bitmap, or of its slot. -/
def DelInodo (fs : Ext2) (x o : Nat) : Prop :=
  (∃ k ps, Vivo (esquema fs.sb) (fs.bloquesDe x) k ps
      ∧ o / fs.sb.blockSize = nodo (buscarBloque fs) (leerInodo fs x).iBlock k ps)
    ∨ (∃ g, 0 < fs.sb.tamGrupo g ∧ o / fs.sb.blockSize = (fs.grupo g).bgBlockBitmap)
    ∨ offsetInodo fs x ≤ o ∧ o < offsetInodo fs x + tamanoInodo

/-- What a call that adds the pair `p` to a directory leaves. -/
structure Creada (fijo : Nat → Prop) (fs : Ext2) (x n : Nat) (dss : Nat → List Dir)
    (p : List UInt8 × Nat) (fs' : Ext2) : Prop where
  consistente : Consistente fijo fs'
  enUso : fs'.EnUso = fs.EnUso
  iMode : (leerInodo fs' x).iMode = (leerInodo fs x).iMode
  directorio : ∃ n' dss', Directorio fs' (leerInodo fs' x) n' dss'
    ∧ Gana (pares (registrosDe n dss)) (pares (registrosDe n' dss')) p
  fuera : ∀ o, fs'.disco o ≠ fs.disco o → DelInodo fs' x o

/-- A data block of an inode, among the blocks it owns. -/
theorem DelInodo.hoja (hn : EnRango fs.sb n) (hx : fs.bloquesDe x = n)
    (hi : i < n) (ho : o / fs.sb.blockSize = hojaDe fs (leerInodo fs x) i) : DelInodo fs x o :=
  .inl ⟨_, _, hx.symm ▸ (camino_hoja hn hi).1, ho⟩

/-- A write to the data of a file leaves a consistent image. -/
theorem EnMano.deHojas (h : EnMano fijo fs x (leerInodo fs x) n) (hn : EnRango fs.sb n)
    (hx : fs.bloquesDe x = n) (hs : SoloHojas fs (leerInodo fs x) n fs') :
    Consistente fijo fs' ∧ (leerInodo fs' x).Igual (leerInodo fs x) ∧ fs'.EnUso = fs.EnUso
      ∧ ∀ o, fs'.disco o ≠ fs.disco o → DelInodo fs' x o := by
  have hG := h.geometria
  have hg := h.guardaHojas hn hs
  have hes : fs.sb.esInodo x := ⟨h.enUso.1, h.enUso.2.1⟩
  have higual := hg.leerInodo hG hes
  have hmano := h.trasHojas hn hs
  have hx' : fs'.bloquesDe x = n := (hg.bloquesDe hG hes).trans hx
  refine ⟨?_, higual, hg.enUso hG, fun o ho => ?_⟩
  · refine @EnMano.consistente _ _ x (leerInodo fs x) ?_ higual.iBlock higual.iSize
    rw [hs.mismo.blockSize, show cantBloques fs.sb.blockSize (leerInodo fs x).iSize = n from hx]
    exact hmano
  · obtain ⟨m, hm, heq⟩ : ∃ m, m < n ∧ o / fs.sb.blockSize = hojaDe fs (leerInodo fs x) m := by
      by_contra hno
      exact ho (hs.fuera o fun m hm heq => hno ⟨m, hm, heq⟩)
    refine DelInodo.hoja (by rwa [hs.sb]) hx' hm ?_
    rw [hs.sb, heq, hojaDe_igual fs' higual.iBlock, h.hojaDe_hojas hn hs hm]

/-- `nuevaEntrada`, with its `d_rec_len`. -/
def entradaNueva (nombreArch : List UInt8) (nroInodo recLen : Nat) : Dir :=
  ⟨nroInodo, recLen, nombreArch.length % 256, 0, nombreArch⟩

/-- A name and an inode number that an entry can hold. -/
structure Nombra (nombreArch : List UInt8) (nroInodo : Nat) : Prop where
  largo : nombreArch.length ≤ 255
  inodo : 0 < nroInodo
  ancho : nroInodo < 2 ^ 32

variable {nombreArch : List UInt8} {nroInodo : Nat}

/-- The new record fits its fields. -/
theorem Nombra.cabe (h : Nombra nombreArch nroInodo) {recLen : Nat} (hr : recLen < 2 ^ 16) :
    (entradaNueva nombreArch nroInodo recLen).Cabe := by
  have := h.largo
  refine ⟨lt_of_lt_of_eq h.ancho potencia32.symm, hr, Nat.mod_lt _ (by decide),
    show 0 < 256 ^ 1 by decide, ?_⟩
  show nombreArch.length = nombreArch.length % 256
  omega

/-- Its name is no longer than a record may have. -/
theorem Nombra.largo_lt (h : Nombra nombreArch nroInodo) (recLen : Nat) :
    (entradaNueva nombreArch nroInodo recLen).dNameLen ≤ 255 := by
  have := h.largo
  show nombreArch.length % 256 ≤ 255
  omega

/-- Its pair is the one asked for. -/
theorem Nombra.pares (h : Nombra nombreArch nroInodo) (recLen : Nat) (ds : List Dir) :
    pares (entradaNueva nombreArch nroInodo recLen :: ds) = (nombreArch, nroInodo) :: pares ds := by
  rw [pares_cons]
  exact if_neg (Nat.pos_iff_ne_zero.mp h.inodo)

/-- A split record says what it said, and the new one is next to it. -/
theorem Nombra.gana (h : Nombra nombreArch nroInodo) (recLen recLen' : Nat)
    (l r pre post : List Dir) :
    Gana (Rfs.pares (l ++ ((pre ++ dir :: post) ++ r)))
      (Rfs.pares (l ++ ((pre ++ ({ dir with dRecLen := recLen } ::
        entradaNueva nombreArch nroInodo recLen' :: post)) ++ r))) (nombreArch, nroInodo) := by
  have hdir : Rfs.pares [{ dir with dRecLen := recLen }] = Rfs.pares [dir] := by
    rw [pares_cons, pares_cons]
    rfl
  refine ⟨Rfs.pares (l ++ pre ++ [dir]), Rfs.pares (post ++ r), ?_, ?_⟩
  · rw [← pares_append]
    simp
  · rw [← List.singleton_append, pares_append l, List.append_assoc, pares_append pre,
      List.append_assoc, pares_append [_], hdir, List.cons_append, h.pares, pares_append (l ++ pre),
      pares_append l]
    simp

/-- **WITH ROOM** the entry goes into a block that the directory has. -/
theorem EnMano.crearEnHueco (h : EnMano fijo fs x (leerInodo fs x) n) (hn : EnRango fs.sb n)
    (hx : fs.bloquesDe x = n) (hd : Directorio fs (leerInodo fs x) n dss)
    (hp : Nombra nombreArch nroInodo) (hi : i < n) {a : Nat} {pre post : List Dir}
    (hl : EnLugar fs (leerInodo fs x) i a pre dir post (dss i))
    (hhueco : Hueco (entradaNueva nombreArch nroInodo 0).tamEntrada dir)
    (hfs : escribirDir (escribirDir fs (leerBloque fs i (leerInodo fs x)) a
        ({ dir with dRecLen := dir.tamEntrada } : Dir).etiqueta)
        (leerBloque fs i (leerInodo fs x)) (a + dir.tamEntrada)
        (entradaNueva nombreArch nroInodo (u16 (resta32 dir.dRecLen dir.tamEntrada))) = fs') :
    Creada fijo fs x n dss (nombreArch, nroInodo) fs' := by
  have hrec : dir.dRecLen < 2 ^ 16 := hl.desde.cons.1 ▸ dirDe_dRecLen_lt _ _
  have hb : dir.tamEntrada ≤ dir.dRecLen := hl.desde.cons.2.1.nombre
  have hresto : u16 (resta32 dir.dRecLen dir.tamEntrada) = dir.dRecLen - dir.tamEntrada := by
    rw [resta32_eq (by omega) hb]
    exact Nat.mod_eq_of_lt (by omega)
  rw [hresto] at hfs
  obtain ⟨-, hsolo, hdir⟩ := @EnMano.insertar _ _ _ _ _ _ _ _
    (entradaNueva nombreArch nroInodo (dir.dRecLen - dir.tamEntrada)) _ h hn hd hi _ _ _ hl hhueco
    rfl (hp.cabe (by omega)) hfs
  obtain ⟨hcons, higual, huso, hfuera⟩ := h.deHojas hn hx hsolo
  refine ⟨hcons, huso, higual.iMode, ⟨n, _, hdir.igual higual, ?_⟩, hfuera⟩
  obtain ⟨l, r, -, hreg⟩ := registrosDe_update dss hi
  have hviejo := hreg (dss i)
  rw [Function.update_eq_self] at hviejo
  rw [hviejo, hreg, hl.lista]
  exact hp.gana _ _ _ _ _ _

/-- The size a directory of `n` blocks is to grow to. -/
theorem EnMano.tamNuevo (h : EnMano fijo fs x inodo n) (hn : EnRango fs.sb n)
    (hd : inodo.iSize = n * fs.sb.blockSize) :
    u32 (inodo.iSize + fs.sb.blockSize) = (n + 1) * fs.sb.blockSize
      ∧ (n + 1) * fs.sb.blockSize < 2 ^ 32 := by
  have hlt := h.hojas_lt hn
  have himagen := h.geometria.imagen
  have hle : (n + 1) * fs.sb.blockSize ≤ fs.sb.sBlocksCount * fs.sb.blockSize :=
    Nat.mul_le_mul_right _ hlt
  have hmenor : (n + 1) * fs.sb.blockSize < 2 ^ 32 := by omega
  rw [hd, ← Nat.succ_mul]
  exact ⟨u32_eq hmenor, hmenor⟩

/-- A byte away from the bitmaps and the pointer blocks of the file, or one of
    the inode. -/
theorem DelInodo.de_lejos (h : ¬ Lejos fs inodo n o) (hm : Mismo fs fs')
    (hx : fs'.bloquesDe x = n)
    (hsitios : ∀ k ps, Vivo (esquema fs.sb) n k ps →
      nodo (buscarBloque fs') (leerInodo fs' x).iBlock k ps
        = nodo (buscarBloque fs) inodo.iBlock k ps) : DelInodo fs' x o := by
  by_contra hno
  refine h ⟨fun g hg heq => hno (.inr (.inl ⟨g, by rwa [hm.tamGrupo], ?_⟩)),
    fun k ps hv _ heq => hno (.inl ⟨k, ps, ?_, ?_⟩)⟩
  · rw [hm.blockSize, hm.bgBlockBitmap, heq]
  · rwa [hx, hm.esquema]
  · rw [hm.blockSize, hsitios k ps hv, heq]

/-- A write to the data of the inode leaves it the bytes it had. -/
theorem DelInodo.trasHojas (h : EnMano fijo fs x (leerInodo fs x) n) (hn : EnRango fs.sb n)
    (hx : fs.bloquesDe x = n) (hs : SoloHojas fs (leerInodo fs x) n fs') (hd : DelInodo fs x o) :
    DelInodo fs' x o := by
  have hm := hs.mismo
  have hes : fs.sb.esInodo x := ⟨h.enUso.1, h.enUso.2.1⟩
  have hg := h.guardaHojas hn hs
  have higual := hg.leerInodo h.geometria hes
  rcases hd with ⟨k, ps, hv, heq⟩ | ⟨g, hg, heq⟩ | ho
  · refine .inl ⟨k, ps, ?_, ?_⟩
    · rwa [hm.esquema, hg.bloquesDe h.geometria hes]
    · rw [hx] at hv
      rw [hm.blockSize, nodo_raices (higual.iBlock k hv.valido.raiz), h.sitio_hojas hn hs hv, heq]
  · refine .inr (.inl ⟨g, by rwa [hm.tamGrupo], ?_⟩)
    rw [hm.blockSize, hm.bgBlockBitmap, heq]
  · refine .inr (.inr ?_)
    rwa [hm.offsetInodo]

/-- The free blocks are enough for one more block of the directory. -/
def HayBloque (fs : Ext2) (x : Nat) : Prop :=
  bloquesTotales fs.sb (fs.bloquesDe x + 1)
    ≤ fs.sb.sFreeBlocksCount + bloquesTotales fs.sb (fs.bloquesDe x)

/-- The image after the directory of `n` blocks has grown by one, with its
    inode written back. -/
structure Crecido (fijo : Nat → Prop) (fs : Ext2) (x n : Nat) (inodo : Inode) (fs' : Ext2) :
    Prop where
  consistente : Consistente fijo fs'
  mismo : Mismo fs fs'
  enUso : fs'.EnUso = fs.EnUso
  rango : EnRango fs'.sb (n + 1)
  igual : (leerInodo fs' x).Igual inodo
  iSize : inodo.iSize = (n + 1) * fs.sb.blockSize
  iMode : inodo.iMode = (leerInodo fs x).iMode
  bytes : ∀ b, b < n * fs.sb.blockSize →
    byteDe fs' (leerInodo fs' x) b = byteDe fs (leerInodo fs x) b
  fuera : ∀ o, fs'.disco o ≠ fs.disco o → DelInodo fs' x o

/-- The directory has a block more. -/
theorem Crecido.bloquesDe (h : Crecido fijo fs x n inodo fs') : fs'.bloquesDe x = n + 1 := by
  rw [Ext2.bloquesDe, h.mismo.blockSize, h.igual.iSize, h.iSize,
    cantBloques_mul (blockSize_pos fs.sb)]

/-- And owns it. -/
theorem Crecido.enMano (h : Crecido fijo fs x n inodo fs') (hx : fs.EnUso x) :
    EnMano fijo fs' x (leerInodo fs' x) (n + 1) := by
  have := h.consistente.enMano (x := x) (by rwa [h.enUso])
  rwa [h.bloquesDe] at this

/-- The growth of a directory by a block that is not refused. -/
theorem EnMano.crecer (h : EnMano fijo fs x (leerInodo fs x) n) (hn : EnRango fs.sb n)
    (hx : fs.bloquesDe x = n) (hd : (leerInodo fs x).iSize = n * fs.sb.blockSize) {fs₁ : Ext2}
    {inodo₁ : Inode} (hr : Rfs.truncarArriba fs (leerInodo fs x)
        (u32 ((leerInodo fs x).iSize + fs.sb.blockSize)) = (fs₁, inodo₁, true)) :
    Crecido fijo fs x n inodo₁ (escribirInodo fs₁ x inodo₁) := by
  have hbs0 := blockSize_pos fs.sb
  obtain ⟨htam, hlt⟩ := h.tamNuevo hn hd
  rw [htam] at hr
  have hmano : EnMano fijo fs x (leerInodo fs x)
      (cantBloques fs.sb.blockSize (leerInodo fs x).iSize) := by
    rw [show cantBloques fs.sb.blockSize (leerInodo fs x).iSize = n from hx]
    exact h
  have hcant : cantBloques fs.sb.blockSize ((n + 1) * fs.sb.blockSize) = n + 1 :=
    cantBloques_mul hbs0 _
  have hcrece : (leerInodo fs x).iSize ≤ (n + 1) * fs.sb.blockSize := by
    rw [hd]
    exact Nat.mul_le_mul_right _ (Nat.le_succ n)
  obtain ⟨hmano₁, hcons, htam₁, hmodo₁, hlinks₁⟩ : EnMano fijo fs₁ x inodo₁ (n + 1)
      ∧ Conserva fijo fs x (leerInodo fs x) n fs₁ inodo₁
      ∧ inodo₁.iSize = (n + 1) * fs.sb.blockSize ∧ inodo₁.iMode = (leerInodo fs x).iMode
      ∧ inodo₁.iLinksCount = (leerInodo fs x).iLinksCount := by
    rcases hmano.truncarArriba hlt hcrece with ⟨-, -, hext⟩ | ⟨-, hno, -⟩
    · rw [hr] at hext
      have hmano₁ := hext.enMano
      have hcons := hext.conserva
      rw [hcant] at hmano₁
      rw [show cantBloques fs.sb.blockSize (leerInodo fs x).iSize = n from hx] at hcons
      exact ⟨hmano₁, hcons, hext.iSize, hext.iMode, hext.iLinksCount⟩
    · rw [hr] at hno
      cases hno
  have hm₁ := hcons.guarda.mismo
  have hn₁ : EnRango fs₁.sb (n + 1) := by
    rw [← hcant, ← hm₁.blockSize]
    exact enRango_cantBloques fs₁.sb (by rw [hm₁.blockSize]; exact hlt)
  obtain ⟨fs₂, hfs₂⟩ : ∃ fs₂, escribirInodo fs₁ x inodo₁ = fs₂ := ⟨_, rfl⟩
  have hes₁ : fs₁.sb.esInodo x := ⟨hmano₁.enUso.1, hmano₁.enUso.2.1⟩
  have hvol := hmano₁.volcado hn₁ (by rw [htam₁, hm₁.blockSize, hcant])
    (hmano₁.cabe_inodo (htam₁ ▸ hlt) hmodo₁ hlinks₁ (leerInodo_cabe fs x))
  have hsolo₂ := soloBloque_escribirInodo hmano₁.geometria hes₁ inodo₁
  have huso₂ := hsolo₂.enUso hmano₁.geometria fun g hg =>
    hmano₁.geometria.tabla_no_bitmap hes₁ hg
  rw [hfs₂] at hvol hsolo₂ huso₂ ⊢
  have hm₂ := hm₁.trans hsolo₂.mismo
  have hx₂ : fs₂.bloquesDe x = n + 1 := by
    rw [Ext2.bloquesDe, hm₂.blockSize, hvol.igual.iSize, htam₁, hcant]
  refine ⟨hvol.consistente, hm₂, huso₂.trans (hcons.guarda.enUso h.geometria), by rwa [hsolo₂.sb],
    hvol.igual, htam₁, hmodo₁, fun b hb => ?_, fun o ho => ?_⟩
  · have hsucc : (n + 1) * fs.sb.blockSize = n * fs.sb.blockSize + fs.sb.blockSize :=
      Nat.succ_mul ..
    rw [byteDe_igual fs₂ hvol.igual.iBlock, hvol.bytes b (by rw [hm₁.blockSize]; omega),
      hcons.byteDe hn hb]
  · by_cases h1 : fs₂.disco o = fs₁.disco o
    · rw [h1] at ho
      -- the growth wrote it
      refine @DelInodo.de_lejos fs₁ fs₂ x (n + 1) o inodo₁
        (fun hlejos => ho (hmano.truncarArriba_fuera hlt hcrece hr (by rwa [hcant])))
        hsolo₂.mismo hx₂ fun k ps hv => ?_
      rw [nodo_raices (hvol.igual.iBlock k hv.valido.raiz)]
      exact hvol.sitios k ps hv
    · refine .inr (.inr ?_)
      rw [hsolo₂.mismo.offsetInodo]
      by_contra hno
      refine h1 ?_
      rw [← hfs₂, disco_escribirInodo]
      exact inodoEnDisco_fuera inodo₁ (by omega)

/-- A directory grows by a block when there are blocks for it, and stays as it
    is when there are not. -/
theorem EnMano.crecer_casos (h : EnMano fijo fs x (leerInodo fs x) (fs.bloquesDe x))
    (hn : EnRango fs.sb (fs.bloquesDe x))
    (hd : (leerInodo fs x).iSize = fs.bloquesDe x * fs.sb.blockSize) :
    (HayBloque fs x ∧ ∃ fs₁ inodo₁, Rfs.truncarArriba fs (leerInodo fs x)
          (u32 ((leerInodo fs x).iSize + fs.sb.blockSize)) = (fs₁, inodo₁, true)
        ∧ Crecido fijo fs x (fs.bloquesDe x) inodo₁ (escribirInodo fs₁ x inodo₁))
      ∨ ¬ HayBloque fs x ∧ Rfs.truncarArriba fs (leerInodo fs x)
          (u32 ((leerInodo fs x).iSize + fs.sb.blockSize)) = (fs, leerInodo fs x, false) := by
  obtain ⟨htam32, hlt⟩ := h.tamNuevo hn hd
  have hcrece : (leerInodo fs x).iSize ≤ (fs.bloquesDe x + 1) * fs.sb.blockSize := by
    rw [hd]
    exact Nat.mul_le_mul_right _ (Nat.le_succ _)
  have hcant := cantBloques_mul (blockSize_pos fs.sb) (fs.bloquesDe x + 1)
  rcases hr : Rfs.truncarArriba fs (leerInodo fs x) (u32 ((leerInodo fs x).iSize + fs.sb.blockSize))
    with ⟨fs₁, inodo₁, pudo⟩
  have hdicho := EnMano.truncarArriba (show EnMano fijo fs x (leerInodo fs x)
    (cantBloques fs.sb.blockSize (leerInodo fs x).iSize) from h) hlt hcrece
  rw [← htam32, hr, htam32, hcant] at hdicho
  rcases hdicho with ⟨hhay, rfl, -⟩ | ⟨hfalta, rfl, -⟩
  · exact .inl ⟨hhay, fs₁, inodo₁, rfl, h.crecer hn rfl hd hr⟩
  · refine .inr ⟨Nat.not_le_of_lt hfalta, ?_⟩
    -- the growth takes nothing, so nothing is undone
    have hnada := truncarArriba_nada (n := fs.bloquesDe x) hd (htam32 ▸ hcant)
      (Nat.lt_of_le_of_lt (Nat.mul_le_mul_right _ (Nat.le_succ _)) hlt) (by
        obtain ⟨k, ds, e, hcam, hc⟩ := corte_caminoBloque
          (Nat.lt_of_le_of_lt (Nat.mul_le_mul_right fs.sb.blockSize (Nat.le_succ _)) hlt)
        rcases h.asignarBloque hcam hc with ⟨-, hno⟩ | ⟨_, _, -, hu, -⟩
        · exact hno
        · have hcosto := bloquesTotales_succ hc
          have hlib := hu.libres
          have hf : fs.sb.sFreeBlocksCount + bloquesTotales fs.sb (fs.bloquesDe x)
            < bloquesTotales fs.sb (fs.bloquesDe x + 1) := hfalta
          omega)
    rw [← hr, hnada]

/-- The entry goes at the start of the new block. -/
theorem Crecido.poner (h : Crecido fijo fs x n inodo fs') (hx : fs.EnUso x) (dir : Dir)
    (hcabe : (serializarDir dir).length ≤ fs.sb.blockSize) :
    Puesto fijo fs' x (leerInodo fs' x) (n + 1) (n * fs.sb.blockSize) (serializarDir dir)
      (escribirDir fs' (leerBloque fs' n inodo) 0 dir) := by
  have hn := h.rango
  have hbloque : leerBloque fs' n inodo = leerBloque fs' n (leerInodo fs' x) := by
    rw [leerBloque_hoja (hn n (Nat.lt_succ_self n)), leerBloque_hoja (hn n (Nat.lt_succ_self n)),
      hojaDe_igual fs' h.igual.iBlock]
  have hpuesto := (h.enMano hx).ponerDir hn (Nat.lt_succ_self n) (o := 0) dir
    (by rw [h.mismo.blockSize]; omega) (blockSize_pos _)
  rwa [hbloque, ← h.mismo.blockSize, ← Nat.add_zero (n * fs'.sb.blockSize)]

/-- **WITHOUT ROOM** the directory grows by a block, and the entry fills it. -/
theorem Crecido.crear (h : Crecido fijo fs x n inodo fs') (hx : fs.EnUso x)
    (hd : Directorio fs (leerInodo fs x) n dss) (hp : Nombra nombreArch nroInodo)
    (hbs : fs.sb.blockSize < 2 ^ 16) {fs'' : Ext2}
    (hfs : escribirDir fs' (leerBloque fs' n inodo) 0
      (entradaNueva nombreArch nroInodo (u16 fs.sb.blockSize)) = fs'') :
    Creada fijo fs x n dss (nombreArch, nroInodo) fs'' := by
  have hrec : u16 fs.sb.blockSize = fs.sb.blockSize := Nat.mod_eq_of_lt hbs
  rw [hrec] at hfs
  have hcabe := @Nombra.cabe nombreArch nroInodo hp fs.sb.blockSize hbs
  have hbs1024 := blockSize_eq fs.sb
  have hpot := Nat.two_pow_pos fs.sb.sLogBlockSize
  have hnl := hp.largo_lt fs.sb.blockSize
  have hser := hcabe.length_serializar
  have hoff : offName = 8 := rfl
  have hpuesto := h.poner hx (entradaNueva nombreArch nroInodo fs.sb.blockSize) (by omega)
  rw [hfs] at hpuesto
  have hmano := h.enMano hx
  obtain ⟨hcons, higual, huso, hfuera⟩ := hmano.deHojas h.rango h.bloquesDe hpuesto.solo
  have hm := h.mismo.trans hpuesto.solo.mismo
  refine ⟨hcons, huso.trans h.enUso, ?_, ⟨n + 1, Function.update dss n
    [entradaNueva nombreArch nroInodo fs.sb.blockSize], ?_, ?_⟩, fun o ho => ?_⟩
  · rw [higual.iMode, h.igual.iMode, h.iMode]
  · refine Directorio.igual ⟨?_, fun i hi => ?_⟩ higual
    · rw [h.igual.iSize, h.iSize, hm.blockSize]
    rw [hm.blockSize]
    have hbytes : ∀ b, b < (n + 1) * fs.sb.blockSize → byteDe fs'' (leerInodo fs' x) b
        = Bytes.escribir (byteDe fs' (leerInodo fs' x)) (n * fs.sb.blockSize)
          (serializarDir (entradaNueva nombreArch nroInodo fs.sb.blockSize)) b :=
      fun b hb => hpuesto.bytes b (by rwa [h.mismo.blockSize])
    rcases Nat.lt_succ_iff_lt_or_eq.mp hi with hlt | rfl
    · rw [Function.update_of_ne (by omega)]
      refine (hd.bloques i hlt).congr fun b _ h2 => ?_
      have htope : (i + 1) * fs.sb.blockSize ≤ n * fs.sb.blockSize := Nat.mul_le_mul_right _ hlt
      have hsucc : (n + 1) * fs.sb.blockSize = n * fs.sb.blockSize + fs.sb.blockSize :=
        Nat.succ_mul ..
      rw [hbytes b (by omega), Bytes.escribir, if_neg (by omega), h.bytes b (by omega)]
    · rw [Function.update_self]
      refine Tramo.congr ?_ fun b _ h2 => hbytes b h2
      have hbien : Dir.Bien (entradaNueva nombreArch nroInodo fs.sb.blockSize) := by
        refine ⟨?_, ?_⟩
        · show 4 ∣ fs.sb.blockSize
          omega
        · show redondear (offName + (entradaNueva nombreArch nroInodo fs.sb.blockSize).dNameLen)
            ≤ fs.sb.blockSize
          have := redondear_lt (offName
            + (entradaNueva nombreArch nroInodo fs.sb.blockSize).dNameLen)
          omega
      exact tramo_uno (F := formatoDir) (dirDe_serializar _ _ hcabe) hbien (Nat.succ_mul ..).symm
  · rw [registrosDe_succ, pares_append, hp.pares]
    exact ⟨pares (registrosDe n dss), [], (List.append_nil _).symm, rfl⟩
  · by_cases h2 : fs''.disco o = fs'.disco o
    · rw [h2] at ho
      exact (h.fuera o ho).trasHojas hmano h.rango h.bloquesDe hpuesto.solo
    · exact hfuera o h2

/-- With blocks of 64 KiB or more the `d_rec_len` of the entry wraps to zero,
    and the listing never gets past it. -/
theorem Crecido.listar_ninguno (h : Crecido fijo fs x n inodo fs') (hx : fs.EnUso x)
    (hp : Nombra nombreArch nroInodo) (hbs : 2 ^ 16 ≤ fs.sb.blockSize) {fs'' : Ext2}
    (hfs : escribirDir fs' (leerBloque fs' n inodo) 0
      (entradaNueva nombreArch nroInodo (u16 fs.sb.blockSize)) = fs'') :
    listar fs'' x = none := by
  have hrec : u16 fs.sb.blockSize = 0 := by
    have hpot := blockSize_eq fs.sb
    have h6 : 6 ≤ fs.sb.sLogBlockSize := by
      by_contra hlt
      have := Nat.pow_le_pow_right (show 0 < 2 by decide) (show fs.sb.sLogBlockSize ≤ 5 by omega)
      omega
    obtain ⟨k, hk⟩ := Nat.exists_eq_add_of_le h6
    rw [u16, hpot, hk, pow_add]
    omega
  rw [hrec] at hfs
  have hcabe := @Nombra.cabe nombreArch nroInodo hp 0 (by decide)
  have hnl := hp.largo_lt 0
  have hser := hcabe.length_serializar
  have hoff : offName = 8 := rfl
  have hpuesto := h.poner hx (entradaNueva nombreArch nroInodo 0) (by omega)
  rw [hfs] at hpuesto
  have hmano := h.enMano hx
  obtain ⟨-, higual, -, -⟩ := hmano.deHojas h.rango h.bloquesDe hpuesto.solo
  have hm := h.mismo.trans hpuesto.solo.mismo
  have hn'' : EnRango fs''.sb (n + 1) := by
    rw [hpuesto.solo.sb]
    exact h.rango
  -- the record at the start of the last block
  have hdir : dirDe (byteDe fs'' (leerInodo fs'' x)) (n * fs''.sb.blockSize)
      = entradaNueva nombreArch nroInodo 0 := by
    rw [hm.blockSize,
      ← dirDe_serializar (byteDe fs' (leerInodo fs' x)) (n * fs.sb.blockSize) hcabe]
    refine dirDe_congr fun j hj => ?_
    rw [dirDe_serializar _ _ hcabe] at hj
    have hsucc : (n + 1) * fs.sb.blockSize = n * fs.sb.blockSize + fs.sb.blockSize :=
      Nat.succ_mul ..
    rw [byteDe_igual fs'' higual.iBlock]
    refine hpuesto.bytes _ ?_
    rw [h.mismo.blockSize]
    omega
  have hx'' : fs''.bloquesDe x = n + 1 := by
    rw [Ext2.bloquesDe, hpuesto.solo.sb, higual.iSize]
    exact h.bloquesDe
  refine ((hpuesto.enMano.igual higual.iBlock).enImagen hn'').listar_atascado hx''
    ⟨n, Nat.lt_succ_self n, ?_, ?_⟩
  · rw [hdir]
    rfl
  · rw [hdir, hm.blockSize]
    omega

end Crear

end Rfs
