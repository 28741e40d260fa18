import Yanero.RfsIntactoProofs

/-! # What the creation of an entry answers

    The three ways `Dir_crearNuevaEntrada` can go: room in a block of the
    directory, a block more, or neither.  In the last one the answer is success
    all the same: the growth that failed is not looked at, and the entry is
    written where an index past the end of the directory leads. -/

namespace Rfs

open Arboles Palabras Tramos

section Entradas

variable {fijo : Nat → Prop} {fs fs' : Ext2} {x n o : Nat} {dss : Nat → List Dir}
  {nombreArch : List UInt8} {nroInodo : Nat}

/-- Some record of the directory leaves room for `tam` bytes. -/
def HayHueco (fs : Ext2) (x tam : Nat) : Prop :=
  ∃ i, i < fs.bloquesDe x ∧ ∃ ds, Registros fs (leerBloque fs i (leerInodo fs x)) 0 ds
    ∧ ∃ dir ∈ ds, Hueco tam dir

/-- A well-formed directory is a directory of some records. -/
theorem DirectorioSano.directorio (h : DirectorioSano fs x)
    (him : EnImagen fs (leerInodo fs x) (fs.bloquesDe x)) :
    ∃ dss, Directorio fs (leerInodo fs x) (fs.bloquesDe x) dss := by
  have hbs := blockSize_pos fs.sb
  have hex : ∀ i, ∃ ds, i < fs.bloquesDe x →
      Registros fs (leerBloque fs i (leerInodo fs x)) 0 ds := by
    intro i
    by_cases hi : i < fs.bloquesDe x
    · obtain ⟨ds, hr⟩ := h.bloques i hi
      exact ⟨ds, fun _ => hr⟩
    · exact ⟨[], fun hi' => absurd hi' hi⟩
  choose dss hdss using hex
  refine ⟨dss, ?_, fun i hi => him.tramo_hoja hi (hdss i hi)⟩
  obtain ⟨q, hq⟩ := h.entero
  rw [Ext2.bloquesDe, hq, Nat.mul_comm, cantBloques_mul hbs]

theorem hayHueco_iff (him : EnImagen fs (leerInodo fs x) (fs.bloquesDe x))
    (hd : Directorio fs (leerInodo fs x) (fs.bloquesDe x) dss) {tam : Nat} :
    HayHueco fs x tam ↔ ∃ i, i < fs.bloquesDe x ∧ ∃ dir ∈ dss i, Hueco tam dir := by
  constructor
  · rintro ⟨i, hi, ds, hr, hdir⟩
    have heq := (him.tramo_hoja hi hr).unico (hd.bloques i hi)
    exact ⟨i, hi, heq ▸ hdir⟩
  · rintro ⟨i, hi, hdir⟩
    exact ⟨i, hi, dss i, him.registros_hoja hi (hd.bloques i hi), hdir⟩

/-- The call, when a record with room was found. -/
theorem crearNuevaEntrada_hueco {bloque a : Nat} {dir : Dir} (hmodo : (leerInodo fs x).iMode ≠ 0)
    (heq : buscarLugar fs (leerInodo fs x) (entradaNueva nombreArch nroInodo 0).tamEntrada 0
      (fs.bloquesDe x) = some (some (bloque, a, dir))) :
    crearNuevaEntrada fs nombreArch x nroInodo
      = some (escribirDir (escribirDir fs bloque a { dir with dRecLen := dir.tamEntrada }) bloque
          (a + dir.tamEntrada) (entradaNueva nombreArch nroInodo
            (u16 (resta32 dir.dRecLen dir.tamEntrada))), true) := by
  unfold crearNuevaEntrada
  dsimp only
  rw [if_neg hmodo]
  change buscarLugar fs _ (Dir.tamEntrada ⟨nroInodo, 0, nombreArch.length % 256, 0, nombreArch⟩) 0
    (cantBloques fs.sb.blockSize _) = _ at heq
  rw [heq]
  rfl

/-- The call, when no record has room. -/
theorem crearNuevaEntrada_bloque (hmodo : (leerInodo fs x).iMode ≠ 0)
    (heq : buscarLugar fs (leerInodo fs x) (entradaNueva nombreArch nroInodo 0).tamEntrada 0
      (fs.bloquesDe x) = some none) {fs₁ : Ext2} {inodo₁ : Inode} {pudo : Bool}
    (hr : truncarArriba fs (leerInodo fs x) (u32 ((leerInodo fs x).iSize + fs.sb.blockSize))
      = (fs₁, inodo₁, pudo)) :
    crearNuevaEntrada fs nombreArch x nroInodo
      = some (escribirDir (escribirInodo fs₁ x inodo₁)
          (leerBloque (escribirInodo fs₁ x inodo₁) (fs.bloquesDe x) inodo₁) 0
          (entradaNueva nombreArch nroInodo (u16 fs.sb.blockSize)), true) := by
  unfold crearNuevaEntrada
  dsimp only
  rw [if_neg hmodo]
  change buscarLugar fs _ (Dir.tamEntrada ⟨nroInodo, 0, nombreArch.length % 256, 0, nombreArch⟩) 0
    (cantBloques fs.sb.blockSize _) = _ at heq
  rw [heq]
  dsimp only
  rw [hr]
  rfl

/-- **THE THREE WAYS** of a call on a directory in use. -/
theorem crearNuevaEntrada_casos (h : Consistente fijo fs) (hx : fs.EnUso x)
    (hd : Directorio fs (leerInodo fs x) (fs.bloquesDe x) dss)
    (hp : Nombra nombreArch nroInodo) (hmodo : (leerInodo fs x).iMode ≠ 0) :
    (HayHueco fs x (entradaNueva nombreArch nroInodo 0).tamEntrada
        ∧ ∃ fs', crearNuevaEntrada fs nombreArch x nroInodo = some (fs', true)
          ∧ Creada fijo fs x (fs.bloquesDe x) dss (nombreArch, nroInodo) fs')
      ∨ (¬ HayHueco fs x (entradaNueva nombreArch nroInodo 0).tamEntrada ∧ HayBloque fs x
        ∧ ∃ fs₁ inodo₁, Crecido fijo fs x (fs.bloquesDe x) inodo₁ fs₁
          ∧ crearNuevaEntrada fs nombreArch x nroInodo
            = some (escribirDir fs₁ (leerBloque fs₁ (fs.bloquesDe x) inodo₁) 0
              (entradaNueva nombreArch nroInodo (u16 fs.sb.blockSize)), true))
      ∨ ¬ HayHueco fs x (entradaNueva nombreArch nroInodo 0).tamEntrada ∧ ¬ HayBloque fs x
        ∧ crearNuevaEntrada fs nombreArch x nroInodo
          = some (escribirDir fs (leerBloque fs (fs.bloquesDe x) (leerInodo fs x)) 0
              (entradaNueva nombreArch nroInodo (u16 fs.sb.blockSize)), true) := by
  have hmano := h.enMano hx
  have hn : EnRango fs.sb (fs.bloquesDe x) := enRango_cantBloques fs.sb (leerInodo_iSize_lt fs x)
  have him := hmano.enImagen hn
  obtain ⟨tam, htam⟩ : ∃ tam, (entradaNueva nombreArch nroInodo 0).tamEntrada = tam := ⟨_, rfl⟩
  rw [hayHueco_iff him hd, htam]
  rcases him.buscarLugar hd tam (Nat.zero_add _) with
    ⟨hno, heq⟩ | ⟨i, pre, dir, post, a, hi, hhueco, hl, heq⟩
  · have hnohay : ¬ ∃ i, i < fs.bloquesDe x ∧ ∃ dir ∈ dss i, Hueco tam dir := by
      rintro ⟨i, hi, dir, hdir, hh⟩
      exact hno i (Nat.zero_le i) hi dir hdir hh
    rcases hmano.crecer_casos hn hd.entero with ⟨hhay, fs₁, inodo₁, hr, hcrece⟩ | ⟨hfalta, hr⟩
    · exact .inr (.inl ⟨hnohay, hhay, _, inodo₁, hcrece,
        crearNuevaEntrada_bloque hmodo (htam ▸ heq) hr⟩)
    · refine .inr (.inr ⟨hnohay, hfalta, ?_⟩)
      rw [crearNuevaEntrada_bloque hmodo (htam ▸ heq) hr, escribirInodo_leerInodo]
  · rw [crearNuevaEntrada_hueco hmodo (htam ▸ heq)]
    have hmem : dir ∈ dss i := by
      rw [hl.lista]
      simp
    exact .inl ⟨⟨i, hi, dir, hmem, hhueco⟩, _, rfl,
      hmano.crearEnHueco hn rfl hd hp hi hl (htam ▸ hhueco) rfl⟩

/-! ## What the answer says -/

/-- The call answers what it did: with success the entry is listed and only
    bytes of the directory, of the bitmaps and of its inode changed; without it
    nothing changed. -/
def CreaBien (fs : Ext2) (nombreArch : List UInt8) (x nroInodo : Nat) : Prop :=
  ∃ fs' pudo, crearNuevaEntrada fs nombreArch x nroInodo = some (fs', pudo)
    ∧ (pudo = true → (∃ ds, listar fs' x = some ds ∧ (nombreArch, nroInodo) ∈ ds.map Dir.par)
      ∧ ∀ o, fs'.disco o ≠ fs.disco o → DelInodo fs' x o)
    ∧ (pudo = false → fs'.disco = fs.disco)

/-- The inode is free, some record has room for the entry, or the directory can
    grow by a block whose size is a `d_rec_len`. -/
def CabeEntrada (fs : Ext2) (nombreArch : List UInt8) (x nroInodo : Nat) : Prop :=
  (leerInodo fs x).iMode = 0 ∨ HayHueco fs x (entradaNueva nombreArch nroInodo 0).tamEntrada
    ∨ HayBloque fs x ∧ fs.sb.blockSize < 2 ^ 16

/-- A byte of a block that the inode owns, or of its slot. -/
def Propio (fs : Ext2) (x o : Nat) : Prop :=
  (∃ k ps, Vivo (esquema fs.sb) (fs.bloquesDe x) k ps
      ∧ o / fs.sb.blockSize = nodo (buscarBloque fs) (leerInodo fs x).iBlock k ps)
    ∨ offsetInodo fs x ≤ o ∧ o < offsetInodo fs x + tamanoInodo

/-- The block that is read past the end of the directory is not one of its own,
    nor is its inode there. -/
def Extraviada (fs : Ext2) (nombreArch : List UInt8) (x : Nat) : Prop :=
  ∀ r, r < offName + nombreArch.length →
    ¬ Propio fs x (offsetBloque fs (leerBloque fs (fs.bloquesDe x) (leerInodo fs x)) 0 + r)

theorem mismo_escribirDir (fs : Ext2) (bloque offset : Nat) (dir : Dir) :
    Mismo fs (escribirDir fs bloque offset dir) := mismo_de rfl rfl

theorem Creada.lista (h : Creada fijo fs x n dss (nombreArch, nroInodo) fs') (hx : fs.EnUso x) :
    ∃ ds, listar fs' x = some ds ∧ (nombreArch, nroInodo) ∈ ds.map Dir.par := by
  obtain ⟨n', dss', hd, l, r, -, hmas⟩ := h.directorio
  have hmano := h.consistente.enMano (x := x) (by rwa [h.enUso])
  have hn' : fs'.bloquesDe x = n' := by
    rw [Ext2.bloquesDe, hd.entero, cantBloques_mul (blockSize_pos fs'.sb)]
  have him := hmano.enImagen (enRango_cantBloques fs'.sb (leerInodo_iSize_lt fs' x))
  rw [hn'] at him
  refine ⟨_, hd.listar him, ?_⟩
  show _ ∈ pares (registrosDe n' dss')
  rw [hmas]
  exact List.mem_append_right l List.mem_cons_self

/-- The listing is read from the blocks of the directory and from its inode. -/
theorem listar_propio (h : Consistente fijo fs) (hx : fs.EnUso x)
    (hd : Directorio fs (leerInodo fs x) (fs.bloquesDe x) dss) (hm : Mismo fs fs')
    (hfs : ∀ o, Propio fs x o → fs'.disco o = fs.disco o) : listar fs' x = listar fs x := by
  have him := (h.enMano hx).enImagen (rango_bloquesDe fs x)
  have higual : (leerInodo fs' x).Igual (leerInodo fs x) :=
    leerInodo_congr (hm.offsetInodo x) fun i hi => hfs _ (.inr (by omega))
  have hintacto := h.intacto hx hm.forma higual fun k ps hv o ho => hfs o (.inl ⟨k, ps, hv, ho⟩)
  exact hintacto.listar him hd

theorem listar_extraviada (h : Consistente fijo fs) (hx : fs.EnUso x)
    (hd : Directorio fs (leerInodo fs x) (fs.bloquesDe x) dss) (hp : Nombra nombreArch nroInodo)
    {recLen : Nat} (hrec : recLen < 2 ^ 16) (hextra : Extraviada fs nombreArch x) :
    listar (escribirDir fs (leerBloque fs (fs.bloquesDe x) (leerInodo fs x)) 0
      (entradaNueva nombreArch nroInodo recLen)) x = listar fs x := by
  have hser := (hp.cabe hrec).length_serializar
  have hlargo := hp.largo
  have hnl : (entradaNueva nombreArch nroInodo recLen).dNameLen = nombreArch.length % 256 := rfl
  have hm := mismo_escribirDir fs (leerBloque fs (fs.bloquesDe x) (leerInodo fs x)) 0
    (entradaNueva nombreArch nroInodo recLen)
  refine listar_propio h hx hd hm fun o ho => ?_
  refine if_neg fun hin => ?_
  obtain ⟨r, rfl⟩ := Nat.exists_eq_add_of_le hin.1
  exact hextra r (by omega) ho

/-- **AN HONEST ANSWER** when the entry fits; and when it does not, the entry is
    written outside the directory and success is answered. -/
theorem crearNuevaEntrada_honesta (h : Consistente fijo fs) (hx : fs.EnUso x)
    (hsano : DirectorioSano fs x) (hp : Nombra nombreArch nroInodo) :
    (CabeEntrada fs nombreArch x nroInodo → CreaBien fs nombreArch x nroInodo)
      ∧ (Extraviada fs nombreArch x →
        (∀ ds, listar fs x = some ds → (nombreArch, nroInodo) ∉ ds.map Dir.par) →
        (CreaBien fs nombreArch x nroInodo ↔ CabeEntrada fs nombreArch x nroInodo)) := by
  have hmano := h.enMano hx
  have hn : EnRango fs.sb (fs.bloquesDe x) := enRango_cantBloques fs.sb (leerInodo_iSize_lt fs x)
  obtain ⟨dss, hd⟩ := hsano.directorio (hmano.enImagen hn)
  by_cases hmodo : (leerInodo fs x).iMode = 0
  · have hbien : CreaBien fs nombreArch x nroInodo := by
      refine ⟨fs, false, ?_, (fun hno => ?_), fun _ => rfl⟩
      · rw [crearNuevaEntrada, if_pos hmodo]
      · cases hno
    exact ⟨fun _ => hbien, fun _ _ => ⟨fun _ => .inl hmodo, fun _ => hbien⟩⟩
  have hsi : ∀ {fs'}, crearNuevaEntrada fs nombreArch x nroInodo = some (fs', true) →
      Creada fijo fs x (fs.bloquesDe x) dss (nombreArch, nroInodo) fs' →
      CreaBien fs nombreArch x nroInodo := fun heq hc =>
    ⟨_, true, heq, fun _ => ⟨hc.lista hx, hc.fuera⟩, fun hno => by cases hno⟩
  rcases crearNuevaEntrada_casos h hx hd hp hmodo with
    ⟨hhueco, fs', heq, hc⟩ | ⟨hno, hhay, fs₁, inodo₁, hcrece, heq⟩ | ⟨hno, hfalta, heq⟩
  · have hbien := hsi heq hc
    exact ⟨fun _ => hbien, fun _ _ => ⟨fun _ => .inr (.inl hhueco), fun _ => hbien⟩⟩
  · rcases Nat.lt_or_ge fs.sb.blockSize (2 ^ 16) with hbs | hbs
    · have hbien := hsi heq (hcrece.crear hx hd hp hbs rfl)
      exact ⟨fun _ => hbien, fun _ _ => ⟨fun _ => .inr (.inr ⟨hhay, hbs⟩), fun _ => hbien⟩⟩
    · have hmal : ¬ CreaBien fs nombreArch x nroInodo := by
        rintro ⟨fs', pudo, heq', hpudo, -⟩
        rw [heq] at heq'
        obtain ⟨rfl, rfl⟩ := Prod.mk.inj (Option.some.inj heq')
        obtain ⟨⟨ds, hlista, -⟩, -⟩ := hpudo rfl
        rw [hcrece.listar_ninguno hx hp hbs rfl] at hlista
        cases hlista
      have hnocabe : ¬ CabeEntrada fs nombreArch x nroInodo := by
        rintro (h0 | hh | ⟨-, hb⟩)
        · exact hmodo h0
        · exact hno hh
        · omega
      exact ⟨fun hc => absurd hc hnocabe, fun _ _ => iff_of_false hmal hnocabe⟩
  · have hnocabe : ¬ CabeEntrada fs nombreArch x nroInodo := by
      rintro (h0 | hh | ⟨hb, -⟩)
      · exact hmodo h0
      · exact hno hh
      · exact hfalta hb
    refine ⟨fun hc => absurd hc hnocabe, fun hextra hnueva => iff_of_false ?_ hnocabe⟩
    rintro ⟨fs', pudo, heq', hpudo, -⟩
    rw [heq] at heq'
    obtain ⟨rfl, rfl⟩ := Prod.mk.inj (Option.some.inj heq')
    obtain ⟨⟨ds, hlista, hmem⟩, -⟩ := hpudo rfl
    -- the stray write changes nothing that the listing reads
    have hrec : u16 fs.sb.blockSize < 2 ^ 16 := Nat.mod_lt _ (Nat.two_pow_pos 16)
    rw [listar_extraviada h hx hd hp hrec hextra] at hlista
    exact hnueva ds hlista hmem

end Entradas

/-! ## A full disk -/

/-- The image with the last block taken by inode 1, a directory of four records
    of 256 bytes with names of one byte. -/
def imagenLlena : Ext2 where
  disco := fun o =>
    if o = 3 * 1024 then 0x7F else if o = 4 * 1024 then 3
    else if o = 5 * 1024 + 1 then 0x40 else if o = 5 * 1024 + 5 then 4
    else if o = 5 * 1024 + 40 then 7
    else if o / 1024 = 7 then
      if o % 256 = 0 then 1 else if o % 256 = 5 then 1 else if o % 256 = 6 then 1
      else if o % 256 = 8 then 97 else 0
    else 0
  sb := ⟨8, 8, 0, 6, 1, 0, 8, 8⟩
  bgdt := [{ bgBlockBitmap := 3, bgInodeBitmap := 4, bgInodeTable := 5, bgFreeBlocksCount := 0,
             bgFreeInodesCount := 6 }]

theorem consistente_imagenLlena : Consistente (· ≤ 6) imagenLlena := by
  have hm : Mismo imagenChica imagenLlena := by
    refine ⟨rfl, rfl, fun g => ?_⟩
    cases g with
    | zero => rfl
    | succ g => rfl
  exact ArchivosChicos.consistente (by decide) (hm.geometria geometria_imagenChica)

/-- The directory and its one block. -/
theorem raiz_imagenLlena : imagenLlena.EnUso 1 ∧ imagenLlena.bloquesDe 1 = 1
    ∧ leerBloque imagenLlena 0 (leerInodo imagenLlena 1) = 7
    ∧ (leerInodo imagenLlena 1).iBlock 0 = 7 ∧ offsetInodo imagenLlena 1 = 5120 := by
  decide

/-- The records of the block of the directory. -/
theorem leerDir_imagenLlena {j : Nat} (hj : j < 4) :
    (leerDir imagenLlena (offsetBloque imagenLlena 7 (256 * j))).dRecLen = 256
      ∧ (leerDir imagenLlena (offsetBloque imagenLlena 7 (256 * j))).tamEntrada = 12 := by
  have hver : ∀ j < 4, (leerDir imagenLlena (offsetBloque imagenLlena 7 (256 * j))).dRecLen = 256
      ∧ (leerDir imagenLlena (offsetBloque imagenLlena 7 (256 * j))).tamEntrada = 12 := by
    decide
  exact hver j hj

theorem bloque_imagenLlena {i : Nat} (hi : i < imagenLlena.bloquesDe 1) :
    leerBloque imagenLlena i (leerInodo imagenLlena 1) = 7 := by
  obtain ⟨-, huno, hsiete, -⟩ := raiz_imagenLlena
  obtain rfl : i = 0 := by omega
  exact hsiete

theorem directorioSano_imagenLlena : DirectorioSano imagenLlena 1 := by
  refine ⟨by decide, fun i hi => ?_⟩
  have hpaso : ∀ j, j < 4 → ∀ ds, Registros imagenLlena 7 (256 * (j + 1)) ds →
      ∃ ds, Registros imagenLlena 7 (256 * j) ds := by
    intro j hj ds hr
    obtain ⟨hrec, htam⟩ := leerDir_imagenLlena hj
    refine ⟨leerDir imagenLlena (offsetBloque imagenLlena 7 (256 * j)) :: ds, .paso ?_ ?_ ?_⟩
    · rw [hrec]
      decide
    · rw [hrec, htam]
      decide
    · rw [hrec]
      exact hr
  rw [bloque_imagenLlena hi]
  obtain ⟨ds₃, h₃⟩ := hpaso 3 (by decide) [] .fin
  obtain ⟨ds₂, h₂⟩ := hpaso 2 (by decide) ds₃ h₃
  obtain ⟨ds₁, h₁⟩ := hpaso 1 (by decide) ds₂ h₂
  exact hpaso 0 (by decide) ds₁ h₁

/-- Every record has 244 bytes to spare. -/
theorem registros_imagenLlena {o : Nat} {ds : List Dir} (hr : Registros imagenLlena 7 o ds) :
    ∀ {j : Nat}, j ≤ 4 → o = 256 * j →
      ∀ dir ∈ ds, dir.dRecLen = 256 ∧ dir.tamEntrada = 12 := by
  induction hr with
  | fin => exact fun _ _ dir hdir => by cases hdir
  | @paso o ds _ hcabe hresto ih =>
      rintro j hj rfl dir hdir
      have hle := hresto.le_blockSize
      have hbs : imagenLlena.sb.blockSize = 1024 := by decide
      have hpos := tamEntrada_pos (leerDir imagenLlena (offsetBloque imagenLlena 7 (256 * j)))
      have hlt : j < 4 := by omega
      obtain ⟨hrec, htam⟩ := leerDir_imagenLlena hlt
      rcases List.mem_cons.mp hdir with rfl | hdir
      · exact ⟨hrec, htam⟩
      · exact ih (show j + 1 ≤ 4 by omega) (by rw [hrec]; rfl) dir hdir

/-- A long name: `NAME_MAX` bytes. -/
def nombreLargo : List UInt8 := List.replicate 255 97

theorem nombra_nombreLargo : Nombra nombreLargo 2 :=
  ⟨Nat.le_of_eq List.length_replicate, by decide, by decide⟩

theorem enUso_imagenLlena : imagenLlena.EnUso 1 := raiz_imagenLlena.1

/-- **THE LOST ENTRY**: the directory is full, no block is free, the answer is
    success and the entry is not in the listing. -/
theorem crearNuevaEntrada_perdida : Consistente (· ≤ 6) imagenLlena ∧ imagenLlena.EnUso 1
    ∧ DirectorioSano imagenLlena 1 ∧ Nombra nombreLargo 2
    ∧ ¬ CreaBien imagenLlena nombreLargo 1 2 := by
  refine ⟨consistente_imagenLlena, enUso_imagenLlena, directorioSano_imagenLlena,
    nombra_nombreLargo, ?_⟩
  rintro ⟨fs', pudo, heq, hpudo, -⟩
  have hver : (crearNuevaEntrada imagenLlena nombreLargo 1 2).map
      (fun r => (r.2, (listar r.1 1).map fun ds => decide ((nombreLargo, 2) ∈ ds.map Dir.par)))
      = some (true, some false) := by decide +kernel
  rw [heq] at hver
  obtain ⟨hsi, hlista⟩ := Prod.mk.inj (Option.some.inj hver)
  obtain ⟨⟨ds, hds, hmem⟩, -⟩ := hpudo hsi
  dsimp only at hlista
  rw [hds] at hlista
  exact of_decide_eq_false (Option.some.inj hlista) hmem

/-- A short name fits in the full directory, a long one does not. -/
theorem crearNuevaEntrada_honesta_dos :
    CreaBien imagenLlena [98] 1 2 ∧ ¬ CreaBien imagenLlena nombreLargo 1 2 := by
  have hcorto : Nombra [98] 2 := ⟨by decide, by decide, by decide⟩
  obtain ⟨-, huno, -, hroot, hranura⟩ := raiz_imagenLlena
  have hhay : 0 < imagenLlena.bloquesDe 1 := huno ▸ Nat.one_pos
  obtain ⟨ds, hr⟩ := directorioSano_imagenLlena.bloques 0 hhay
  have hregs := hr
  rw [bloque_imagenLlena hhay] at hregs
  constructor
  · refine (crearNuevaEntrada_honesta consistente_imagenLlena enUso_imagenLlena
      directorioSano_imagenLlena hcorto).1 (.inr (.inl ⟨0, hhay, ds, hr, ?_⟩))
    cases ds with
    | nil =>
        have hbs : imagenLlena.sb.blockSize = 1024 := by decide
        have := hregs.nil
        omega
    | cons dir ds =>
        obtain ⟨hrec, htam⟩ := registros_imagenLlena hregs
          (Nat.zero_le 4) rfl dir List.mem_cons_self
        refine ⟨dir, List.mem_cons_self, ?_⟩
        show dir.tamEntrada + 12 ≤ dir.dRecLen
        omega
  · have hlargo : (entradaNueva nombreLargo 2 0).tamEntrada = 264 := by decide +kernel
    refine fun hbien => absurd
      (((crearNuevaEntrada_honesta consistente_imagenLlena enUso_imagenLlena
      directorioSano_imagenLlena nombra_nombreLargo).2 ?_ fun ds hds => ?_).mp hbien) ?_
    · intro r hr hpropio
      have hcero : offsetBloque imagenLlena (leerBloque imagenLlena (imagenLlena.bloquesDe 1)
        (leerInodo imagenLlena 1)) 0 = 0 := by decide
      have hlen : nombreLargo.length = 255 := List.length_replicate
      have hoff : offName = 8 := rfl
      have hbs : imagenLlena.sb.blockSize = 1024 := by decide
      rw [hlen] at hr
      rw [hcero] at hpropio
      rcases hpropio with ⟨k, ps, hv, heq⟩ | ⟨hini, -⟩
      · obtain ⟨rfl, rfl⟩ := vivo_uno (huno ▸ hv)
        have hsiete : nodo (buscarBloque imagenLlena) (leerInodo imagenLlena 1).iBlock 0 [] = 7 :=
          hroot
        rw [hsiete, hbs] at heq
        omega
      · omega
    · have hver : (listar imagenLlena 1).map
        (fun ds => decide ((nombreLargo, 2) ∈ ds.map Dir.par)) = some false := by decide
      rw [hds] at hver
      exact of_decide_eq_false (Option.some.inj hver)
    · rintro (hmodo | ⟨i, hi, ds, hr, dir, hdir, hhueco⟩ | ⟨hbloque, -⟩)
      · revert hmodo
        decide
      · rw [bloque_imagenLlena hi] at hr
        obtain ⟨hrec, htam⟩ := registros_imagenLlena hr (Nat.zero_le 4) rfl dir hdir
        rw [Hueco, hlargo] at hhueco
        omega
      · revert hbloque
        unfold HayBloque
        decide

end Rfs
