import Yanero.RfsAlterarProofs

/-! # The links of a directory

    MKDIR and RMDIR end by writing the link count of the parent and the counter
    of directories of a group.  No other file and no lookup reads them: a
    directory lists what it listed, and the volume is accounted for as it was
    (`Consistente.enlazar`). -/

namespace Rfs

open Arborescencia Arboles Palabras Tramos

/-! ## The counters of directories -/

/-- The two images differ in the counters of directories only. -/
structure SoloCuenta (fs fs' : Ext2) : Prop where
  disco : fs'.disco = fs.disco
  sb : fs'.sb = fs.sb
  largo : fs'.bgdt.length = fs.bgdt.length
  grupo : ∀ g, fs'.grupo g
    = { fs.grupo g with bgUsedDirsCount := (fs'.grupo g).bgUsedDirsCount }

/-- The count of a new or a removed directory is such a change. -/
theorem soloCuenta_contarDirectorio (fs : Ext2) (g d16 : Nat) :
    SoloCuenta fs (contarDirectorio fs g d16) := by
  refine ⟨rfl, rfl, by simp [contarDirectorio, Ext2.conGrupo], fun g' => ?_⟩
  by_cases hg : g < fs.bgdt.length
  · rw [contarDirectorio, grupo_conGrupo hg]
    split <;> rfl
  · -- past the table there is no descriptor to count in
    rw [contarDirectorio, Ext2.conGrupo, List.modify_eq_self (Nat.le_of_not_lt hg)]

section Cuenta

variable {fijo : Nat → Prop} {fs fs' : Ext2} {x y : Nat}

/-- The layout of the volume stays. -/
theorem SoloCuenta.forma (h : SoloCuenta fs fs') : MismaForma fs fs' := by
  refine ⟨by rw [h.sb], h.largo, fun g => ?_⟩
  rw [h.grupo g]

/-- Every inode reads as before. -/
theorem SoloCuenta.leerInodo (h : SoloCuenta fs fs') (y : Nat) :
    Rfs.leerInodo fs' y = Rfs.leerInodo fs y := by
  rw [Rfs.leerInodo, Rfs.leerInodo, h.forma.offsetInodo, h.disco]

/-- The inode bitmaps stay. -/
theorem SoloCuenta.bitInodo (h : SoloCuenta fs fs') (y : Nat) : fs'.bitInodo y = fs.bitInodo y := by
  rw [Ext2.bitInodo, Ext2.bitInodo, h.sb, h.disco, h.forma.bgInodeBitmap]

/-- The inodes in use are the same. -/
theorem SoloCuenta.enUso (h : SoloCuenta fs fs') : fs'.EnUso = fs.EnUso := by
  funext y
  rw [Ext2.EnUso, Ext2.EnUso, h.sb, h.bitInodo]

/-- The block bitmaps stay. -/
theorem SoloCuenta.bitGrupo (h : SoloCuenta fs fs') (g j : Nat) :
    fs'.bitGrupo g j = fs.bitGrupo g j := by
  rw [Ext2.bitGrupo, Ext2.bitGrupo, h.sb, h.disco, h.forma.bgBlockBitmap]

/-- Every pointer reads as before. -/
theorem SoloCuenta.buscarBloque (h : SoloCuenta fs fs') :
    Rfs.buscarBloque fs' = Rfs.buscarBloque fs := by
  funext b pos
  rw [Rfs.buscarBloque, Rfs.buscarBloque, h.forma.offsetPtro, h.disco]

/-- Every file has the blocks it had. -/
theorem SoloCuenta.bloquesDe (h : SoloCuenta fs fs') : fs'.bloquesDe = fs.bloquesDe := by
  funext y
  rw [Ext2.bloquesDe, Ext2.bloquesDe, h.sb, h.leerInodo]

/-- Every byte of every file stays. -/
theorem SoloCuenta.byteDe (h : SoloCuenta fs fs') (inodo : Inode) (i : Nat) :
    Rfs.byteDe fs' inodo i = Rfs.byteDe fs inodo i := by
  rw [Rfs.byteDe, Rfs.byteDe, hojaDe, hojaDe, h.buscarBloque, h.sb, h.disco]

/-- Consistency does not look at the counts of directories. -/
theorem SoloCuenta.consistente (h : SoloCuenta fs fs') (hC : Consistente fijo fs) :
    Consistente fijo fs' := by
  refine ⟨h.forma.geometria hC.geometria, ⟨fun g hg => ?_, ?_⟩, ?_⟩
  · have hcount : (fs'.grupo g).bgFreeBlocksCount = (fs.grupo g).bgFreeBlocksCount := by
      rw [h.grupo g]
    rw [h.sb] at hg ⊢
    rw [hcount, hC.cuentas.grupos g hg]
    exact congrArg Finset.card (Finset.filter_congr fun j _ => by rw [h.bitGrupo])
  · rw [h.sb, hC.cuentas.total]
    refine Finset.sum_congr rfl fun g _ => ?_
    rw [h.grupo g]
  · have hbits : fs'.bitBloque = fs.bitBloque := by
      funext b
      rw [Ext2.bitBloque, Ext2.bitBloque, h.sb, h.bitGrupo]
    have hraices : (fun y => (Rfs.leerInodo fs' y).iBlock)
      = fun y => (Rfs.leerInodo fs y).iBlock := by
      funext y
      rw [h.leerInodo]
    rw [Ext2.Repartido, h.sb, h.buscarBloque, hbits, h.enUso, hraices, h.bloquesDe]
    exact hC.reparto

/-- Nor does what is said of the free inodes. -/
theorem SoloCuenta.inodos (h : SoloCuenta fs fs') (hI : Inodos fs) : Inodos fs' := by
  have hbits : ∀ g j, fs'.bitInodoGrupo g j = fs.bitInodoGrupo g j := by
    intro g j
    rw [Ext2.bitInodoGrupo, Ext2.bitInodoGrupo, h.sb, h.disco, h.forma.bgInodeBitmap]
  have hcuenta : ∀ g, (fs'.grupo g).bgFreeInodesCount = (fs.grupo g).bgFreeInodesCount := by
    intro g
    rw [h.grupo g]
  have hs := h.sb
  constructor
  · exact hs ▸ hI.numeros
  · exact hs ▸ hI.porGrupo
  · exact hs ▸ hI.cabe
  · exact hs ▸ hI.alcanza
  · rw [h.largo, hs]
    exact hI.descriptores
  · simp only [hs, h.forma.bgInodeBitmap]
    exact hI.bitmapsDistintos
  · simp only [hs, hbits]
    exact hI.relleno
  · simp only [hs, hbits, hcuenta]
    exact hI.grupos
  · simp only [hs, hcuenta]
    exact hI.total
  · simp only [hcuenta]
    exact hI.anchos

theorem Inode.Igual.refl (inodo : Inode) : inodo.Igual inodo :=
  ⟨rfl, rfl, rfl, fun _ _ => rfl⟩

/-- No file notices. -/
theorem SoloCuenta.intacto (h : SoloCuenta fs fs') (y : Nat) : Intacto fs fs' y := by
  refine ⟨by rw [h.sb], h.leerInodo y ▸ Inode.Igual.refl _, fun k ps _ => ?_, fun b _ => ?_⟩
  · rw [h.buscarBloque, h.leerInodo]
  · rw [h.leerInodo, h.byteDe]

end Cuenta

/-! ## A directory whose link count is written -/

theorem u16_lt (x : Nat) : u16 x < 2 ^ 16 := Nat.mod_lt x (Nat.two_pow_pos 16)

section Enlaces

variable {fijo : Nat → Prop} {fs fs₁ fs' : Ext2} {d x y n l g d16 : Nat} {inodo : Inode}
  {dss : Nat → List Dir}

/-- A count after an alteration alters no more. -/
theorem Alterada.contada (h : Alterada fijo fs d fs₁) (hs : SoloCuenta fs₁ fs') :
    Alterada fijo fs d fs' := by
  refine ⟨hs.consistente h.consistente, hs.inodos h.inodos, h.forma.trans hs.forma,
    hs.enUso.trans h.enUso, ?_, fun y hy hne => ?_, fun y hy hne =>
      (h.intacto y hy hne).trans (hs.intacto y)⟩
  · rw [hs.leerInodo, h.iMode]
  · rw [hs.leerInodo]
    exact h.slots y hy hne

/-- A directory with the same size and bytes has the same records. -/
theorem Directorio.mismos (hd : Directorio fs (leerInodo fs d) n dss)
    (hbs : fs'.sb.blockSize = fs.sb.blockSize)
    (hs : (leerInodo fs' d).iSize = (leerInodo fs d).iSize)
    (hb : ∀ i, i < (leerInodo fs d).iSize →
      byteDe fs' (leerInodo fs' d) i = byteDe fs (leerInodo fs d) i) :
    Directorio fs' (leerInodo fs' d) n dss := by
  refine ⟨by rw [hs, hbs, hd.entero], fun i hi => ?_⟩
  rw [hbs]
  refine (hd.bloques i hi).congr fun o _ ho => hb o ?_
  rw [hd.entero]
  exact lt_of_lt_of_le ho (Nat.mul_le_mul_right _ hi)

/-- What stays of directory `d` when its links are written. -/
structure Enlazada (fijo : Nat → Prop) (fs : Ext2) (d : Nat) (fs' : Ext2) : Prop where
  alterada : Alterada fijo fs d fs'
  directorio : ∀ dss, Directorio fs (leerInodo fs d) (fs.bloquesDe d) dss →
    fs'.bloquesDe d = fs.bloquesDe d ∧ Directorio fs' (leerInodo fs' d) (fs.bloquesDe d) dss

/-- **THE LINKS** of a directory and the counter of a group. -/
theorem Consistente.enlazar (h : Consistente fijo fs) (hI : Inodos fs) (hd : fs.EnUso d)
    (hl : l < 2 ^ 16) (g d16 : Nat) : Enlazada fijo fs d
      (contarDirectorio (escribirInodo fs d { leerInodo fs d with iLinksCount := l }) g d16) := by
  have hc := leerInodo_cabe fs d
  obtain ⟨inodo, hinodo⟩ : ∃ i, ({ leerInodo fs d with iLinksCount := l } : Inode) = i := ⟨_, rfl⟩
  have hcabe : inodo.Cabe := hinodo ▸ ⟨hc.iMode, hc.iSize, hl, hc.iBlock⟩
  have hsize : inodo.iSize = (leerInodo fs d).iSize := hinodo ▸ rfl
  have hblock : inodo.iBlock = (leerInodo fs d).iBlock := hinodo ▸ rfl
  have hcons : Conserva fijo fs d (leerInodo fs d) (fs.bloquesDe d) fs inodo :=
    (Conserva.refl fijo fs d (leerInodo fs d) (fs.bloquesDe d)).con rfl hblock
  have hmano : EnMano fijo fs d inodo (cantBloques fs.sb.blockSize inodo.iSize) := by
    rw [hsize]
    exact (h.enMano hd).con hblock
  have hq := hcons.volcada h hI hd hmano hcabe (hinodo ▸ rfl)
  rw [hinodo]
  obtain ⟨fs₁, hfs₁⟩ : ∃ w, escribirInodo fs d inodo = w := ⟨_, rfl⟩
  rw [hfs₁] at hq ⊢
  have hsolo := soloCuenta_contarDirectorio fs₁ g d16
  have hbs : fs₁.sb.blockSize = fs.sb.blockSize := hq.alterada.forma.blockSize
  refine ⟨hq.alterada.contada hsolo, fun dss hdss => ⟨?_, hdss.mismos ?_ ?_ fun i hi => ?_⟩⟩
  · rw [hsolo.bloquesDe, Ext2.bloquesDe, Ext2.bloquesDe, hbs, hq.iSize, hsize]
  · rw [hsolo.sb, hbs]
  · rw [hsolo.leerInodo, hq.iSize, hsize]
  · have htope := (cantBloques_cotas (blockSize_pos fs.sb) (leerInodo fs d).iSize).1
    rw [hsolo.leerInodo, hsolo.byteDe, hq.bytes i (hsize ▸ lt_of_lt_of_le hi htope)]
    exact byteDe_igual fs (fun k _ => congrFun hblock k) i

/-- The directory that got a link keeps its mode. -/
theorem Enlazada.iMode (h : Enlazada fijo fs d fs') :
    (leerInodo fs' d).iMode = (leerInodo fs d).iMode := h.alterada.iMode

/-- The directory is well formed and lists the same pairs. -/
theorem Enlazada.lista (h : Enlazada fijo fs d fs') (hC : Consistente fijo fs) (hd : fs.EnUso d)
    (hs : DirectorioSano fs d) : DirectorioSano fs' d ∧ entradas fs' d = entradas fs d := by
  have him := (hC.enMano hd).enImagen (rango_bloquesDe fs d)
  have hd' : fs'.EnUso d := by rwa [h.alterada.enUso]
  obtain ⟨dss, hdss⟩ := hs.directorio him
  obtain ⟨hn, hdss'⟩ := h.directorio dss hdss
  have him' := (h.alterada.consistente.enMano hd').enImagen (rango_bloquesDe fs' d)
  rw [← hn] at hdss'
  refine ⟨hdss'.sano him', ?_⟩
  rw [entradas, entradas, hdss'.listar him', hdss.listar him, hn]

end Enlaces

end Rfs
