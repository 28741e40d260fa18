import Yanero.RfsTomarProofs
import Yanero.RfsEntradasProofs

/-! # Entries come and go

    A directory refines a list of pairs of a name and an inode.  Adding an entry
    puts one pair somewhere in the list, removing an inode takes out the first
    pair that has it, and every other pair keeps its place.  A directory that is
    well formed stays so, whichever record the entry is split from, whether the
    directory grows or two records become one; so a whole run of calls is a run
    on the list (`entradas_refinan`).

    `Anotada` says what one addition leaves of the rest of the volume: the call
    writes blocks and the slot of the directory and bits of the block bitmaps,
    which no other file reads. -/

namespace Rfs

open Arboles Palabras Tramos Corridas

/-! ## Both ways -/

section Simetria

variable {fijo : Nat → Prop} {fs fs' : Ext2} {x y : Nat} {dss : Nat → List Dir}

theorem Inode.Igual.symm {a b : Inode} (h : a.Igual b) : b.Igual a :=
  ⟨h.iMode.symm, h.iSize.symm, h.iLinksCount.symm, fun k hk => (h.iBlock k hk).symm⟩

theorem MismaForma.symm (h : MismaForma fs fs') : MismaForma fs' fs := by
  refine ⟨?_, h.largo.symm, fun g => ?_⟩
  · rw [h.sb]
  · rw [h.grupo g]

theorem Intacto.symm (h : Intacto fs fs' y) : Intacto fs' fs y := by
  refine ⟨h.blockSize.symm, h.igual.symm, fun k ps hv => ?_, fun b hb => ?_⟩
  · rw [h.esquema, h.bloquesDe] at hv
    exact (h.sitios k ps hv).symm
  · rw [h.bloquesDe, h.blockSize] at hb
    exact (h.bytes b hb).symm

/-- A directory of some records is well formed. -/
theorem Directorio.sano (him : EnImagen fs (leerInodo fs x) (fs.bloquesDe x))
    (hd : Directorio fs (leerInodo fs x) (fs.bloquesDe x) dss) : DirectorioSano fs x := by
  refine ⟨⟨fs.bloquesDe x, ?_⟩, fun i hi => ⟨dss i, ?_⟩⟩
  · rw [hd.entero, Nat.mul_comm]
  · exact him.registros_hoja hi ((Nat.add_zero _).symm ▸ hd.bloques i hi)

theorem Intacto.sano (h : Intacto fs fs' x)
    (him : EnImagen fs (leerInodo fs x) (fs.bloquesDe x)) (hs : DirectorioSano fs x) :
    DirectorioSano fs' x := by
  obtain ⟨dss, hd⟩ := hs.directorio him
  have him' := h.enImagen him
  have hd' := h.directorio hd
  rw [← h.bloquesDe] at him' hd'
  exact hd'.sano him'

end Simetria

/-! ## What an addition leaves -/

/-- What a call that adds the pair `p` to directory `x` leaves of the volume. -/
structure Anotada (fijo : Nat → Prop) (fs : Ext2) (x : Nat) (dss : Nat → List Dir)
    (p : List UInt8 × Nat) (fs' : Ext2) : Prop where
  creada : Creada fijo fs x (fs.bloquesDe x) dss p fs'
  mismo : Mismo fs fs'

section Anotada

variable {fijo : Nat → Prop} {fs fs' : Ext2} {x y n o : Nat} {dss : Nat → List Dir}
  {p : List UInt8 × Nat} {nombreArch : List UInt8} {nroInodo : Nat}

/-- The call leaves the tables as they were. -/
theorem crearNuevaEntrada_mismo (h : Consistente fijo fs) (hx : fs.EnUso x)
    (hd : Directorio fs (leerInodo fs x) (fs.bloquesDe x) dss) {b : Bool}
    (hr : crearNuevaEntrada fs nombreArch x nroInodo = some (fs', b)) : Mismo fs fs' := by
  unfold crearNuevaEntrada at hr
  dsimp only at hr
  split at hr
  · obtain ⟨rfl, -⟩ := Prod.mk.inj (Option.some.inj hr)
    exact Mismo.refl fs
  · split at hr
    · cases hr
    · obtain ⟨rfl, -⟩ := Prod.mk.inj (Option.some.inj hr)
      exact (mismo_escribirDir _ _ _ _).trans (mismo_escribirDir _ _ _ _)
    · have hcrece : Mismo fs (escribirInodo (truncarArriba fs (leerInodo fs x)
          (u32 ((leerInodo fs x).iSize + fs.sb.blockSize))).1 x
          (truncarArriba fs (leerInodo fs x)
            (u32 ((leerInodo fs x).iSize + fs.sb.blockSize))).2.1) := by
        rcases (h.enMano hx).crecer_casos (rango_bloquesDe fs x) hd.entero with
          ⟨-, fs₁, inodo₁, heq, hc⟩ | ⟨-, heq⟩
        · rw [heq]
          exact hc.mismo
        · rw [heq]
          exact mismo_escribirInodo fs x _
      obtain ⟨rfl, -⟩ := Prod.mk.inj (Option.some.inj hr)
      exact hcrece.trans (mismo_escribirDir _ _ _ _)

/-- **ONE ENTRY MORE**, while there is room for it or a block. -/
theorem Consistente.anotar (h : Consistente fijo fs) (hx : fs.EnUso x)
    (hd : Directorio fs (leerInodo fs x) (fs.bloquesDe x) dss) (hp : Nombra nombreArch nroInodo)
    (hmodo : (leerInodo fs x).iMode ≠ 0) (hbs : fs.sb.blockSize < 2 ^ 16)
    (hhay : HayHueco fs x (entradaNueva nombreArch nroInodo 0).tamEntrada ∨ HayBloque fs x) :
    ∃ fs', crearNuevaEntrada fs nombreArch x nroInodo = some (fs', true)
      ∧ Anotada fijo fs x dss (nombreArch, nroInodo) fs' := by
  have hsi : ∀ {fs'}, crearNuevaEntrada fs nombreArch x nroInodo = some (fs', true) →
      Creada fijo fs x (fs.bloquesDe x) dss (nombreArch, nroInodo) fs' →
      ∃ fs', crearNuevaEntrada fs nombreArch x nroInodo = some (fs', true)
        ∧ Anotada fijo fs x dss (nombreArch, nroInodo) fs' := fun heq hc =>
    ⟨_, heq, hc, crearNuevaEntrada_mismo h hx hd heq⟩
  rcases crearNuevaEntrada_casos h hx hd hp hmodo with
    ⟨-, fs', heq, hc⟩ | ⟨-, -, fs₁, inodo₁, hcrece, heq⟩ | ⟨hno, hfalta, -⟩
  · exact hsi heq hc
  · exact hsi heq (hcrece.crear hx hd hp hbs rfl)
  · exact absurd hhay (by simp [hno, hfalta])

/-- **THE FREE BLOCKS** after a call: the same with room for the entry, and at
    most one block of the directory less without. -/
theorem crearNuevaEntrada_libres (h : Consistente fijo fs) (hx : fs.EnUso x)
    (hd : Directorio fs (leerInodo fs x) (fs.bloquesDe x) dss)
    (hmodo : (leerInodo fs x).iMode ≠ 0) {b : Bool}
    (hr : crearNuevaEntrada fs nombreArch x nroInodo = some (fs', b)) :
    (HayHueco fs x (entradaNueva nombreArch nroInodo 0).tamEntrada →
        fs'.sb.sFreeBlocksCount = fs.sb.sFreeBlocksCount)
      ∧ fs.sb.sFreeBlocksCount + bloquesTotales fs.sb (fs.bloquesDe x)
        ≤ fs'.sb.sFreeBlocksCount + bloquesTotales fs.sb (fs.bloquesDe x + 1) := by
  have hmano := h.enMano hx
  have hn := rango_bloquesDe fs x
  have him := hmano.enImagen hn
  have hmas : bloquesTotales fs.sb (fs.bloquesDe x) ≤ bloquesTotales fs.sb (fs.bloquesDe x + 1) :=
    bloquesTotales_mono (Nat.le_succ _)
  obtain ⟨tam, htam⟩ : ∃ tam, (entradaNueva nombreArch nroInodo 0).tamEntrada = tam := ⟨_, rfl⟩
  rw [hayHueco_iff him hd, htam]
  rcases him.buscarLugar hd tam (Nat.zero_add _) with ⟨hno, heq⟩ | ⟨i, pre, dir, post, a, -, -, -,
    heq⟩
  · refine ⟨fun ⟨i, hi, dir, hdir, hh⟩ => absurd hh (hno i (Nat.zero_le i) hi dir hdir), ?_⟩
    rcases hmano.crecer_casos hn hd.entero with ⟨-, fs₁, inodo₁, heq₁, -⟩ | ⟨-, heq₁⟩
    · rw [crearNuevaEntrada_bloque hmodo (htam ▸ heq) heq₁] at hr
      obtain ⟨rfl, -⟩ := Prod.mk.inj (Option.some.inj hr)
      -- the growth is by one block
      obtain ⟨htam32, hlt⟩ := hmano.tamNuevo hn hd.entero
      have hcrece : (leerInodo fs x).iSize ≤ (fs.bloquesDe x + 1) * fs.sb.blockSize := by
        rw [hd.entero]
        exact Nat.mul_le_mul_right _ (Nat.le_succ _)
      rw [htam32] at heq₁
      rcases EnMano.truncarArriba (show EnMano fijo fs x (leerInodo fs x)
        (cantBloques fs.sb.blockSize (leerInodo fs x).iSize) from hmano) hlt hcrece with
        ⟨-, -, hext⟩ | ⟨-, hfalla, -⟩
      · rw [heq₁] at hext
        have hlib := hext.libres
        rw [cantBloques_mul (blockSize_pos fs.sb)] at hlib
        exact Nat.le_of_eq hlib.symm
      · rw [heq₁] at hfalla
        cases hfalla
    · rw [crearNuevaEntrada_bloque hmodo (htam ▸ heq) heq₁] at hr
      obtain ⟨rfl, -⟩ := Prod.mk.inj (Option.some.inj hr)
      exact Nat.add_le_add_left hmas fs.sb.sFreeBlocksCount
  · rw [crearNuevaEntrada_hueco hmodo (htam ▸ heq)] at hr
    obtain ⟨rfl, -⟩ := Prod.mk.inj (Option.some.inj hr)
    exact ⟨fun _ => rfl, Nat.add_le_add_left hmas fs.sb.sFreeBlocksCount⟩

/-- A byte of a metadata block other than the block bitmaps, away from the slot
    of the directory, stays. -/
theorem Anotada.fijas (h : Anotada fijo fs x dss p fs') (hx : fs.EnUso x)
    (ho : fijo (o / fs.sb.blockSize))
    (hno : ∀ g, 0 < fs.sb.tamGrupo g → o / fs.sb.blockSize ≠ (fs.grupo g).bgBlockBitmap)
    (hslot : o < offsetInodo fs x ∨ offsetInodo fs x + tamanoInodo ≤ o) :
    fs'.disco o = fs.disco o := by
  have hm := h.mismo
  by_contra hne
  have hx' : fs'.EnUso x := by rwa [h.creada.enUso]
  rcases h.creada.fuera o hne with ⟨k, ps, hv, heq⟩ | ⟨g, hg, heq⟩ | ⟨h1, h2⟩
  · have hdato := ((h.creada.consistente.enMano hx').dato hv).1.2
    rw [hm.blockSize] at heq
    exact hdato (heq ▸ ho)
  · rw [hm.tamGrupo] at hg
    rw [hm.blockSize, hm.bgBlockBitmap] at heq
    exact hno g hg heq
  · rw [hm.offsetInodo] at h1 h2
    omega

/-- The inodes of the other files stay. -/
theorem Anotada.leerInodo (h : Anotada fijo fs x dss p fs') (hG : Geometria fijo fs)
    (hx : fs.EnUso x) (hy : fs.sb.esInodo y) (hne : y ≠ x) :
    (Rfs.leerInodo fs' y).Igual (Rfs.leerInodo fs y) := by
  obtain ⟨-, htab, hno⟩ := hG.bloqueInodo hy
  refine leerInodo_congr (h.mismo.offsetInodo y) fun i hi => h.fijas hx ?_ ?_ ?_
  · rwa [hG.bloque_ranura hy hi]
  · rwa [hG.bloque_ranura hy hi]
  · have := hG.ranuras_disjuntas hy ⟨hx.1, hx.2.1⟩ hne
    omega

/-- The inode bitmaps stay, padding included. -/
theorem Anotada.bitInodoGrupo (h : Anotada fijo fs x dss p fs') (hG : Geometria fijo fs)
    (hx : fs.EnUso x) {g j : Nat} (hg : 0 < fs.sb.tamInodos g) (hj : j < 8 * fs.sb.blockSize) :
    fs'.bitInodoGrupo g j = fs.bitInodoGrupo g j := by
  obtain ⟨hf, hno, -⟩ := hG.inodeBitmap g (grupo_con_inodos hg)
  have hblo : ((fs.grupo g).bgInodeBitmap * fs.sb.blockSize + j / 8) / fs.sb.blockSize
      = (fs.grupo g).bgInodeBitmap := bloque_de (by omega)
  have hes : fs.sb.esInodo x := ⟨hx.1, hx.2.1⟩
  rw [Ext2.bitInodoGrupo, Ext2.bitInodoGrupo, h.mismo.bgInodeBitmap, h.mismo.blockSize,
    h.fijas hx (by rwa [hblo]) (by rw [hblo]; exact fun g hg => (hno g hg).symm)]
  by_contra hslot
  obtain ⟨i, hi⟩ := Nat.exists_eq_add_of_le
    (show offsetInodo fs x ≤ (fs.grupo g).bgInodeBitmap * fs.sb.blockSize + j / 8 by omega)
  have hin := hG.bloque_ranura hes (show i < tamanoInodo by omega)
  rw [← hi, hblo] at hin
  exact hG.tabla_no_bitmap hes (grupo_con_inodos hg) hin

theorem Anotada.inodos (h : Anotada fijo fs x dss p fs') (hG : Geometria fijo fs)
    (hx : fs.EnUso x) (hI : Inodos fs) : Inodos fs' :=
  hI.tras h.mismo fun _ _ hg hj => h.bitInodoGrupo hG hx hg hj

/-- The other files stay. -/
theorem Anotada.intacto (h : Anotada fijo fs x dss p fs') (hC : Consistente fijo fs)
    (hx : fs.EnUso x) (hy : fs.EnUso y) (hne : y ≠ x) : Intacto fs fs' y := by
  have hm := h.mismo
  have hC' := h.creada.consistente
  have hx' : fs'.EnUso x := by rwa [h.creada.enUso]
  have hy' : fs'.EnUso y := by rwa [h.creada.enUso]
  have hslot := h.leerInodo hC.geometria hx ⟨hy.1, hy.2.1⟩ hne
  refine (hC'.intacto hy' hm.forma.symm hslot.symm fun k ps hv o ho => ?_).symm
  by_contra hdif
  have hmano := hC'.enMano hy'
  have hdato := (hmano.dato hv).1.2
  rcases h.creada.fuera o (Ne.symm hdif) with ⟨k', ps', hv', heq⟩ | ⟨g, hg, heq⟩ | ⟨h1, h2⟩
  · exact hne (hC'.reparto.distintos y x hy' hx' k ps k' ps' hv hv' (ho.symm.trans heq)).1
  · rw [← ho, heq] at hdato
    exact hdato (hC'.geometria.bitmapFijo g hg).2
  · have hes : fs'.sb.esInodo x := ⟨hx'.1, hx'.2.1⟩
    obtain ⟨i, hi⟩ := Nat.exists_eq_add_of_le h1
    have hin := hC'.geometria.bloque_ranura hes (show i < tamanoInodo by omega)
    rw [← hi, ho] at hin
    rw [hin] at hdato
    exact hdato (hC'.geometria.bloqueInodo hes).2.1

/-- The records of the directory after the call. -/
theorem Anotada.directorio (h : Anotada fijo fs x dss p fs') (hx : fs.EnUso x) : ∃ dss',
    Directorio fs' (Rfs.leerInodo fs' x) (fs'.bloquesDe x) dss'
      ∧ Gana (pares (registrosDe (fs.bloquesDe x) dss))
        (pares (registrosDe (fs'.bloquesDe x) dss')) p
      ∧ EnImagen fs' (Rfs.leerInodo fs' x) (fs'.bloquesDe x) := by
  obtain ⟨n', dss', hd, hgana⟩ := h.creada.directorio
  have hn' : fs'.bloquesDe x = n' := by
    rw [Ext2.bloquesDe, hd.entero, cantBloques_mul (blockSize_pos fs'.sb)]
  have hx' : fs'.EnUso x := by rwa [h.creada.enUso]
  subst hn'
  exact ⟨dss', hd, hgana, (h.creada.consistente.enMano hx').enImagen (rango_bloquesDe fs' x)⟩

end Anotada

/-! ## What a removal leaves -/

section Borrada

variable {fijo : Nat → Prop} {fs fs' : Ext2} {x y : Nat} {dss : Nat → List Dir}

/-- The records after the first one. -/
theorem Registros.resto {b o : Nat} {dir : Dir} {ds : List Dir}
    (h : Registros fs b o (dir :: ds)) : Registros fs b (o + dir.dRecLen) ds := by
  cases h with
  | paso _ _ hresto => exact hresto

/-- Two records of a block take no more than the block. -/
theorem Registros.suman {b o : Nat} {pre post : List Dir} {ant dir : Dir}
    (h : Registros fs b o (pre ++ ant :: dir :: post)) :
    o + ant.dRecLen + dir.dRecLen ≤ fs.sb.blockSize := by
  induction pre generalizing o with
  | nil => exact h.resto.resto.le_blockSize
  | cons d pre ih =>
      have := ih h.resto
      omega

/-- Below 64 KiB no two lengths wrap. -/
theorem unionCabe_de (hbs : fs.sb.blockSize < 2 ^ 16) (y : Nat) : UnionCabe fs x y := by
  intro i _ pre ant dir post hr _
  have := hr.suman
  omega

/-- The records of the directory after the call. -/
theorem Borrada.records (h : Borrada fijo fs x (fs.bloquesDe x) dss y fs') (hx : fs.EnUso x) :
    ∃ dss', Directorio fs' (leerInodo fs' x) (fs'.bloquesDe x) dss'
      ∧ pares (registrosDe (fs'.bloquesDe x) dss')
        = (pares (registrosDe (fs.bloquesDe x) dss)).eraseP (fun p => p.2 == y)
      ∧ EnImagen fs' (leerInodo fs' x) (fs'.bloquesDe x) := by
  obtain ⟨dss', hd, hpares⟩ := h.directorio
  have hbloques : fs'.bloquesDe x = fs.bloquesDe x := by
    rw [Ext2.bloquesDe, Ext2.bloquesDe, h.igual.iSize, h.solo.sb]
  have hx' : fs'.EnUso x := by rwa [h.enUso]
  rw [hbloques]
  exact ⟨dss', hd, hpares, hbloques ▸ (h.consistente.enMano hx').enImagen (rango_bloquesDe fs' x)⟩

end Borrada

/-! ## A run of calls on one directory -/

/-- A call of `Dir_crearNuevaEntrada` or of `Dir_borrarEntrada`. -/
inductive CambioEntrada where
  | crear (nombreArch : List UInt8) (nroInodo : Nat)
  | borrar (nroInodo : Nat)

/-- The call on directory `x`, stuck unless it answers success. -/
def pasoEntrada (x : Nat) : CambioEntrada → Ext2 → Option Ext2
  | .crear nombreArch nroInodo, fs =>
      (crearNuevaEntrada fs nombreArch x nroInodo).bind fun r => if r.2 then some r.1 else none
  | .borrar nroInodo, fs =>
      (borrarEntrada fs x nroInodo).bind fun r => if r.2 then some r.1 else none

/-- What the caller sees to: a name that fits, and room for the entry in some
    record or in one block more. -/
def CabeCambio (x : Nat) : CambioEntrada → Ext2 → Prop
  | .crear nombreArch nroInodo, fs => Nombra nombreArch nroInodo
      ∧ (HayHueco fs x (entradaNueva nombreArch nroInodo 0).tamEntrada ∨ HayBloque fs x)
  | .borrar _, _ => True

/-- The same calls on a list of pairs. -/
def cambiaLista : CambioEntrada → List (List UInt8 × Nat) → List (List UInt8 × Nat) → Prop
  | .crear nombreArch nroInodo, l, l' => Gana l l' (nombreArch, nroInodo)
  | .borrar nroInodo, l, l' => l' = l.eraseP fun p => p.2 == nroInodo

/-- A well-formed directory in use, in a consistent image with blocks below
    64 KiB, whose listing has the pairs `l`. -/
structure Lleva (fijo : Nat → Prop) (x : Nat) (fs : Ext2) (l : List (List UInt8 × Nat)) : Prop where
  consistente : Consistente fijo fs
  enUso : fs.EnUso x
  iMode : (leerInodo fs x).iMode ≠ 0
  blockSize : fs.sb.blockSize < 2 ^ 16
  sano : DirectorioSano fs x
  lista : ∃ ds, listar fs x = some ds ∧ ds.map Dir.par = l

section Lleva

variable {fijo : Nat → Prop} {fs fs' : Ext2} {x : Nat} {l l' : List (List UInt8 × Nat)}

/-- A directory of some records lists their pairs. -/
theorem lleva_de {dss : Nat → List Dir} (hC : Consistente fijo fs) (hx : fs.EnUso x)
    (hmodo : (leerInodo fs x).iMode ≠ 0) (hbs : fs.sb.blockSize < 2 ^ 16)
    (him : EnImagen fs (leerInodo fs x) (fs.bloquesDe x))
    (hd : Directorio fs (leerInodo fs x) (fs.bloquesDe x) dss) :
    Lleva fijo x fs (pares (registrosDe (fs.bloquesDe x) dss)) :=
  ⟨hC, hx, hmodo, hbs, hd.sano him, _, hd.listar him, rfl⟩

theorem Lleva.records (h : Lleva fijo x fs l) : ∃ dss,
    Directorio fs (leerInodo fs x) (fs.bloquesDe x) dss
      ∧ pares (registrosDe (fs.bloquesDe x) dss) = l := by
  have him := (h.consistente.enMano h.enUso).enImagen (rango_bloquesDe fs x)
  obtain ⟨dss, hd⟩ := h.sano.directorio him
  obtain ⟨ds, hds, hl⟩ := h.lista
  rw [hd.listar him] at hds
  obtain rfl := Option.some.inj hds
  exact ⟨dss, hd, hl⟩

/-- **ONE CALL** on the directory is one change of the list. -/
theorem Lleva.paso (c : CambioEntrada) (h : Lleva fijo x fs l) (hc : CabeCambio x c fs) :
    ∃ fs' l', pasoEntrada x c fs = some fs' ∧ cambiaLista c l l' ∧ Lleva fijo x fs' l' := by
  obtain ⟨dss, hd, rfl⟩ := h.records
  cases c with
  | crear nombreArch nroInodo =>
      obtain ⟨fs', heq, ha⟩ := h.consistente.anotar h.enUso hd hc.1 h.iMode h.blockSize hc.2
      obtain ⟨dss', hd', hgana, him'⟩ := ha.directorio h.enUso
      refine ⟨fs', _, ?_, hgana, lleva_de ha.creada.consistente ?_ ?_ ?_ him' hd'⟩
      · rw [pasoEntrada, heq]
        rfl
      · rw [ha.creada.enUso]
        exact h.enUso
      · rw [ha.creada.iMode]
        exact h.iMode
      · rw [ha.mismo.blockSize]
        exact h.blockSize
  | borrar nroInodo =>
      obtain ⟨fs', heq, hb⟩ :=
        h.consistente.borrarEntrada h.enUso hd h.iMode (unionCabe_de h.blockSize nroInodo)
      obtain ⟨dss', hd', hpares, him'⟩ := hb.records h.enUso
      refine ⟨fs', _, ?_, hpares, lleva_de hb.consistente ?_ ?_ ?_ him' hd'⟩
      · rw [pasoEntrada, heq]
        rfl
      · rw [hb.enUso]
        exact h.enUso
      · rw [hb.igual.iMode]
        exact h.iMode
      · rw [hb.solo.sb]
        exact h.blockSize

/-- **A DIRECTORY IS A LIST**: every run of additions that fit and of removals
    answers success throughout and is a run on the pairs of its listing, and the
    directory is well formed in the end. -/
theorem entradas_refinan (cs : List CambioEntrada) (h : Lleva fijo x fs l)
    (hc : EnCadaPaso (pasoEntrada x) (CabeCambio x) cs fs) :
    ∃ fs' l', corrida (pasoEntrada x) cs fs = some fs' ∧ Traza cambiaLista cs l l'
      ∧ Lleva fijo x fs' l' :=
  corrida_simula (fun c _ _ hl hcabe => hl.paso c hcabe) cs h hc

end Lleva

/-! ## On the full directory -/

theorem lleva_imagenLlena :
    Lleva (· ≤ 6) 1 imagenLlena (List.replicate 4 ([97], 1)) := by
  refine ⟨consistente_imagenLlena, enUso_imagenLlena, by decide, by decide,
    directorioSano_imagenLlena, ?_⟩
  have hver : (listar imagenLlena 1).map (List.map Dir.par)
      = some (List.replicate 4 ([97], 1)) := by decide
  exact Option.map_eq_some_iff.mp hver

/-- A short name fits in a record of the directory. -/
theorem hueco_imagenLlena : HayHueco imagenLlena 1 (entradaNueva [98] 2 0).tamEntrada := by
  have hhay : 0 < imagenLlena.bloquesDe 1 := raiz_imagenLlena.2.1 ▸ Nat.one_pos
  obtain ⟨ds, hr⟩ := directorioSano_imagenLlena.bloques 0 hhay
  have hregs := hr
  rw [bloque_imagenLlena hhay] at hregs
  refine ⟨0, hhay, ds, hr, ?_⟩
  cases ds with
  | nil =>
      have hbs : imagenLlena.sb.blockSize = 1024 := by decide
      have := hregs.nil
      omega
  | cons dir ds =>
      obtain ⟨hrec, htam⟩ := registros_imagenLlena hregs (Nat.zero_le 4) rfl dir List.mem_cons_self
      refine ⟨dir, List.mem_cons_self, ?_⟩
      show dir.tamEntrada + 12 ≤ dir.dRecLen
      omega

/-- An entry comes, and it goes after another one. -/
theorem entradas_refinan_tres : ∃ fs' l',
    corrida (pasoEntrada 1) [.crear [98] 2, .borrar 1, .borrar 2] imagenLlena = some fs'
      ∧ Traza cambiaLista [.crear [98] 2, .borrar 1, .borrar 2]
        (List.replicate 4 ([97], 1)) l'
      ∧ Lleva (· ≤ 6) 1 fs' l' :=
  entradas_refinan [.crear [98] 2, .borrar 1, .borrar 2] lleva_imagenLlena
    ⟨⟨⟨by decide, by decide, by decide⟩, .inl hueco_imagenLlena⟩,
      fun _ _ => ⟨trivial, fun _ _ => ⟨trivial, fun _ _ => trivial⟩⟩⟩

end Rfs
