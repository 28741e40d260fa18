import Yanero.RfsTruncarProofs
import Yanero.Corridas

/-! # A file goes back to the image

    A file that was worked on in memory is written back with the size that its
    blocks say (`EnMano.volcar`), and the image is consistent again.  So every
    request that truncates, one after another, keeps the image consistent, as
    long as each truncation goes the way its name says. -/

namespace Rfs

open Arboles Palabras Corridas

section Volcar

variable {fijo : Nat → Prop} {fs fs' : Ext2} {x y b : Nat} {inodo inodo' : Inode}

/-- A write to a block that holds no inode bitmap keeps the inodes in use. -/
theorem SoloBloque.enUso (hG : Geometria fijo fs) (h : SoloBloque fs fs' b)
    (hb : ∀ g, g * fs.sb.sInodesPerGroup < fs.sb.sInodesCount →
      (fs.grupo g).bgInodeBitmap ≠ b) : fs'.EnUso = fs.EnUso := by
  have hbit : ∀ y, fs.sb.esInodo y → fs'.bitInodo y = fs.bitInodo y := by
    intro y hy
    unfold Ext2.bitInodo
    rw [h.mismo.sInodesPerGroup, h.mismo.bgInodeBitmap, h.mismo.blockSize, h.fuera]
    rw [bloque_de (hG.byte_bitInodo y)]
    exact hb _ (grupo_de_inodo hy)
  funext y
  unfold Ext2.EnUso
  rw [h.mismo.sInodesCount]
  refine propext ⟨?_, ?_⟩
  · rintro ⟨h1, h2, h3⟩
    exact ⟨h1, h2, (hbit y ⟨h1, h2⟩).symm.trans h3⟩
  · rintro ⟨h1, h2, h3⟩
    exact ⟨h1, h2, (hbit y ⟨h1, h2⟩).trans h3⟩

/-- The tables hold no inode bitmap. -/
theorem Geometria.tabla_no_bitmap (hG : Geometria fijo fs) (hx : fs.sb.esInodo x) {g : Nat}
    (hg : g * fs.sb.sInodesPerGroup < fs.sb.sInodesCount) :
    (fs.grupo g).bgInodeBitmap ≠ fs.bloqueInodo x := by
  obtain ⟨-, -, h⟩ := hG.inodeBitmap g hg
  exact (h _ _ (grupo_de_inodo hx) (hG.ranura_lt x)).symm

/-- **BACK TO THE IMAGE**: the inode is written with the size of its blocks. -/
theorem EnMano.volcar (h : EnMano fijo fs x inodo (cantBloques fs.sb.blockSize inodo.iSize))
    (hcabe : inodo.Cabe) : Consistente fijo (escribirInodo fs x inodo) := by
  have hG := h.geometria
  have hx : fs.sb.esInodo x := ⟨h.enUso.1, h.enUso.2.1⟩
  have hsolo := soloBloque_escribirInodo hG hx inodo
  have hm := mismo_escribirInodo fs x inodo
  obtain ⟨-, htab, hno⟩ := hG.bloqueInodo hx
  have huso := hsolo.enUso hG fun g hg => hG.tabla_no_bitmap hx hg
  refine ⟨hm.geometria hG, hsolo.cuentas hG hno h.cuentas, ?_⟩
  have hr := h.reparto
  unfold Ext2.Repartido at hr ⊢
  rw [hm.esquema, hm.enVolumen, huso]
  have hr' := @Reparto.congr_leer _ _ (buscarBloque (escribirInodo fs x inodo)) _
    (escribirInodo fs x inodo).bitBloque _ _ _ _ _ hr (fun y hy k ps hv _ pos hpos => ?_)
    fun c hc => hsolo.bitBloque hG hno hc
  · refine hr'.congr (fun y hy k hk => ?_) fun y hy => ?_
    · by_cases hyx : y = x
      · rw [hyx, Function.update_self]
        exact (leerInodo_escribirInodo hcabe).iBlock k hk
      · rw [Function.update_of_ne hyx]
        exact (leerInodo_escribirInodo_otro hG hx ⟨hy.1, hy.2.1⟩ hyx inodo).iBlock k hk
    · unfold Ext2.bloquesDe
      rw [hm.blockSize]
      by_cases hyx : y = x
      · rw [hyx, Function.update_self, (leerInodo_escribirInodo hcabe).iSize]
      · rw [Function.update_of_ne hyx,
          (leerInodo_escribirInodo_otro hG hx ⟨hy.1, hy.2.1⟩ hyx inodo).iSize]
  · obtain ⟨hvol, hfijo⟩ := hr.dentro y hy k ps hv
    refine hsolo.buscarBloque hG hvol ?_ hpos
    intro heq
    rw [heq] at hfijo
    exact hfijo htab

/-- A file left as it is in memory is as it was on the image. -/
theorem EnMano.consistente (h : EnMano fijo fs x inodo (cantBloques fs.sb.blockSize inodo.iSize))
    (hb : ∀ k, k < 15 → (leerInodo fs x).iBlock k = inodo.iBlock k)
    (hs : (leerInodo fs x).iSize = inodo.iSize) : Consistente fijo fs := by
  refine ⟨h.geometria, h.cuentas, h.reparto.congr (fun y _ k hk => ?_) fun y _ => ?_⟩
  · by_cases hyx : y = x
    · rw [hyx, Function.update_self, hb k hk]
    · rw [Function.update_of_ne hyx]
  · by_cases hyx : y = x
    · rw [hyx, Function.update_self, Ext2.bloquesDe, hs]
    · rw [Function.update_of_ne hyx]

end Volcar

/-! ## Truncations, one after another -/

/-- A call of `Inode_truncarArriba` or `Inode_truncarAbajo`: which inode and to
    which size. -/
inductive Truncado where
  | arriba (nroInodo nuevoTam : Nat)
  | abajo (nroInodo nuevoTam : Nat)

/-- The call on the inode as it is on the image, which is written back unless
    the call failed. -/
def pasoTruncar : Truncado → Ext2 → Option Ext2
  | .arriba nroInodo nuevoTam, fs =>
      let r := truncarArriba fs (leerInodo fs nroInodo) nuevoTam
      some (if r.2.2 then escribirInodo r.1 nroInodo r.2.1 else r.1)
  | .abajo nroInodo nuevoTam, fs =>
      let r := truncarAbajo fs (leerInodo fs nroInodo) nuevoTam
      some (escribirInodo r.1 nroInodo r.2)

/-- An inode in use and a size on the side the call is for. -/
def DeSuLado : Truncado → Ext2 → Prop
  | .arriba nroInodo nuevoTam, fs =>
      fs.EnUso nroInodo ∧ (leerInodo fs nroInodo).iSize ≤ nuevoTam ∧ nuevoTam < 2 ^ 32
  | .abajo nroInodo nuevoTam, fs =>
      fs.EnUso nroInodo ∧ nuevoTam ≤ (leerInodo fs nroInodo).iSize

instance decidableDeSuLado : ∀ (a : Truncado) (fs : Ext2), Decidable (DeSuLado a fs)
  | .arriba _ _, _ => inferInstanceAs (Decidable (_ ∧ _ ∧ _))
  | .abajo _ _, _ => inferInstanceAs (Decidable (_ ∧ _))

section Truncados

variable {fijo : Nat → Prop} {fs fs' : Ext2} {x : Nat}

theorem potencia32 : (256 : Nat) ^ 4 = 2 ^ 32 := by decide

theorem leerInodo_iSize_lt (fs : Ext2) (x : Nat) : (leerInodo fs x).iSize < 2 ^ 32 := by
  have h := (leerInodo_cabe fs x).iSize
  rwa [potencia32] at h

/-- The inode of a file in memory fits its slot. -/
theorem EnMano.cabe_inodo {n : Nat} {inodo inodo₀ : Inode} (h : EnMano fijo fs x inodo n)
    (hs : inodo.iSize < 2 ^ 32) (hm : inodo.iMode = inodo₀.iMode)
    (hl : inodo.iLinksCount = inodo₀.iLinksCount) (h₀ : inodo₀.Cabe) : inodo.Cabe :=
  ⟨hm ▸ h₀.iMode, potencia32 ▸ hs, hl ▸ h₀.iLinksCount, h.cabe⟩

/-- A growth of a file of the image. -/
theorem Consistente.arriba {nuevoTam : Nat} {fs₁ : Ext2} {inodo₁ : Inode} {ok : Bool}
    (h : Consistente fijo fs) (hx : fs.EnUso x) (hle : (leerInodo fs x).iSize ≤ nuevoTam)
    (hn : nuevoTam < 2 ^ 32)
    (hr : truncarArriba fs (leerInodo fs x) nuevoTam = (fs₁, inodo₁, ok)) :
    Consistente fijo (if ok then escribirInodo fs₁ x inodo₁ else fs₁) := by
  have hmano := h.enMano hx
  rcases hmano.truncarArriba hn hle with ⟨-, hok, hext⟩ | ⟨-, hno, hdes⟩
  · rw [hr] at hok hext
    dsimp only at hok hext
    rw [hok, if_pos rfl]
    refine EnMano.volcar ?_ (hext.enMano.cabe_inodo (hext.iSize ▸ hn) hext.iMode
      hext.iLinksCount (leerInodo_cabe fs x))
    rw [hext.conserva.guarda.mismo.blockSize, hext.iSize]
    exact hext.enMano
  · rw [hr] at hno hdes
    dsimp only at hno hdes
    rw [hno, if_neg Bool.false_ne_true]
    have hg := hdes.conserva.guarda
    have higual := hg.leerInodo h.geometria ⟨hx.1, hx.2.1⟩
    have hres := hmano.restaurado hdes.enMano hdes.conserva
    refine @EnMano.consistente _ _ x inodo₁ ?_ (fun k hk => ?_) ?_
    · rw [hg.mismo.blockSize, hdes.datos.2.1]
      exact hdes.enMano
    · rw [higual.iBlock k hk, hres.iBlock k hk]
    · rw [higual.iSize, hdes.datos.2.1]

/-- A shrink of a file of the image. -/
theorem Consistente.abajo {nuevoTam : Nat} (h : Consistente fijo fs) (hx : fs.EnUso x)
    (hle : nuevoTam ≤ (leerInodo fs x).iSize) :
    Consistente fijo (escribirInodo (truncarAbajo fs (leerInodo fs x) nuevoTam).1 x
      (truncarAbajo fs (leerInodo fs x) nuevoTam).2) := by
  have hlt := leerInodo_iSize_lt fs x
  obtain ⟨h1, h2, h3, h4, h5, -⟩ := (h.enMano hx).truncarAbajo hlt hle
  refine EnMano.volcar ?_ (h1.cabe_inodo (by omega) h4 h5 (leerInodo_cabe fs x))
  rw [h2.guarda.mismo.blockSize, h3]
  exact h1

/-- **BLOCK OWNERSHIP**: in every run of truncations, each to a size on its own
    side, every image reached is consistent. -/
theorem truncados_consistentes (l : List Truncado) (h : Consistente fijo fs)
    (hl : EnCadaPaso pasoTruncar DeSuLado l fs) (hr : corrida pasoTruncar l fs = some fs') :
    Consistente fijo fs' := by
  refine corrida_invariante (P := Consistente fijo) (fun a s s' hs hC hp => ?_) l h hl hr
  cases a with
  | arriba y tam =>
      obtain ⟨hy, hle, hn⟩ := hC
      rcases hr : truncarArriba s (leerInodo s y) tam with ⟨fs₁, inodo₁, ok⟩
      rw [pasoTruncar, hr] at hp
      rw [← Option.some.inj hp]
      exact hs.arriba hy hle hn hr
  | abajo y tam =>
      obtain ⟨hy, hle⟩ := hC
      rw [← Option.some.inj hp]
      exact hs.abajo hy hle

end Truncados

/-- The first file grows to thirteen blocks, with an indirect one, and the second
    one to two.  The second one then finds no room for nine, and the first one
    loses its indirect block. -/
def crecenYAchica : List Truncado :=
  [.arriba 1 13312, .arriba 2 2000, .arriba 2 9000, .abajo 1 5000]

theorem truncados_consistentes_indirecto : ∃ fs',
    corrida pasoTruncar crecenYAchica imagenAmplia = some fs' ∧ fs'.sb.sFreeBlocksCount = 10
      ∧ Consistente (· ≤ 6) fs' := by
  have hlibres : (corrida pasoTruncar crecenYAchica imagenAmplia).map
      (fun fs => fs.sb.sFreeBlocksCount) = some 10 := by decide +kernel
  obtain ⟨fs', hr, h10⟩ := Option.map_eq_some_iff.mp hlibres
  exact ⟨fs', hr, h10, truncados_consistentes crecenYAchica consistente_imagenAmplia
    (by decide +kernel) hr⟩

/-- A truncation the wrong way: the size goes up without a block. -/
theorem truncados_consistentes_falla : Consistente (· ≤ 6) imagenChica ∧ imagenChica.EnUso 1
    ∧ ∃ fs', corrida pasoTruncar [.abajo 1 1000] imagenChica = some fs'
      ∧ ¬ Consistente (· ≤ 6) fs' := by
  refine ⟨arranque_tallerChico.consistente, ⟨by decide, by decide, by decide⟩, _, rfl, ?_⟩
  intro h
  have hdentro := h.reparto.dentro 1 ⟨by decide, by decide, by decide⟩ 0 []
    ⟨Valido.nil (show 0 < 15 by decide), by decide⟩
  refine absurd hdentro.1.1 ?_
  decide

end Rfs
