import Yanero.RfsReservaProofs
import Yanero.RfsCamino

/-! # What a write to a data block leaves alone

    The frame rules of the image.  A data block is a block of the volume that
    holds no metadata.  A pointer write or a cleared pointer block changes
    bytes of one data block (`SoloBloque`), so it keeps the bitmaps, the
    counters and the words of every other block; taking or returning a block
    (`Marca`) keeps the words of every data block. -/

namespace Rfs

open Palabras

/-- A block that can hold data or pointers of a file. -/
def Dato (fijo : Nat → Prop) (fs : Ext2) (b : Nat) : Prop := fs.sb.enVolumen b ∧ ¬ fijo b

/-- The two images differ in bytes of block `b` only. -/
structure SoloBloque (fs fs' : Ext2) (b : Nat) : Prop where
  sb : fs'.sb = fs.sb
  bgdt : fs'.bgdt = fs.bgdt
  fuera : ∀ o, o / fs.sb.blockSize ≠ b → fs'.disco o = fs.disco o

section Marco

variable {fijo : Nat → Prop} {fs fs' : Ext2} {b c pos q v : Nat} {w : Bool}

theorem SoloBloque.mismo (h : SoloBloque fs fs' b) : Mismo fs fs' := mismo_de h.sb h.bgdt

theorem Geometria.bytes_lt (hG : Geometria fijo fs) (hb : fs.sb.enVolumen b) {r : Nat}
    (hr : r < fs.sb.blockSize) : b * fs.sb.blockSize + r < 2 ^ 32 := by
  have h1 : (b + 1) * fs.sb.blockSize ≤ fs.sb.sBlocksCount * fs.sb.blockSize :=
    Nat.mul_le_mul_right _ hb.2
  have h2 := hG.imagen
  rw [Nat.succ_mul] at h1
  omega

/-- The address of a pointer of a block of the volume. -/
theorem Geometria.offsetPtro_eq (hG : Geometria fijo fs) (hb : fs.sb.enVolumen b)
    (hpos : pos < fs.sb.cantPunteros) :
    offsetPtro fs b pos = b * fs.sb.blockSize + 4 * pos := by
  have hbs := cantPunteros_eq fs.sb
  rw [offsetPtro, Nat.mul_comm pos 4]
  exact u32_eq (hG.bytes_lt hb (by omega))

/-- A word of a block is inside it. -/
theorem palabra_en_bloque (sb : Superblock) (hpos : pos < sb.cantPunteros) {o : Nat}
    (h1 : b * sb.blockSize + 4 * pos ≤ o) (h2 : o < b * sb.blockSize + 4 * pos + 4) :
    o / sb.blockSize = b := by
  have hbs := cantPunteros_eq sb
  obtain ⟨r, rfl⟩ := Nat.exists_eq_add_of_le (Nat.le_trans (Nat.le_add_right _ _) h1)
  exact bloque_de (by omega)

/-- Words read the same when the bytes of their block do. -/
theorem buscarBloque_congr (hG : Geometria fijo fs) (hm : MismaForma fs fs')
    (hc : fs.sb.enVolumen c) (hq : q < fs.sb.cantPunteros)
    (h : ∀ o, o / fs.sb.blockSize = c → fs'.disco o = fs.disco o) :
    buscarBloque fs' c q = buscarBloque fs c q := by
  rw [buscarBloque, buscarBloque, hm.offsetPtro, hG.offsetPtro_eq hc hq]
  refine leerPalabra_congr ?_
  intro o h1 h2
  exact h o (palabra_en_bloque fs.sb hq h1 h2)

theorem SoloBloque.buscarBloque (hG : Geometria fijo fs) (h : SoloBloque fs fs' b)
    (hc : fs.sb.enVolumen c) (hne : c ≠ b) (hq : q < fs.sb.cantPunteros) :
    buscarBloque fs' c q = buscarBloque fs c q :=
  buscarBloque_congr hG h.mismo.forma hc hq fun o ho => h.fuera o (by rw [ho]; exact hne)

/-- A block that is not a block bitmap. -/
def Ext2.NoBitmap (fs : Ext2) (b : Nat) : Prop :=
  ∀ g, 0 < fs.sb.tamGrupo g → b ≠ (fs.grupo g).bgBlockBitmap

theorem Geometria.noBitmap (hG : Geometria fijo fs) (hb : ¬ fijo b) : fs.NoBitmap b := by
  rintro g hg rfl
  exact hb (hG.bitmapFijo g hg).2

/-- A write outside the block bitmaps keeps them. -/
theorem SoloBloque.bitEn (h : SoloBloque fs fs' b) (hb : fs.NoBitmap b) {g j : Nat}
    (hg : 0 < fs.sb.tamGrupo g) (hj : j < 8 * fs.sb.blockSize) :
    fs'.bitGrupo g j = fs.bitGrupo g j := by
  rw [Ext2.bitGrupo, Ext2.bitGrupo, h.mismo.bgBlockBitmap, h.mismo.blockSize, h.fuera]
  rw [bloque_de (by omega)]
  exact (hb g hg).symm

theorem SoloBloque.bitGrupo (hG : Geometria fijo fs) (h : SoloBloque fs fs' b)
    (hb : fs.NoBitmap b) {g j : Nat} (hj : j < fs.sb.tamGrupo g) :
    fs'.bitGrupo g j = fs.bitGrupo g j := by
  have hbyte : j / 8 < fs.sb.blockSize := lt_of_lt_of_le (hG.byte_lt hj) (hG.tamArray_le g)
  exact h.bitEn hb (by omega) (by omega)

theorem SoloBloque.bitBloque (hG : Geometria fijo fs) (h : SoloBloque fs fs' b)
    (hb : fs.NoBitmap b) (hc : fs.sb.enVolumen c) : fs'.bitBloque c = fs.bitBloque c := by
  rw [Ext2.bitBloque, Ext2.bitBloque, h.sb]
  exact h.bitGrupo hG hb (hG.posicion hc)

/-- The counters are right as long as they and the bitmaps stay. -/
theorem Cuentas.congr (hC : Cuentas fs) (hsb : fs'.sb = fs.sb) (hbgdt : fs'.bgdt = fs.bgdt)
    (hbits : ∀ g j, j < fs.sb.tamGrupo g → fs'.bitGrupo g j = fs.bitGrupo g j) : Cuentas fs' := by
  constructor
  · intro g hgr
    rw [hsb] at hgr ⊢
    rw [Ext2.grupo_congr hbgdt, hC.grupos g hgr]
    refine congrArg Finset.card (Finset.filter_congr fun i hi => ?_)
    rw [hbits g i (Finset.mem_range.mp hi)]
  · rw [hsb, hC.total]
    exact Finset.sum_congr rfl fun g _ => by rw [Ext2.grupo_congr hbgdt]

/-- A write outside the block bitmaps keeps the counters right. -/
theorem SoloBloque.cuentas (hG : Geometria fijo fs) (h : SoloBloque fs fs' b)
    (hb : fs.NoBitmap b) (hC : Cuentas fs) : Cuentas fs' :=
  hC.congr h.sb h.bgdt fun _ _ hj => h.bitGrupo hG hb hj

theorem soloBloque_escribirPtroBloq (hG : Geometria fijo fs) (hb : fs.sb.enVolumen b)
    (hpos : pos < fs.sb.cantPunteros) : SoloBloque fs (escribirPtroBloq fs b pos v) b := by
  refine ⟨rfl, rfl, ?_⟩
  intro o ho
  show escribirPalabra 4 fs.disco (offsetPtro fs b pos) v o = fs.disco o
  rw [hG.offsetPtro_eq hb hpos]
  refine escribirPalabra_ajena ?_
  by_contra hno
  exact ho (palabra_en_bloque fs.sb hpos (by omega) (by omega))

/-- The pointers after one of them is written. -/
theorem buscarBloque_escribirPtroBloq (hG : Geometria fijo fs) (hb : fs.sb.enVolumen b)
    (hpos : pos < fs.sb.cantPunteros) (hv : v < 2 ^ 32) (hc : fs.sb.enVolumen c)
    (hq : q < fs.sb.cantPunteros) :
    buscarBloque (escribirPtroBloq fs b pos v) c q =
      if c = b ∧ q = pos then v else buscarBloque fs c q := by
  by_cases hcb : c = b
  · subst hcb
    by_cases hqp : q = pos
    · subst hqp
      rw [if_pos ⟨rfl, rfl⟩]
      show leerPalabra 4 (escribirPalabra 4 fs.disco (offsetPtro fs c q) v) (offsetPtro fs c q) = v
      rw [leerPalabra_escribirPalabra]
      exact Nat.mod_eq_of_lt hv
    · rw [if_neg fun h => hqp h.2]
      show leerPalabra 4 (escribirPalabra 4 fs.disco (offsetPtro fs c pos) v) (offsetPtro fs c q)
        = leerPalabra 4 fs.disco (offsetPtro fs c q)
      rw [hG.offsetPtro_eq hb hpos, hG.offsetPtro_eq hc hq]
      exact leerPalabra_ajena (by omega)
  · rw [if_neg fun h => hcb h.1]
    exact (soloBloque_escribirPtroBloq hG hb hpos).buscarBloque hG hc hcb hq

theorem soloBloque_inicializar (hG : Geometria fijo fs) (hb : fs.sb.enVolumen b) :
    SoloBloque fs (inicializarBloqdePtros fs b) b := by
  refine ⟨rfl, rfl, ?_⟩
  intro o ho
  have hu : u32 (b * fs.sb.blockSize) = b * fs.sb.blockSize :=
    u32_eq (hG.bytes_lt hb (blockSize_pos fs.sb))
  show Bytes.escribir fs.disco (u32 (b * fs.sb.blockSize)) _ o = fs.disco o
  rw [hu, Bytes.escribir, if_neg]
  rw [List.length_replicate]
  rintro ⟨h1, h2⟩
  obtain ⟨r, rfl⟩ := Nat.exists_eq_add_of_le h1
  exact ho (bloque_de (by omega))

/-- The pointers after a pointer block is cleared. -/
theorem buscarBloque_inicializar (hG : Geometria fijo fs) (hb : fs.sb.enVolumen b)
    (hc : fs.sb.enVolumen c) (hq : q < fs.sb.cantPunteros) :
    buscarBloque (inicializarBloqdePtros fs b) c q = if c = b then 0 else buscarBloque fs c q := by
  by_cases hcb : c = b
  · subst hcb
    have hbs := cantPunteros_eq fs.sb
    have hu : u32 (c * fs.sb.blockSize) = c * fs.sb.blockSize :=
      u32_eq (hG.bytes_lt hc (blockSize_pos fs.sb))
    have hcero : Bytes.leer (inicializarBloqdePtros fs c).disco (offsetPtro fs c q) 4 =
        List.replicate 4 0 := by
      refine List.ext_getElem (by simp) ?_
      intro i h1 h2
      rw [Bytes.length_leer] at h1
      simp only [Bytes.leer, List.getElem_map, List.getElem_range, inicializarBloqdePtros, hu,
        hG.offsetPtro_eq hc hq, List.getElem_replicate, Bytes.escribir, List.length_replicate]
      rw [if_pos (by omega), List.getD_replicate _ (by omega)]
    rw [if_pos rfl]
    show valor (Bytes.leer (inicializarBloqdePtros fs c).disco (offsetPtro fs c q) 4) = 0
    rw [hcero]
    rfl
  · rw [if_neg hcb]
    exact (soloBloque_inicializar hG hb).buscarBloque hG hc hcb hq

/-- Taking or returning a block keeps the words of every data block. -/
theorem Marca.buscarBloque (hG : Geometria fijo fs) (h : Marca fs fs' b w) (hc : Dato fijo fs c)
    (hq : q < fs.sb.cantPunteros) : buscarBloque fs' c q = buscarBloque fs c q := by
  refine buscarBloque_congr hG h.mismo.forma hc.1 hq ?_
  intro o ho
  refine h.fuera o ?_
  intro g hg heq
  rw [ho] at heq
  exact hc.2 (heq ▸ (hG.bitmapFijo g hg).2)

end Marco

end Rfs
