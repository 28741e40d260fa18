import Yanero.RfsReservaProofs
import Mathlib.Tactic.IntervalCases

/-! # Taking a block on any geometry

    `Grupos_pedirBloqueLibre` on a volume of any shape.  The search looks at
    the bytes that `Grupos_leerBlockBitmap` reads of the first group with a
    counter that is not zero, and the number of those bytes is rounded by
    looking at bytes, not bits: on the last group the final few blocks may be
    past them.  When all the free blocks of that group are there, the search
    answers `-1`, which is added to the number of the group's first block. -/

namespace Rfs

/-- A volume of block groups: each bitmap in a block of its own with its
    padding set, the counters within their widths. -/
structure Volumen (fs : Ext2) : Prop where
  bloques : fs.sb.sBlocksCount < 2 ^ 32
  primerBloque : fs.sb.sFirstDataBlock = 0 ∨ fs.sb.sFirstDataBlock = 1
  porGrupo : 0 < fs.sb.sBlocksPerGroup ∧ 8 ∣ fs.sb.sBlocksPerGroup
  bitmapCabe : fs.sb.sBlocksPerGroup ≤ 8 * fs.sb.blockSize
  descriptores : fs.bgdt.length = fs.sb.cantGrupos
  bitmapsDistintos : ∀ g g', 0 < fs.sb.tamGrupo g → 0 < fs.sb.tamGrupo g' →
    (fs.grupo g).bgBlockBitmap = (fs.grupo g').bgBlockBitmap → g = g'
  relleno : ∀ g j, 0 < fs.sb.tamGrupo g → fs.sb.tamGrupo g ≤ j → j < 8 * fs.sb.blockSize →
    fs.bitGrupo g j = true
  anchos : ∀ g, (fs.grupo g).bgFreeBlocksCount < 2 ^ 16

/-- A block of the volume is free. -/
def Ext2.HayLibre (fs : Ext2) : Prop := ∃ b, fs.sb.enVolumen b ∧ fs.bitBloque b = false

/-- A take that does what it is for: it returns a free block of the volume,
    sets its bit and no other, and counts it. -/
structure BuenPedido (fs fs' : Ext2) (b : Nat) : Prop where
  dentro : fs.sb.enVolumen b
  libre : fs.bitBloque b = false
  marca : Marca fs fs' b true
  sFreeBlocksCount : fs'.sb.sFreeBlocksCount + 1 = fs.sb.sFreeBlocksCount
  bgFreeBlocksCount : (fs'.grupo (fs.sb.grupoDe b)).bgFreeBlocksCount + 1
    = (fs.grupo (fs.sb.grupoDe b)).bgFreeBlocksCount
  otros : ∀ g, g ≠ fs.sb.grupoDe b → fs'.grupo g = fs.grupo g

/-- The first group whose counter is not zero. -/
def Ext2.primerGrupo (fs : Ext2) : Option Nat :=
  (List.range fs.sb.cantGrupos).find? fun g => (fs.grupo g).bgFreeBlocksCount != 0

/-- The first group with a free block has one in the bytes that
    `Grupos_leerBlockBitmap` reads. -/
def LibreEnLoLeido (fs : Ext2) : Prop :=
  ∃ g ∈ fs.primerGrupo, ∃ j, j < fs.sb.tamGrupo g
    ∧ j < 8 * tamArray (tamBlockBitmap fs.sb g) ∧ fs.bitGrupo g j = false

section Pedir

variable {fs : Ext2} {g : Nat}

theorem Volumen.agrupado (h : Volumen fs) (hl : fs.HayLibre) : Agrupado fs := by
  obtain ⟨b, ⟨hb1, hb2⟩, -⟩ := hl
  obtain ⟨hpos, c, hc⟩ := h.porGrupo
  have hvol : fs.sb.sFirstDataBlock < fs.sb.sBlocksCount := lt_of_le_of_lt hb1 hb2
  have hfirst : fs.sb.sFirstDataBlock ≤ 1 := by
    rcases h.primerBloque with h0 | h1 <;> omega
  refine ⟨h.bloques, hfirst, hvol, hpos, h.bitmapCabe, ?_, h.descriptores, h.bitmapsDistintos⟩
  have hdiv : (fs.sb.sBlocksCount - fs.sb.sFirstDataBlock) / fs.sb.sBlocksPerGroup
      ≤ (fs.sb.sBlocksCount - fs.sb.sFirstDataBlock) / 8 :=
    Nat.div_le_div_left (by omega) (by decide)
  have hlt := h.bloques
  unfold Superblock.cantGrupos
  rw [resta32_eq hlt (Nat.le_of_lt hvol)]
  exact u32_eq (by omega)

/-- The group the search takes has free blocks by its counter. -/
theorem primerGrupo_some (hp : fs.primerGrupo = some g) :
    g < fs.sb.cantGrupos ∧ (fs.grupo g).bgFreeBlocksCount ≠ 0 :=
  ⟨List.mem_range.mp (List.mem_of_find?_eq_some hp), by simpa using List.find?_some hp⟩

/-- The groups before it have no free block. -/
theorem primerGrupo_antes (hp : fs.primerGrupo = some g) {g' : Nat} (hg : g' < g) :
    (fs.grupo g').bgFreeBlocksCount = 0 := by
  obtain ⟨-, i, hi, hget, hantes⟩ := List.find?_eq_some_iff_getElem.mp hp
  rw [List.getElem_range] at hget
  have := hantes g' (by omega)
  rw [List.getElem_range] at this
  simpa using this

/-- There is one when a block is free. -/
theorem primerGrupo_hay (hA : Agrupado fs) (hC : Cuentas fs) (hl : fs.HayLibre) :
    ∃ g, fs.primerGrupo = some g := by
  obtain ⟨b, hb, hlibre⟩ := hl
  have hpos := hA.posicion hb
  have hreal := hA.grupo_real (lt_of_le_of_lt (Nat.zero_le _) hpos)
  refine Option.isSome_iff_exists.mp (List.find?_isSome.mpr ⟨_, List.mem_range.mpr hreal, ?_⟩)
  simpa using hC.cuenta_libre hreal hpos hlibre

/-- What is found in the first group with a free block. -/
theorem buscarBloqueLibre_en (hp : fs.primerGrupo = some g) :
    buscarBloqueLibre fs = u32 (g * fs.sb.sBlocksPerGroup + buscarBloqueLibrePorGrupo fs g
      + fs.sb.sFirstDataBlock) := buscarBloqueLibre_eq hp

/-- The counters that count the clear bits follow the bit that is set: the
    block's group loses one and the others stay. -/
theorem Marca.conteos {fs' : Ext2} {b : Nat} (hA : Agrupado fs) (hC : Cuentas fs)
    (hC' : Cuentas fs') (hm : Marca fs fs' b true) (hb : fs.sb.enVolumen b)
    (hlibre : fs.bitBloque b = false) :
    (fs'.grupo (fs.sb.grupoDe b)).bgFreeBlocksCount + 1
        = (fs.grupo (fs.sb.grupoDe b)).bgFreeBlocksCount
      ∧ ∀ g, g ≠ fs.sb.grupoDe b → fs'.grupo g = fs.grupo g := by
  have hpos := hA.posicion hb
  have hreal := hA.grupo_real (lt_of_le_of_lt (Nat.zero_le _) hpos)
  have hlugar : fs'.sb.grupoDe = fs.sb.grupoDe ∧ fs'.sb.posDe = fs.sb.posDe := by
    unfold Superblock.grupoDe Superblock.posDe
    rw [hm.mismo.sb]
    exact ⟨rfl, rfl⟩
  have hbits : ∀ g i, i < fs.sb.tamGrupo g → fs'.bitGrupo g i
      = if g = fs.sb.grupoDe b ∧ i = fs.sb.posDe b then true else fs.bitGrupo g i := by
    intro g i hi
    obtain ⟨hvol, hg, hp⟩ := bloque_en hi
    have hbit := hm.bit _ hvol
    have hinj := posicion_inj hb hvol
    rw [hg, hp] at hinj
    unfold Ext2.bitBloque at hbit
    rw [hlugar.1, hlugar.2, hg, hp] at hbit
    simp only [hinj]
    exact hbit
  constructor
  · have h1 := hC.grupos _ hreal
    have h2 := hC'.grupos (fs.sb.grupoDe b) (by rwa [hm.mismo.cantGrupos])
    rw [hm.mismo.tamGrupo] at h2
    rw [h1, h2]
    refine card_libres_set hpos hlibre fun i hi => ?_
    rw [hbits _ i hi]
    simp only [true_and]
  · intro g hne
    by_cases hlt : g < fs.sb.cantGrupos
    · have h1 := hC.grupos g hlt
      have h2 := hC'.grupos g (by rwa [hm.mismo.cantGrupos])
      rw [hm.mismo.tamGrupo] at h2
      have h3 : (fs'.grupo g).bgFreeBlocksCount = (fs.grupo g).bgFreeBlocksCount := by
        rw [h1, h2]
        refine congrArg Finset.card (Finset.filter_congr fun i hi => ?_)
        rw [hbits g i (Finset.mem_range.mp hi), if_neg fun h => hne h.1]
      rw [hm.mismo.grupo g, h3]
    · have hlen := hA.descriptores
      have hlen' := hm.mismo.largo
      unfold Ext2.grupo
      rw [List.getD_eq_default _ _ (by omega), List.getD_eq_default _ _ (by omega)]

/-- A free block among the bytes read is found and taken. -/
theorem BuenPedido.de_leido (hA : Agrupado fs) (hC : Cuentas fs)
    (hancho : ∀ g, (fs.grupo g).bgFreeBlocksCount < 2 ^ 16) (hL : LibreEnLoLeido fs) :
    BuenPedido fs (pedirBloqueLibre fs).1 (pedirBloqueLibre fs).2 := by
  obtain ⟨g, hg, j, hj, hbyte, hlibre⟩ := hL
  obtain ⟨hplt, hpbyte, hplibre⟩ := buscarBloqueLibrePorGrupo_cubierto hj (by omega) hlibre
  obtain ⟨hvol, hgde, hpde⟩ := bloque_en hplt
  have hb : buscarBloqueLibre fs = g * fs.sb.sBlocksPerGroup + buscarBloqueLibrePorGrupo fs g
      + fs.sb.sFirstDataBlock := by
    rw [buscarBloqueLibre_en hg, u32_eq (lt_trans hvol.2 hA.bloques)]
  rw [← hb] at hvol hgde hpde
  have hbit : fs.bitBloque (buscarBloqueLibre fs) = false := by
    rw [Ext2.bitBloque, hgde, hpde, hplibre]
  obtain ⟨hm, hC', hs⟩ := hA.utilizarBloqueEnBitmap hC hvol hbit (by rwa [hgde, hpde])
    (hancho _)
  obtain ⟨hcuenta, hotros⟩ := hm.conteos hA hC hC' hvol hbit
  exact ⟨hvol, hbit, hm, hs, hcuenta, hotros⟩

/-- Past the bytes read the search answers `-1`, and the block returned is the
    one before the group, which is not free. -/
theorem no_buenPedido (hA : Agrupado fs) (hC : Cuentas fs) (hp : fs.primerGrupo = some g)
    (hno : ∀ j, j < fs.sb.tamGrupo g → j < 8 * tamArray (tamBlockBitmap fs.sb g) →
      fs.bitGrupo g j = true) :
    ¬ (fs.sb.enVolumen (pedirBloqueLibre fs).2 ∧ fs.bitBloque (pedirBloqueLibre fs).2 = false) := by
  obtain ⟨hreal, hne⟩ := primerGrupo_some hp
  obtain ⟨j, hj, hjlibre⟩ := hC.hay_libre hreal hne
  have hcorto : 8 * tamArray (tamBlockBitmap fs.sb g) ≤ j := by
    by_contra hlt
    rw [hno j hj (by omega)] at hjlibre
    cases hjlibre
  -- every bit read is set
  have hbusca : buscarBloqueLibrePorGrupo fs g = menosUno := by
    have hlen : (leerBlockBitmap fs g).length = tamArray (tamBlockBitmap fs.sb g) :=
      Bytes.length_leer _ _ _
    rw [buscarBloqueLibrePorGrupo, bitarrayBuscarPosicionLibre, List.find?_eq_none.mpr]
    · rfl
    · intro i hi
      have hi' := List.mem_range.mp hi
      rw [hlen] at hi'
      rw [testBit_leerBlockBitmap (by omega), hno i (by omega) (by omega)]
      decide
  have hmenos : menosUno = 2 ^ 32 - 1 := rfl
  have hlt := hA.bloques
  have hfirst := hA.primerBloque
  have htam : g * fs.sb.sBlocksPerGroup < fs.sb.sBlocksCount - fs.sb.sFirstDataBlock := by
    unfold Superblock.tamGrupo at hj
    omega
  have hdev : (pedirBloqueLibre fs).2
      = u32 (g * fs.sb.sBlocksPerGroup + menosUno + fs.sb.sFirstDataBlock) := by
    rw [← hbusca]
    exact buscarBloqueLibre_en hp
  rw [hdev]
  rintro ⟨hvol, hlibre⟩
  rcases Nat.eq_zero_or_pos g with rfl | hg
  · -- the first group: the block is zero or past the volume
    obtain ⟨h1, h2⟩ := hvol
    rw [Nat.zero_mul, Nat.zero_add] at h1 h2
    unfold u32 at h1 h2
    omega
  · -- the last block of the group before, which has none free
    have hpos := hA.posicion hvol
    have hporg := hA.porGrupo
    obtain ⟨q, rfl⟩ : ∃ q, g = q + 1 := ⟨g - 1, by omega⟩
    have hu : u32 ((q + 1) * fs.sb.sBlocksPerGroup + menosUno + fs.sb.sFirstDataBlock)
        = q * fs.sb.sBlocksPerGroup + (fs.sb.sBlocksPerGroup - 1) + fs.sb.sFirstDataBlock := by
      rw [Nat.succ_mul] at htam ⊢
      unfold u32
      omega
    rw [hu] at hvol hlibre hpos
    have hgde : fs.sb.grupoDe (q * fs.sb.sBlocksPerGroup + (fs.sb.sBlocksPerGroup - 1)
        + fs.sb.sFirstDataBlock) = q := by
      rw [Superblock.grupoDe, Nat.add_sub_cancel]
      exact bloque_de (by omega)
    rw [hgde] at hpos
    rw [Ext2.bitBloque, hgde] at hlibre
    exact hC.cuenta_libre (by omega) hpos hlibre (primerGrupo_antes hp (Nat.lt_succ_self q))

/-- **TAKING A BLOCK ON ANY GEOMETRY**: with a block free,
    `Grupos_pedirBloqueLibre` returns a free block and takes it exactly when the
    first group with a free block has one among the bytes read of its bitmap. -/
theorem pedido_correcto_iff (h : Volumen fs) (hC : Cuentas fs) (hl : fs.HayLibre) :
    BuenPedido fs (pedirBloqueLibre fs).1 (pedirBloqueLibre fs).2 ↔ LibreEnLoLeido fs := by
  have hA := h.agrupado hl
  constructor
  · intro hb
    obtain ⟨g, hp⟩ := primerGrupo_hay hA hC hl
    by_contra hno
    refine no_buenPedido hA hC hp (fun j hj hbyte => ?_) ⟨hb.dentro, hb.libre⟩
    by_contra hbit
    exact hno ⟨g, hp, j, hj, hbyte, by simpa using hbit⟩
  · exact BuenPedido.de_leido hA hC h.anchos

end Pedir

/-! ## Two groups of eight blocks -/

/-- A full group of eight blocks and a last one of `cant`, with the first byte
    of its bitmap. -/
def dosGrupos (cant : Nat) (mapa : UInt8) : Ext2 where
  disco := fun o => if o = 4 * 1024 then mapa else if 3 * 1024 ≤ o ∧ o < 5 * 1024 then 0xFF else 0
  sb := ⟨16, 9 + cant, cant, 0, 1, 0, 8, 8⟩
  bgdt := [{ bgBlockBitmap := 3 }, { bgBlockBitmap := 4, bgFreeBlocksCount := cant }]

theorem bitDe_lleno (j : Nat) : bitDe 0xFF j = true := by
  have h := Nat.mod_lt j (show 0 < 8 by decide)
  unfold bitDe
  interval_cases j % 8 <;> decide

section DosGrupos

variable {cant : Nat} {mapa : UInt8}

/-- The first group is full. -/
theorem bitGrupo_dosGrupos_cero {j : Nat} (hj : j < 8192) :
    (dosGrupos cant mapa).bitGrupo 0 j = true := by
  show bitDe (if 3 * 1024 + j / 8 = 4 * 1024 then mapa
    else if 3 * 1024 ≤ 3 * 1024 + j / 8 ∧ 3 * 1024 + j / 8 < 5 * 1024 then 0xFF else 0) j = true
  rw [if_neg (by omega), if_pos (by omega)]
  exact bitDe_lleno j

/-- The second one has the bits of its byte. -/
theorem bitGrupo_dosGrupos_uno {j : Nat} (hj : j < 8192) :
    (dosGrupos cant mapa).bitGrupo 1 j = if j < 8 then bitDe mapa j else true := by
  show bitDe (if 4 * 1024 + j / 8 = 4 * 1024 then mapa
    else if 3 * 1024 ≤ 4 * 1024 + j / 8 ∧ 4 * 1024 + j / 8 < 5 * 1024 then 0xFF else 0) j = _
  by_cases h8 : j < 8
  · rw [if_pos (by omega), if_pos h8]
  · rw [if_neg (by omega), if_pos (by omega), if_neg h8]
    exact bitDe_lleno j

theorem grupo_dosGrupos {g : Nat} (h : 0 < (dosGrupos cant mapa).sb.tamGrupo g) (hc : cant < 8) :
    g = 0 ∨ g = 1 := by
  have h' : 0 < min 8 (9 + cant - 1 - g * 8) := h
  omega

theorem cantGrupos_dosGrupos (hc : 0 < cant ∧ cant < 8) :
    (dosGrupos cant mapa).sb.cantGrupos = 2 := by
  show u32 (1 + resta32 (9 + cant) 1 / 8) = 2
  unfold resta32 u32
  omega

/-- The two groups are a volume. -/
theorem volumen_dosGrupos (hc : 0 < cant ∧ cant < 8)
    (hmapa : ∀ j, cant ≤ j → j < 8 → bitDe mapa j = true) : Volumen (dosGrupos cant mapa) := by
  refine ⟨show 9 + cant < 2 ^ 32 by omega, .inr rfl,
    ⟨(show 0 < 8 by decide), (show 8 ∣ 8 from Nat.dvd_refl 8)⟩, (show 8 ≤ 8 * 1024 by decide),
    (cantGrupos_dosGrupos hc).symm, ?_, ?_, ?_⟩
  · intro g g' hg hg' heq
    rcases grupo_dosGrupos hg hc.2 with rfl | rfl <;>
    rcases grupo_dosGrupos hg' hc.2 with rfl | rfl
    · rfl
    · cases heq
    · cases heq
    · rfl
  · intro g j hg hj hlt
    have hlt' : j < 8192 := hlt
    rcases grupo_dosGrupos hg hc.2 with rfl | rfl
    · exact bitGrupo_dosGrupos_cero hlt'
    · have htam : min 8 (9 + cant - 1 - 1 * 8) ≤ j := hj
      rw [bitGrupo_dosGrupos_uno hlt']
      by_cases h8 : j < 8
      · rw [if_pos h8]
        exact hmapa j (by omega) h8
      · rw [if_neg h8]
  · intro g
    match g with
    | 0 => exact (show 0 < 2 ^ 16 by decide)
    | 1 => exact (show cant < 2 ^ 16 by omega)
    | _ + 2 => exact (show 0 < 2 ^ 16 by decide)

end DosGrupos

/-- Its counters are right. -/
theorem cuentas_dosGrupos {cant : Nat} {mapa : UInt8}
    (h : cant = 2 ∧ mapa = 0xFC ∨ cant = 7 ∧ mapa = 0x80) : Cuentas (dosGrupos cant mapa) := by
  constructor
  · intro g hg
    rw [cantGrupos_dosGrupos (by omega)] at hg
    rcases h with ⟨rfl, rfl⟩ | ⟨rfl, rfl⟩
    · interval_cases g <;> decide
    · interval_cases g <;> decide
  · rcases h with ⟨rfl, rfl⟩ | ⟨rfl, rfl⟩
    · decide
    · decide

/-- Seven free blocks in the last group: two bytes are read of its bitmap, and
    a block is taken. -/
theorem pedido_correcto_siete : BuenPedido (dosGrupos 7 0x80)
    (pedirBloqueLibre (dosGrupos 7 0x80)).1 (pedirBloqueLibre (dosGrupos 7 0x80)).2 :=
  (pedido_correcto_iff (volumen_dosGrupos (by decide) (by decide))
    (cuentas_dosGrupos (by decide)) ⟨9, ⟨by decide, by decide⟩, by decide⟩).mpr
    ⟨1, by decide, 0, by decide, by decide, by decide⟩

/-- Two free blocks in the last group: no byte is read, and block 8 of the full
    group is taken again. -/
theorem pedido_correcto_falla : Volumen (dosGrupos 2 0xFC) ∧ Cuentas (dosGrupos 2 0xFC)
    ∧ (dosGrupos 2 0xFC).HayLibre ∧ (pedirBloqueLibre (dosGrupos 2 0xFC)).2 = 8
    ∧ (dosGrupos 2 0xFC).bitBloque 8 = true
    ∧ ¬ BuenPedido (dosGrupos 2 0xFC) (pedirBloqueLibre (dosGrupos 2 0xFC)).1
      (pedirBloqueLibre (dosGrupos 2 0xFC)).2 := by
  refine ⟨volumen_dosGrupos (by decide) (by decide), cuentas_dosGrupos (by decide),
    ⟨9, ⟨by decide, by decide⟩, by decide⟩, by decide, by decide, ?_⟩
  intro h
  have hlibre := h.libre
  revert hlibre
  decide

end Rfs
