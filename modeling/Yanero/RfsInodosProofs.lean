import Yanero.RfsTablaProofs
import Yanero.RfsPedirProofs
import Yanero.RfsPedidos

/-! # Taking an inode

    `Inode_pedirInodoLibre` on a volume whose inode counters count the clear
    bits.  While an inode is free the first one is found, from the first group
    with a counter that is not zero, and taking it changes one bit of the image
    and two counters.  When none is free the answer `-1` of the search goes
    into `Grupos_utilizarInodoEnBitmap` all the same, which counts it. -/

namespace Rfs

/-- The inodes a group has. -/
def Superblock.tamInodos (sb : Superblock) (g : Nat) : Nat :=
  min sb.sInodesPerGroup (sb.sInodesCount - g * sb.sInodesPerGroup)

/-- Bit `j` of the inode bitmap of a group. -/
def Ext2.bitInodoGrupo (fs : Ext2) (g j : Nat) : Bool :=
  bitDe (fs.disco ((fs.grupo g).bgInodeBitmap * fs.sb.blockSize + j / 8)) j

/-- The inode bitmaps and the two counters agree: whole bytes of inodes in
    each group, the padding of every bitmap set, and the counters at the
    number of clear bits. -/
structure Inodos (fs : Ext2) : Prop where
  numeros : fs.sb.sInodesCount < menosUno
  porGrupo : 0 < fs.sb.sInodesPerGroup ∧ 8 ∣ fs.sb.sInodesPerGroup
  cabe : fs.sb.sInodesPerGroup ≤ 8 * fs.sb.blockSize
  alcanza : fs.sb.sInodesCount ≤ fs.sb.cantGrupos * fs.sb.sInodesPerGroup
  descriptores : fs.bgdt.length = fs.sb.cantGrupos
  bitmapsDistintos : ∀ g g', 0 < fs.sb.tamInodos g → 0 < fs.sb.tamInodos g' →
    (fs.grupo g).bgInodeBitmap = (fs.grupo g').bgInodeBitmap → g = g'
  relleno : ∀ g j, 0 < fs.sb.tamInodos g → fs.sb.tamInodos g ≤ j → j < 8 * fs.sb.blockSize →
    fs.bitInodoGrupo g j = true
  grupos : ∀ g, g < fs.sb.cantGrupos → (fs.grupo g).bgFreeInodesCount
    = ((Finset.range (fs.sb.tamInodos g)).filter fun j => fs.bitInodoGrupo g j = false).card
  total : fs.sb.sFreeInodesCount
    = ∑ g ∈ Finset.range fs.sb.cantGrupos, (fs.grupo g).bgFreeInodesCount
  anchos : ∀ g, (fs.grupo g).bgFreeInodesCount < 2 ^ 16

/-- An inode of the volume is free. -/
def Ext2.HayInodoLibre (fs : Ext2) : Prop := ∃ x, fs.sb.esInodo x ∧ fs.bitInodo x = false

/-- The group of an inode. -/
def Superblock.grupoDeInodo (sb : Superblock) (x : Nat) : Nat := (x - 1) / sb.sInodesPerGroup

/-- The place of an inode in its group. -/
def Superblock.posDeInodo (sb : Superblock) (x : Nat) : Nat := (x - 1) % sb.sInodesPerGroup

/-- The byte of the image that holds the bit of an inode. -/
def Ext2.byteInodo (fs : Ext2) (x : Nat) : Nat :=
  (fs.grupo (fs.sb.grupoDeInodo x)).bgInodeBitmap * fs.sb.blockSize + fs.sb.posDeInodo x / 8

/-- A free inode of the volume is taken: its bit is set, every other bit of
    the image stays, and the two counters lose one. -/
structure BuenInodo (fs fs' : Ext2) (x : Nat) : Prop where
  dentro : fs.sb.esInodo x
  libre : fs.bitInodo x = false
  bits : ∀ o i, bitDe (fs'.disco o) i
    = if o = fs.byteInodo x ∧ i % 8 = fs.sb.posDeInodo x % 8 then true else bitDe (fs.disco o) i
  bitInodo : ∀ y, fs.sb.esInodo y → fs'.bitInodo y = if y = x then true else fs.bitInodo y
  sb : fs'.sb = { fs.sb with sFreeInodesCount := fs'.sb.sFreeInodesCount }
  sFreeInodesCount : fs'.sb.sFreeInodesCount + 1 = fs.sb.sFreeInodesCount
  grupo : fs'.grupo (fs.sb.grupoDeInodo x) = { fs.grupo (fs.sb.grupoDeInodo x) with
    bgFreeInodesCount := (fs'.grupo (fs.sb.grupoDeInodo x)).bgFreeInodesCount }
  bgFreeInodesCount : (fs'.grupo (fs.sb.grupoDeInodo x)).bgFreeInodesCount + 1
    = (fs.grupo (fs.sb.grupoDeInodo x)).bgFreeInodesCount
  otros : ∀ g, g ≠ fs.sb.grupoDeInodo x → fs'.grupo g = fs.grupo g

/-- Every bitmap and every counter as before. -/
structure SinTomar (fs fs' : Ext2) : Prop where
  sb : fs'.sb = fs.sb
  grupo : ∀ g, fs'.grupo g = fs.grupo g
  bitInodo : ∀ x, fs'.bitInodo x = fs.bitInodo x
  bitBloque : ∀ b, fs'.bitBloque b = fs.bitBloque b

/-- What taking an inode is for: a free inode, or `-1` with nothing changed
    and `-ENOSPC` for whoever wants to create. -/
def TomaInodo (fs : Ext2) : Prop :=
  BuenInodo fs (pedirInodoLibre fs).1 (pedirInodoLibre fs).2
    ∨ ¬ fs.HayInodoLibre ∧ (pedirInodoLibre fs).2 = menosUno
      ∧ SinTomar fs (pedirInodoLibre fs).1
      ∧ ∀ path, 47 ∈ path → procesarCreate fs path = some (fs, .result (-enospc))
        ∧ procesarMkdir fs path = some (fs, .result (-enospc))

section Inodos

variable {fs : Ext2} {x g j : Nat}

theorem bitInodo_eq (fs : Ext2) (x : Nat) :
    fs.bitInodo x = fs.bitInodoGrupo (fs.sb.grupoDeInodo x) (fs.sb.posDeInodo x) := rfl

/-- Where an inode of the volume stands in its group. -/
theorem Inodos.posicion (h : Inodos fs) (hx : fs.sb.esInodo x) :
    fs.sb.posDeInodo x < fs.sb.tamInodos (fs.sb.grupoDeInodo x)
      ∧ fs.sb.grupoDeInodo x < fs.sb.cantGrupos := by
  have hpos := h.porGrupo.1
  have hdm := Nat.div_add_mod (x - 1) fs.sb.sInodesPerGroup
  have hmod := Nat.mod_lt (x - 1) hpos
  have h1 := hx.1
  have h2 := hx.2
  rw [Nat.mul_comm] at hdm
  constructor
  · unfold Superblock.tamInodos Superblock.posDeInodo Superblock.grupoDeInodo
    omega
  · exact (Nat.div_lt_iff_lt_mul hpos).mpr (by have := h.alcanza; omega)

/-- An inode of the volume from its group and its place. -/
theorem inodo_en (hj : j < fs.sb.tamInodos g) :
    fs.sb.esInodo (g * fs.sb.sInodesPerGroup + 1 + j)
      ∧ fs.sb.grupoDeInodo (g * fs.sb.sInodesPerGroup + 1 + j) = g
      ∧ fs.sb.posDeInodo (g * fs.sb.sInodesPerGroup + 1 + j) = j := by
  have hlt : j < fs.sb.sInodesPerGroup := lt_of_lt_of_le hj (Nat.min_le_left _ _)
  have hv : j < fs.sb.sInodesCount - g * fs.sb.sInodesPerGroup :=
    lt_of_lt_of_le hj (Nat.min_le_right _ _)
  have hn : g * fs.sb.sInodesPerGroup + 1 + j - 1 = g * fs.sb.sInodesPerGroup + j := by omega
  refine ⟨⟨by omega, by omega⟩, ?_, ?_⟩
  · rw [Superblock.grupoDeInodo, hn]
    exact bloque_de hlt
  · rw [Superblock.posDeInodo, hn, Nat.mul_comm, Nat.mul_add_mod, Nat.mod_eq_of_lt hlt]

theorem inodo_inj {y : Nat} (hx : fs.sb.esInodo x) (hy : fs.sb.esInodo y) :
    (fs.sb.grupoDeInodo y = fs.sb.grupoDeInodo x ∧ fs.sb.posDeInodo y = fs.sb.posDeInodo x)
      ↔ y = x := by
  constructor
  · rintro ⟨h1, h2⟩
    unfold Superblock.grupoDeInodo at h1
    unfold Superblock.posDeInodo at h2
    have hy' := Nat.div_add_mod (y - 1) fs.sb.sInodesPerGroup
    have hx' := Nat.div_add_mod (x - 1) fs.sb.sInodesPerGroup
    rw [h1, h2] at hy'
    have := hx.1
    have := hy.1
    omega
  · rintro rfl
    exact ⟨rfl, rfl⟩

/-- The byte of a bit of a group is one of those read. -/
theorem Inodos.byte_lt (h : Inodos fs) (hj : j < fs.sb.tamInodos g) :
    j / 8 < tamArray fs.sb.sInodesPerGroup := by
  have hlt : j < fs.sb.sInodesPerGroup := lt_of_lt_of_le hj (Nat.min_le_left _ _)
  obtain ⟨c, hc⟩ := h.porGrupo.2
  unfold tamArray
  split <;> omega

/-- A bit of the array read for a group is the bit of the image. -/
theorem testBit_leerInodeBitmap (hbyte : j / 8 < tamArray fs.sb.sInodesPerGroup) :
    bitarrayTestBit (leerInodeBitmap fs g) j = fs.bitInodoGrupo g j := by
  have hget : (leerInodeBitmap fs g).getD (j / 8) 0
      = fs.disco ((fs.grupo g).bgInodeBitmap * fs.sb.blockSize + j / 8) := by
    simp [leerInodeBitmap, Bytes.leer, List.getD_eq_getElem?_getD, hbyte]
  rw [bitarrayTestBit_eq, hget]
  rfl

/-- The first clear bit of a group that has one is an inode's. -/
theorem Inodos.buscarInodoPorGrupo (h : Inodos fs) (hj : j < fs.sb.tamInodos g)
    (hlibre : fs.bitInodoGrupo g j = false) :
    Rfs.buscarInodoPorGrupo fs g < fs.sb.tamInodos g
      ∧ fs.bitInodoGrupo g (Rfs.buscarInodoPorGrupo fs g) = false := by
  have hbyte := h.byte_lt hj
  have hlen : (leerInodeBitmap fs g).length = tamArray fs.sb.sInodesPerGroup :=
    Bytes.length_leer _ _ _
  have hin : j < (leerInodeBitmap fs g).length * 8 := by
    rw [hlen]
    omega
  obtain ⟨pos, hpos, hle, hp⟩ := buscarPosicionLibre_primera hin
    ((testBit_leerInodeBitmap hbyte).trans hlibre)
  have hplt : pos < fs.sb.tamInodos g := by omega
  rw [Rfs.buscarInodoPorGrupo, hpos]
  exact ⟨hplt, (testBit_leerInodeBitmap (h.byte_lt hplt)).symm.trans hp⟩

/-- A clear bit of a group is counted. -/
theorem Inodos.cuenta_libre (h : Inodos fs) (hg : g < fs.sb.cantGrupos)
    (hj : j < fs.sb.tamInodos g) (hlibre : fs.bitInodoGrupo g j = false) :
    (fs.grupo g).bgFreeInodesCount ≠ 0 := by
  rw [h.grupos g hg, Finset.card_ne_zero]
  exact ⟨j, Finset.mem_filter.mpr ⟨Finset.mem_range.mpr hj, hlibre⟩⟩

/-- A counter that is not zero stands for a free inode. -/
theorem Inodos.hay_libre (h : Inodos fs) (hg : g < fs.sb.cantGrupos)
    (hne : (fs.grupo g).bgFreeInodesCount ≠ 0) :
    ∃ j, j < fs.sb.tamInodos g ∧ fs.bitInodoGrupo g j = false := by
  rw [h.grupos g hg, Finset.card_ne_zero] at hne
  obtain ⟨j, hj⟩ := hne
  obtain ⟨hjmem, hjbit⟩ := Finset.mem_filter.mp hj
  exact ⟨j, Finset.mem_range.mp hjmem, hjbit⟩

/-- With an inode free, `Inode_buscarLibre` finds one. -/
theorem Inodos.buscarInodo (h : Inodos fs) (hl : fs.HayInodoLibre) :
    fs.sb.esInodo (Rfs.buscarInodo fs) ∧ fs.bitInodo (Rfs.buscarInodo fs) = false := by
  obtain ⟨y, hy, hylibre⟩ := hl
  obtain ⟨hpos, hreal⟩ := h.posicion hy
  obtain ⟨g, hf⟩ : ∃ g, (List.range fs.sb.cantGrupos).find?
      (fun g => (fs.grupo g).bgFreeInodesCount != 0) = some g := by
    refine Option.isSome_iff_exists.mp (List.find?_isSome.mpr ⟨_, List.mem_range.mpr hreal, ?_⟩)
    simpa using h.cuenta_libre hreal hpos hylibre
  have hg : g < fs.sb.cantGrupos := List.mem_range.mp (List.mem_of_find?_eq_some hf)
  have hne : (fs.grupo g).bgFreeInodesCount ≠ 0 := by simpa using List.find?_some hf
  obtain ⟨j, hj, hjlibre⟩ := h.hay_libre hg hne
  obtain ⟨hplt, hplibre⟩ := h.buscarInodoPorGrupo hj hjlibre
  obtain ⟨hes, hgde, hpde⟩ := inodo_en hplt
  have heq : Rfs.buscarInodo fs = g * fs.sb.sInodesPerGroup + 1 + Rfs.buscarInodoPorGrupo fs g := by
    unfold Rfs.buscarInodo
    rw [hf, Option.elim_some, u32_eq]
    exact lt_of_le_of_lt hes.2 (lt_trans h.numeros (by decide))
  rw [heq]
  exact ⟨hes, by rw [bitInodo_eq, hgde, hpde, hplibre]⟩

/-- The counter of the volume stays within its inodes. -/
theorem Inodos.total_lt (h : Inodos fs) : fs.sb.sFreeInodesCount < menosUno := by
  refine lt_of_le_of_lt ?_ h.numeros
  rw [h.total]
  calc ∑ g ∈ Finset.range fs.sb.cantGrupos, (fs.grupo g).bgFreeInodesCount
      ≤ ∑ g ∈ Finset.range fs.sb.cantGrupos, fs.sb.tamInodos g := by
        refine Finset.sum_le_sum fun g hg => ?_
        rw [h.grupos g (Finset.mem_range.mp hg)]
        exact le_trans (Finset.card_filter_le _ _) (by rw [Finset.card_range])
    _ ≤ fs.sb.sInodesCount :=
        le_trans (le_of_eq (suma_grupos _ _ _)) (Nat.min_le_right _ _)

theorem grupo_contarInodo {d32 d16 : Nat} (hg : g < fs.bgdt.length) (g' : Nat) :
    (contarInodo fs g d32 d16).grupo g'
      = if g' = g then
          { fs.grupo g' with bgFreeInodesCount := u16 ((fs.grupo g').bgFreeInodesCount + d16) }
        else fs.grupo g' := grupo_conGrupo hg g'

theorem Inodos.byte_en_bloque (h : Inodos fs) (hx : fs.sb.esInodo x) :
    fs.sb.posDeInodo x / 8 < fs.sb.blockSize := by
  have h1 : fs.sb.posDeInodo x < fs.sb.sInodesPerGroup :=
    lt_of_lt_of_le (h.posicion hx).1 (Nat.min_le_left _ _)
  have h2 := h.cabe
  omega

/-- Two inodes share their bit only when they are one. -/
theorem Inodos.mismo_byte (h : Inodos fs) {y : Nat} (hx : fs.sb.esInodo x)
    (hy : fs.sb.esInodo y) :
    (fs.byteInodo y = fs.byteInodo x ∧ fs.sb.posDeInodo y % 8 = fs.sb.posDeInodo x % 8)
      ↔ y = x := by
  constructor
  · rintro ⟨hbyte, hbit⟩
    unfold Ext2.byteInodo at hbyte
    have hmapa : (fs.grupo (fs.sb.grupoDeInodo y)).bgInodeBitmap
        = (fs.grupo (fs.sb.grupoDeInodo x)).bgInodeBitmap := by
      rw [← @bloque_de (fs.grupo (fs.sb.grupoDeInodo y)).bgInodeBitmap _ _ (h.byte_en_bloque hy),
        hbyte, bloque_de (h.byte_en_bloque hx)]
    have hgrupo := h.bitmapsDistintos _ _ (lt_of_le_of_lt (Nat.zero_le _) (h.posicion hy).1)
      (lt_of_le_of_lt (Nat.zero_le _) (h.posicion hx).1) hmapa
    rw [hmapa] at hbyte
    exact (inodo_inj hx hy).mp ⟨hgrupo, (mismo_bit (Nat.add_left_cancel hbyte)).mp hbit⟩
  · rintro rfl
    exact ⟨rfl, rfl⟩

/-- The bit of an inode is where it was when the tables stay. -/
theorem bitInodo_tras {fs' : Ext2} {n : Nat} (hsb : fs'.sb = { fs.sb with sFreeInodesCount := n })
    (hmapa : ∀ g, (fs'.grupo g).bgInodeBitmap = (fs.grupo g).bgInodeBitmap) (y : Nat) :
    fs'.bitInodo y = bitDe (fs'.disco (fs.byteInodo y)) (fs.sb.posDeInodo y) := by
  unfold Ext2.bitInodo
  rw [hmapa, hsb]
  rfl

/-- `Grupos_utilizarInodoEnBitmap` on a free inode of the volume. -/
theorem Inodos.utilizarInodoEnBitmap (h : Inodos fs) (hx : fs.sb.esInodo x)
    (hlibre : fs.bitInodo x = false) : BuenInodo fs (Rfs.utilizarInodoEnBitmap fs x) x := by
  obtain ⟨hpos, hreal⟩ := h.posicion hx
  have hbyte := h.byte_lt hpos
  have hlen : fs.sb.grupoDeInodo x < fs.bgdt.length := h.descriptores ▸ hreal
  have hmenos : menosUno = 2 ^ 32 - 1 := rfl
  have hres : resta32 x 1 = x - 1 :=
    resta32_eq (lt_of_le_of_lt hx.2 (lt_trans h.numeros (by decide))) hx.1
  have heq : Rfs.utilizarInodoEnBitmap fs x = contarInodo
      (escribirInodeBitmap fs (fs.sb.grupoDeInodo x)
        (bitarraySetBit (leerInodeBitmap fs (fs.sb.grupoDeInodo x)) (fs.sb.posDeInodo x)))
      (fs.sb.grupoDeInodo x) menosUno (2 ^ 16 - 1) := by
    simp only [Rfs.utilizarInodoEnBitmap, hres, mod_eq_sub]
    rfl
  have hne := h.cuenta_libre hreal hpos hlibre
  have hancho := h.anchos (fs.sb.grupoDeInodo x)
  have hsuma : (fs.grupo (fs.sb.grupoDeInodo x)).bgFreeInodesCount ≤ fs.sb.sFreeInodesCount := by
    rw [h.total]
    exact Finset.single_le_sum (f := fun i => (fs.grupo i).bgFreeInodesCount)
      (fun _ _ => Nat.zero_le _) (Finset.mem_range.mpr hreal)
  have htotal := h.total_lt
  have hgr := @grupo_contarInodo (escribirInodeBitmap fs (fs.sb.grupoDeInodo x)
    (bitarraySetBit (leerInodeBitmap fs (fs.sb.grupoDeInodo x)) (fs.sb.posDeInodo x)))
    (fs.sb.grupoDeInodo x) menosUno (2 ^ 16 - 1) hlen
  have hdisco : ∀ o, (Rfs.utilizarInodoEnBitmap fs x).disco o
      = if o = fs.byteInodo x then fs.disco o ||| bitInChar (fs.sb.posDeInodo x)
        else fs.disco o := by
    intro o
    rw [heq]
    exact congrFun (Bytes.escribir_modify _ _ _ hbyte) o
  have hbits : ∀ o i, bitDe ((Rfs.utilizarInodoEnBitmap fs x).disco o) i
      = if o = fs.byteInodo x ∧ i % 8 = fs.sb.posDeInodo x % 8 then true
        else bitDe (fs.disco o) i := by
    intro o i
    rw [hdisco o]
    by_cases ho : o = fs.byteInodo x
    · rw [if_pos ho, bitDe_or]
      simp only [ho, true_and]
    · rw [if_neg ho, if_neg fun hc => ho hc.1]
  rw [← heq] at hgr
  have hsb : (Rfs.utilizarInodoEnBitmap fs x).sb = { fs.sb with
      sFreeInodesCount := u32 (fs.sb.sFreeInodesCount + menosUno) } := by
    rw [heq]
    rfl
  refine ⟨hx, hlibre, hbits, ?_, ?_, ?_, ?_, ?_, ?_⟩
  · intro y hy
    have hbit := bitInodo_tras hsb (fun g => by rw [hgr]; split <;> rfl) y
    rw [hbit, hbits]
    simp only [h.mismo_byte hx hy]
    rfl
  · rw [hsb]
  · rw [hsb]
    show u32 (fs.sb.sFreeInodesCount + menosUno) + 1 = fs.sb.sFreeInodesCount
    unfold u32
    omega
  · rw [hgr, if_pos rfl]
    rfl
  · rw [hgr, if_pos rfl]
    show u16 ((fs.grupo (fs.sb.grupoDeInodo x)).bgFreeInodesCount + (2 ^ 16 - 1)) + 1 = _
    unfold u16
    omega
  · intro g hg
    rw [hgr, if_neg hg]
    rfl

/-- With no inode free every counter is zero, and the search answers `-1`. -/
theorem Inodos.sin_libre (h : Inodos fs) (hno : ¬ fs.HayInodoLibre) :
    fs.sb.sFreeInodesCount = 0 ∧ Rfs.buscarInodo fs = menosUno := by
  have hcero : ∀ g, g < fs.sb.cantGrupos → (fs.grupo g).bgFreeInodesCount = 0 := by
    intro g hg
    by_contra hne
    obtain ⟨j, hj, hjlibre⟩ := h.hay_libre hg hne
    obtain ⟨hes, hgde, hpde⟩ := inodo_en hj
    exact hno ⟨_, hes, by rw [bitInodo_eq, hgde, hpde, hjlibre]⟩
  constructor
  · rw [h.total]
    exact Finset.sum_eq_zero fun g hg => hcero g (Finset.mem_range.mp hg)
  · unfold Rfs.buscarInodo
    rw [List.find?_eq_none.mpr]
    · rfl
    · intro g hg
      simp [hcero g (List.mem_range.mp hg)]

/-- The counter is taken below zero when no inode is free. -/
theorem Inodos.desborda (h : Inodos fs) (hno : ¬ fs.HayInodoLibre) :
    (pedirInodoLibre fs).1.sb.sFreeInodesCount = menosUno := by
  show u32 (fs.sb.sFreeInodesCount + menosUno) = menosUno
  rw [(h.sin_libre hno).1]
  rfl

/-- **TAKING AN INODE**: `Inode_pedirInodoLibre` does what it is for exactly
    while some inode is free. -/
theorem toma_inodo_iff (h : Inodos fs) : TomaInodo fs ↔ fs.HayInodoLibre := by
  constructor
  · intro ht
    by_contra hno
    rcases ht with hb | ⟨-, -, hsin, -⟩
    · exact hno ⟨_, hb.dentro, hb.libre⟩
    · have hcero := (h.sin_libre hno).1
      have hfin := h.desborda hno
      rw [hsin.sb, hcero] at hfin
      exact absurd hfin (by decide)
  · intro hl
    obtain ⟨hes, hlibre⟩ := h.buscarInodo hl
    exact .inl (h.utilizarInodoEnBitmap hes hlibre)

end Inodos

/-! ## Eight inodes -/

/-- One group of eight inodes, with the first byte of its inode bitmap. -/
def ochoInodos (libres : Nat) (mapa : UInt8) : Ext2 where
  disco := fun o => if o = 4 * 1024 then mapa else if 3 * 1024 ≤ o ∧ o < 5 * 1024 then 0xFF else 0
  sb := ⟨8, 8, 0, libres, 1, 0, 8192, 8⟩
  bgdt := [⟨3, 4, 5, 0, libres, 0⟩]

theorem bitInodoGrupo_ochoInodos {libres : Nat} {mapa : UInt8} {j : Nat} (hj : j < 8192) :
    (ochoInodos libres mapa).bitInodoGrupo 0 j = if j < 8 then bitDe mapa j else true := by
  show bitDe (if 4 * 1024 + j / 8 = 4 * 1024 then mapa
    else if 3 * 1024 ≤ 4 * 1024 + j / 8 ∧ 4 * 1024 + j / 8 < 5 * 1024 then 0xFF else 0) j = _
  by_cases h8 : j < 8
  · rw [if_pos (by omega), if_pos h8]
  · rw [if_neg (by omega), if_pos (by omega), if_neg h8]
    exact bitDe_lleno j

/-- An image of one group. -/
theorem inodos_unGrupo {fs : Ext2} (hnum : fs.sb.sInodesCount < menosUno)
    (hpor : 0 < fs.sb.sInodesPerGroup ∧ 8 ∣ fs.sb.sInodesPerGroup
      ∧ fs.sb.sInodesPerGroup ≤ 8 * fs.sb.blockSize)
    (huno : fs.sb.sInodesCount ≤ fs.sb.sInodesPerGroup)
    (hcant : fs.sb.cantGrupos = 1 ∧ fs.bgdt.length = 1)
    (hrelleno : ∀ j, fs.sb.tamInodos 0 ≤ j → j < 8 * fs.sb.blockSize → fs.bitInodoGrupo 0 j = true)
    (hcuenta : (fs.grupo 0).bgFreeInodesCount
      = ((Finset.range (fs.sb.tamInodos 0)).filter fun j => fs.bitInodoGrupo 0 j = false).card)
    (htotal : fs.sb.sFreeInodesCount = (fs.grupo 0).bgFreeInodesCount)
    (hancho : (fs.grupo 0).bgFreeInodesCount < 2 ^ 16) : Inodos fs := by
  have hgrupo : ∀ g, 0 < fs.sb.tamInodos g → g = 0 := by
    intro g hg
    by_contra hne
    have hg' := Nat.lt_of_lt_of_le hg (Nat.min_le_right _ _)
    have := Nat.le_mul_of_pos_left fs.sb.sInodesPerGroup (Nat.pos_of_ne_zero hne)
    omega
  refine ⟨hnum, ⟨hpor.1, hpor.2.1⟩, hpor.2.2, ?_, hcant.2.trans hcant.1.symm, ?_, ?_, ?_, ?_, ?_⟩
  · rw [hcant.1, Nat.one_mul]
    exact huno
  · intro g g' hg hg' _
    rw [hgrupo g hg, hgrupo g' hg']
  · intro g j hg hj hlt
    obtain rfl := hgrupo g hg
    exact hrelleno j hj hlt
  · intro g hg
    rw [hcant.1] at hg
    obtain rfl : g = 0 := by omega
    exact hcuenta
  · rw [hcant.1, Finset.sum_range_one, htotal]
  · intro g
    cases g with
    | zero => exact hancho
    | succ g =>
        have hlejos : fs.bgdt.length ≤ g + 1 := by
          rw [hcant.2]
          exact Nat.le_add_left 1 g
        rw [Ext2.grupo, List.getD_eq_default _ _ hlejos]
        exact show 0 < 2 ^ 16 by decide

theorem inodos_ochoInodos {libres : Nat} {mapa : UInt8} (hl : libres < 2 ^ 16)
    (hc : libres = ((Finset.range 8).filter fun j => bitDe mapa j = false).card) :
    Inodos (ochoInodos libres mapa) := by
  have hcant : (ochoInodos libres mapa).sb.cantGrupos = 1 := by
    show u32 (1 + resta32 8 1 / 8192) = 1
    decide
  refine inodos_unGrupo (by decide : 8 < menosUno)
    ⟨(by decide : 0 < 8), (Nat.dvd_refl 8 : 8 ∣ 8), (by decide : 8 ≤ 8 * 1024)⟩ (Nat.le_refl 8)
    ⟨hcant, rfl⟩ (fun j hj hlt => ?_) ?_ rfl hl
  · have hj' : 8 ≤ j := hj
    rw [bitInodoGrupo_ochoInodos hlt, if_neg (by omega)]
  · refine hc.trans (congrArg Finset.card (Finset.filter_congr fun j hj => ?_))
    have hj8 := Finset.mem_range.mp hj
    rw [bitInodoGrupo_ochoInodos (by omega), if_pos hj8]

/-- One inode is left: it is taken. -/
theorem toma_inodo_uno : TomaInodo (ochoInodos 1 0x7F) :=
  (toma_inodo_iff (inodos_ochoInodos (by decide) (by decide))).mpr
    ⟨8, ⟨by decide, by decide⟩, by decide⟩

/-- None is left: a CREATE answers `-ENOSPC` and the counter of free inodes
    goes from zero to `2 ^ 32 - 1`. -/
theorem toma_inodo_falla : Inodos (ochoInodos 0 0xFF) ∧ ¬ (ochoInodos 0 0xFF).HayInodoLibre
    ∧ (procesarCreate (ochoInodos 0 0xFF) [47, 97]).map (fun r =>
      (r.1.sb.sFreeInodesCount, r.2)) = some (2 ^ 32 - 1, .result (-enospc))
    ∧ ¬ TomaInodo (ochoInodos 0 0xFF) := by
  have hI : Inodos (ochoInodos 0 0xFF) := inodos_ochoInodos (by decide) (by decide)
  have hno : ¬ (ochoInodos 0 0xFF).HayInodoLibre := by
    rintro ⟨x, ⟨h1, h8⟩, hlibre⟩
    have h8' : x ≤ 8 := h8
    have hbit : (ochoInodos 0 0xFF).bitInodoGrupo 0 (x - 1) = false := by
      rw [bitInodo_eq] at hlibre
      have hg : (ochoInodos 0 0xFF).sb.grupoDeInodo x = 0 :=
        Nat.div_eq_of_lt (show x - 1 < 8 by omega)
      have hp : (ochoInodos 0 0xFF).sb.posDeInodo x = x - 1 :=
        Nat.mod_eq_of_lt (show x - 1 < 8 by omega)
      rwa [hg, hp] at hlibre
    rw [bitInodoGrupo_ochoInodos (by omega), if_pos (by omega), bitDe_lleno] at hbit
    cases hbit
  refine ⟨hI, hno, by decide, ?_⟩
  rintro (hb | ⟨-, -, hsin, -⟩)
  · exact hno ⟨_, hb.dentro, hb.libre⟩
  · have hfin := hI.desborda hno
    rw [hsin.sb] at hfin
    exact absurd hfin (by decide)

end Rfs
