import Yanero.RfsCrearProofs

/-! # An entry leaves a directory

    `Dir_borrarEntrada` looks for the first record with the inode.  At the start
    of a block the record is marked as deleted, anywhere else the one before it
    takes its bytes; both write the first bytes of one record
    (`EnMano.retocar`).  The second adds two lengths in 16 bits, which wraps
    when the two records fill 64 KiB or more. -/

namespace Rfs

open Arboles Cadenas Palabras Tramos

section Borrar

variable {fijo : Nat → Prop} {fs fs' : Ext2} {x y n i o a : Nat} {inodo : Inode}
  {dir ant nueva : Dir} {ds pre post : List Dir} {dss : Nat → List Dir}

/-! ## The first bytes of a record -/

variable (nueva) in
/-- **A RECORD TOUCHED**: its name stays and another length leads to other
    records, as long as they were there. -/
theorem EnMano.retocar (h : EnMano fijo fs x inodo n) (hn : EnRango fs.sb n)
    (hd : Directorio fs inodo n dss) (hi : i < n)
    (hl : EnLugar fs inodo i a pre dir post (dss i)) (hlen : nueva.dNameLen = dir.dNameLen)
    (hnom : nueva.dName = dir.dName) (hc : nueva.Cabe) (hb : nueva.Bien) {resto : List Dir}
    (hresto : Tramo formatoDir (byteDe fs inodo) (i * fs.sb.blockSize + a + nueva.dRecLen)
      ((i + 1) * fs.sb.blockSize) resto)
    (hfs : escribirDir fs (leerBloque fs i inodo) a nueva.etiqueta = fs') :
    SoloHojas fs inodo n fs'
      ∧ Directorio fs' inodo n (Function.update dss i (pre ++ nueva :: resto)) := by
  have hleidos := hl.desde.cons.2.1.leidos
  have hfin := hl.desde.cons.2.2.le
  have hlargo : formatoDir.largo dir = dir.dRecLen := rfl
  have hcab : (serializarDir nueva.etiqueta).length = offName := by
    rw [serializarDir_etiqueta, Dir.length_cabecera]
  have hpos : 0 < offName := by decide
  rw [Nat.succ_mul, hlargo] at hfin
  have hp := h.ponerDir hn hi (o := a) nueva.etiqueta (by omega) (by omega)
  rw [hfs] at hp
  refine ⟨hp.solo, ?_, fun j hj => ?_⟩
  · rw [hp.solo.sb]
    exact hd.entero
  rw [hp.solo.sb]
  have htope : (j + 1) * fs.sb.blockSize ≤ n * fs.sb.blockSize := Nat.mul_le_mul_right _ hj
  by_cases hji : j = i
  · subst hji
    rw [Function.update_self]
    have hnn := hb.leidos
    have hretoque := dirDe_retoque hl.desde.cons.1 hlen hnom hc
    refine Tramo.congr ?_ fun b _ h2 => hp.bytes b (by omega)
    refine (hl.antes.congr fun b _ h2 => if_neg (by omega)).append ?_
    refine tramo_cons (F := formatoDir) hretoque hb (hresto.congr fun b h1 _ => if_neg ?_)
    have h1' : j * fs.sb.blockSize + a + nueva.dRecLen ≤ b := h1
    omega
  · rw [Function.update_of_ne hji]
    refine (hd.bloques j hj).congr fun b h1 h2 => ?_
    rw [hp.bytes b (by omega)]
    have hlejos : b < i * fs.sb.blockSize ∨ (i + 1) * fs.sb.blockSize ≤ b := by
      rcases Nat.lt_or_gt_of_ne hji with hlt | hgt
      · exact .inl (Nat.lt_of_lt_of_le h2 (Nat.mul_le_mul_right _ hlt))
      · exact .inr (Nat.le_trans (Nat.mul_le_mul_right _ hgt) h1)
    rw [Nat.succ_mul] at hlejos
    exact if_neg (by omega)

/-! ## Looking for the entry -/

/-- The record `ant` at offset `a` of the block at index `i`, with the record
    that has the inode after it; none before has it. -/
structure AntesDe (fs : Ext2) (inodo : Inode) (y i a : Nat) (pre : List Dir) (ant dir : Dir)
    (post ds : List Dir) : Prop where
  lugar : EnLugar fs inodo i a pre ant (dir :: post) ds
  inodo : dir.dInode = y
  antes : ∀ e ∈ pre ++ [ant], e.dInode ≠ y

/-- **THE SEARCH IN A BLOCK**, from a record that has not the inode on. -/
theorem EnImagen.borrarDesde (h : EnImagen fs inodo n) (hi : i < n) (y : Nat) :
    ∀ {ds : List Dir} {ant : Dir} {a turnos : Nat}, ds.length ≤ turnos → ant.dInode ≠ y →
    Tramo formatoDir (byteDe fs inodo) (i * fs.sb.blockSize + a) ((i + 1) * fs.sb.blockSize)
      (ant :: ds) →
    (∀ dir ∈ ds, dir.dInode ≠ y)
        ∧ borrarDesde fs (leerBloque fs i inodo) y turnos a (a + ant.dRecLen) ant.etiqueta
          = some none
      ∨ ∃ pre ant' dir post b, ant :: ds = pre ++ ant' :: dir :: post ∧ dir.dInode = y
        ∧ (∀ e ∈ pre ++ [ant'], e.dInode ≠ y)
        ∧ Tramo formatoDir (byteDe fs inodo) (i * fs.sb.blockSize + a)
          (i * fs.sb.blockSize + b) pre
        ∧ Tramo formatoDir (byteDe fs inodo) (i * fs.sb.blockSize + b)
          ((i + 1) * fs.sb.blockSize) (ant' :: dir :: post)
        ∧ borrarDesde fs (leerBloque fs i inodo) y turnos a (a + ant.dRecLen) ant.etiqueta
          = some (some (b, ant'.etiqueta, b + ant'.dRecLen, dir.etiqueta)) := by
  intro ds
  induction ds with
  | nil =>
      intro ant a turnos _ _ ht
      have hfin := ht.cons.2.2.nil
      have hlargo : formatoDir.largo ant = ant.dRecLen := rfl
      rw [Nat.succ_mul, hlargo] at hfin
      refine .inl ⟨by simp, ?_⟩
      cases turnos with
      | zero => rw [Rfs.borrarDesde, if_neg (by omega)]
      | succ turnos => rw [Rfs.borrarDesde, if_neg (by omega)]
  | cons dir ds ih =>
      intro ant a turnos hturnos hant ht₀
      obtain ⟨had, hab, ht⟩ := ht₀.cons
      have hlant : formatoDir.largo ant = ant.dRecLen := rfl
      rw [hlant, Nat.add_assoc] at ht
      obtain ⟨hd, hb, htr⟩ := ht.cons
      have hlargo : formatoDir.largo dir = dir.dRecLen := rfl
      have hle := htr.le
      rw [Nat.succ_mul, hlargo] at hle
      have hleidos := Dir.Bien.leidos hb
      have hlt : a + ant.dRecLen < fs.sb.blockSize := by
        unfold offName at hleidos
        omega
      have hbs := h.blockSize
      have hleido := h.leerDir_hoja hi hd (by omega)
      obtain ⟨turnos, rfl⟩ : ∃ t, turnos = t + 1 := ⟨turnos - 1, by
        rw [List.length_cons] at hturnos
        omega⟩
      rw [Rfs.borrarDesde, if_pos hlt, leerEtiqueta_eq, hleido]
      by_cases hy : dir.dInode = y
      · refine .inr ⟨[], ant, dir, ds, a, rfl, hy, ?_, .fin _, ht₀, if_pos hy⟩
        rintro e he
        rw [List.nil_append, List.mem_singleton] at he
        rwa [he]
      · have hsig : u32 (a + ant.dRecLen + dir.etiqueta.dRecLen) = a + ant.dRecLen + dir.dRecLen :=
          u32_eq (show a + ant.dRecLen + dir.dRecLen < 2 ^ 32 by omega)
        dsimp only
        rw [if_neg (show ¬ dir.etiqueta.dInode = y from hy), hsig]
        rcases ih (by simpa using hturnos) hy ht with
          ⟨hno, heq⟩ | ⟨pre, ant', d, post, b, hlista, hdy, hpre, h1, h2, heq⟩
        · refine .inl ⟨fun d hmem => ?_, heq⟩
          rcases List.mem_cons.mp hmem with rfl | hmem
          · exact hy
          · exact hno d hmem
        · refine .inr ⟨ant :: pre, ant', d, post, b, by rw [hlista, List.cons_append], hdy, ?_, ?_,
            h2, heq⟩
          · intro e he
            rcases List.mem_cons.mp he with rfl | he
            · exact hant
            · exact hpre e he
          · refine tramo_cons had hab ?_
            rw [hlant, Nat.add_assoc]
            exact h1

/-- How the block at index `j` loses its first entry with the inode: marked at
    the start of the block, or taken by the record before it. -/
inductive Quita (fs : Ext2) (inodo : Inode) (y j : Nat) (ds : List Dir) : Ext2 → Prop
  | primera {dir : Dir} {post : List Dir} : ds = dir :: post → dir.dInode = y →
      Quita fs inodo y j ds (escribirDir fs (leerBloque fs j inodo) 0
        ({ dir with dInode := 0 } : Dir).etiqueta)
  | union {a : Nat} {pre post : List Dir} {ant dir : Dir} :
      AntesDe fs inodo y j a pre ant dir post ds →
      Quita fs inodo y j ds (escribirDir fs (leerBloque fs j inodo) a
        ({ ant with dRecLen := u16 (ant.dRecLen + dir.dRecLen) } : Dir).etiqueta)

/-- The blocks from index `i` on, up to the first one with the entry. -/
theorem EnImagen.borrarEn (h : EnImagen fs inodo n) (hd : Directorio fs inodo n dss) (y : Nat) :
    ∀ {resta i : Nat}, i + resta = n →
    (∀ j, i ≤ j → j < n → ∀ dir ∈ dss j, dir.dInode ≠ y)
        ∧ borrarEn fs inodo y i resta = some fs
      ∨ ∃ j fs', i ≤ j ∧ j < n ∧ (∀ k, i ≤ k → k < j → ∀ dir ∈ dss k, dir.dInode ≠ y)
        ∧ Quita fs inodo y j (dss j) fs' ∧ borrarEn fs inodo y i resta = some fs' := by
  intro resta
  induction resta with
  | zero =>
      intro i hi
      exact .inl ⟨fun j h1 h2 => absurd h2 (by omega), rfl⟩
  | succ resta ih =>
      intro i hi
      have hin : i < n := by omega
      have hbloque := hd.bloques i hin
      have hpos := blockSize_pos fs.sb
      obtain ⟨dir, post, hds⟩ : ∃ dir post, dss i = dir :: post := by
        cases hds : dss i with
        | nil =>
            have hfin := (hds ▸ hbloque).nil
            rw [Nat.succ_mul] at hfin
            omega
        | cons dir post => exact ⟨dir, post, rfl⟩
      rw [hds] at hbloque
      obtain ⟨hdir, hb, hpost⟩ := hbloque.cons
      have hlargo : formatoDir.largo dir = dir.dRecLen := rfl
      have hfin := hpost.le
      rw [Nat.succ_mul, hlargo] at hfin
      have hleido := h.leerDir_hoja (o := 0) hin hdir (by
        have := Dir.Bien.leidos hb
        omega)
      rw [Rfs.borrarEn, leerEtiqueta_eq, hleido]
      by_cases hy : dir.dInode = y
      · exact .inr ⟨i, _, Nat.le_refl i, hin, fun k h1 h2 => absurd h2 (by omega),
          .primera hds hy, if_pos hy⟩
      have hlen := hbloque.length_le
      rw [Nat.succ_mul, List.length_cons] at hlen
      rw [if_neg (show ¬ dir.etiqueta.dInode = y from hy)]
      rcases h.borrarDesde hin y (a := 0) (show post.length ≤ fs.sb.blockSize by omega) hy hbloque
        with ⟨hno, heq⟩ | ⟨pre, ant, e, post', a, hlista, hey, hpre, h1, h2, heq⟩
      · rw [Nat.zero_add] at heq
        have hninguna : ∀ e ∈ dss i, e.dInode ≠ y := by
          rw [hds]
          rintro e he
          rcases List.mem_cons.mp he with rfl | he
          · exact hy
          · exact hno e he
        rcases ih (i := i + 1) (by omega) with ⟨hno', heq'⟩ | ⟨j, fs', hij, hj, hk, hq, heq'⟩
        · refine .inl ⟨fun j h1 h2 => ?_, ?_⟩
          · rcases Nat.eq_or_lt_of_le h1 with rfl | hlt
            · exact hninguna
            · exact hno' j hlt h2
          · rw [show dir.etiqueta.dRecLen = dir.dRecLen from rfl, heq]
            exact heq'
        · refine .inr ⟨j, fs', by omega, hj, fun k h1 h2 => ?_, hq, ?_⟩
          · rcases Nat.eq_or_lt_of_le h1 with rfl | hlt
            · exact hninguna
            · exact hk k hlt h2
          · rw [show dir.etiqueta.dRecLen = dir.dRecLen from rfl, heq]
            exact heq'
      · rw [Nat.zero_add] at heq
        refine .inr ⟨i, _, Nat.le_refl i, hin, fun k h1 h2 => absurd h2 (by omega),
          .union ⟨⟨hds.trans hlista, h1, h2⟩, hey, hpre⟩, ?_⟩
        rw [show dir.etiqueta.dRecLen = dir.dRecLen from rfl, heq]
        rfl

/-! ## What the removal leaves -/

/-- A deleted entry is not among the pairs. -/
theorem ne_cero_de_pares {p : List UInt8 × Nat} (hp : p ∈ pares ds) : p.2 ≠ 0 := by
  obtain ⟨dir, hdir, rfl⟩ := List.mem_map.mp hp
  simpa [Dir.par] using (List.mem_filter.mp hdir).2

/-- The pairs before the entry do not carry its inode. -/
theorem eraseP_pares_antes (h : ∀ e ∈ pre, e.dInode ≠ y) (l : List (List UInt8 × Nat)) :
    (pares pre ++ l).eraseP (fun p => p.2 == y) = pares pre ++ l.eraseP fun p => p.2 == y := by
  refine List.eraseP_append_right _ fun p hp => ?_
  obtain ⟨dir, hdir, rfl⟩ := List.mem_map.mp hp
  simpa [Dir.par] using h dir (List.mem_of_mem_filter hdir)

/-- The pair of the entry goes, if it has one. -/
theorem eraseP_pares_entrada (h : dir.dInode = y) (post : List Dir) :
    (pares (dir :: post)).eraseP (fun p => p.2 == y) = pares post := by
  rw [pares_cons, h]
  by_cases h0 : y = 0
  · rw [if_pos h0, h0]
    refine List.eraseP_of_forall_not fun p hp => ?_
    simpa using ne_cero_de_pares hp
  · rw [if_neg h0]
    exact List.eraseP_cons_of_pos (by simp [Dir.par, h])

/-- Where two records become one, their lengths fit `d_rec_len`. -/
def UnionCabe (fs : Ext2) (x y : Nat) : Prop :=
  ∀ i, i < fs.bloquesDe x → ∀ pre ant dir post,
    Registros fs (leerBloque fs i (leerInodo fs x)) 0 (pre ++ ant :: dir :: post) →
    dir.dInode = y → ant.dRecLen + dir.dRecLen < 2 ^ 16

/-- What a call that removes inode `y` from a directory leaves. -/
structure Borrada (fijo : Nat → Prop) (fs : Ext2) (x n : Nat) (dss : Nat → List Dir) (y : Nat)
    (fs' : Ext2) : Prop where
  consistente : Consistente fijo fs'
  solo : SoloHojas fs (leerInodo fs x) n fs'
  igual : (leerInodo fs' x).Igual (leerInodo fs x)
  enUso : fs'.EnUso = fs.EnUso
  directorio : ∃ dss', Directorio fs' (leerInodo fs' x) n dss'
    ∧ pares (registrosDe n dss') = (pares (registrosDe n dss)).eraseP fun p => p.2 == y

/-- With no entry to remove nothing changes. -/
theorem borrada_nada (h : Consistente fijo fs) (hd : Directorio fs (leerInodo fs x) n dss)
    (hno : ∀ j, j < n → ∀ dir ∈ dss j, dir.dInode ≠ y) : Borrada fijo fs x n dss y fs := by
  refine ⟨h, SoloHojas.refl fs _ n, ⟨rfl, rfl, rfl, fun _ _ => rfl⟩, rfl, dss, hd, ?_⟩
  refine (List.eraseP_of_forall_not fun p hp => ?_).symm
  obtain ⟨dir, hdir, rfl⟩ := List.mem_map.mp hp
  obtain ⟨l, hl, hdirl⟩ := List.mem_flatten.mp (List.mem_of_mem_filter hdir)
  obtain ⟨j, hj, rfl⟩ := List.mem_map.mp hl
  simpa [Dir.par] using hno j (List.mem_range.mp hj) dir hdirl

/-- The records of the block, once touched, say what is asked. -/
theorem EnMano.borrada (h : EnMano fijo fs x (leerInodo fs x) n) (hn : EnRango fs.sb n)
    (hx : fs.bloquesDe x = n) (hi : i < n)
    (hantes : ∀ k, k < i → ∀ dir ∈ dss k, dir.dInode ≠ y)
    (hs : SoloHojas fs (leerInodo fs x) n fs')
    (hd : Directorio fs' (leerInodo fs x) n (Function.update dss i ds))
    (hp : pares ds = (pares (dss i)).eraseP fun p => p.2 == y)
    (hy : ∃ dir ∈ dss i, dir.dInode = y) : Borrada fijo fs x n dss y fs' := by
  obtain ⟨hcons, higual, huso, -⟩ := h.deHojas hn hx hs
  refine ⟨hcons, hs, higual, huso, _, hd.igual higual, ?_⟩
  obtain ⟨l, r, hl, hreg⟩ := registrosDe_update dss hi
  have hviejo := hreg (dss i)
  rw [Function.update_eq_self] at hviejo
  have hsin : ∀ e ∈ l, e.dInode ≠ y := by
    intro e he
    obtain ⟨k, hk, hek⟩ := hl e he
    exact hantes k hk e hek
  rw [hviejo, hreg, pares_append, pares_append, pares_append, pares_append,
    eraseP_pares_antes hsin, hp]
  by_cases h0 : y = 0
  · have hnada : ∀ ds' : List Dir, (pares ds').eraseP (fun p => p.2 == y) = pares ds' := by
      intro ds'
      refine List.eraseP_of_forall_not fun p hp => ?_
      simpa [h0] using ne_cero_de_pares hp
    rw [hnada, ← pares_append, hnada]
  · obtain ⟨dir, hdir, hdy⟩ := hy
    have hmem : dir.par ∈ pares (dss i) := by
      refine List.mem_map_of_mem (List.mem_filter.mpr ⟨hdir, ?_⟩)
      simpa [hdy] using h0
    rw [List.eraseP_append_left (a := dir.par) (by simp [Dir.par, hdy]) _ hmem]

/-- **A REMOVAL** in a block of the directory. -/
theorem Quita.borrada (h : EnMano fijo fs x (leerInodo fs x) n) (hn : EnRango fs.sb n)
    (hx : fs.bloquesDe x = n) (hd : Directorio fs (leerInodo fs x) n dss) (hi : i < n)
    (hantes : ∀ k, k < i → ∀ dir ∈ dss k, dir.dInode ≠ y)
    (hq : Quita fs (leerInodo fs x) y i (dss i) fs') (hu : UnionCabe fs x y) :
    Borrada fijo fs x n dss y fs' := by
  cases hq with
  | @primera dir post hds hdy =>
      have hbloque := hds ▸ hd.bloques i hi
      obtain ⟨hdir, hb, hpost⟩ := hbloque.cons
      have hc : dir.Cabe := hdir ▸ dirDe_cabe _ _
      have hcabe : ({ dir with dInode := 0 } : Dir).Cabe :=
        ⟨show 0 < 256 ^ 4 by decide, hc.dRecLen, hc.dNameLen, hc.dFiletype, hc.dName⟩
      have hl : EnLugar fs (leerInodo fs x) i 0 [] dir post (dss i) := ⟨hds, .fin _, hbloque⟩
      obtain ⟨hs, hd'⟩ := h.retocar { dir with dInode := 0 } hn hd hi hl rfl rfl hcabe
        ⟨hb.palabras, hb.nombre⟩ hpost rfl
      refine h.borrada hn hx hi hantes hs hd' ?_ ⟨dir, hds ▸ List.mem_cons_self, hdy⟩
      rw [hds, eraseP_pares_entrada hdy, List.nil_append, pares_cons]
      exact if_pos rfl
  | @union a pre post ant dir hq =>
      obtain ⟨hant, hba, hdesde⟩ := hq.lugar.desde.cons
      obtain ⟨hdir, hb, hpost⟩ := hdesde.cons
      have hla : formatoDir.largo ant = ant.dRecLen := rfl
      have hlargo : formatoDir.largo dir = dir.dRecLen := rfl
      have hsuma : ant.dRecLen + dir.dRecLen < 2 ^ 16 := by
        refine hu i (by omega) pre ant dir post ?_ hq.inodo
        rw [← hq.lugar.lista]
        exact (h.enImagen hn).registros_hoja hi (o := 0) (hd.bloques i hi)
      have hu16 : u16 (ant.dRecLen + dir.dRecLen) = ant.dRecLen + dir.dRecLen :=
        Nat.mod_eq_of_lt hsuma
      have hc : ant.Cabe := hant ▸ dirDe_cabe _ _
      rw [hla, hlargo, Nat.add_assoc] at hpost
      rw [hu16]
      have hcabe : ({ ant with dRecLen := ant.dRecLen + dir.dRecLen } : Dir).Cabe :=
        ⟨hc.dInode, hsuma, hc.dNameLen, hc.dFiletype, hc.dName⟩
      have hbien : ({ ant with dRecLen := ant.dRecLen + dir.dRecLen } : Dir).Bien :=
        ⟨Nat.dvd_add hba.palabras hb.palabras, Nat.le_trans hba.nombre (Nat.le_add_right _ _)⟩
      obtain ⟨hs, hd'⟩ := h.retocar { ant with dRecLen := ant.dRecLen + dir.dRecLen } hn
        hd hi hq.lugar rfl rfl hcabe hbien hpost rfl
      have hmem : dir ∈ dss i := by
        rw [hq.lugar.lista]
        simp
      refine h.borrada hn hx hi hantes hs hd' ?_ ⟨dir, hmem, hq.inodo⟩
      have huno : pares [{ ant with dRecLen := ant.dRecLen + dir.dRecLen }] = pares [ant] := by
        rw [pares_cons, pares_cons]
        rfl
      have hnuevo : pares (pre ++ { ant with dRecLen := ant.dRecLen + dir.dRecLen } :: post)
          = pares (pre ++ [ant]) ++ pares post := by
        rw [List.append_cons, pares_append, pares_append, huno, ← pares_append]
      have hviejo : pares (pre ++ ant :: dir :: post)
          = pares (pre ++ [ant]) ++ pares (dir :: post) := by
        rw [List.append_cons, pares_append]
      rw [hq.lugar.lista, hnuevo, hviejo, eraseP_pares_antes hq.antes,
        eraseP_pares_entrada hq.inodo]

/-! ## The whole call -/

theorem borrarEntrada_eq (hmodo : (leerInodo fs x).iMode ≠ 0) : borrarEntrada fs x y
    = (borrarEn fs (leerInodo fs x) y 0 (fs.bloquesDe x)).map (·, true) := if_neg hmodo

/-- **THE CALL** on a well-formed directory takes the first entry with the inode
    out of the listing. -/
theorem Consistente.borrarEntrada (h : Consistente fijo fs) (hx : fs.EnUso x)
    (hd : Directorio fs (leerInodo fs x) (fs.bloquesDe x) dss) (hmodo : (leerInodo fs x).iMode ≠ 0)
    (hu : UnionCabe fs x y) : ∃ fs', Rfs.borrarEntrada fs x y = some (fs', true)
      ∧ Borrada fijo fs x (fs.bloquesDe x) dss y fs' := by
  have hmano := h.enMano hx
  have hn : EnRango fs.sb (fs.bloquesDe x) := enRango_cantBloques fs.sb (leerInodo_iSize_lt fs x)
  rw [borrarEntrada_eq hmodo]
  rcases (hmano.enImagen hn).borrarEn hd y (Nat.zero_add _) with
    ⟨hno, heq⟩ | ⟨i, fs', -, hi, hantes, hq, heq⟩
  · rw [heq]
    exact ⟨fs, rfl, borrada_nada h hd fun j hj => hno j (Nat.zero_le j) hj⟩
  · rw [heq]
    exact ⟨fs', rfl, hq.borrada hmano hn rfl hd hi (fun k hk => hantes k (Nat.zero_le k) hk) hu⟩

/-! ## Lengths that wrap -/

/-- An entry that is there once is in one block. -/
theorem entrada_unica (h : (registrosDe n dss).countP (·.dInode == y) ≤ 1)
    {j : Nat} {e : Dir} (hi : i < n) (hj : j < n) (hd : dir ∈ dss i) (hdy : dir.dInode = y)
    (he : e ∈ dss j) (hey : e.dInode = y) : i = j := by
  by_contra hne
  obtain ⟨l, r, -, hreg⟩ := registrosDe_update dss hi
  have htodo := hreg (dss i)
  rw [Function.update_eq_self] at htodo
  have hmem : e ∈ l ++ ([] ++ r) := by
    rw [← hreg []]
    refine List.mem_flatten.mpr ⟨dss j, List.mem_map.mpr ⟨j, List.mem_range.mpr hj, ?_⟩, he⟩
    exact Function.update_of_ne (Ne.symm hne) ..
  have h1 : 0 < (l ++ ([] ++ r)).countP fun d : Dir => d.dInode == y :=
    List.countP_pos_iff.mpr ⟨e, hmem, by simpa using hey⟩
  have h2 : 0 < (dss i).countP fun d : Dir => d.dInode == y :=
    List.countP_pos_iff.mpr ⟨dir, hd, by simpa using hdy⟩
  rw [htodo, List.countP_append, List.countP_append] at h
  rw [List.countP_append, List.nil_append] at h1
  omega

theorem Quita.entrada (h : Quita fs inodo y i ds fs') : ∃ dir ∈ ds, dir.dInode = y := by
  cases h with
  | @primera dir post hds hdy => exact ⟨dir, hds ▸ List.mem_cons_self, hdy⟩
  | @union a pre post ant dir hq =>
      refine ⟨dir, ?_, hq.inodo⟩
      rw [hq.lugar.lista]
      simp

/-- Two records that are too long for one fill a block of 64 KiB. -/
theorem Directorio.llenan (hd : Directorio fs inodo n dss) (hi : i < n)
    (hbs : fs.sb.blockSize ≤ 2 ^ 16) (hlista : dss i = pre ++ ant :: dir :: post)
    (hsuma : 2 ^ 16 ≤ ant.dRecLen + dir.dRecLen) :
    dss i = [ant, dir] ∧ ant.dRecLen + dir.dRecLen = 2 ^ 16 := by
  have hbloque := hd.bloques i hi
  rw [hlista] at hbloque
  obtain ⟨a, hpre, hdesde⟩ := tramo_append_iff.mp hbloque
  obtain ⟨-, -, hdesde⟩ := hdesde.cons
  obtain ⟨-, -, hpost⟩ := hdesde.cons
  have hla : formatoDir.largo ant = ant.dRecLen := rfl
  have hlargo : formatoDir.largo dir = dir.dRecLen := rfl
  have h1 := hpre.length_le
  have h2 := hpost.length_le
  rw [Nat.succ_mul, hla, hlargo] at h2
  obtain rfl : pre = [] := List.length_eq_zero_iff.mp (by omega)
  obtain rfl : post = [] := List.length_eq_zero_iff.mp (by omega)
  exact ⟨hlista, by omega⟩

/-- **64 KiB**: the record that takes the bytes of the other gets length zero. -/
theorem Consistente.borrarEntrada_desborda (h : Consistente fijo fs) (hx : fs.EnUso x)
    (hd : Directorio fs (leerInodo fs x) (fs.bloquesDe x) dss) (hmodo : (leerInodo fs x).iMode ≠ 0)
    (hbs : fs.sb.blockSize ≤ 2 ^ 16)
    (huna : (registrosDe (fs.bloquesDe x) dss).countP (·.dInode == y) ≤ 1)
    (hu : ¬ UnionCabe fs x y) : ∃ fs', Rfs.borrarEntrada fs x y = some (fs', true)
      ∧ SoloHojas fs (leerInodo fs x) (fs.bloquesDe x) fs'
      ∧ Atascado fs' (leerInodo fs x) (fs.bloquesDe x) := by
  have hmano := h.enMano hx
  have hn : EnRango fs.sb (fs.bloquesDe x) := enRango_cantBloques fs.sb (leerInodo_iSize_lt fs x)
  have him := hmano.enImagen hn
  unfold UnionCabe at hu
  push Not at hu
  obtain ⟨i, hi, pre, ant, dir, post, hregs, hdy, hsuma⟩ := hu
  have hlista := (hd.bloques i hi).unico (him.tramo_hoja hi (o := 0) hregs)
  obtain ⟨hdos, hsuma⟩ := hd.llenan hi hbs hlista hsuma
  have hmem : dir ∈ dss i := by
    rw [hdos]
    simp
  rw [borrarEntrada_eq hmodo]
  rcases him.borrarEn hd y (Nat.zero_add _) with ⟨hno, -⟩ | ⟨j, fs', -, hj, -, hq, heq⟩
  · exact absurd hdy (hno i (Nat.zero_le i) hi dir hmem)
  rw [heq]
  obtain ⟨e, he, hey⟩ := hq.entrada
  obtain rfl := entrada_unica huna hi hj hmem hdy he hey
  refine ⟨fs', rfl, ?_⟩
  cases hq with
  | @primera e post hds hey =>
      -- both records would be entries
      exfalso
      have hij := hi
      obtain ⟨l, r, -, hreg⟩ := registrosDe_update dss hij
      have htodo := hreg (dss i)
      rw [Function.update_eq_self] at htodo
      obtain ⟨rfl, -⟩ := List.cons.inj (hdos.symm.trans hds)
      rw [htodo, hdos, List.countP_append, List.countP_append] at huna
      simp only [List.countP_cons, hdy, hey, beq_self_eq_true, if_true] at huna
      omega
  | @union a pre post ant' dir' hq =>
      have hl := hq.lugar.lista
      have hlen := congrArg List.length (hdos.symm.trans hl)
      simp only [List.length_append, List.length_cons, List.length_nil] at hlen
      obtain rfl : pre = [] := List.length_eq_zero_iff.mp (by omega)
      obtain rfl : post = [] := List.length_eq_zero_iff.mp (by omega)
      rw [List.nil_append] at hl
      obtain ⟨rfl, hresto⟩ := List.cons.inj (hdos.symm.trans hl)
      obtain ⟨rfl, -⟩ := List.cons.inj hresto
      have ha := hq.lugar.antes.nil
      obtain rfl : a = 0 := by omega
      obtain ⟨hant, hb, hdesde⟩ := hq.lugar.desde.cons
      have hfin := hdesde.le
      have hla : formatoDir.largo ant = ant.dRecLen := rfl
      rw [Nat.succ_mul, hla] at hfin
      have hleidos := Dir.Bien.leidos hb
      have hc : ant.Cabe := hant ▸ dirDe_cabe _ _
      have hcero : u16 (ant.dRecLen + dir.dRecLen) = 0 := by
        rw [hsuma]
        rfl
      rw [hcero]
      have hcab : (serializarDir ({ ant with dRecLen := 0 } : Dir).etiqueta).length = offName := by
        rw [serializarDir_etiqueta, Dir.length_cabecera]
      have hpos : 0 < offName := by decide
      have hp := hmano.ponerDir hn hi (o := 0) ({ ant with dRecLen := 0 } : Dir).etiqueta
        (by omega) (blockSize_pos fs.sb)
      have hcabe : ({ ant with dRecLen := 0 } : Dir).Cabe :=
        ⟨hc.dInode, show 0 < 256 ^ 2 by decide, hc.dNameLen, hc.dFiletype, hc.dName⟩
      have hdir := @dirDe_retoque _ _ _ { ant with dRecLen := 0 } hant rfl rfl hcabe
      have htope : (i + 1) * fs.sb.blockSize ≤ fs.bloquesDe x * fs.sb.blockSize :=
        Nat.mul_le_mul_right _ hi
      rw [Nat.succ_mul] at htope
      have hnuevo := (dirDe_congr fun j hj => hp.bytes (_ + j) (by
        rw [hdir] at hj
        have hj' : j < offName + ant.dNameLen := hj
        omega)).trans hdir
      refine ⟨hp.solo, i, hi, ?_, ?_⟩
      · rw [hp.solo.sb, ← Nat.add_zero (i * _), hnuevo]
      · rw [hp.solo.sb, ← Nat.add_zero (i * _), hnuevo]
        show offName + ant.dNameLen ≤ fs.sb.blockSize
        omega

end Borrar

end Rfs
