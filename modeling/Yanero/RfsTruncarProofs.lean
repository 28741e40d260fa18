import Yanero.RfsLeyesProofs

/-! # Growing and shrinking a file

    The loops of `Inode_truncarArriba` and `Inode_truncarAbajo` over a file in
    memory.  Growth assigns index after index until one is refused; the undo
    fakes the size reached and runs the ordinary shrink.  Both loops keep the
    blocks below the number they start from or stop at, so growing and coming
    back leaves everything as it was, whether the growth was refused or not;
    and what the growth needs is known beforehand. -/

namespace Rfs

open Arboles Palabras

/-- The blocks a file of `n` data blocks takes, pointer blocks included. -/
def bloquesTotales (sb : Superblock) (n : Nat) : Nat := n + (esquema sb).punteros n

section Truncar

variable {fijo : Nat → Prop} {fs fs' : Ext2} {x n m : Nat} {inodo inodo' : Inode}

theorem Inode.MismosDatos.refl (inodo : Inode) : inodo.MismosDatos inodo := ⟨rfl, rfl, rfl⟩

theorem Inode.MismosDatos.trans {a b c : Inode} (h : a.MismosDatos b) (h' : b.MismosDatos c) :
    a.MismosDatos c :=
  ⟨h.1.trans h'.1, h.2.1.trans h'.2.1, h.2.2.trans h'.2.2⟩

/-- The pointers are all that matters of an inode in memory. -/
theorem EnMano.con (h : EnMano fijo fs x inodo n) (hb : inodo'.iBlock = inodo.iBlock) :
    EnMano fijo fs x inodo' n := by
  refine ⟨h.geometria, h.cuentas, h.enUso, ?_, ?_⟩
  · rw [hb]
    exact h.reparto
  · rw [hb]
    exact h.cabe

theorem Conserva.con {inodo₁ inodo₁' : Inode} (h : Conserva fijo fs x inodo n fs' inodo')
    (hb : inodo₁.iBlock = inodo.iBlock) (hb' : inodo₁'.iBlock = inodo'.iBlock) :
    Conserva fijo fs x inodo₁ n fs' inodo₁' := by
  refine ⟨h.guarda, ?_, h.ajeno, ?_, h.datosAjenos⟩
  · rw [hb, hb']
    exact h.propio
  · rw [hb]
    exact h.datos

/-! ## Sizes in blocks -/

theorem cantBloques_eq {bs : Nat} (hbs : 0 < bs) (tam : Nat) :
    cantBloques bs tam = (tam + bs - 1) / bs := by
  obtain ⟨q, r, hr, rfl⟩ : ∃ q r, r < bs ∧ tam = bs * q + r :=
    ⟨tam / bs, tam % bs, Nat.mod_lt tam hbs, (Nat.div_add_mod tam bs).symm⟩
  have hdiv : (bs * q + r) / bs = q := by
    rw [Nat.mul_add_div hbs, Nat.div_eq_of_lt hr, Nat.add_zero]
  have hmod : (bs * q + r) % bs = r := by
    rw [Nat.mul_add_mod, Nat.mod_eq_of_lt hr]
  rw [cantBloques, hdiv, hmod]
  by_cases h0 : 0 < r
  · rw [if_pos h0, show bs * q + r + bs - 1 = bs * (q + 1) + (r - 1) by rw [Nat.mul_succ]; omega,
      Nat.mul_add_div hbs, Nat.div_eq_of_lt (by omega), Nat.add_zero]
  · rw [if_neg h0, show bs * q + r + bs - 1 = bs * q + (bs - 1) by omega,
      Nat.mul_add_div hbs, Nat.div_eq_of_lt (by omega), Nat.add_zero]

theorem cantBloques_mono {bs a b : Nat} (hbs : 0 < bs) (h : a ≤ b) :
    cantBloques bs a ≤ cantBloques bs b := by
  rw [cantBloques_eq hbs, cantBloques_eq hbs]
  exact Nat.div_le_div_right (by omega)

/-- Whole blocks. -/
theorem cantBloques_mul {bs : Nat} (hbs : 0 < bs) (n : Nat) : cantBloques bs (n * bs) = n := by
  rw [cantBloques, Nat.mul_mod_left, if_neg (Nat.lt_irrefl 0), Nat.mul_div_cancel _ hbs]

/-- The blocks of a size cover it, the last one not in vain. -/
theorem cantBloques_cotas {bs : Nat} (hbs : 0 < bs) (tam : Nat) :
    tam ≤ cantBloques bs tam * bs ∧ cantBloques bs tam * bs < tam + bs := by
  rw [cantBloques_eq hbs]
  have h1 := Nat.div_add_mod (tam + bs - 1) bs
  have h2 := Nat.mod_lt (tam + bs - 1) hbs
  rw [Nat.mul_comm] at h1
  omega

/-- The indices below a size are those that start below it. -/
theorem lt_cantBloques_iff {bs tam i : Nat} (hbs : 0 < bs) :
    i < cantBloques bs tam ↔ i * bs < tam := by
  rw [cantBloques_eq hbs, ← Nat.succ_le_iff, Nat.le_div_iff_mul_le hbs, Nat.succ_mul]
  omega

/-- An index below the size starts below it. -/
theorem mul_lt_de_cantBloques {bs tam i : Nat} (hbs : 0 < bs) (h : i < cantBloques bs tam) :
    i * bs < tam := (lt_cantBloques_iff hbs).mp h

/-! ## The two loops -/

/-- The cost of one index more. -/
theorem bloquesTotales_succ {k e : Nat} {ds : List Nat} {sb : Superblock}
    (hc : Corte (esquema sb) k ds n e) :
    bloquesTotales sb (n + 1) = bloquesTotales sb n + (ds.length + 1 - e) := by
  have := punteros_succ (cantPunteros_pos sb) hc
  have := hc.largo
  unfold bloquesTotales
  omega

/-- What the loop of `Inode_truncarArriba` leads to, from a file of `i` blocks
    that is to get `resta` more. -/
structure Crecio (fijo : Nat → Prop) (fs : Ext2) (x : Nat) (inodo : Inode) (i resta : Nat)
    (r : Ext2 × Inode × Option Nat) (m : Nat) : Prop where
  enMano : EnMano fijo r.1 x r.2.1 (i + m)
  conserva : Conserva fijo fs x inodo i r.1 r.2.1
  datos : r.2.1.MismosDatos inodo
  libres : r.1.sb.sFreeBlocksCount + bloquesTotales fs.sb (i + m)
    = fs.sb.sFreeBlocksCount + bloquesTotales fs.sb i
  final : m = resta ∧ r.2.2 = none ∨ m < resta ∧ r.2.2 = some (i + m)
    ∧ fs.sb.sFreeBlocksCount + bloquesTotales fs.sb i < bloquesTotales fs.sb (i + m + 1)

theorem Mismo.bloquesTotales (h : Mismo fs fs') (n : Nat) :
    bloquesTotales fs'.sb n = bloquesTotales fs.sb n := by
  unfold Rfs.bloquesTotales
  rw [h.esquema]

/-- **THE LOOP OF A GROWTH**: it reaches some number of blocks, all of them or
    those before the index that was refused. -/
theorem EnMano.asignarDesde : ∀ (resta : Nat) {i : Nat} {fs : Ext2} {inodo : Inode},
    EnMano fijo fs x inodo i → (i + resta - 1) * fs.sb.blockSize < 2 ^ 32 →
    ∃ m, Crecio fijo fs x inodo i resta (asignarDesde i resta fs inodo) m := by
  intro resta
  induction resta with
  | zero =>
      intro i fs inodo h _
      exact ⟨0, h, Conserva.refl fijo fs x inodo i, .refl inodo, rfl, .inl ⟨rfl, rfl⟩⟩
  | succ resta ih =>
      intro i fs inodo h hn
      have hi : i * fs.sb.blockSize < 2 ^ 32 :=
        lt_of_le_of_lt (Nat.mul_le_mul_right _ (by omega)) hn
      obtain ⟨k, ds, e, hcam, hc⟩ := corte_caminoBloque hi
      have hcosto := bloquesTotales_succ hc
      rcases h.asignarBloque hcam hc with ⟨hlt, hno⟩ | ⟨fs₁, inodo₁, hsi, hu, -⟩
      · rw [Rfs.asignarDesde, hno]
        refine ⟨0, h, Conserva.refl fijo fs x inodo i, .refl inodo, rfl,
          .inr ⟨Nat.succ_pos _, rfl, ?_⟩⟩
        show _ < bloquesTotales fs.sb (i + 1)
        omega
      · rw [Rfs.asignarDesde, hsi]
        have hm := hu.guarda.mismo
        obtain ⟨m, hr⟩ := ih (hu.enMano h hc) (by
          rw [hm.blockSize, show i + 1 + resta - 1 = i + (resta + 1) - 1 by omega]
          exact hn)
        have hidx : i + 1 + m = i + (m + 1) := by omega
        have hlib := hr.libres
        have hfin := hr.final
        have hlu := hu.libres
        simp only [hm.bloquesTotales, hidx] at hlib hfin
        refine ⟨m + 1, ?_, ?_, hr.datos.trans hu.datos, ?_, ?_⟩
        · rw [← hidx]
          exact hr.enMano
        · exact (hu.conserva h hc).trans h.geometria (hr.conserva.mono (Nat.le_succ i))
        · show (Rfs.asignarDesde (i + 1) resta fs₁ inodo₁).1.sb.sFreeBlocksCount + _ = _
          omega
        · rcases hfin with ⟨h1, h2⟩ | ⟨h1, h2, h3⟩
          · exact .inl ⟨by omega, h2⟩
          · exact .inr ⟨by omega, h2, by omega⟩

/-- **THE LOOP OF A SHRINK**, from a file of `n` blocks down to `hasta`. -/
theorem EnMano.liberarHasta {hasta : Nat} : ∀ (n : Nat) {fs : Ext2} {inodo : Inode},
    EnMano fijo fs x inodo n → hasta ≤ n → (n - 1) * fs.sb.blockSize < 2 ^ 32 →
    EnMano fijo (liberarHasta hasta n fs inodo).1 x (liberarHasta hasta n fs inodo).2 hasta
      ∧ Conserva fijo fs x inodo hasta (liberarHasta hasta n fs inodo).1
        (liberarHasta hasta n fs inodo).2
      ∧ (liberarHasta hasta n fs inodo).2.MismosDatos inodo
      ∧ (liberarHasta hasta n fs inodo).1.sb.sFreeBlocksCount + bloquesTotales fs.sb hasta
        = fs.sb.sFreeBlocksCount + bloquesTotales fs.sb n := by
  intro n
  induction n with
  | zero =>
      intro fs inodo h hle _
      obtain rfl : hasta = 0 := by omega
      exact ⟨h, Conserva.refl fijo fs x inodo 0, .refl inodo, rfl⟩
  | succ n ih =>
      intro fs inodo h hle hn
      rw [Rfs.liberarHasta]
      by_cases hlt : hasta < n + 1
      · rw [if_pos hlt]
        obtain ⟨k, ds, e, hcam, hc⟩ := corte_caminoBloque hn
        have hu := h.liberarBloque hcam hc
        have hn' : (n - 1) * fs.sb.blockSize < 2 ^ 32 :=
          lt_of_le_of_lt (Nat.mul_le_mul_right _ (by omega)) hn
        obtain ⟨h1, h2, h3, h4⟩ := ih (hu.enMano h hc) (by omega)
          (by rw [hu.guarda.mismo.blockSize]; exact hn')
        refine ⟨h1, ((hu.conserva h hc).mono (by omega)).trans h.geometria h2, h3.trans hu.datos,
          ?_⟩
        have hcosto : bloquesTotales fs.sb (n + 1) = bloquesTotales fs.sb n + (ds.length + 1 - e) :=
          bloquesTotales_succ hc
        have hlib := hu.libres
        rw [hu.guarda.mismo.bloquesTotales, hu.guarda.mismo.bloquesTotales] at h4
        show (Rfs.liberarHasta hasta n (Rfs.liberarBloque fs n inodo).1
          (Rfs.liberarBloque fs n inodo).2).1.sb.sFreeBlocksCount + _ = _
        omega
      · rw [if_neg hlt]
        obtain rfl : hasta = n + 1 := by omega
        exact ⟨h, Conserva.refl fijo fs x inodo _, .refl inodo, rfl⟩

/-! ## The two truncations -/

/-- `Inode_truncarAbajo` on a file of the blocks its size says. -/
theorem EnMano.truncarAbajo {nuevoTam : Nat}
    (h : EnMano fijo fs x inodo (cantBloques fs.sb.blockSize inodo.iSize))
    (htam : inodo.iSize < 2 ^ 32) (hle : nuevoTam ≤ inodo.iSize) :
    EnMano fijo (truncarAbajo fs inodo nuevoTam).1 x (truncarAbajo fs inodo nuevoTam).2
        (cantBloques fs.sb.blockSize nuevoTam)
      ∧ Conserva fijo fs x inodo (cantBloques fs.sb.blockSize nuevoTam)
        (truncarAbajo fs inodo nuevoTam).1 (truncarAbajo fs inodo nuevoTam).2
      ∧ (truncarAbajo fs inodo nuevoTam).2.iSize = nuevoTam
      ∧ (truncarAbajo fs inodo nuevoTam).2.iMode = inodo.iMode
      ∧ (truncarAbajo fs inodo nuevoTam).2.iLinksCount = inodo.iLinksCount
      ∧ (truncarAbajo fs inodo nuevoTam).1.sb.sFreeBlocksCount
          + bloquesTotales fs.sb (cantBloques fs.sb.blockSize nuevoTam)
        = fs.sb.sFreeBlocksCount
          + bloquesTotales fs.sb (cantBloques fs.sb.blockSize inodo.iSize) := by
  have hbs := blockSize_pos fs.sb
  have hn : (cantBloques fs.sb.blockSize inodo.iSize - 1) * fs.sb.blockSize < 2 ^ 32 := by
    rcases Nat.eq_zero_or_pos (cantBloques fs.sb.blockSize inodo.iSize) with h0 | hpos
    · rw [h0, Nat.zero_sub, Nat.zero_mul]
      exact Nat.two_pow_pos 32
    · exact lt_trans (mul_lt_de_cantBloques hbs (by omega)) htam
  obtain ⟨h1, h2, h3, h4⟩ := h.liberarHasta _ (cantBloques_mono hbs hle) hn
  rw [Rfs.truncarAbajo]
  exact ⟨h1.con rfl, h2.con rfl rfl, rfl, h3.1, h3.2.2, h4⟩

/-- What `Inode_truncarArriba` leaves when it succeeds. -/
structure Extendido (fijo : Nat → Prop) (fs : Ext2) (x : Nat) (inodo : Inode) (nuevoTam : Nat)
    (fs' : Ext2) (inodo' : Inode) : Prop where
  enMano : EnMano fijo fs' x inodo' (cantBloques fs.sb.blockSize nuevoTam)
  conserva : Conserva fijo fs x inodo (cantBloques fs.sb.blockSize inodo.iSize) fs' inodo'
  iSize : inodo'.iSize = nuevoTam
  iMode : inodo'.iMode = inodo.iMode
  iLinksCount : inodo'.iLinksCount = inodo.iLinksCount
  libres : fs'.sb.sFreeBlocksCount + bloquesTotales fs.sb (cantBloques fs.sb.blockSize nuevoTam)
    = fs.sb.sFreeBlocksCount + bloquesTotales fs.sb (cantBloques fs.sb.blockSize inodo.iSize)

/-- What `Inode_truncarArriba` leaves when it fails. -/
structure Deshecho (fijo : Nat → Prop) (fs : Ext2) (x : Nat) (inodo : Inode) (fs' : Ext2)
    (inodo' : Inode) : Prop where
  enMano : EnMano fijo fs' x inodo' (cantBloques fs.sb.blockSize inodo.iSize)
  conserva : Conserva fijo fs x inodo (cantBloques fs.sb.blockSize inodo.iSize) fs' inodo'
  datos : inodo'.MismosDatos inodo

theorem bloquesTotales_mono {sb : Superblock} {a b : Nat} (h : a ≤ b) :
    bloquesTotales sb a ≤ bloquesTotales sb b := by
  unfold bloquesTotales Esquema.punteros
  refine Nat.add_le_add h (Finset.sum_le_sum fun k _ => Finset.sum_le_sum fun l _ =>
    Nat.div_le_div_right ?_)
  omega

/-- **A GROWTH** succeeds when the free blocks are enough for all it needs;
    otherwise the undo takes back what it had got. -/
theorem EnMano.truncarArriba {nuevoTam : Nat}
    (h : EnMano fijo fs x inodo (cantBloques fs.sb.blockSize inodo.iSize))
    (hnuevo : nuevoTam < 2 ^ 32) (hle : inodo.iSize ≤ nuevoTam) :
    (bloquesTotales fs.sb (cantBloques fs.sb.blockSize nuevoTam)
          ≤ fs.sb.sFreeBlocksCount + bloquesTotales fs.sb (cantBloques fs.sb.blockSize inodo.iSize)
        ∧ (truncarArriba fs inodo nuevoTam).2.2 = true
        ∧ Extendido fijo fs x inodo nuevoTam (truncarArriba fs inodo nuevoTam).1
          (truncarArriba fs inodo nuevoTam).2.1)
      ∨ (fs.sb.sFreeBlocksCount + bloquesTotales fs.sb (cantBloques fs.sb.blockSize inodo.iSize)
          < bloquesTotales fs.sb (cantBloques fs.sb.blockSize nuevoTam)
        ∧ (truncarArriba fs inodo nuevoTam).2.2 = false
        ∧ Deshecho fijo fs x inodo (truncarArriba fs inodo nuevoTam).1
          (truncarArriba fs inodo nuevoTam).2.1) := by
  have hbs := blockSize_pos fs.sb
  have hdesde := cantBloques_mono hbs hle
  obtain ⟨i, hi⟩ : ∃ i, cantBloques fs.sb.blockSize inodo.iSize = i := ⟨_, rfl⟩
  obtain ⟨resta, hresta⟩ : ∃ r, cantBloques fs.sb.blockSize nuevoTam = i + r :=
    ⟨cantBloques fs.sb.blockSize nuevoTam - i, by omega⟩
  have hcota : ∀ j, j < i + resta → j * fs.sb.blockSize < 2 ^ 32 := fun j hj =>
    lt_trans (mul_lt_de_cantBloques hbs (by omega)) hnuevo
  rw [hi] at h
  obtain ⟨m, hr⟩ := h.asignarDesde resta (by
    rcases Nat.eq_zero_or_pos (i + resta) with h0 | hpos
    · rw [h0, Nat.zero_sub, Nat.zero_mul]
      exact Nat.two_pow_pos 32
    · exact hcota _ (by omega))
  have hsub : cantBloques fs.sb.blockSize nuevoTam - cantBloques fs.sb.blockSize inodo.iSize
      = resta := by omega
  unfold Rfs.truncarArriba
  dsimp only
  rw [hsub, hi]
  obtain ⟨hmano, hcons, hdatos, hlib, hfin⟩ := hr
  rcases hd : Rfs.asignarDesde i resta fs inodo with ⟨fs₁, inodo₁, falla⟩
  rw [hd] at hmano hcons hdatos hlib hfin
  dsimp only at hmano hcons hdatos hlib hfin
  rcases hfin with ⟨rfl, rfl⟩ | ⟨hlt, rfl, hfalta⟩
  · refine .inl ⟨by rw [hresta]; omega, rfl, ?_⟩
    refine ⟨?_, ?_, rfl, hdatos.1, hdatos.2.2, ?_⟩
    · rw [hresta]
      exact hmano.con rfl
    · rw [hi]
      exact hcons.con rfl rfl
    · rw [hresta, hi]
      exact hlib
  · have hm := hcons.guarda.mismo
    -- the size faked for the undo is that of the blocks reached
    have hfake : u32 ((i + m) * fs.sb.blockSize) = (i + m) * fs.sb.blockSize :=
      u32_eq (hcota _ (by omega))
    have hbloques : cantBloques fs₁.sb.blockSize (u32 ((i + m) * fs.sb.blockSize)) = i + m := by
      rw [hm.blockSize, hfake, cantBloques_mul hbs]
    have hmono := @bloquesTotales_mono fs.sb _ _ (show i + m + 1 ≤ i + resta by omega)
    refine .inr ⟨by rw [hresta]; omega, rfl, ?_⟩
    have hmano' : EnMano fijo fs₁ x { inodo₁ with iSize := u32 ((i + m) * fs.sb.blockSize) }
        (cantBloques fs₁.sb.blockSize (u32 ((i + m) * fs.sb.blockSize))) := by
      rw [hbloques]
      exact hmano.con rfl
    have hbajo : inodo₁.iSize ≤ u32 ((i + m) * fs.sb.blockSize) := by
      rw [hfake, hdatos.2.1]
      have hle' : inodo.iSize ≤ i * fs.sb.blockSize := hi ▸ (cantBloques_cotas hbs _).1
      exact Nat.le_trans hle' (Nat.mul_le_mul_right _ (Nat.le_add_right i m))
    obtain ⟨h1, h2, h3, h4, h5, -⟩ := hmano'.truncarAbajo (by rw [hfake]; exact hcota _ (by omega))
      hbajo
    have htam : cantBloques fs₁.sb.blockSize inodo₁.iSize = i := by
      rw [hm.blockSize, hdatos.2.1, hi]
    rw [htam] at h1 h2
    refine ⟨?_, ?_, h4.trans hdatos.1, h3.trans hdatos.2.1, h5.trans hdatos.2.2⟩
    · rw [hi]
      exact h1
    · rw [hi]
      exact hcons.trans h.geometria (h2.con rfl rfl)

/-- Two images and an inode in each that nothing tells apart but the bytes of
    free blocks: the size and the pointers of the inode, the first `n` indices
    of its block map, every bit of the block bitmaps and all counters. -/
structure ComoAntes (fs : Ext2) (inodo : Inode) (n : Nat) (fs' : Ext2) (inodo' : Inode) :
    Prop where
  iSize : inodo'.iSize = inodo.iSize
  iBlock : ∀ k, k < 15 → inodo'.iBlock k = inodo.iBlock k
  mapa : ∀ m, m < n → leerBloque fs' m inodo' = leerBloque fs m inodo
  bits : ∀ g j, 0 < fs.sb.tamGrupo g → j < 8 * fs.sb.blockSize →
    fs'.bitGrupo g j = fs.bitGrupo g j
  sFreeBlocksCount : fs'.sb.sFreeBlocksCount = fs.sb.sFreeBlocksCount
  bgFreeBlocksCount : ∀ g, (fs'.grupo g).bgFreeBlocksCount = (fs.grupo g).bgFreeBlocksCount

theorem Restaurado.comoAntes (h : Restaurado fs inodo n fs' inodo')
    (hs : inodo'.iSize = inodo.iSize) (hn : ∀ m, m < n → m * fs.sb.blockSize < 2 ^ 32) :
    ComoAntes fs inodo n fs' inodo' := by
  refine ⟨hs, h.iBlock, fun m hm => h.mapa m hm (hn m hm), h.bits, by rw [h.sb], fun g => ?_⟩
  unfold Ext2.grupo
  rw [h.bgdt]

/-- **A REFUSED GROWTH**: on a consistent image, `Inode_truncarArriba` to a
    larger size leaves everything as it was when it answers `-1`, and it answers
    `-1` exactly when the free blocks are fewer than the data and pointer blocks
    the growth needs. -/
theorem crecimiento_fallido {nuevoTam : Nat}
    (h : EnMano fijo fs x inodo (cantBloques fs.sb.blockSize inodo.iSize))
    (hnuevo : nuevoTam < 2 ^ 32) (hgt : inodo.iSize < nuevoTam) :
    (∀ fs' inodo', truncarArriba fs inodo nuevoTam = (fs', inodo', false) →
      ComoAntes fs inodo (cantBloques fs.sb.blockSize inodo.iSize) fs' inodo')
      ∧ ((truncarArriba fs inodo nuevoTam).2.2 = false ↔ fs.sb.sFreeBlocksCount
        < bloquesTotales fs.sb (cantBloques fs.sb.blockSize nuevoTam)
          - bloquesTotales fs.sb (cantBloques fs.sb.blockSize inodo.iSize)) := by
  have hcota : ∀ m, m < cantBloques fs.sb.blockSize inodo.iSize → m * fs.sb.blockSize < 2 ^ 32 :=
    fun m hm => lt_trans (mul_lt_de_cantBloques (blockSize_pos fs.sb) hm) (lt_trans hgt hnuevo)
  rcases h.truncarArriba hnuevo (Nat.le_of_lt hgt) with ⟨hbasta, hok, hext⟩ | ⟨hfalta, hno, hdes⟩
  · constructor
    · intro fs' inodo' hr
      rw [hr] at hok
      cases hok
    · rw [hok]
      constructor
      · intro hf
        cases hf
      · intro hlt
        omega
  · constructor
    · intro fs' inodo' hr
      rw [hr] at hdes
      exact (h.restaurado hdes.enMano hdes.conserva).comoAntes hdes.datos.2.1 hcota
    · rw [hno]
      constructor
      · intro _
        omega
      · intro _
        rfl

/-- **SHRINKING UNDOES GROWTH**: a growth that succeeds and a shrink back to
    the old size leave everything as it was. -/
theorem achicar_deshace {nuevoTam : Nat} {fs₁ : Ext2} {inodo₁ : Inode}
    (h : EnMano fijo fs x inodo (cantBloques fs.sb.blockSize inodo.iSize))
    (hnuevo : nuevoTam < 2 ^ 32) (hgt : inodo.iSize < nuevoTam)
    (hr : truncarArriba fs inodo nuevoTam = (fs₁, inodo₁, true)) :
    ComoAntes fs inodo (cantBloques fs.sb.blockSize inodo.iSize)
      (truncarAbajo fs₁ inodo₁ inodo.iSize).1 (truncarAbajo fs₁ inodo₁ inodo.iSize).2 := by
  have hcota : ∀ m, m < cantBloques fs.sb.blockSize inodo.iSize → m * fs.sb.blockSize < 2 ^ 32 :=
    fun m hm => lt_trans (mul_lt_de_cantBloques (blockSize_pos fs.sb) hm) (lt_trans hgt hnuevo)
  rcases h.truncarArriba hnuevo (Nat.le_of_lt hgt) with ⟨-, -, hext⟩ | ⟨-, hno, -⟩
  · rw [hr] at hext
    dsimp only at hext
    have hbs := hext.conserva.guarda.mismo.blockSize
    have hmano := hext.enMano
    rw [← hbs, ← hext.iSize] at hmano
    have hle : inodo.iSize ≤ inodo₁.iSize := by
      rw [hext.iSize]
      exact Nat.le_of_lt hgt
    obtain ⟨h1, h2, h3, -, -, -⟩ := hmano.truncarAbajo (by rw [hext.iSize]; exact hnuevo) hle
    rw [hbs] at h1 h2
    exact (h.restaurado h1 (hext.conserva.trans h.geometria h2)).comoAntes h3 hcota
  · rw [hr] at hno
    cases hno

end Truncar

/-! ## A disk with one free block -/

theorem enMano_imagenChica : EnMano (· ≤ 6) imagenChica 1 (leerInodo imagenChica 1)
    (cantBloques imagenChica.sb.blockSize (leerInodo imagenChica 1).iSize) :=
  arranque_tallerChico.consistente.enMano ⟨by decide, by decide, by decide⟩

/-- A file of two blocks does not fit. -/
theorem crecimiento_fallido_dos :
    (truncarArriba imagenChica (leerInodo imagenChica 1) 2048).2.2 = false :=
  (crecimiento_fallido enMano_imagenChica (by decide) (by decide)).2.mpr
    (by decide)

/-! ## A file with an indirect block -/

theorem enMano_imagenAmplia : EnMano (· ≤ 6) imagenAmplia 1 (leerInodo imagenAmplia 1)
    (cantBloques imagenAmplia.sb.blockSize (leerInodo imagenAmplia 1).iSize) :=
  consistente_imagenAmplia.enMano enUso_imagenAmplia.1

/-- The empty file of the image grows to `nuevoTam` bytes. -/
def crecida (nuevoTam : Nat) : Ext2 × Inode × Bool :=
  truncarArriba imagenAmplia (leerInodo imagenAmplia 1) nuevoTam

/-- Thirteen blocks, the last one behind the indirect block 19, come and go. -/
theorem achicar_deshace_indirecto : ∃ fs₁ inodo₁,
    truncarArriba imagenAmplia (leerInodo imagenAmplia 1) 13312 = (fs₁, inodo₁, true)
      ∧ inodo₁.iBlock 12 = 19 ∧ fs₁.sb.sFreeBlocksCount = 3
      ∧ ComoAntes imagenAmplia (leerInodo imagenAmplia 1) 0
        (truncarAbajo fs₁ inodo₁ (leerInodo imagenAmplia 1).iSize).1
        (truncarAbajo fs₁ inodo₁ (leerInodo imagenAmplia 1).iSize).2 := by
  have hver : ((crecida 13312).2.2, (crecida 13312).2.1.iBlock 12,
      (crecida 13312).1.sb.sFreeBlocksCount) = (true, 19, 3) := by decide +kernel
  have h0 : cantBloques imagenAmplia.sb.blockSize (leerInodo imagenAmplia 1).iSize = 0 := by
    decide
  obtain ⟨fs₁, inodo₁, ok, hr⟩ : ∃ a b c, crecida 13312 = (a, b, c) := ⟨_, _, _, rfl⟩
  rw [hr] at hver
  obtain ⟨rfl, hver⟩ := Prod.mk.inj hver
  obtain ⟨h12, hlibres⟩ := Prod.mk.inj hver
  have h := achicar_deshace enMano_imagenAmplia (by decide) (by decide) hr
  rw [h0] at h
  exact ⟨fs₁, inodo₁, hr, h12, hlibres, h⟩

/-- A file of twelve blocks gets the index that needs an indirect block, 19, and
    gives it back: the new block was free, both become free, and the indices
    below stay (`leyes_mapa`). -/
theorem leyes_mapa_indirecto : ∃ fs₁ inodo₁ fs₂ inodo₂ fs₃ inodo₃,
    truncarArriba imagenAmplia (leerInodo imagenAmplia 1) 12288 = (fs₁, inodo₁, true)
      ∧ asignarBloque fs₁ 12 inodo₁ = some (fs₂, inodo₂)
      ∧ liberarBloque fs₂ 12 inodo₂ = (fs₃, inodo₃)
      ∧ leerBloque fs₂ 12 inodo₂ = 20 ∧ punterosDe fs₂ inodo₂ 12 = [19]
      ∧ fs₁.bitBloque 20 = false ∧ fs₃.bitBloque 20 = false ∧ fs₃.bitBloque 19 = false
      ∧ ∀ m, m < 12 → leerBloque fs₃ m inodo₃ = leerBloque fs₁ m inodo₁ := by
  have hok : (crecida 12288).2.2 = true := by decide +kernel
  have hver : (asignarBloque (crecida 12288).1 12 (crecida 12288).2.1).map (fun p =>
      (leerBloque p.1 12 p.2, punterosDe p.1 p.2 12,
        (List.range 12).map (punterosDe p.1 p.2))) = some (20, [19], List.replicate 12 []) := by
    decide +kernel
  have h12 : cantBloques imagenAmplia.sb.blockSize 12288 = 12 := by decide
  obtain ⟨fs₁, inodo₁, ok, hr⟩ : ∃ a b c, crecida 12288 = (a, b, c) := ⟨_, _, _, rfl⟩
  rw [hr] at hok hver
  obtain rfl : ok = true := hok
  obtain ⟨⟨fs₂, inodo₂⟩, hasig, hver⟩ := Option.map_eq_some_iff.mp hver
  obtain ⟨h20, hver⟩ := Prod.mk.inj hver
  obtain ⟨h19, hdirectos⟩ := Prod.mk.inj hver
  obtain ⟨fs₃, inodo₃, hlib⟩ : ∃ a b, liberarBloque fs₂ 12 inodo₂ = (a, b) := ⟨_, _, rfl⟩
  -- the file of twelve blocks, and the one of thirteen
  have hmano : EnMano (· ≤ 6) fs₁ 1 inodo₁ 12 ∧ Mismo imagenAmplia fs₁ := by
    rcases enMano_imagenAmplia.truncarArriba (show 12288 < 2 ^ 32 by decide) (by decide) with
      ⟨-, -, hext⟩ | ⟨-, hno, -⟩
    · rw [show truncarArriba _ _ _ = (fs₁, inodo₁, true) from hr] at hext
      exact ⟨h12 ▸ hext.enMano, hext.conserva.guarda.mismo⟩
    · rw [show truncarArriba _ _ _ = (fs₁, inodo₁, true) from hr] at hno
      cases hno
  obtain ⟨hm₁, hmis⟩ := hmano
  have hn₁ : 12 * fs₁.sb.blockSize < 2 ^ 32 := by
    rw [hmis.blockSize]
    decide
  obtain ⟨k, ds, e, hcam, hc⟩ := corte_caminoBloque hn₁
  have hu := hm₁.unoMas hcam hc hasig
  have hm₂ := hu.enMano hm₁ hc
  have hmis₂ := hu.guarda.mismo
  have hn₂ : 12 * fs₂.sb.blockSize < 2 ^ 32 := by
    rw [hmis₂.blockSize]
    exact hn₁
  obtain ⟨⟨-, hlibre⟩, -, -, hput⟩ := (leyes_mapa hn₁).1 inodo₁ fs₂ inodo₂ hm₁ hasig
  obtain ⟨hget, hbits⟩ := (leyes_mapa hn₂).2 inodo₂ fs₃ inodo₃ hm₂ hlib
  have hvol : ∀ c, imagenAmplia.sb.enVolumen c → fs₂.sb.enVolumen c := by
    rw [(hmis.trans hmis₂).enVolumen]
    exact fun _ => id
  refine ⟨fs₁, inodo₁, fs₂, inodo₂, fs₃, inodo₃, hr, hasig, hlib, h20, h19, h20 ▸ hlibre, ?_, ?_,
    fun m hm => (hget m hm).trans (hput m hm)⟩
  · exact (hbits 20 (hvol 20 (by decide))).mpr (.inr (.inl h20.symm))
  · refine (hbits 19 (hvol 19 (by decide))).mpr (.inr (.inr ⟨?_, fun m hm hmem => ?_⟩))
    · rw [h19]
      exact List.mem_singleton_self 19
    · have hnil : punterosDe fs₂ inodo₂ m = [] :=
        List.eq_of_mem_replicate (hdirectos ▸ List.mem_map_of_mem (List.mem_range.mpr hm))
      rw [hnil] at hmem
      exact absurd hmem List.not_mem_nil

end Rfs
