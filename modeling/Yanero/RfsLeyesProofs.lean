import Yanero.RfsMapaProofs
import Yanero.RfsTallerRunProofs

/-! # The laws of the block map

    What one block more and one block less leave alone (`Conserva`): the
    metadata, the blocks of every file up to a number of blocks, and the bytes
    of its data.  Two images that agree on all live sites agree on the bitmaps
    and the counters too (`EnMano.restaurado`), since those are functions of
    who owns what.  From it the get/put laws of `Inode_leerBloque`,
    `Inode_asignarBloque` and `Inode_liberarBloque`. -/

namespace Rfs

open Arboles Palabras

/-! ## What stays -/

section Conserva

variable {fijo : Nat → Prop} {fs fs' fs'' : Ext2} {x n m k e : Nat}
  {inodo inodo' inodo'' : Inode} {ds ps : List Nat}

/-- From `fs` to `fs'` the first `n` blocks of file `x`, the pointer blocks
    that lead to them and every block of the other files stay where they were,
    and the data keeps its bytes. -/
structure Conserva (fijo : Nat → Prop) (fs : Ext2) (x : Nat) (inodo : Inode) (n : Nat)
    (fs' : Ext2) (inodo' : Inode) : Prop where
  guarda : Guarda fijo fs fs'
  propio : ∀ k ps, Vivo (esquema fs.sb) n k ps →
    nodo (buscarBloque fs') inodo'.iBlock k ps = nodo (buscarBloque fs) inodo.iBlock k ps
  ajeno : ∀ y, fs.EnUso y → y ≠ x → ∀ k ps, Vivo (esquema fs.sb) (fs.bloquesDe y) k ps →
    nodo (buscarBloque fs') (leerInodo fs y).iBlock k ps
      = nodo (buscarBloque fs) (leerInodo fs y).iBlock k ps
  datos : ∀ k ps, Vivo (esquema fs.sb) n k ps → ps.length = (esquema fs.sb).nivel k →
    ∀ o, o / fs.sb.blockSize = nodo (buscarBloque fs) inodo.iBlock k ps →
      fs'.disco o = fs.disco o
  datosAjenos : ∀ y, fs.EnUso y → y ≠ x → ∀ k ps, Vivo (esquema fs.sb) (fs.bloquesDe y) k ps →
    ∀ o, o / fs.sb.blockSize = nodo (buscarBloque fs) (leerInodo fs y).iBlock k ps →
      fs'.disco o = fs.disco o

/-- The block at a site depends on the roots of the scheme only. -/
theorem nodo_raices {leer : Nat → Nat → Nat} {raiz raiz' : Nat → Nat}
    (h : raiz' k = raiz k) : nodo leer raiz' k ps = nodo leer raiz k ps := by
  unfold nodo
  rw [h]

theorem Conserva.refl (fijo : Nat → Prop) (fs : Ext2) (x : Nat) (inodo : Inode) (n : Nat) :
    Conserva fijo fs x inodo n fs inodo :=
  ⟨Guarda.refl fijo fs, fun _ _ _ => rfl, fun _ _ _ _ _ _ => rfl, fun _ _ _ _ _ _ => rfl,
    fun _ _ _ _ _ _ _ _ => rfl⟩

theorem Conserva.mono (h : Conserva fijo fs x inodo n fs' inodo') (hm : m ≤ n) :
    Conserva fijo fs x inodo m fs' inodo' :=
  ⟨h.guarda, fun k ps hv => h.propio k ps (hv.mono hm), h.ajeno,
    fun k ps hv => h.datos k ps (hv.mono hm), h.datosAjenos⟩

theorem Conserva.trans (hG : Geometria fijo fs) (h : Conserva fijo fs x inodo n fs' inodo')
    (h' : Conserva fijo fs' x inodo' n fs'' inodo'') :
    Conserva fijo fs x inodo n fs'' inodo'' := by
  have hm := h.guarda.mismo
  have hesq := hm.esquema
  have huso := h.guarda.enUso hG
  -- the other files are the same files in between
  have hajeno : ∀ y, fs.EnUso y → y ≠ x → ∀ k ps, Vivo (esquema fs.sb) (fs.bloquesDe y) k ps →
      Vivo (esquema fs'.sb) (fs'.bloquesDe y) k ps ∧ ∀ leer,
        nodo leer (leerInodo fs' y).iBlock k ps = nodo leer (leerInodo fs y).iBlock k ps := by
    intro y hy _ k ps hv
    refine ⟨?_, fun leer =>
      nodo_raices ((h.guarda.leerInodo hG ⟨hy.1, hy.2.1⟩).iBlock k hv.valido.raiz)⟩
    rw [hesq, h.guarda.bloquesDe hG ⟨hy.1, hy.2.1⟩]
    exact hv
  refine ⟨h.guarda.trans h'.guarda, ?_, ?_, ?_, ?_⟩
  · intro k ps hv
    rw [h'.propio k ps (hesq ▸ hv), h.propio k ps hv]
  · intro y hy hne k ps hv
    obtain ⟨hv', hn⟩ := hajeno y hy hne k ps hv
    have := h'.ajeno y (huso ▸ hy) hne k ps hv'
    rw [hn, hn] at this
    rw [this, h.ajeno y hy hne k ps hv]
  · intro k ps hv hl o ho
    rw [h'.datos k ps (hesq ▸ hv) (hesq ▸ hl) o, h.datos k ps hv hl o ho]
    rw [hm.blockSize, h.propio k ps hv, ho]
  · intro y hy hne k ps hv o ho
    obtain ⟨hv', hn⟩ := hajeno y hy hne k ps hv
    rw [h'.datosAjenos y (huso ▸ hy) hne k ps hv' o, h.datosAjenos y hy hne k ps hv o ho]
    rw [hm.blockSize, hn, h.ajeno y hy hne k ps hv, ho]

/-- The bytes of a data block are those of its words. -/
theorem bytes_de_palabras (hG : Geometria fijo fs) (hm : Mismo fs fs') {c : Nat}
    (hc : fs.sb.enVolumen c)
    (h : ∀ q, q < fs.sb.cantPunteros → buscarBloque fs' c q = buscarBloque fs c q) {o : Nat}
    (ho : o / fs.sb.blockSize = c) : fs'.disco o = fs.disco o := by
  have hbs := cantPunteros_eq fs.sb
  have hdm := Nat.div_add_mod o fs.sb.blockSize
  have hlt := Nat.mod_lt o (blockSize_pos fs.sb)
  rw [ho, Nat.mul_comm] at hdm
  have hq : o % fs.sb.blockSize / 4 < fs.sb.cantPunteros := by omega
  have hw := h _ hq
  rw [buscarBloque, buscarBloque, hm.offsetPtro, hG.offsetPtro_eq hc hq] at hw
  have hbyte := leerPalabra_inj hw (i := o % fs.sb.blockSize % 4) (Nat.mod_lt _ (by decide))
  have hdir : c * fs.sb.blockSize + 4 * (o % fs.sb.blockSize / 4) + o % fs.sb.blockSize % 4
    = o := by
    omega
  rwa [hdir] at hbyte

/-- The family of files with a file in memory. -/
theorem EnMano.reparto_de (hG : Geometria fijo fs) (hg : Guarda fijo fs fs')
    (h : EnMano fijo fs' x inodo n) :
    Reparto (esquema fs.sb) (buscarBloque fs') fs'.bitBloque fs.sb.enVolumen fijo fs.EnUso
      (Function.update (fun y => (leerInodo fs y).iBlock) x inodo.iBlock)
      (Function.update fs.bloquesDe x n) := by
  have hr := h.reparto
  unfold Ext2.Repartido at hr
  rw [hg.mismo.esquema, hg.mismo.enVolumen, hg.enUso hG] at hr
  refine hr.congr (fun y hy k hk => ?_) fun y hy => ?_
  · by_cases hyx : y = x
    · rw [hyx, Function.update_self, Function.update_self]
    · rw [Function.update_of_ne hyx, Function.update_of_ne hyx]
      exact ((hg.leerInodo hG ⟨hy.1, hy.2.1⟩).iBlock k hk).symm
  · by_cases hyx : y = x
    · rw [hyx, Function.update_self, Function.update_self]
    · rw [Function.update_of_ne hyx, Function.update_of_ne hyx]
      exact (hg.bloquesDe hG ⟨hy.1, hy.2.1⟩).symm

/-- One block more keeps everything else. -/
theorem UnoMas.conserva (h : EnMano fijo fs x inodo n) (hc : Corte (esquema fs.sb) k ds n e)
    (hu : UnoMas fijo fs inodo k ds e fs' inodo') : Conserva fijo fs x inodo n fs' inodo' := by
  obtain ⟨b, hi⟩ := hu.injerto
  have hp := cantPunteros_pos fs.sb
  have hN : Function.update fs.bloquesDe x n x = n := Function.update_self ..
  have hF : Function.update (fun y => (leerInodo fs y).iBlock) x inodo.iBlock x = inodo.iBlock :=
    Function.update_self ..
  rw [← hF] at hi
  rw [← hN] at hc
  have hnodo := fun {y : Nat} (hy : fs.EnUso y) =>
    Injerto.nodo_igual h.reparto h.enUso hc hi hy
  have hleer := fun {y k' : Nat} {ps : List Nat} {pos : Nat} (hy : fs.EnUso y)
      (hv : Vivo (esquema fs.sb) (Function.update fs.bloquesDe x n y) k' ps)
      (hpos : pos < (esquema fs.sb).p) =>
    Injerto.leer_igual h.reparto h.enUso hc hi hy hv hpos
  refine ⟨hu.guarda, ?_, ?_, ?_, ?_⟩
  · intro k' ps hv
    have := hnodo h.enUso k' ps (by rwa [hN])
    rwa [Function.update_self, hF] at this
  · intro y hy hne k' ps hv
    have := hnodo hy k' ps (by rwa [Function.update_of_ne hne])
    rwa [Function.update_of_ne hne, Function.update_of_ne hne] at this
  · intro k' ps hv hl o ho
    refine bytes_de_palabras h.geometria hu.guarda.mismo (h.dato hv).1.1 (fun q hq => ?_) ho
    have := hleer h.enUso (by rwa [hN]) hq fun _ => ?_
    · rwa [hF] at this
    · rw [primero_lleno hl, hN]
      exact Nat.ne_of_lt hv.antes
  · intro y hy hne k' ps hv o ho
    have hv' : Vivo (esquema fs.sb) (Function.update fs.bloquesDe x n y) k' ps := by
      rwa [Function.update_of_ne hne]
    have hd := (h.reparto.dentro y hy k' ps hv').1
    rw [Function.update_of_ne hne] at hd
    refine bytes_de_palabras h.geometria hu.guarda.mismo hd (fun q hq => ?_) ho
    have := hleer hy hv' hq fun heq => absurd heq hne
    rwa [Function.update_of_ne hne] at this

/-- One block less keeps everything else. -/
theorem UnoMenos.conserva (h : EnMano fijo fs x inodo (n + 1))
    (hc : Corte (esquema fs.sb) k ds n e) (hu : UnoMenos fijo fs inodo k ds e fs' inodo') :
    Conserva fijo fs x inodo n fs' inodo' := by
  have hN : Function.update fs.bloquesDe x (n + 1) x = n + 1 := Function.update_self ..
  have hN' : Function.update (Function.update fs.bloquesDe x (n + 1)) x n x = n :=
    Function.update_self ..
  have hF : Function.update (fun y => (leerInodo fs y).iBlock) x inodo.iBlock x = inodo.iBlock :=
    Function.update_self ..
  have hq := hu.poda
  rw [← hF] at hq
  have hnodo := fun {y : Nat} (hy : fs.EnUso y) =>
    Poda.nodo_igual h.reparto h.enUso hN hc hq hy
  have hleer := fun {y k' : Nat} {ps : List Nat} {pos : Nat} (hy : fs.EnUso y)
      (hv : Vivo (esquema fs.sb)
        (Function.update (Function.update fs.bloquesDe x (n + 1)) x n y) k' ps)
      (hpos : pos < (esquema fs.sb).p) =>
    Poda.leer_igual h.reparto h.enUso hN hc hq hy hv hpos
  refine ⟨hu.guarda, ?_, ?_, ?_, ?_⟩
  · intro k' ps hv
    have := hnodo h.enUso k' ps (by rwa [hN'])
    rwa [Function.update_self, hF] at this
  · intro y hy hne k' ps hv
    have := hnodo hy k' ps (by rwa [Function.update_of_ne hne, Function.update_of_ne hne])
    rwa [Function.update_of_ne hne, Function.update_of_ne hne] at this
  · intro k' ps hv hl o ho
    refine bytes_de_palabras h.geometria hu.guarda.mismo (h.dato (hv.mono (Nat.le_succ n))).1.1
      (fun q hq => ?_) ho
    have := hleer h.enUso (by rwa [hN']) hq fun _ => ?_
    · rwa [hF] at this
    · rw [primero_lleno hl]
      exact Nat.ne_of_lt hv.antes
  · intro y hy hne k' ps hv o ho
    have hd := (h.reparto.dentro y hy k' ps (by rwa [Function.update_of_ne hne])).1
    rw [Function.update_of_ne hne] at hd
    refine bytes_de_palabras h.geometria hu.guarda.mismo hd (fun q hq => ?_) ho
    have := hleer hy (by rwa [Function.update_of_ne hne, Function.update_of_ne hne]) hq
      fun heq => absurd heq hne
    rwa [Function.update_of_ne hne] at this

/-- What two images with the same files have in common. -/
structure Restaurado (fs : Ext2) (inodo : Inode) (n : Nat) (fs' : Ext2) (inodo' : Inode) :
    Prop where
  sb : fs'.sb = fs.sb
  bgdt : fs'.bgdt = fs.bgdt
  bits : ∀ g j, 0 < fs.sb.tamGrupo g → j < 8 * fs.sb.blockSize →
    fs'.bitGrupo g j = fs.bitGrupo g j
  iBlock : ∀ k, k < 15 → inodo'.iBlock k = inodo.iBlock k
  mapa : ∀ m, m < n → m * fs.sb.blockSize < 2 ^ 32 →
    leerBloque fs' m inodo' = leerBloque fs m inodo

/-- The blocks of a file below a given one are read from the same places. -/
theorem Conserva.leerBloque (h : Conserva fijo fs x inodo n fs' inodo') (hm : m < n)
    (hlt : m * fs.sb.blockSize < 2 ^ 32) :
    leerBloque fs' m inodo' = leerBloque fs m inodo := by
  obtain ⟨k, ds, hc, hv, -, hhoja⟩ := caminoBloque_valido hlt
  have hc' : caminoBloque fs'.sb m = some (k, ds) := by
    unfold caminoBloque Superblock.cantPunteros at hc ⊢
    rw [h.guarda.mismo.blockSize]
    exact hc
  rw [leerBloque_eq, leerBloque_eq, hc, hc']
  exact h.propio k ds ⟨hv, by omega⟩

/-- **THE FILES DETERMINE THE REST**: when a file is back to its number of
    blocks and all live sites are where they were, so are the pointers of the
    inode, the bitmaps and the counters. -/
theorem EnMano.restaurado (h : EnMano fijo fs x inodo n) (h' : EnMano fijo fs' x inodo' n)
    (hc : Conserva fijo fs x inodo n fs' inodo') : Restaurado fs inodo n fs' inodo' := by
  have hG := h.geometria
  have hm := hc.guarda.mismo
  have hN : Function.update fs.bloquesDe x n x = n := Function.update_self ..
  have hbits : ∀ c, fs.sb.enVolumen c → fs'.bitBloque c = fs.bitBloque c := by
    intro c hvol
    refine h.reparto.mismos_bits (EnMano.reparto_de hG hc.guarda h') (fun y hy k ps hv => ?_) hvol
    by_cases hyx : y = x
    · subst hyx
      rw [Function.update_self, Function.update_self]
      exact hc.propio k ps (by rwa [hN] at hv)
    · rw [Function.update_of_ne hyx, Function.update_of_ne hyx]
      exact hc.ajeno y hy hyx k ps (by rwa [Function.update_of_ne hyx] at hv)
  have hgrupo : ∀ g j, j < fs.sb.tamGrupo g → fs'.bitGrupo g j = fs.bitGrupo g j := by
    intro g j hj
    obtain ⟨hvol, hg, hp⟩ := bloque_en hj
    have hb := hbits _ hvol
    have hpos : fs'.sb.posDe = fs.sb.posDe ∧ fs'.sb.grupoDe = fs.sb.grupoDe := by
      unfold Superblock.posDe Superblock.grupoDe
      rw [hm.sb]
      exact ⟨rfl, rfl⟩
    unfold Ext2.bitBloque at hb
    rwa [hpos.1, hpos.2, hg, hp] at hb
  -- the counters are the numbers of clear bits
  have hcuenta : ∀ g, g < fs.sb.cantGrupos →
      (fs'.grupo g).bgFreeBlocksCount = (fs.grupo g).bgFreeBlocksCount := by
    intro g hg
    rw [h'.cuentas.grupos g (by rwa [hm.cantGrupos]), h.cuentas.grupos g hg, hm.tamGrupo]
    refine congrArg Finset.card (Finset.filter_congr fun j hj => ?_)
    rw [hgrupo g j (Finset.mem_range.mp hj)]
  have htotal : fs'.sb.sFreeBlocksCount = fs.sb.sFreeBlocksCount := by
    rw [h'.cuentas.total, h.cuentas.total, hm.cantGrupos]
    exact Finset.sum_congr rfl fun g hg => hcuenta g (Finset.mem_range.mp hg)
  have hdesc : ∀ g, g < fs.sb.cantGrupos → fs'.grupo g = fs.grupo g := by
    intro g hg
    rw [hm.grupo g, hcuenta g hg]
  refine ⟨?_, ?_, ?_, ?_, fun m hmn hlt => hc.leerBloque hmn hlt⟩
  · rw [hm.sb, htotal]
  · refine List.ext_getElem hm.largo fun g h1 h2 => ?_
    have := hdesc g (by rw [← hG.descriptores]; exact h2)
    unfold Ext2.grupo at this
    rwa [List.getD_eq_getElem _ _ h1, List.getD_eq_getElem _ _ h2] at this
  · intro g j hg hj
    by_cases hlt : j < fs.sb.tamGrupo g
    · exact hgrupo g j hlt
    · exact hc.guarda.relleno g j hg (by omega) hj
  · intro k hk
    by_cases hb : (esquema fs.sb).base k < n
    · exact hc.propio k [] ⟨Valido.nil hk, by rwa [primero_nil]⟩
    · have hesq : (esquema fs'.sb).base k = (esquema fs.sb).base k := by rw [hm.esquema]
      rw [h.raizCero hk (by omega), h'.raizCero hk (by omega)]

end Conserva

/-! ## One index -/

section Indice

variable {fijo : Nat → Prop} {fs fs' : Ext2} {x n m k e : Nat} {inodo inodo' : Inode}
  {ds : List Nat}

/-- The pointer blocks that lead to a block index. -/
def punterosDe (fs : Ext2) (inodo : Inode) (nroBloque : Nat) : List Nat :=
  (caminoBloque fs.sb nroBloque).elim [] fun c =>
    (List.range c.2.length).map (sitio fs inodo c.1 c.2)

theorem mem_punterosDe (hc : caminoBloque fs.sb m = some (k, ds)) {c : Nat} :
    c ∈ punterosDe fs inodo m ↔ ∃ j, j < ds.length ∧ c = sitio fs inodo k ds j := by
  rw [punterosDe, hc, Option.elim_some, List.mem_map]
  constructor
  · rintro ⟨j, hj, rfl⟩
    exact ⟨j, List.mem_range.mp hj, rfl⟩
  · rintro ⟨j, hj, rfl⟩
    exact ⟨j, List.mem_range.mpr hj, rfl⟩

theorem leerBloque_sitio (hc : caminoBloque fs.sb m = some (k, ds)) :
    leerBloque fs m inodo = sitio fs inodo k ds ds.length := by
  rw [leerBloque_eq, hc, sitio, List.take_length]
  rfl

theorem Mismo.caminoBloque (h : Mismo fs fs') (m : Nat) :
    caminoBloque fs'.sb m = caminoBloque fs.sb m := by
  unfold Rfs.caminoBloque Superblock.cantPunteros
  rw [h.blockSize]

/-- `Inode_asignarBloque` on the next index: `-1` when the blocks the path
    lacks are more than the free ones, a graft otherwise. -/
theorem EnMano.asignarBloque (h : EnMano fijo fs x inodo n)
    (hcam : caminoBloque fs.sb n = some (k, ds)) (hc : Corte (esquema fs.sb) k ds n e) :
    (fs.sb.sFreeBlocksCount < ds.length + 1 - e ∧ asignarBloque fs n inodo = none) ∨
      ∃ fs' inodo', asignarBloque fs n inodo = some (fs', inodo')
        ∧ UnoMas fijo fs inodo k ds e fs' inodo'
        ∧ ∃ fs₁ viejos nuevos, Toma fijo fs inodo k ds e fs₁ viejos nuevos fs' inodo' := by
  rw [asignarBloque_eq, hcam]
  rcases Nat.lt_or_ge fs.sb.sFreeBlocksCount (ds.length + 1 - e) with hlt | hge
  · exact .inl ⟨hlt, h.asignarCamino_falta hc hlt⟩
  · exact .inr (h.asignarCamino hc hge)

/-- `Inode_asignarBloque` when it succeeds. -/
theorem EnMano.unoMas (h : EnMano fijo fs x inodo n)
    (hcam : caminoBloque fs.sb n = some (k, ds)) (hc : Corte (esquema fs.sb) k ds n e)
    (ha : Rfs.asignarBloque fs n inodo = some (fs', inodo')) :
    UnoMas fijo fs inodo k ds e fs' inodo' := by
  rcases h.asignarBloque hcam hc with ⟨-, hno⟩ | ⟨fs₁, inodo₁, hsi, hu, -⟩
  · rw [hno] at ha
    cases ha
  · rw [hsi] at ha
    cases ha
    exact hu

/-- `Inode_liberarBloque` on the last index. -/
theorem EnMano.liberarBloque (h : EnMano fijo fs x inodo (n + 1))
    (hcam : caminoBloque fs.sb n = some (k, ds)) (hc : Corte (esquema fs.sb) k ds n e) :
    UnoMenos fijo fs inodo k ds e (liberarBloque fs n inodo).1 (liberarBloque fs n inodo).2 := by
  rw [liberarBloque_eq, hcam]
  exact h.liberarCamino hc

/-- The sites of the new path hold the blocks that were taken. -/
theorem UnoMas.sitio_nuevo (h : EnMano fijo fs x inodo n) (hc : Corte (esquema fs.sb) k ds n e)
    {b : Nat → Nat} (hi : Injerto (esquema fs.sb) (buscarBloque fs) (buscarBloque fs')
      fs.bitBloque fs'.bitBloque fs.sb.enVolumen fijo inodo.iBlock inodo'.iBlock k ds e b)
    {j : Nat} (hj : e ≤ j) (hl : j ≤ ds.length) : sitio fs' inodo' k ds j = b j := by
  have hN : Function.update fs.bloquesDe x n x = n := Function.update_self ..
  have hF : Function.update (fun y => (leerInodo fs y).iBlock) x inodo.iBlock x = inodo.iBlock :=
    Function.update_self ..
  rw [← hF] at hi
  rw [← hN] at hc
  exact Injerto.nodo_nuevo h.reparto h.enUso hc hi j hj hl

/-- A pointer block of the path of an index leads to an earlier one exactly
    above the cut. -/
theorem EnMano.puntero_vivo (h : EnMano fijo fs x inodo (n + 1))
    (hn : n * fs.sb.blockSize < 2 ^ 32) (hc : Corte (esquema fs.sb) k ds n e) {j : Nat}
    (hj : j < ds.length) :
    (∃ m, m < n ∧ sitio fs inodo k ds j ∈ punterosDe fs inodo m) ↔ j < e := by
  have hvivo : Vivo (esquema fs.sb) (n + 1) k (ds.take j) := by
    by_cases hje : j < e
    · exact (hc.vivo_take hje).mono (Nat.le_succ n)
    · exact hc.vivo_desde (by omega) (Nat.le_of_lt hj)
  have hmn : ∀ {m}, m < n → m * fs.sb.blockSize < 2 ^ 32 := fun hm =>
    lt_of_le_of_lt (Nat.mul_le_mul_right _ (Nat.le_of_lt hm)) hn
  constructor
  · rintro ⟨m, hm, hmem⟩
    obtain ⟨k', ds', hcam, hv, -, hhoja⟩ := caminoBloque_valido (hmn hm)
    obtain ⟨i, -, heq⟩ := (mem_punterosDe hcam).mp hmem
    have hle : (esquema fs.sb).primero k' (ds'.take i) ≤ m := by
      have := @primero_take_le (esquema fs.sb) k' ds' _ _
        (Nat.min_le_right i ds'.length)
      rw [List.take_length, ← List.take_eq_take_min] at this
      omega
    -- one site only holds the block, and it starts at most at `m`
    obtain ⟨rfl, htake⟩ := h.distintos hvivo ⟨hv.take i, by omega⟩ heq
    rw [← htake] at hle
    by_contra hje
    have := hc.desde (j := j) (by omega) (Nat.le_of_lt hj)
    omega
  · intro hje
    have hlt := hc.vivo j hje
    obtain ⟨k', ds', hcam, hv, hlen, hhoja⟩ := caminoBloque_valido (hmn hlt)
    -- the path of its first leaf goes through it
    obtain ⟨rfl, htake⟩ := primero_unico (cantPunteros_pos fs.sb) (hc.valido.take j) hv hlen
      hhoja.symm
    rw [List.length_take_of_le (Nat.le_of_lt hj)] at htake
    refine ⟨_, hlt, (mem_punterosDe hcam).mpr ⟨j, ?_, ?_⟩⟩
    · rw [hlen, ← hc.completo]
      exact hj
    · rw [sitio, sitio, htake]

/-- **GET AFTER PUT**: the next block of a file is one that was free, different
    from the pointer blocks that lead to it, nothing but these was taken, and
    the blocks before stay. -/
theorem leer_asignar (hn : n * fs.sb.blockSize < 2 ^ 32) (h : EnMano fijo fs x inodo n)
    (ha : asignarBloque fs n inodo = some (fs', inodo')) :
    (fs.sb.enVolumen (leerBloque fs' n inodo') ∧ fs.bitBloque (leerBloque fs' n inodo') = false)
      ∧ leerBloque fs' n inodo' ∉ punterosDe fs' inodo' n
      ∧ (∀ c, fs.sb.enVolumen c → (fs'.bitBloque c = true ↔ fs.bitBloque c = true
          ∨ c = leerBloque fs' n inodo'
          ∨ fs.bitBloque c = false ∧ c ∈ punterosDe fs' inodo' n))
      ∧ ∀ m, m < n → leerBloque fs' m inodo' = leerBloque fs m inodo := by
  obtain ⟨k, ds, e, hcam, hc⟩ := @corte_caminoBloque _ fs.sb hn
  have hu := h.unoMas hcam hc ha
  obtain ⟨b, hi⟩ := hu.injerto
  have hsit := fun {j : Nat} => UnoMas.sitio_nuevo h hc hi (j := j)
  have hcam' : caminoBloque fs'.sb n = some (k, ds) :=
    (hu.guarda.mismo.caminoBloque n).trans hcam
  have hleer : leerBloque fs' n inodo' = b ds.length := by
    rw [leerBloque_sitio hcam', hsit hc.largo (Nat.le_refl _)]
  have h' := hu.enMano h hc
  have hvivo : ∀ j, j ≤ ds.length → Vivo (esquema fs'.sb) (n + 1) k (ds.take j) := by
    intro j hj
    rw [hu.guarda.mismo.esquema]
    by_cases hje : j < e
    · exact (hc.vivo_take hje).mono (Nat.le_succ n)
    · exact hc.vivo_desde (by omega) hj
  refine ⟨?_, ?_, ?_, ?_⟩
  · rw [hleer]
    exact hi.libre _ hc.largo (Nat.le_refl _)
  · intro hmem
    obtain ⟨j, hj, heq⟩ := (mem_punterosDe hcam').mp hmem
    rw [leerBloque_sitio hcam'] at heq
    have htake := (h'.distintos (hvivo _ (Nat.le_refl _)) (hvivo j (Nat.le_of_lt hj)) heq).2
    have := congrArg List.length htake
    rw [List.length_take, List.length_take] at this
    omega
  · intro c hvol
    rw [hi.bitNuevo c hvol]
    refine or_congr Iff.rfl ⟨?_, ?_⟩
    · rintro ⟨j, hj, hl, rfl⟩
      rcases Nat.lt_or_eq_of_le hl with hlt | rfl
      · exact .inr ⟨(hi.libre j hj hl).2, (mem_punterosDe hcam').mpr ⟨j, hlt, (hsit hj hl).symm⟩⟩
      · exact .inl hleer.symm
    · rintro (rfl | ⟨hbit, hmem⟩)
      · exact ⟨ds.length, hc.largo, Nat.le_refl _, hleer⟩
      · obtain ⟨j, hj, rfl⟩ := (mem_punterosDe hcam').mp hmem
        refine ⟨j, ?_, Nat.le_of_lt hj, hsit ?_ (Nat.le_of_lt hj)⟩ <;>
        · by_contra hlt
          have hold := (hu.conserva h hc).propio k (ds.take j) (hc.vivo_take (by omega))
          have hm := (h.dato (hc.vivo_take (show j < e by omega))).2
          rw [← hold] at hm
          rw [sitio, hm] at hbit
          cases hbit
  · intro m hm
    exact (hu.conserva h hc).leerBloque hm
      (lt_of_le_of_lt (Nat.mul_le_mul_right _ (Nat.le_of_lt hm)) hn)

/-- **GET AFTER RELEASE**: the blocks before stay, and what became free is the
    last block and the pointer blocks that lead to no block before it. -/
theorem leer_liberar (hn : n * fs.sb.blockSize < 2 ^ 32) (h : EnMano fijo fs x inodo (n + 1))
    (hl : liberarBloque fs n inodo = (fs', inodo')) :
    (∀ m, m < n → leerBloque fs' m inodo' = leerBloque fs m inodo)
      ∧ ∀ c, fs.sb.enVolumen c → (fs'.bitBloque c = false ↔ fs.bitBloque c = false
          ∨ c = leerBloque fs n inodo
          ∨ c ∈ punterosDe fs inodo n ∧ ∀ m, m < n → c ∉ punterosDe fs inodo m) := by
  obtain ⟨k, ds, e, hcam, hc⟩ := @corte_caminoBloque _ fs.sb hn
  have hu := h.liberarBloque hcam hc
  rw [hl] at hu
  refine ⟨fun m hm => (hu.conserva h hc).leerBloque hm
    (lt_of_le_of_lt (Nat.mul_le_mul_right _ (Nat.le_of_lt hm)) hn), fun c hvol => ?_⟩
  have hbit := hu.poda.bitNuevo c hvol
  rw [← Bool.not_eq_true, hbit, Classical.not_and_iff_not_or_not, Bool.not_eq_true]
  refine or_congr Iff.rfl ⟨?_, ?_⟩
  · intro hno
    obtain ⟨j, hj, hjl, rfl⟩ : ∃ j, e ≤ j ∧ j ≤ ds.length ∧ c = sitio fs inodo k ds j := by
      by_contra hnin
      exact hno fun j hj hjl heq => hnin ⟨j, hj, hjl, heq⟩
    rcases Nat.lt_or_eq_of_le hjl with hlt | rfl
    · refine .inr ⟨(mem_punterosDe hcam).mpr ⟨j, hlt, rfl⟩, fun m hm hmem => ?_⟩
      have := (h.puntero_vivo hn hc hlt).mp ⟨m, hm, hmem⟩
      omega
    · exact .inl (leerBloque_sitio hcam).symm
  · rintro (rfl | ⟨hmem, hno⟩) hall
    · exact hall ds.length hc.largo (Nat.le_refl _) (leerBloque_sitio hcam)
    · obtain ⟨j, hj, rfl⟩ := (mem_punterosDe hcam).mp hmem
      have hje : e ≤ j := by
        by_contra hlt
        obtain ⟨m, hm, hin⟩ := (h.puntero_vivo hn hc hj).mpr (by omega)
        exact hno m hm hin
      exact hall j hje (Nat.le_of_lt hj) rfl

/-- **THE BLOCK MAP**: for a file of `n` blocks on a consistent image, as many
    as a 32-bit size allows, a successful `Inode_asignarBloque(n)` maps index
    `n` to a block that was free and is none of the pointer blocks it took, and
    keeps the indices below; for a file of `n + 1` blocks
    `Inode_liberarBloque(n)` keeps the indices below and frees exactly the block
    of index `n` and the pointer blocks that lead to no other index. -/
theorem leyes_mapa (hn : n * fs.sb.blockSize < 2 ^ 32) :
    (∀ inodo fs' inodo', EnMano fijo fs x inodo n →
      asignarBloque fs n inodo = some (fs', inodo') →
      (fs.sb.enVolumen (leerBloque fs' n inodo')
          ∧ fs.bitBloque (leerBloque fs' n inodo') = false)
        ∧ leerBloque fs' n inodo' ∉ punterosDe fs' inodo' n
        ∧ (∀ c, fs.sb.enVolumen c → (fs'.bitBloque c = true ↔ fs.bitBloque c = true
            ∨ c = leerBloque fs' n inodo'
            ∨ fs.bitBloque c = false ∧ c ∈ punterosDe fs' inodo' n))
        ∧ ∀ m, m < n → leerBloque fs' m inodo' = leerBloque fs m inodo)
      ∧ ∀ inodo fs' inodo', EnMano fijo fs x inodo (n + 1) →
        liberarBloque fs n inodo = (fs', inodo') →
        (∀ m, m < n → leerBloque fs' m inodo' = leerBloque fs m inodo)
          ∧ ∀ c, fs.sb.enVolumen c → (fs'.bitBloque c = false ↔ fs.bitBloque c = false
            ∨ c = leerBloque fs n inodo
            ∨ c ∈ punterosDe fs inodo n ∧ ∀ m, m < n → c ∉ punterosDe fs inodo m) :=
  ⟨fun _ _ _ h ha => leer_asignar hn h ha, fun _ _ _ h hl => leer_liberar hn h hl⟩

end Indice

end Rfs
