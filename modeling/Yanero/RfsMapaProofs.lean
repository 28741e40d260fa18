import Yanero.RfsAccesosProofs

/-! # The block map of a file

    One more block and one less, on a consistent image.  A file under work is
    in memory (`EnMano`): its inode there, everything else on the image.
    `Inode_asignarBloque` grafts the path of the next index onto the file
    (`Injerto`) or takes nothing, and `Inode_liberarBloque` cuts the path of
    the last index off (`Poda`): the pointer blocks the one creates, by looking
    for zero pointers, are the ones the other releases, by looking at the
    positions. -/

namespace Rfs

open Arboles Palabras

/-- File `x` is worked on in memory: `inodo` is its inode, with `n` blocks, and
    the rest of the image is consistent with it. -/
structure EnMano (fijo : Nat → Prop) (fs : Ext2) (x : Nat) (inodo : Inode) (n : Nat) : Prop where
  geometria : Geometria fijo fs
  cuentas : Cuentas fs
  enUso : fs.EnUso x
  reparto : fs.Repartido fijo (Function.update (fun y => (leerInodo fs y).iBlock) x inodo.iBlock)
    (Function.update fs.bloquesDe x n)
  cabe : ∀ k, k < 15 → inodo.iBlock k < 2 ^ 32

/-! ## The path of an index -/

section Camino

variable {fijo : Nat → Prop} {fs : Ext2} {n : Nat}

/-- The direct blocks and the first index behind the simple indirect one. -/
theorem base_esquema (sb : Superblock) {k : Nat} (hk : k ≤ 12) : (esquema sb).base k = k := by
  induction k with
  | zero => rfl
  | succ k ih =>
      have hniv : (esquema sb).nivel k = 0 := by
        show k - 11 = 0
        omega
      rw [Esquema.base, ih (by omega), hniv, Nat.pow_zero]

/-- The first index behind the double indirect block. -/
theorem base_trece (sb : Superblock) : (esquema sb).base 13 = 12 + sb.cantPunteros := by
  rw [Esquema.base, base_esquema sb (Nat.le_refl 12)]
  show 12 + sb.cantPunteros ^ 1 = _
  rw [Nat.pow_one]

/-- The first index behind the triple indirect block. -/
theorem base_catorce (sb : Superblock) :
    (esquema sb).base 14 = 12 + sb.cantPunteros + sb.cantPunteros * sb.cantPunteros := by
  rw [Esquema.base, base_trece]
  show 12 + sb.cantPunteros + sb.cantPunteros ^ 2 = _
  rw [Nat.pow_two]

/-- What the widths of the source allow below 4 GiB: no product of the block
    map wraps, and no index passes the three levels. -/
theorem anchos {sb : Superblock} (hn : n * sb.blockSize < 2 ^ 32) (h12 : 12 ≤ n)
    (hp : sb.cantPunteros ≤ n - 12) :
    u32 (sb.cantPunteros * sb.cantPunteros) = sb.cantPunteros * sb.cantPunteros
      ∧ (sb.cantPunteros * sb.cantPunteros ≤ n - 12 - sb.cantPunteros →
        resta32 (n - 12 - sb.cantPunteros) (sb.cantPunteros * sb.cantPunteros)
            = n - 12 - sb.cantPunteros - sb.cantPunteros * sb.cantPunteros
          ∧ n - 12 - sb.cantPunteros - sb.cantPunteros * sb.cantPunteros
            < u32 (sb.cantPunteros * sb.cantPunteros * sb.cantPunteros)) := by
  have hbs := blockSize_eq sb
  have hcp := cantPunteros_eq sb
  generalize sb.sLogBlockSize = s at hbs
  have hpe : sb.cantPunteros = 256 * 2 ^ s := by omega
  -- an index past the single level leaves block sizes up to 64 KiB
  have hs : s < 7 := by
    by_contra hge
    have h1 : 2 ^ 7 ≤ 2 ^ s := Nat.pow_le_pow_right (by decide) (by omega)
    have h2 : sb.cantPunteros * sb.blockSize ≤ n * sb.blockSize :=
      Nat.mul_le_mul_right _ (by omega)
    have h3 : 256 * 2 ^ 7 * (1024 * 2 ^ 7) ≤ sb.cantPunteros * sb.blockSize := by
      rw [hpe, hbs]
      exact Nat.mul_le_mul (Nat.mul_le_mul_left _ h1) (Nat.mul_le_mul_left _ h1)
    omega
  rw [hbs] at hn
  rw [hpe] at hp ⊢
  unfold u32 resta32 u32
  interval_cases s <;> norm_num at hn hp ⊢ <;> omega

/-- **THE PATH** of an index of a file below 4 GiB: a full path of the scheme
    that leads to that leaf. -/
theorem caminoBloque_valido {sb : Superblock} (hn : n * sb.blockSize < 2 ^ 32) :
    ∃ k ds, caminoBloque sb n = some (k, ds) ∧ Valido (esquema sb) k ds
      ∧ ds.length = (esquema sb).nivel k ∧ (esquema sb).primero k ds = n := by
  have hp := cantPunteros_pos sb
  have hmod : ∀ m, m % sb.cantPunteros < sb.cantPunteros := fun m => Nat.mod_lt m hp
  unfold caminoBloque
  dsimp only
  by_cases h1 : n < 12
  · refine ⟨n, [], by rw [if_pos h1], Valido.nil (show n < 15 by omega), ?_, ?_⟩
    · show 0 = n - 11
      omega
    · rw [primero_nil, base_esquema sb (by omega)]
  rw [if_neg h1]
  by_cases h2 : n - 12 < sb.cantPunteros
  · refine ⟨12, [n - 12], by rw [if_pos h2], ⟨(show 12 < 15 by decide), Nat.le_refl 1, ?_⟩, rfl, ?_⟩
    · intro pos hpos
      rw [List.mem_singleton.mp hpos]
      exact h2
    · rw [Esquema.primero, base_esquema sb (Nat.le_refl 12)]
      show 12 + ((n - 12) * sb.cantPunteros ^ 0 + 0) = n
      rw [Nat.pow_zero]
      omega
  rw [if_neg h2]
  obtain ⟨hpp, hresto⟩ := anchos hn (by omega) (by omega)
  rw [hpp]
  by_cases h3 : n - 12 - sb.cantPunteros < sb.cantPunteros * sb.cantPunteros
  · refine ⟨13, [_, _], by rw [if_pos h3], ⟨(show 13 < 15 by decide),
      (show 2 ≤ 13 - 11 by decide), ?_⟩, rfl, ?_⟩
    · intro pos hpos
      simp only [List.mem_cons, List.not_mem_nil, or_false] at hpos
      rcases hpos with rfl | rfl
      · exact Nat.div_lt_of_lt_mul h3
      · exact hmod _
    · have hdm := Nat.div_add_mod (n - 12 - sb.cantPunteros) sb.cantPunteros
      rw [Nat.mul_comm] at hdm
      rw [Esquema.primero, base_trece]
      show 12 + sb.cantPunteros + ((n - 12 - sb.cantPunteros) / sb.cantPunteros
        * sb.cantPunteros ^ 1 + ((n - 12 - sb.cantPunteros) % sb.cantPunteros
        * sb.cantPunteros ^ 0 + 0)) = n
      rw [Nat.pow_one, Nat.pow_zero]
      omega
  rw [if_neg h3]
  obtain ⟨hr, hlt⟩ := hresto (by omega)
  rw [hr, if_pos hlt]
  generalize hm : n - 12 - sb.cantPunteros - sb.cantPunteros * sb.cantPunteros = m at hlt
  refine ⟨14, [_, _, _], rfl, ⟨(show 14 < 15 by decide), (show 3 ≤ 14 - 11 by decide), ?_⟩,
    rfl, ?_⟩
  · have hle : u32 (sb.cantPunteros * sb.cantPunteros * sb.cantPunteros)
        ≤ sb.cantPunteros * sb.cantPunteros * sb.cantPunteros := Nat.mod_le _ _
    intro pos hpos
    simp only [List.mem_cons, List.not_mem_nil, or_false] at hpos
    rcases hpos with rfl | rfl | rfl
    · rw [Nat.div_div_eq_div_mul]
      exact Nat.div_lt_of_lt_mul (Nat.lt_of_lt_of_le hlt hle)
    · exact hmod _
    · exact hmod _
  · have hdm := Nat.div_add_mod m sb.cantPunteros
    have hdm' := Nat.div_add_mod (m / sb.cantPunteros) sb.cantPunteros
    rw [Esquema.primero, base_catorce]
    show 12 + sb.cantPunteros + sb.cantPunteros * sb.cantPunteros
      + (m / sb.cantPunteros / sb.cantPunteros * sb.cantPunteros ^ 2
        + (m / sb.cantPunteros % sb.cantPunteros * sb.cantPunteros ^ 1
        + (m % sb.cantPunteros * sb.cantPunteros ^ 0 + 0))) = n
    have hprod : m / sb.cantPunteros / sb.cantPunteros * sb.cantPunteros ^ 2
        + m / sb.cantPunteros % sb.cantPunteros * sb.cantPunteros
        = sb.cantPunteros * (m / sb.cantPunteros) := by
      conv_rhs => rw [← hdm']
      ring
    rw [Nat.pow_one, Nat.pow_zero]
    omega

/-- The path of an index and the depth from which on it is the file's own. -/
theorem corte_caminoBloque {sb : Superblock} (hn : n * sb.blockSize < 2 ^ 32) :
    ∃ k ds e, caminoBloque sb n = some (k, ds) ∧ Corte (esquema sb) k ds n e := by
  obtain ⟨k, ds, hc, hv, hlen, hhoja⟩ := caminoBloque_valido hn
  obtain ⟨e, he⟩ := Corte.existe hv hlen hhoja
  exact ⟨k, ds, e, hc, he⟩

end Camino

/-! ## A file in memory -/

section EnMano

variable {fijo : Nat → Prop} {fs fs' : Ext2} {x n m k : Nat} {inodo inodo' : Inode}
  {ps : List Nat}

/-- The block at a depth of a path. -/
def sitio (fs : Ext2) (inodo : Inode) (k : Nat) (ds : List Nat) (j : Nat) : Nat :=
  nodo (buscarBloque fs) inodo.iBlock k (ds.take j)

/-- A file of the image taken to memory. -/
theorem Consistente.enMano (h : Consistente fijo fs) (hx : fs.EnUso x) :
    EnMano fijo fs x (leerInodo fs x) (fs.bloquesDe x) := by
  refine ⟨h.geometria, h.cuentas, hx, ?_, (leerInodo_cabe fs x).iBlock⟩
  rw [Function.update_eq_self_iff.mpr rfl, Function.update_eq_self_iff.mpr rfl]
  exact h.reparto

/-- The blocks of a file in memory are data blocks that are taken. -/
theorem EnMano.dato (h : EnMano fijo fs x inodo n) (hv : Vivo (esquema fs.sb) n k ps) :
    Dato fijo fs (nodo (buscarBloque fs) inodo.iBlock k ps)
      ∧ fs.bitBloque (nodo (buscarBloque fs) inodo.iBlock k ps) = true := by
  have hv' : Vivo (esquema fs.sb) (Function.update fs.bloquesDe x n x) k ps := by
    rwa [Function.update_self]
  have hd := h.reparto.dentro x h.enUso k ps hv'
  have hm := h.reparto.marcado h.enUso hv'
  rw [Function.update_self] at hd hm
  exact ⟨hd, hm⟩

/-- A live site is not zero. -/
theorem EnMano.no_cero (h : EnMano fijo fs x inodo n) (hv : Vivo (esquema fs.sb) n k ps) :
    nodo (buscarBloque fs) inodo.iBlock k ps ≠ 0 := by
  intro h0
  obtain ⟨⟨hvol, hno⟩, -⟩ := h.dato hv
  rw [h0] at hvol hno
  exact hno (h.geometria.cero hvol)

/-- A root past the file is zero. -/
theorem EnMano.raizCero (h : EnMano fijo fs x inodo n) (hk : k < 15)
    (hn : n ≤ (esquema fs.sb).base k) : inodo.iBlock k = 0 := by
  have := h.reparto.raizCero x h.enUso k hk (by rwa [Function.update_self])
  rwa [Function.update_self] at this

/-- A pointer past the file is zero. -/
theorem EnMano.hijoCero (h : EnMano fijo fs x inodo n) {pos : Nat}
    (hv : Vivo (esquema fs.sb) n k ps) (hval : Valido (esquema fs.sb) k (ps ++ [pos]))
    (hn : n ≤ (esquema fs.sb).primero k (ps ++ [pos])) :
    buscarBloque fs (nodo (buscarBloque fs) inodo.iBlock k ps) pos = 0 := by
  have := h.reparto.hijoCero x h.enUso k ps pos (by rwa [Function.update_self]) hval
    (by rwa [Function.update_self])
  rwa [Function.update_self] at this

/-- No two live sites have one block. -/
theorem EnMano.distintos (h : EnMano fijo fs x inodo n) {k' : Nat} {ps' : List Nat}
    (hv : Vivo (esquema fs.sb) n k ps) (hw : Vivo (esquema fs.sb) n k' ps')
    (heq : nodo (buscarBloque fs) inodo.iBlock k ps
      = nodo (buscarBloque fs) inodo.iBlock k' ps') : k = k' ∧ ps = ps' := by
  have hself : Function.update fs.bloquesDe x n x = n := Function.update_self ..
  refine (h.reparto.distintos x x h.enUso h.enUso k ps k' ps' ?_ ?_ ?_).2
  · rwa [hself]
  · rwa [hself]
  · rwa [Function.update_self]

/-- Work on data blocks that leaves the pool well shared leaves a file in
    memory. -/
theorem EnMano.tras (h : EnMano fijo fs x inodo n) (hg : Guarda fijo fs fs') (hC : Cuentas fs')
    (hr : Reparto (esquema fs.sb) (buscarBloque fs') fs'.bitBloque fs.sb.enVolumen fijo fs.EnUso
      (Function.update (fun y => (Rfs.leerInodo fs y).iBlock) x inodo'.iBlock)
      (Function.update fs.bloquesDe x m))
    (hcabe : ∀ k, k < 15 → inodo'.iBlock k < 2 ^ 32) : EnMano fijo fs' x inodo' m := by
  have hG := h.geometria
  have hm := hg.mismo
  refine ⟨hm.geometria hG, hC, ?_, ?_, hcabe⟩
  · rw [hg.enUso hG]
    exact h.enUso
  · unfold Ext2.Repartido
    rw [hm.esquema, hm.enVolumen, hg.enUso hG]
    refine hr.congr (fun y hy k hk => ?_) fun y hy => ?_
    · by_cases hyx : y = x
      · rw [hyx, Function.update_self, Function.update_self]
      · rw [Function.update_of_ne hyx, Function.update_of_ne hyx]
        exact (hg.leerInodo hG ⟨hy.1, hy.2.1⟩).iBlock k hk
    · by_cases hyx : y = x
      · rw [hyx, Function.update_self, Function.update_self]
      · rw [Function.update_of_ne hyx, Function.update_of_ne hyx]
        exact hg.bloquesDe hG ⟨hy.1, hy.2.1⟩

end EnMano

/-! ## The pointer blocks of a path -/

section Punteros

variable {fijo : Nat → Prop} {fs : Ext2} {x n k e : Nat} {inodo : Inode} {ds : List Nat}

/-- The pointer blocks found below a block: `m` of them, up to the first zero
    pointer. -/
theorem punterosBajo_eq : ∀ (ps : List Nat) (b m : Nat), m < ps.length →
    (∀ j, j < m → seguir (buscarBloque fs) b (ps.take (j + 1)) ≠ 0) →
    (m + 1 < ps.length → seguir (buscarBloque fs) b (ps.take (m + 1)) = 0) →
    punterosBajo fs b ps
      = (List.range m).map fun j => seguir (buscarBloque fs) b (ps.take (j + 1)) := by
  intro ps
  induction ps with
  | nil => intro b m hm; cases hm
  | cons pos ps ih =>
      intro b m hm hvivo hcero
      cases ps with
      | nil =>
          have : m = 0 := by simpa using hm
          subst this
          rfl
      | cons pos2 ps =>
          cases m with
          | zero => exact punterosBajo_cero (hcero (by simp))
          | succ m =>
              rw [punterosBajo_cons (hvivo 0 (Nat.succ_pos m)), List.range_succ_eq_map,
                List.map_cons, List.map_map]
              refine congrArg₂ _ rfl (ih _ m (by simpa using hm) (fun j hj => ?_) fun hl => ?_)
              · exact hvivo (j + 1) (by omega)
              · exact hcero (by simpa using hl)

/-- The pointer blocks a file already has on a path: those before depth `e`. -/
theorem EnMano.punterosViejos (h : EnMano fijo fs x inodo n)
    (hc : Corte (esquema fs.sb) k ds n e) :
    punterosViejos fs inodo k ds = (List.range e).map (sitio fs inodo k ds) := by
  have hvivo : ∀ j, j < e → sitio fs inodo k ds j ≠ 0 := fun j hj => h.no_cero (hc.vivo_take hj)
  -- the first site that is not live holds a zero
  have hcero : sitio fs inodo k ds e = 0 := by
    have hm := hc.muerto
    cases e with
    | zero =>
        rw [List.take_zero, primero_nil] at hm
        exact h.raizCero hc.valido.raiz (by omega)
    | succ j =>
        have hlt : j < ds.length := hc.largo
        have hval := hc.valido.take (j + 1)
        unfold sitio
        rw [nodo_take_succ hlt]
        rw [take_succ_getD hlt] at hm hval
        exact h.hijoCero (hc.vivo_take (Nat.lt_succ_self j)) hval (by omega)
  by_cases hnil : ds = []
  · have he : e = 0 := by
      have := hc.largo
      rw [hnil] at this
      exact Nat.le_zero.mp this
    subst he
    rw [Rfs.punterosViejos, if_pos hnil]
    rfl
  cases e with
  | zero => exact punterosViejos_cero fs ds hcero
  | succ m =>
      have hraiz : inodo.iBlock k ≠ 0 := hvivo 0 (Nat.succ_pos m)
      rw [Rfs.punterosViejos, if_neg hnil, if_neg hraiz,
        punterosBajo_eq ds _ m hc.largo (fun j hj => hvivo (j + 1) (by omega)) fun _ => hcero,
        List.range_succ_eq_map, List.map_cons, List.map_map]
      rfl

end Punteros

/-! ## One block more -/

section Asignar

/-- What the links of a path are made of. -/
theorem mem_enlaces : ∀ {bs ps : List Nat} {a : Acceso}, a ∈ enlaces bs ps →
    ∃ b pos v, a = .puntero b pos v ∧ b ∈ bs ∧ pos ∈ ps ∧ v ∈ bs := by
  intro bs
  induction bs with
  | nil => intro ps a ha; cases ha
  | cons b bs ih =>
      intro ps a ha
      cases bs with
      | nil => cases ha
      | cons b' bs =>
          cases ps with
          | nil => cases ha
          | cons pos ps =>
              rcases List.mem_cons.mp ha with rfl | ha
              · exact ⟨b, pos, b', rfl, by simp, by simp, by simp⟩
              · obtain ⟨c, q, v, rfl, hc, hq, hv⟩ := ih ha
                exact ⟨c, q, v, rfl, List.mem_cons_of_mem _ hc, List.mem_cons_of_mem _ hq,
                  List.mem_cons_of_mem _ hv⟩

theorem mem_escrituras {viejos nuevos ps : List Nat} {a : Acceso}
    (ha : a ∈ escrituras viejos nuevos ps) :
    (∃ b, a = .inicializar b ∧ b ∈ nuevos) ∨
      ∃ b pos v, a = .puntero b pos v ∧ b ∈ viejos ++ nuevos ∧ pos ∈ ps
        ∧ v ∈ viejos ++ nuevos := by
  rcases List.mem_append.mp ha with ha | ha
  · obtain ⟨b, hb, rfl⟩ := List.mem_map.mp ha
    exact .inl ⟨b, rfl, List.dropLast_subset _ hb⟩
  · obtain ⟨b, pos, v, rfl, hb, hpos, hv⟩ := mem_enlaces ha
    exact .inr ⟨b, pos, v, rfl, List.mem_of_mem_drop hb, List.mem_of_mem_drop hpos,
      List.mem_of_mem_drop hv⟩

/-- An assignment gives nothing back. -/
theorem liberados_escrituras (viejos nuevos ps : List Nat) :
    liberados (escrituras viejos nuevos ps) = [] := by
  refine List.eq_nil_iff_forall_not_mem.mpr fun b hb => ?_
  obtain ⟨a, ha, hab⟩ := List.mem_filterMap.mp hb
  rcases mem_escrituras ha with ⟨c, rfl, -⟩ | ⟨c, q, v, rfl, -⟩
  · cases hab
  · cases hab

/-- The blocks of a path once its new ones are taken. -/
def bloqueCamino (viejos nuevos : List Nat) (e j : Nat) : Nat :=
  if j < e then viejos.getD j 0 else nuevos.getD (j - e) 0

variable {leer : Nat → Nat → Nat} {viejos nuevos ds : List Nat} {e : Nat}

/-- The blocks of a path, old ones first. -/
theorem getD_camino (he : viejos.length = e) (j : Nat) :
    (viejos ++ nuevos).getD j 0 = bloqueCamino viejos nuevos e j := by
  unfold bloqueCamino
  by_cases hj : j < e
  · rw [if_pos hj, List.getD_append _ _ _ _ (by omega)]
  · rw [if_neg hj, List.getD_append_right _ _ _ _ (by omega), he]

theorem getD_drop_eq (l : List Nat) (a i : Nat) : (l.drop a).getD i 0 = l.getD (a + i) 0 := by
  rw [List.getD_eq_getElem?_getD, List.getElem?_drop, ← List.getD_eq_getElem?_getD]

/-- The pointers a block has after the writes of an assignment, when it is not
    a new pointer block nor holds a link. -/
theorem leerTras_escrituras_fuera (he : viejos.length = e) {c q : Nat}
    (hc : c ∉ nuevos.dropLast)
    (hq : ∀ j, e ≤ j + 1 → j < ds.length → j + 1 < (viejos ++ nuevos).length →
      c = bloqueCamino viejos nuevos e j → q ≠ ds.getD j 0) :
    leerTras leer (escrituras viejos nuevos ds) c q = leer c q := by
  rw [escrituras, leerTras_append, leerTras_enlaces_fuera, leerTras_inicializar, if_neg hc]
  intro i hi hi' heq
  rw [he] at hi hi' heq ⊢
  rw [List.length_drop] at hi hi'
  rw [getD_drop_eq, getD_camino he] at heq
  rw [getD_drop_eq]
  exact hq _ (by omega) (by omega) (by omega) heq

/-- The link of each depth from the last old block on. -/
theorem leerTras_escrituras_enlace (he : viejos.length = e) (hnodup : (viejos ++ nuevos).Nodup)
    {j : Nat} (hj : e ≤ j + 1) (hl : j < ds.length)
    (hlen : j + 1 < (viejos ++ nuevos).length) :
    leerTras leer (escrituras viejos nuevos ds) (bloqueCamino viejos nuevos e j) (ds.getD j 0)
      = bloqueCamino viejos nuevos e (j + 1) := by
  have hi : e - 1 + (j - (e - 1)) = j := by omega
  have h := leerTras_enlaces ((viejos ++ nuevos).drop (e - 1)) (ds.drop (e - 1))
    (leerTras leer (nuevos.dropLast.map .inicializar)) (j - (e - 1))
    (hnodup.sublist (List.drop_sublist _ _)) (by rw [List.length_drop]; omega)
    (by rw [List.length_drop]; omega)
  rw [getD_drop_eq, getD_drop_eq, getD_drop_eq, ← Nat.add_assoc, hi, getD_camino he,
    getD_camino he] at h
  rw [escrituras, leerTras_append, he]
  exact h

/-- A new pointer block is zero but for its link. -/
theorem leerTras_escrituras_nuevo (he : viejos.length = e) (hnodup : (viejos ++ nuevos).Nodup)
    {j q : Nat} (hj : e ≤ j) (hl : j < ds.length)
    (hlen : (viejos ++ nuevos).length = ds.length + 1) :
    leerTras leer (escrituras viejos nuevos ds) (bloqueCamino viejos nuevos e j) q
      = if q = ds.getD j 0 then bloqueCamino viejos nuevos e (j + 1) else 0 := by
  by_cases hq : q = ds.getD j 0
  · rw [if_pos hq, hq]
    exact leerTras_escrituras_enlace he hnodup (by omega) hl (by omega)
  rw [if_neg hq, escrituras, leerTras_append, leerTras_enlaces_fuera, leerTras_inicializar,
    if_pos]
  · -- it is a new block other than the last
    rw [List.length_append, he] at hlen
    rw [bloqueCamino, if_neg (by omega), List.getD_eq_getElem _ _ (by omega)]
    refine List.mem_iff_getElem.mpr ⟨j - e, by rw [List.length_dropLast]; omega, ?_⟩
    rw [List.getElem_dropLast]
  · intro i hi hi' heq
    rw [he] at hi hi' heq ⊢
    rw [List.length_drop] at hi hi'
    rw [getD_drop_eq, ← getD_camino he, List.getD_eq_getElem _ _ (by omega),
      List.getD_eq_getElem _ _ (by omega)] at heq
    have hij := (hnodup.getElem_inj_iff).mp heq
    rw [getD_drop_eq, ← hij]
    exact hq

end Asignar

section Crecer

variable {fijo : Nat → Prop} {fs fs' : Ext2} {x n k e : Nat} {inodo inodo' : Inode}
  {ds : List Nat}

/-- The fields of an inode other than its pointers. -/
def Inode.MismosDatos (a b : Inode) : Prop :=
  a.iMode = b.iMode ∧ a.iSize = b.iSize ∧ a.iLinksCount = b.iLinksCount

/-- One more block: `fs'` and `inodo'` are the image and the inode after the
    file took the blocks `b e, b (e + 1), …` for its path. -/
structure UnoMas (fijo : Nat → Prop) (fs : Ext2) (inodo : Inode) (k : Nat) (ds : List Nat)
    (e : Nat) (fs' : Ext2) (inodo' : Inode) : Prop where
  guarda : Guarda fijo fs fs'
  cuentas : Cuentas fs'
  libres : fs'.sb.sFreeBlocksCount + (ds.length + 1 - e) = fs.sb.sFreeBlocksCount
  injerto : ∃ b, Injerto (esquema fs.sb) (buscarBloque fs) (buscarBloque fs') fs.bitBloque
    fs'.bitBloque fs.sb.enVolumen fijo inodo.iBlock inodo'.iBlock k ds e b
  cabe : ∀ k, k < 15 → inodo'.iBlock k < 2 ^ 32
  datos : inodo'.MismosDatos inodo

/-- A call on a disk that has not the blocks. -/
theorem EnMano.asignarCamino_falta (h : EnMano fijo fs x inodo n)
    (hc : Corte (esquema fs.sb) k ds n e)
    (hlibres : fs.sb.sFreeBlocksCount < ds.length + 1 - e) :
    asignarCamino fs inodo k ds = none := by
  rw [asignarCamino]
  dsimp only
  rw [h.punterosViejos hc, if_pos]
  rw [faltan, List.length_map, List.length_range]
  exact hlibres

/-- What an assignment takes and where it puts it: `nuevos` are the blocks it
    takes, for the end of the path from depth `e` on. -/
structure Toma (fijo : Nat → Prop) (fs : Ext2) (inodo : Inode) (k : Nat) (ds : List Nat)
    (e : Nat) (fs₁ : Ext2) (viejos nuevos : List Nat) (fs' : Ext2) (inodo' : Inode) : Prop where
  arriba : viejos = (List.range e).map (sitio fs inodo k ds)
  pedidos : pedirBloques (ds.length + 1 - e) fs = (fs₁, nuevos)
  imagen : fs' = (escrituras viejos nuevos ds).foldl Acceso.aplicar fs₁
  bien : ∀ a ∈ escrituras viejos nuevos ds, a.Bien fijo fs
  largo : (viejos ++ nuevos).length = ds.length + 1
  injerto : Injerto (esquema fs.sb) (buscarBloque fs) (buscarBloque fs') fs.bitBloque
    fs'.bitBloque fs.sb.enVolumen fijo inodo.iBlock inodo'.iBlock k ds e
    (bloqueCamino viejos nuevos e)

/-! ### The blocks an assignment works on -/

/-- The roots after an assignment: a new path has its own. -/
theorem conRaiz_iBlock (inodo : Inode) (k : Nat) (viejos nuevos : List Nat) (k' : Nat) :
    (conRaiz inodo k viejos nuevos).iBlock k'
      = if viejos = [] ∧ k' = k then nuevos.headD 0 else inodo.iBlock k' := by
  unfold conRaiz
  by_cases hv : viejos = []
  · rw [if_pos hv]
    by_cases hk : k' = k
    · rw [if_pos ⟨hv, hk⟩]
      exact if_pos hk
    · rw [if_neg fun hc => hk hc.2]
      exact if_neg hk
  · rw [if_neg hv, if_neg fun hc => hv hc.1]

/-- An assignment changes only pointers. -/
theorem conRaiz_datos (inodo : Inode) (k : Nat) (viejos nuevos : List Nat) :
    (conRaiz inodo k viejos nuevos).MismosDatos inodo := by
  unfold conRaiz
  split
  · exact ⟨rfl, rfl, rfl⟩
  · exact ⟨rfl, rfl, rfl⟩

/-- A path about to be written: its old blocks down to depth `e`, then `nuevos`,
    taken from the free ones. -/
structure Reunidos (fijo : Nat → Prop) (fs : Ext2) (inodo : Inode) (k : Nat) (ds : List Nat)
    (e : Nat) (viejos nuevos : List Nat) : Prop where
  arriba : viejos = (List.range e).map (sitio fs inodo k ds)
  hondo : e ≤ ds.length
  pedidos : nuevos.length = ds.length + 1 - e
  nodup : (viejos ++ nuevos).Nodup
  datos : ∀ b ∈ viejos ++ nuevos, Dato fijo fs b
  libres : ∀ b ∈ nuevos, fs.sb.enVolumen b ∧ fs.bitBloque b = false

/-- No fixed block is free. -/
theorem EnMano.libre_no_fijo (h : EnMano fijo fs x inodo n) {b : Nat} (hb : fs.sb.enVolumen b)
    (hbit : fs.bitBloque b = false) : ¬ fijo b := by
  intro hf
  rw [(h.reparto.bits b hb).mpr (.inl hf)] at hbit
  exact Bool.noConfusion hbit

/-- The old blocks of a path are apart. -/
theorem EnMano.viejos_nodup (h : EnMano fijo fs x inodo n)
    (hc : Corte (esquema fs.sb) k ds n e) :
    ((List.range e).map (sitio fs inodo k ds)).Nodup := by
  have hel := hc.largo
  refine List.Nodup.map_on (fun i hi j hj hij => ?_) List.nodup_range
  have hi' := List.mem_range.mp hi
  have hj' := List.mem_range.mp hj
  have heq := (h.distintos (hc.vivo_take hi') (hc.vivo_take hj') hij).2
  have hli : (ds.take i).length = i := List.length_take_of_le (by omega)
  have hlj : (ds.take j).length = j := List.length_take_of_le (by omega)
  rw [← hli, ← hlj, heq]

/-- Free blocks of the right number, no two the same, complete the path. -/
theorem EnMano.reunidos (h : EnMano fijo fs x inodo n) (hc : Corte (esquema fs.sb) k ds n e)
    {nuevos : List Nat} (hlen : nuevos.length = ds.length + 1 - e) (hnodup : nuevos.Nodup)
    (hnuevos : ∀ b ∈ nuevos, fs.sb.enVolumen b ∧ fs.bitBloque b = false) :
    Reunidos fijo fs inodo k ds e ((List.range e).map (sitio fs inodo k ds)) nuevos := by
  have hviejo : ∀ b ∈ (List.range e).map (sitio fs inodo k ds),
      Dato fijo fs b ∧ fs.bitBloque b = true := by
    intro b hb
    obtain ⟨j, hj, rfl⟩ := List.mem_map.mp hb
    exact h.dato (hc.vivo_take (List.mem_range.mp hj))
  refine ⟨rfl, hc.largo, hlen, ?_, ?_, hnuevos⟩
  · refine List.nodup_append.mpr ⟨h.viejos_nodup hc, hnodup, ?_⟩
    rintro b hb c hcn rfl
    have := (hviejo b hb).2
    rw [(hnuevos b hcn).2] at this
    cases this
  · intro b hb
    rcases List.mem_append.mp hb with hb | hb
    · exact (hviejo b hb).1
    · exact ⟨(hnuevos b hb).1, h.libre_no_fijo (hnuevos b hb).1 (hnuevos b hb).2⟩

namespace Reunidos

variable {viejos nuevos : List Nat} (hr : Reunidos fijo fs inodo k ds e viejos nuevos)

include hr

theorem largo_viejos : viejos.length = e := by
  rw [hr.arriba, List.length_map, List.length_range]

/-- The path is complete. -/
theorem largo : (viejos ++ nuevos).length = ds.length + 1 := by
  have := hr.hondo
  rw [List.length_append, hr.largo_viejos, hr.pedidos]
  omega

/-- Above the cut the path is the one the file has. -/
theorem camino_viejo {j : Nat} (hj : j < e) :
    bloqueCamino viejos nuevos e j = sitio fs inodo k ds j := by
  have hve := hr.largo_viejos
  rw [bloqueCamino, if_pos hj, List.getD_eq_getElem _ _ (by omega)]
  simp [hr.arriba]

/-- From the cut on the path is made of new blocks. -/
theorem camino_nuevo {j : Nat} (hj : e ≤ j) (hl : j ≤ ds.length) :
    ∃ hlt : j - e < nuevos.length, bloqueCamino viejos nuevos e j = nuevos[j - e] := by
  have hn := hr.pedidos
  have hlt : j - e < nuevos.length := by omega
  exact ⟨hlt, by rw [bloqueCamino, if_neg (by omega), List.getD_eq_getElem _ _ hlt]⟩

theorem mem_nuevos {j : Nat} (hj : e ≤ j) (hl : j ≤ ds.length) :
    bloqueCamino viejos nuevos e j ∈ nuevos := by
  obtain ⟨hlt, heq⟩ := hr.camino_nuevo hj hl
  rw [heq]
  exact List.getElem_mem hlt

/-- The new blocks are those of the path from the cut on. -/
theorem mem_nuevos_iff {c : Nat} :
    c ∈ nuevos ↔ ∃ j, e ≤ j ∧ j ≤ ds.length ∧ c = bloqueCamino viejos nuevos e j := by
  have hn := hr.pedidos
  have hel := hr.hondo
  constructor
  · intro hmem
    obtain ⟨i, hi, rfl⟩ := List.mem_iff_getElem.mp hmem
    obtain ⟨hlt, heq⟩ := hr.camino_nuevo (j := e + i) (by omega) (by omega)
    refine ⟨e + i, by omega, by omega, ?_⟩
    rw [heq]
    simp only [Nat.add_sub_cancel_left]
  · rintro ⟨j, hj, hl, rfl⟩
    exact hr.mem_nuevos hj hl

/-- They are apart. -/
theorem camino_inyectivo {i j : Nat} (hi : e ≤ i) (hil : i ≤ ds.length) (hj : e ≤ j)
    (hjl : j ≤ ds.length)
    (heq : bloqueCamino viejos nuevos e i = bloqueCamino viejos nuevos e j) : i = j := by
  obtain ⟨hi', hbi⟩ := hr.camino_nuevo hi hil
  obtain ⟨hj', hbj⟩ := hr.camino_nuevo hj hjl
  rw [hbi, hbj] at heq
  have := ((List.nodup_append.mp hr.nodup).2.1.getElem_inj_iff).mp heq
  omega

/-- The writes of an assignment stay on its path. -/
theorem bien (hG : Geometria fijo fs) (hv : Valido (esquema fs.sb) k ds) :
    ∀ a ∈ escrituras viejos nuevos ds, a.Bien fijo fs := by
  intro a ha
  rcases mem_escrituras ha with ⟨b, rfl, hb⟩ | ⟨b, pos, v, rfl, hb, hpos, hvm⟩
  · exact ⟨hr.datos b (List.mem_append_right _ hb), by rintro _ _ _ ⟨⟩⟩
  · refine ⟨hr.datos b hb, ?_⟩
    rintro _ _ _ ⟨⟩
    exact ⟨hv.digito pos hpos, lt_trans (hr.datos v hvm).1.2 hG.bloques_lt⟩

/-- A path cut at its root gets a new root. -/
theorem raizNueva (he : e = 0) :
    (conRaiz inodo k viejos nuevos).iBlock k = bloqueCamino viejos nuevos e 0 := by
  have hnil : viejos = [] := List.eq_nil_of_length_eq_zero (hr.largo_viejos.trans he)
  rw [conRaiz_iBlock, if_pos ⟨hnil, rfl⟩, bloqueCamino, if_neg (by omega), Nat.zero_sub]
  cases nuevos <;> rfl

/-- Every other root stays. -/
theorem raizIgual {k' : Nat} (hk' : k' = k → e ≠ 0) :
    (conRaiz inodo k viejos nuevos).iBlock k' = inodo.iBlock k' := by
  rw [conRaiz_iBlock, if_neg]
  rintro ⟨hnil, hkk⟩
  refine hk' hkk ?_
  rw [← hr.largo_viejos, hnil]
  rfl

/-- The roots still fit a word. -/
theorem cabe (hG : Geometria fijo fs) (hcabe : ∀ k, k < 15 → inodo.iBlock k < 2 ^ 32) (k' : Nat)
    (hk' : k' < 15) : (conRaiz inodo k viejos nuevos).iBlock k' < 2 ^ 32 := by
  rw [conRaiz_iBlock]
  split
  · have hn := hr.pedidos
    have hel := hr.hondo
    obtain ⟨b, bs, rfl⟩ := List.exists_cons_of_length_pos (l := nuevos) (by omega)
    exact lt_trans (hr.datos b (by simp)).1.2 hG.bloques_lt
  · exact hcabe k' hk'

/-- Work whose pointers are those of the writes, and whose bits those of the new
    blocks, grafts the path onto the file. -/
theorem injerto (h : EnMano fijo fs x inodo n) (hc : Corte (esquema fs.sb) k ds n e) {libres : Nat}
    (hef : Efecto fijo fs fs' (leerTras (buscarBloque fs) (escrituras viejos nuevos ds))
      (fun c => fs.bitBloque c || decide (c ∈ nuevos)) libres) :
    Injerto (esquema fs.sb) (buscarBloque fs) (buscarBloque fs') fs.bitBloque fs'.bitBloque
      fs.sb.enVolumen fijo inodo.iBlock (conRaiz inodo k viejos nuevos).iBlock k ds e
      (bloqueCamino viejos nuevos e) where
  libre := fun j hj hl => hr.libres _ (hr.mem_nuevos hj hl)
  inyectiva := fun i j hi hil hj hjl heq => hr.camino_inyectivo hi hil hj hjl heq
  raizNueva := hr.raizNueva
  raizIgual := fun k' hk' => hr.raizIgual hk'
  enlace := by
    intro j hj
    have hl : j < ds.length := by
      have := hr.hondo
      omega
    have hd : Dato fijo fs (sitio fs inodo k ds j) := (h.dato (hc.vivo_take (by omega))).1
    show buscarBloque _ (sitio fs inodo k ds j) _ = _
    rw [hef.punteros _ _ hd (hc.valido.digito_getD hl), ← hr.camino_viejo (by omega),
      leerTras_escrituras_enlace hr.largo_viejos hr.nodup (by omega) hl
        (by rw [hr.largo]; omega), ← hj]
  igual := by
    intro c pos hvol hbit hno hp hdis
    rw [hef.punteros c pos ⟨hvol, hno⟩ hp]
    have hcn : c ∉ nuevos := by
      intro hmem
      rw [(hr.libres c hmem).2] at hbit
      cases hbit
    refine leerTras_escrituras_fuera hr.largo_viejos
      (fun hd => hcn (List.dropLast_subset _ hd)) ?_
    intro j hj hl _ hcj
    by_cases hje : j < e
    · refine hdis j (by omega) ?_
      rw [hcj, hr.camino_viejo hje]
      rfl
    · exact absurd (hcj ▸ hr.mem_nuevos (by omega) (by omega)) hcn
  nuevo := by
    intro j hj hl pos hp
    have hmem := hr.mem_nuevos hj (Nat.le_of_lt hl)
    rw [hef.punteros _ _ (hr.datos _ (List.mem_append_right _ hmem)) hp]
    exact leerTras_escrituras_nuevo hr.largo_viejos hr.nodup hj hl hr.largo
  bitNuevo := by
    intro c hvol
    rw [hef.bits c hvol, Bool.or_eq_true, decide_eq_true_eq]
    exact or_congr Iff.rfl hr.mem_nuevos_iff

end Reunidos

/-- **AN ASSIGNMENT** with blocks enough grafts its path onto the file. -/
theorem EnMano.asignarCamino (h : EnMano fijo fs x inodo n)
    (hc : Corte (esquema fs.sb) k ds n e)
    (hlibres : ds.length + 1 - e ≤ fs.sb.sFreeBlocksCount) :
    ∃ fs' inodo', asignarCamino fs inodo k ds = some (fs', inodo')
      ∧ UnoMas fijo fs inodo k ds e fs' inodo'
      ∧ ∃ fs₁ viejos nuevos, Toma fijo fs inodo k ds e fs₁ viejos nuevos fs' inodo' := by
  have hG := h.geometria
  have hel := hc.largo
  obtain ⟨fs₁, nuevos, hpide, hlen, hnodup, hnuevos, hef⟩ :=
    (Efecto.inicial fijo h.cuentas).pedirBloques hG (ds.length + 1 - e) hlibres
  have hr := h.reunidos hc hlen hnodup hnuevos
  have hbien := hr.bien hG hc.valido
  have hef' := hef.accesos hG _ hbien (by rw [liberados_escrituras]; exact List.nodup_nil)
    (by rw [liberados_escrituras]; simp)
  simp only [liberados_escrituras, List.not_mem_nil, not_false_eq_true, decide_true,
    Bool.and_true, List.length_nil, Nat.add_zero] at hef'
  have hinjerto := hr.injerto h hc hef'
  refine ⟨_, conRaiz inodo k ((List.range e).map (sitio fs inodo k ds)) nuevos, ?_,
    ⟨hef'.guarda, hef'.cuentas, ?_, ⟨_, hinjerto⟩, hr.cabe hG h.cabe, conRaiz_datos ..⟩,
    fs₁, _, nuevos, rfl, hpide, rfl, hbien, hr.largo, hinjerto⟩
  · have hf : faltan ds ((List.range e).map (sitio fs inodo k ds)) = ds.length + 1 - e := by
      rw [faltan, hr.largo_viejos]
    rw [Rfs.asignarCamino]
    dsimp only
    rw [h.punterosViejos hc, hf, if_neg (by omega), hpide]
  · rw [hef'.libres]
    omega

/-- **ONE BLOCK MORE**: the file owns its blocks and the new ones. -/
theorem UnoMas.enMano (h : EnMano fijo fs x inodo n) (hc : Corte (esquema fs.sb) k ds n e)
    (hu : UnoMas fijo fs inodo k ds e fs' inodo') : EnMano fijo fs' x inodo' (n + 1) := by
  obtain ⟨b, hi⟩ := hu.injerto
  have hN : Function.update fs.bloquesDe x n x = n := Function.update_self ..
  have hc' : Corte (esquema fs.sb) k ds (Function.update fs.bloquesDe x n x) e := by rwa [hN]
  have hi' : Injerto (esquema fs.sb) (buscarBloque fs) (buscarBloque fs') fs.bitBloque
      fs'.bitBloque fs.sb.enVolumen fijo
      (Function.update (fun y => (leerInodo fs y).iBlock) x inodo.iBlock x) inodo'.iBlock k ds e
      b := by
    rwa [Function.update_self]
  have hr := Reparto.crece (cantPunteros_pos fs.sb) h.reparto h.enUso hc' hi'
  rw [Function.update_idem, Function.update_idem, hN] at hr
  exact h.tras hu.guarda hu.cuentas hr hu.cabe

end Crecer

/-! ## One block less -/

section Accesos

variable {B d : Nat → Nat} {e : Nat}

/-- The pointer blocks of a path from the one above depth `j` up, as
    `bajada` lists them. -/
def haciaArriba (B d : Nat → Nat) (j : Nat) : List (Nat × Nat) :=
  ((List.range j).map fun i => (B i, d i)).reverse

theorem haciaArriba_succ (B d : Nat → Nat) (j : Nat) :
    haciaArriba B d (j + 1) = (B j, d j) :: haciaArriba B d j := by
  unfold haciaArriba
  rw [List.range_succ, List.map_append, List.reverse_append]
  rfl

/-- Releasing upwards from depth `j` gives back the blocks down from `j` to
    `e`, where the positions stop being zero. -/
theorem liberados_soltarPunteros (hno : ∀ i, e = i + 1 → d i ≠ 0) : ∀ j, e ≤ j →
    (∀ i, e ≤ i → i < j → d i = 0) →
    liberados (soltarPunteros (B j) (haciaArriba B d j))
      = ((List.range' e (j + 1 - e)).map B).reverse := by
  intro j
  induction j with
  | zero =>
      intro he _
      obtain rfl : e = 0 := by omega
      rfl
  | succ j ih =>
      intro he hcero
      rw [haciaArriba_succ, soltarPunteros]
      by_cases hd : d j = 0
      · have hej : e ≤ j := by
          by_contra hlt
          exact hno j (by omega) hd
        rw [if_pos hd]
        have hrec := ih hej fun i hi hij => hcero i hi (by omega)
        have hlen : j + 1 + 1 - e = (j + 1 - e) + 1 := by omega
        have hlast : e + 1 * (j + 1 - e) = j + 1 := by omega
        rw [hlen, List.range'_concat, List.map_append, List.reverse_append, hlast, ← hrec]
        rfl
      · have hej : e = j + 1 := by
          by_contra hne
          exact hd (hcero j (by omega) (by omega))
        rw [if_neg hd, hej]
        have hlen : j + 1 + 1 - (j + 1) = 1 := by omega
        rw [hlen]
        rfl

/-- The pointers it clears: those that led to the blocks it gives back. -/
theorem mem_soltarPunteros (hno : ∀ i, e = i + 1 → d i ≠ 0) : ∀ j, e ≤ j →
    (∀ i, e ≤ i → i < j → d i = 0) → ∀ a, a ∈ soltarPunteros (B j) (haciaArriba B d j) ↔
      (∃ i, e ≤ i ∧ i ≤ j ∧ a = .liberar (B i))
        ∨ ∃ i, e ≤ i + 1 ∧ i < j ∧ a = .puntero (B i) (d i) 0 := by
  intro j
  induction j with
  | zero =>
      intro he _ a
      obtain rfl : e = 0 := by omega
      have hl : soltarPunteros (B 0) (haciaArriba B d 0) = [.liberar (B 0)] := rfl
      rw [hl, List.mem_singleton]
      constructor
      · rintro rfl
        exact .inl ⟨0, Nat.le_refl _, Nat.le_refl _, rfl⟩
      · rintro (⟨i, -, hi, rfl⟩ | ⟨i, -, hi, -⟩)
        · rw [Nat.le_zero.mp hi]
        · exact absurd hi (Nat.not_lt_zero i)
  | succ j ih =>
      intro he hcero a
      rw [haciaArriba_succ, soltarPunteros]
      have hresto : a ∈ (if d j = 0 then soltarPunteros (B j) (haciaArriba B d j) else []) ↔
          (∃ i, e ≤ i ∧ i ≤ j ∧ a = .liberar (B i))
            ∨ ∃ i, e ≤ i + 1 ∧ i < j ∧ a = .puntero (B i) (d i) 0 := by
        by_cases hd : d j = 0
        · have hej : e ≤ j := by
            by_contra hlt
            exact hno j (by omega) hd
          rw [if_pos hd]
          exact ih hej (fun i hi hij => hcero i hi (by omega)) a
        · have hej : e = j + 1 := by
            by_contra hne
            exact hd (hcero j (by omega) (by omega))
          rw [if_neg hd]
          constructor
          · exact fun h => absurd h List.not_mem_nil
          · rintro (⟨i, hi, hi', -⟩ | ⟨i, hi, hi', -⟩)
            · omega
            · omega
      rw [List.mem_cons, List.mem_cons, hresto]
      constructor
      · rintro (rfl | rfl | ⟨i, hi, hij, rfl⟩ | ⟨i, hi, hij, rfl⟩)
        · exact .inr ⟨j, he, Nat.lt_succ_self j, rfl⟩
        · exact .inl ⟨j + 1, he, Nat.le_refl _, rfl⟩
        · exact .inl ⟨i, hi, by omega, rfl⟩
        · exact .inr ⟨i, hi, by omega, rfl⟩
      · rintro (⟨i, hi, hij, rfl⟩ | ⟨i, hi, hij, rfl⟩)
        · rcases Nat.lt_or_eq_of_le hij with hlt | heq
          · exact .inr (.inr (.inl ⟨i, hi, by omega, rfl⟩))
          · rw [heq]
            exact .inr (.inl rfl)
        · rcases Nat.lt_or_eq_of_le (Nat.le_of_lt_succ hij) with hlt | heq
          · exact .inr (.inr (.inr ⟨i, hi, hlt, rfl⟩))
          · rw [heq]
            exact .inl rfl

/-- A list that gives blocks back and clears pointers reads zero in those and
    nothing else new. -/
theorem leerTras_ceros : ∀ (l : List Acceso) (leer : Nat → Nat → Nat) (c q : Nat),
    (∀ a ∈ l, (∃ b, a = .liberar b) ∨ ∃ b pos, a = .puntero b pos 0) →
    leerTras leer l c q = if .puntero c q 0 ∈ l then 0 else leer c q := by
  intro l
  induction l with
  | nil => intro leer c q _; rfl
  | cons a l ih =>
      intro leer c q hl
      rw [leerTras_cons, ih _ c q fun a' ha' => hl a' (List.mem_cons_of_mem _ ha')]
      by_cases hmem : Acceso.puntero c q 0 ∈ l
      · rw [if_pos hmem, if_pos (List.mem_cons_of_mem _ hmem)]
      · rw [if_neg hmem]
        rcases hl a List.mem_cons_self with ⟨b, rfl⟩ | ⟨b, pos, rfl⟩
        · rw [if_neg]
          · rfl
          · intro h
            rcases List.mem_cons.mp h with h | h
            · cases h
            · exact hmem h
        · show (if c = b ∧ q = pos then 0 else leer c q) = _
          by_cases hcq : c = b ∧ q = pos
          · rw [if_pos hcq, if_pos]
            rw [hcq.1, hcq.2]
            exact List.mem_cons_self
          · rw [if_neg hcq, if_neg]
            intro h
            rcases List.mem_cons.mp h with h | h
            · cases h
              exact hcq ⟨rfl, rfl⟩
            · exact hmem h

end Accesos

section Encoger

variable {fijo : Nat → Prop} {fs fs' : Ext2} {x n k e : Nat} {inodo inodo' : Inode}
  {ds : List Nat}

/-- The pointer blocks of a path, from the top. -/
theorem bajada_eq (fs : Ext2) : ∀ (ds : List Nat) (b : Nat), bajada fs b ds
    = (List.range ds.length).map fun j => (seguir (buscarBloque fs) b (ds.take j),
      ds.getD j 0) := by
  intro ds
  induction ds with
  | nil => intro b; rfl
  | cons pos ds ih =>
      intro b
      rw [bajada, ih, List.length_cons, List.range_succ_eq_map, List.map_cons, List.map_map]
      rfl

/-- The accesses of a release, in terms of the sites of the path. -/
theorem accesosLiberar_eq (fs : Ext2) (inodo : Inode) (k : Nat) (ds : List Nat) :
    accesosLiberar fs inodo k ds =
      match ds.length with
      | 0 => [.liberar (sitio fs inodo k ds 0)]
      | j + 1 =>
          (if ds.getD j 0 = 0 then soltarPunteros (sitio fs inodo k ds j)
              (haciaArriba (sitio fs inodo k ds) (ds.getD · 0) j) else [])
            ++ [.puntero (sitio fs inodo k ds j) (ds.getD j 0) 0,
              .liberar (sitio fs inodo k ds (j + 1))] := by
  have hb : (bajada fs (inodo.iBlock k) ds).reverse
      = haciaArriba (sitio fs inodo k ds) (ds.getD · 0) ds.length := by
    rw [bajada_eq]
    rfl
  rw [accesosLiberar, hb]
  cases hl : ds.length with
  | zero =>
      have hnil : ds = [] := List.eq_nil_of_length_eq_zero hl
      subst hnil
      rfl
  | succ j =>
      have hfin : nodo (buscarBloque fs) inodo.iBlock k ds = sitio fs inodo k ds (j + 1) := by
        rw [sitio, ← hl, List.take_length]
      rw [haciaArriba_succ, hfin]

/-- What a release does: give back the blocks of the cut end, each once, and
    clear the pointers that led to them. -/
theorem accesosLiberar_spec (hc : Corte (esquema fs.sb) k ds n e) :
    (liberados (accesosLiberar fs inodo k ds)).Perm
        ((List.range' e (ds.length + 1 - e)).map (sitio fs inodo k ds))
      ∧ ∀ a, a ∈ accesosLiberar fs inodo k ds ↔
        (∃ i, e ≤ i ∧ i ≤ ds.length ∧ a = .liberar (sitio fs inodo k ds i))
          ∨ ∃ i, e ≤ i + 1 ∧ i < ds.length
            ∧ a = .puntero (sitio fs inodo k ds i) (ds.getD i 0) 0 := by
  have hp := cantPunteros_pos fs.sb
  have hel := hc.largo
  have hceros : ∀ i, e ≤ i → i < ds.length → ds.getD i 0 = 0 := fun i hi hl => hc.ceros hp hi hl
  have hno : ∀ i, e = i + 1 → ds.getD i 0 ≠ 0 := by
    rintro i rfl
    exact hc.no_cero hp
  rw [accesosLiberar_eq]
  generalize sitio fs inodo k ds = B
  cases hl : ds.length with
  | zero =>
      obtain rfl : e = 0 := by omega
      refine ⟨List.Perm.refl _, fun a => ?_⟩
      rw [List.mem_singleton]
      constructor
      · rintro rfl
        exact .inl ⟨0, Nat.le_refl _, Nat.le_refl _, rfl⟩
      · rintro (⟨i, -, hi, rfl⟩ | ⟨i, -, hi, -⟩)
        · rw [Nat.le_zero.mp hi]
        · exact absurd hi (Nat.not_lt_zero i)
  | succ j =>
      have hlen : j + 1 + 1 - e = (j + 1 - e) + 1 := by omega
      have hlast : e + 1 * (j + 1 - e) = j + 1 := by omega
      by_cases hd : ds.getD j 0 = 0
      · have hej : e ≤ j := by
          by_contra hlt
          exact hno j (by omega) hd
        have hcj : ∀ i, e ≤ i → i < j → ds.getD i 0 = 0 := fun i hi hij => hceros i hi (by omega)
        dsimp only
        rw [if_pos hd]
        constructor
        · have hlib : liberados (soltarPunteros (B j) (haciaArriba B (ds.getD · 0) j)
              ++ [.puntero (B j) (ds.getD j 0) 0, .liberar (B (j + 1))])
              = ((List.range' e (j + 1 - e)).map B).reverse ++ [B (j + 1)] := by
            rw [← liberados_soltarPunteros hno j hej hcj, liberados, List.filterMap_append]
            rfl
          rw [hlib, hlen, List.range'_concat, List.map_append, hlast]
          exact (List.reverse_perm _).append_right _
        · intro a
          rw [List.mem_append, mem_soltarPunteros hno j hej hcj a, List.mem_cons,
            List.mem_singleton]
          constructor
          · rintro ((⟨i, hi, hij, rfl⟩ | ⟨i, hi, hij, rfl⟩) | rfl | rfl)
            · exact .inl ⟨i, hi, by omega, rfl⟩
            · exact .inr ⟨i, hi, by omega, rfl⟩
            · exact .inr ⟨j, by omega, Nat.lt_succ_self j, rfl⟩
            · exact .inl ⟨j + 1, by omega, Nat.le_refl _, rfl⟩
          · rintro (⟨i, hi, hij, rfl⟩ | ⟨i, hi, hij, rfl⟩)
            · rcases Nat.lt_or_eq_of_le hij with hlt | heq
              · exact .inl (.inl ⟨i, hi, by omega, rfl⟩)
              · rw [heq]
                exact .inr (.inr rfl)
            · rcases Nat.lt_or_eq_of_le (Nat.le_of_lt_succ hij) with hlt | heq
              · exact .inl (.inr ⟨i, hi, hlt, rfl⟩)
              · rw [heq]
                exact .inr (.inl rfl)
      · have hej : e = j + 1 := by
          by_contra hne
          exact hd (hceros j (by omega) (by omega))
        subst hej
        dsimp only
        rw [if_neg hd, List.nil_append]
        refine ⟨?_, fun a => ?_⟩
        · have h1 : j + 1 + 1 - (j + 1) = 1 := by omega
          rw [h1]
          exact List.Perm.refl _
        · rw [List.mem_cons, List.mem_singleton]
          constructor
          · rintro (rfl | rfl)
            · exact .inr ⟨j, Nat.le_refl _, Nat.lt_succ_self j, rfl⟩
            · exact .inl ⟨j + 1, Nat.le_refl _, Nat.le_refl _, rfl⟩
          · rintro (⟨i, hi, hij, rfl⟩ | ⟨i, hi, hij, rfl⟩)
            · rw [show i = j + 1 by omega]
              exact .inr rfl
            · rw [show i = j by omega]
              exact .inl rfl

/-- One block less: `fs'` and `inodo'` are the image and the inode after the
    file gave back the blocks of its path from depth `e` on. -/
structure UnoMenos (fijo : Nat → Prop) (fs : Ext2) (inodo : Inode) (k : Nat) (ds : List Nat)
    (e : Nat) (fs' : Ext2) (inodo' : Inode) : Prop where
  guarda : Guarda fijo fs fs'
  cuentas : Cuentas fs'
  libres : fs'.sb.sFreeBlocksCount = fs.sb.sFreeBlocksCount + (ds.length + 1 - e)
  poda : Poda (esquema fs.sb) (buscarBloque fs) (buscarBloque fs') fs.bitBloque
    fs'.bitBloque fs.sb.enVolumen fijo inodo.iBlock inodo'.iBlock k ds e
  cabe : ∀ k, k < 15 → inodo'.iBlock k < 2 ^ 32
  datos : inodo'.MismosDatos inodo

/-- The roots after a release: the root of the path goes with its first index. -/
theorem sinRaiz_iBlock (hc : Corte (esquema fs.sb) k ds n e) (k' : Nat) :
    (sinRaiz inodo k ds).iBlock k' = if e = 0 ∧ k' = k then 0 else inodo.iBlock k' := by
  have hraiz := hc.todo_cero (cantPunteros_pos fs.sb)
  unfold sinRaiz
  by_cases he : e = 0
  · rw [if_pos (hraiz.mpr he)]
    by_cases hk : k' = k
    · rw [if_pos ⟨he, hk⟩]
      exact if_pos hk
    · rw [if_neg fun hc => hk hc.2]
      exact if_neg hk
  · rw [if_neg fun hall => he (hraiz.mp hall), if_neg fun hc => he hc.1]

/-- A release changes only pointers. -/
theorem sinRaiz_datos (inodo : Inode) (k : Nat) (ps : List Nat) :
    (sinRaiz inodo k ps).MismosDatos inodo := by
  unfold sinRaiz
  split
  · exact ⟨rfl, rfl, rfl⟩
  · exact ⟨rfl, rfl, rfl⟩

/-- The blocks a release gives back. -/
theorem mem_liberados_liberar (hc : Corte (esquema fs.sb) k ds n e) {c : Nat} :
    c ∈ liberados (accesosLiberar fs inodo k ds) ↔
      ∃ j, e ≤ j ∧ j ≤ ds.length ∧ c = sitio fs inodo k ds j := by
  have hel := hc.largo
  rw [(accesosLiberar_spec hc).1.mem_iff, List.mem_map]
  constructor
  · rintro ⟨j, hj, rfl⟩
    obtain ⟨h1, h2⟩ := List.mem_range'_1.mp hj
    exact ⟨j, h1, by omega, rfl⟩
  · rintro ⟨j, hj, hl, rfl⟩
    exact ⟨j, List.mem_range'_1.mpr ⟨hj, by omega⟩, rfl⟩

/-- How many there are. -/
theorem length_liberados_liberar (hc : Corte (esquema fs.sb) k ds n e) :
    (liberados (accesosLiberar fs inodo k ds)).length = ds.length + 1 - e := by
  rw [(accesosLiberar_spec hc).1.length_eq, List.length_map, List.length_range']

/-- A release only frees blocks and clears pointers. -/
theorem accesosLiberar_ceros (hc : Corte (esquema fs.sb) k ds n e) :
    ∀ a ∈ accesosLiberar fs inodo k ds,
      (∃ b, a = .liberar b) ∨ ∃ b pos, a = .puntero b pos 0 := by
  intro a ha
  rcases ((accesosLiberar_spec hc).2 a).mp ha with ⟨i, -, -, rfl⟩ | ⟨i, -, -, rfl⟩
  · exact .inl ⟨_, rfl⟩
  · exact .inr ⟨_, _, rfl⟩

section Hundido

variable (h : EnMano fijo fs x inodo (n + 1)) (hc : Corte (esquema fs.sb) k ds n e)

include h hc

/-- The blocks of the path are data blocks in use. -/
theorem EnMano.dato_sitio {j : Nat} (hj : j ≤ ds.length) :
    Dato fijo fs (sitio fs inodo k ds j) ∧ fs.bitBloque (sitio fs inodo k ds j) = true :=
  h.dato (hc.vivo_lleno hj)

/-- They are apart. -/
theorem EnMano.sitio_inyectivo {i j : Nat} (hi : i ≤ ds.length) (hj : j ≤ ds.length)
    (heq : sitio fs inodo k ds i = sitio fs inodo k ds j) : i = j := by
  have htake := (h.distintos (hc.vivo_lleno hi) (hc.vivo_lleno hj) heq).2
  rw [← List.length_take_of_le hi, ← List.length_take_of_le hj, htake]

/-- No block is given back twice. -/
theorem EnMano.liberados_nodup : (liberados (accesosLiberar fs inodo k ds)).Nodup := by
  have hel := hc.largo
  refine (accesosLiberar_spec hc).1.nodup_iff.mpr
    (List.Nodup.map_on (fun i hi j hj heq => ?_) List.nodup_range')
  have hi' := List.mem_range'_1.mp hi
  have hj' := List.mem_range'_1.mp hj
  exact h.sitio_inyectivo hc (by omega) (by omega) heq

/-- The accesses of a release stay on its path. -/
theorem EnMano.accesosLiberar_bien : ∀ a ∈ accesosLiberar fs inodo k ds, a.Bien fijo fs := by
  intro a ha
  rcases ((accesosLiberar_spec hc).2 a).mp ha with ⟨i, -, hil, rfl⟩ | ⟨i, -, hil, rfl⟩
  · exact ⟨(h.dato_sitio hc hil).1, by rintro _ _ _ ⟨⟩⟩
  · refine ⟨(h.dato_sitio hc (Nat.le_of_lt hil)).1, ?_⟩
    rintro _ _ _ ⟨⟩
    exact ⟨hc.valido.digito_getD hil, by decide⟩

/-- Work whose pointers and bits are those of the accesses cuts the path off the
    file. -/
theorem EnMano.poda {libres : Nat}
    (hef : Efecto fijo fs fs' (leerTras (buscarBloque fs) (accesosLiberar fs inodo k ds))
      (fun c => fs.bitBloque c && decide (c ∉ liberados (accesosLiberar fs inodo k ds))) libres) :
    Poda (esquema fs.sb) (buscarBloque fs) (buscarBloque fs') fs.bitBloque fs'.bitBloque
      fs.sb.enVolumen fijo inodo.iBlock (sinRaiz inodo k ds).iBlock k ds e where
  raizCortada := fun he => by rw [sinRaiz_iBlock hc, if_pos ⟨he, rfl⟩]
  raizIgual := fun k' hk' => by rw [sinRaiz_iBlock hc, if_neg fun hcon => hk' hcon.2 hcon.1]
  corte := by
    intro j hj
    have hl : j < ds.length := by
      have := hc.largo
      omega
    refine (hef.punteros _ _ (h.dato_sitio hc (Nat.le_of_lt hl)).1
      (hc.valido.digito_getD hl)).trans ?_
    rw [leerTras_ceros _ _ _ _ (accesosLiberar_ceros hc), if_pos]
    exact ((accesosLiberar_spec hc).2 _).mpr (.inr ⟨j, by omega, hl, rfl⟩)
  igual := by
    intro c pos hvol _ hno hpos hdis hlink
    refine (hef.punteros c pos ⟨hvol, hno⟩ hpos).trans ?_
    rw [leerTras_ceros _ _ _ _ (accesosLiberar_ceros hc), if_neg]
    intro hin
    rcases ((accesosLiberar_spec hc).2 _).mp hin with ⟨i, -, -, hi⟩ | ⟨i, hi, hil, heq⟩
    · cases hi
    · obtain ⟨rfl, rfl⟩ : c = sitio fs inodo k ds i ∧ pos = ds.getD i 0 := by
        cases heq
        exact ⟨rfl, rfl⟩
      by_cases hie : e ≤ i
      · exact hdis i hie (Nat.le_of_lt hil) rfl
      · exact hlink i (by omega) rfl rfl
  bitNuevo := by
    intro c hvol
    rw [hef.bits c hvol, Bool.and_eq_true, decide_eq_true_eq, mem_liberados_liberar hc]
    refine and_congr Iff.rfl ⟨fun hnot j hj hl heq => hnot ⟨j, hj, hl, heq⟩, ?_⟩
    rintro hall ⟨j, hj, hl, heq⟩
    exact hall j hj hl heq

/-- **A RELEASE** cuts the path of the last index off the file. -/
theorem EnMano.liberarCamino :
    UnoMenos fijo fs inodo k ds e (liberarCamino fs inodo k ds).1
      (liberarCamino fs inodo k ds).2 := by
  have hef := (Efecto.inicial fijo h.cuentas).accesos h.geometria (accesosLiberar fs inodo k ds)
    (h.accesosLiberar_bien hc) (h.liberados_nodup hc) fun b hb => by
      obtain ⟨j, -, hl, rfl⟩ := (mem_liberados_liberar hc).mp hb
      exact (h.dato_sitio hc hl).2
  refine ⟨hef.guarda, hef.cuentas, ?_, h.poda hc hef, ?_, sinRaiz_datos ..⟩
  · exact hef.libres.trans (by rw [length_liberados_liberar hc])
  · intro k' hk'
    show (sinRaiz inodo k ds).iBlock k' < _
    rw [sinRaiz_iBlock hc]
    split
    · decide
    · exact h.cabe k' hk'

end Hundido

/-- **ONE BLOCK LESS**: the file owns the blocks that are left. -/
theorem UnoMenos.enMano (h : EnMano fijo fs x inodo (n + 1))
    (hc : Corte (esquema fs.sb) k ds n e) (hu : UnoMenos fijo fs inodo k ds e fs' inodo') :
    EnMano fijo fs' x inodo' n := by
  have hN : Function.update fs.bloquesDe x (n + 1) x = n + 1 := Function.update_self ..
  have hq : Poda (esquema fs.sb) (buscarBloque fs) (buscarBloque fs') fs.bitBloque
      fs'.bitBloque fs.sb.enVolumen fijo
      (Function.update (fun y => (leerInodo fs y).iBlock) x inodo.iBlock x) inodo'.iBlock k ds
      e := by
    rw [Function.update_self]
    exact hu.poda
  have hr := Reparto.encoge (cantPunteros_pos fs.sb) h.reparto h.enUso hN hc hq
  rw [Function.update_idem, Function.update_idem] at hr
  exact h.tras hu.guarda hu.cuentas hr hu.cabe

end Encoger

end Rfs
