import Yanero.RfsTallerProofs
import Mathlib.Tactic.IntervalCases

/-! # A disk that fills up under several workers

    From a consistent image, in every run of `Inode_asignarBloque` calls whose
    tests leave room for the workers already past theirs, no
    `Grupos_pedirBloqueLibre` finds the disk full.  Nothing in the source gives
    that room: two tests may both count the last block. -/

namespace Rfs

open Arboles Corridas

/-- What a take needs and does: a block of the volume is free, the search finds
    one, and the counter goes down by one. -/
def PedidoSeguro (fs : Ext2) : Prop :=
  (∃ b, fs.sb.enVolumen b ∧ fs.bitBloque b = false) ∧ buscarBloqueLibre fs ≠ menosUno ∧
    (pedirBloqueLibre fs).1.sb.sFreeBlocksCount + 1 = fs.sb.sFreeBlocksCount

/-- A test that passes leaves room for the workers that passed theirs and have
    still blocks to take. -/
def Alcanza : AccionAsignar → Taller → Prop
  | .probar t nroBloque, s => ∀ c ∈ caminoBloque s.fs.sb nroBloque,
      faltan c.2 (punterosViejos s.fs (s.hilos t).inodo c.1 c.2) ≤ s.fs.sb.sFreeBlocksCount →
      s.pendiente + faltan c.2 (punterosViejos s.fs (s.hilos t).inodo c.1 c.2)
        ≤ s.fs.sb.sFreeBlocksCount
  | .pedir _, _ => True
  | .escribir _, _ => True

instance decidableAlcanza : ∀ (a : AccionAsignar) (s : Taller), Decidable (Alcanza a s)
  | .probar t nroBloque, s => inferInstanceAs (Decidable (∀ c ∈ caminoBloque s.fs.sb nroBloque,
      faltan c.2 (punterosViejos s.fs (s.hilos t).inodo c.1 c.2) ≤ s.fs.sb.sFreeBlocksCount →
      s.pendiente + faltan c.2 (punterosViejos s.fs (s.hilos t).inodo c.1 c.2)
        ≤ s.fs.sb.sFreeBlocksCount))
  | .pedir _, _ => inferInstanceAs (Decidable True)
  | .escribir _, _ => inferInstanceAs (Decidable True)

/-- The workers before their first call: worker `t` has read inode `nros t`,
    which is in use. -/
structure Arranque (fijo : Nat → Prop) (nros : Nat → Nat) (s : Taller) : Prop where
  consistente : Consistente fijo s.fs
  enUso : ∀ t, t < s.cant → s.fs.EnUso (nros t)
  hilo : ∀ t, t < s.cant → s.hilos t = ⟨leerInodo s.fs (nros t), .fuera⟩

section Arranque

variable {fijo : Nat → Prop} {fs : Ext2} {s s' : Taller} {nros : Nat → Nat}

/-- The labels of a consistent image: its live sites above the data. -/
def rotulosDe (fs : Ext2) (L b : Nat) : Prop :=
  1 ≤ L ∧ ∃ x k ps, fs.EnUso x ∧ Vivo (esquema fs.sb) (fs.bloquesDe x) k ps ∧
    nodo (buscarBloque fs) (leerInodo fs x).iBlock k ps = b ∧
    ps.length + L = (esquema fs.sb).nivel k

/-- The live sites of a consistent image carry their labels well. -/
theorem rotulado_rotulosDe (hC : Consistente fijo fs) : Rotulado fijo fs (rotulosDe fs) := by
  have hR := hC.reparto
  constructor
  · rintro L b ⟨-, x, k, ps, hx, hv, rfl, -⟩
    have hd := hR.dentro x hx k ps hv
    exact ⟨hd, (hR.bits _ hd.1).mpr (.inr ⟨x, k, ps, hx, hv, rfl⟩)⟩
  · rintro L L' b ⟨-, x, k, ps, hx, hv, rfl, hL⟩ ⟨-, x', k', ps', hx', hv', heq, hL'⟩
    obtain ⟨-, rfl, rfl⟩ := hR.distintos x' x hx' hx k' ps' k ps hv' hv heq
    omega
  · rintro L b pos ⟨-, x, k, ps, hx, hv, rfl, hL⟩ h1 hpos hne
    have hval : Valido (esquema fs.sb) k (ps ++ [pos]) := by
      refine ⟨hv.valido.raiz, ?_, ?_⟩
      · rw [List.length_append, List.length_singleton]
        omega
      · intro q hq
        rcases List.mem_append.mp hq with hq | hq
        · exact hv.valido.digito q hq
        · rw [List.mem_singleton.mp hq]
          exact hpos
    -- a site that is not live reads as zero
    have hvivo : (esquema fs.sb).primero k (ps ++ [pos]) < fs.bloquesDe x := by
      by_contra hno
      exact hne (hR.hijoCero x hx k ps pos hv hval (by omega))
    refine ⟨h1, x, k, ps ++ [pos], hx, ⟨hval, hvivo⟩, nodo_concat _ _ _, ?_⟩
    rw [List.length_append, List.length_singleton]
    omega

/-- So do the roots of a file. -/
theorem raices_rotulosDe (hC : Consistente fijo fs) {x : Nat} (hx : fs.EnUso x) :
    Raices (rotulosDe fs) (leerInodo fs x) := by
  intro L h1 h3 hne
  have hk : 11 + L < (esquema fs.sb).raices := by
    show 11 + L < 15
    omega
  refine ⟨h1, x, 11 + L, [], hx, ⟨Valido.nil hk, ?_⟩, rfl, ?_⟩
  · rw [primero_nil]
    by_contra hno
    exact hne (hC.reparto.raizCero x hx (11 + L) hk (by omega))
  · show 0 + L = 11 + L - 11
    omega

/-- The invariant holds before the first call. -/
theorem Arranque.sano (h : Arranque fijo nros s) : Sano fijo (rotulosDe s.fs) s := by
  have hC := h.consistente
  have hfase : ∀ t, t < s.cant → (s.hilos t).fase = .fuera := by
    intro t ht
    rw [h.hilo t ht]
  have hfrescos : ∀ t, t < s.cant → frescos (s.hilos t).fase = [] := by
    intro t ht
    rw [hfase t ht]
    rfl
  refine ⟨hC.geometria, hC.cuentas, ?_, rotulado_rotulosDe hC, ?_, ?_, ?_, ?_, ?_⟩
  · intro b hb hf
    exact (hC.reparto.bits b hb).mpr (.inl hf)
  · intro t ht
    rw [h.hilo t ht]
    exact raices_rotulosDe hC (h.enUso t ht)
  · intro t ht b hb
    rw [hfrescos t ht] at hb
    exact absurd hb List.not_mem_nil
  · intro t ht
    rw [hfrescos t ht]
    exact List.nodup_nil
  · intro t u ht _ _ b hb
    rw [hfrescos t ht] at hb
    exact absurd hb List.not_mem_nil
  · have hcero : s.pendiente = 0 := by
      refine Finset.sum_eq_zero fun t ht => ?_
      rw [hfase t (Finset.mem_range.mp ht)]
      rfl
    rw [hcero]
    exact Nat.zero_le _

/-- One step of any worker keeps the invariant. -/
theorem Sano.paso {P : Nat → Nat → Prop} {a : AccionAsignar} (hs : Sano fijo P s)
    (hA : Alcanza a s) (h : pasoAsignar a s = some s') : ∃ P', Sano fijo P' s' := by
  obtain ⟨t, n, rfl, ht, hf, rfl⟩ | ⟨t, k, ps, viejos, nuevos, rfl, ht, hf, rfl⟩ |
    ⟨t, rfl, ht, hf, rfl⟩ | ⟨t, acc, resto, rfl, ht, hf, rfl⟩ := pasoAsignar_casos h
  · exact ⟨P, hs.probar ht hf fun c hc => hA c hc⟩
  · obtain ⟨fs', b, heq, hvol, hlibre, hm, hC, hn⟩ := pedirBloqueLibre_spec hs.geometria hs.cuentas
      (hs.hay ht (hs.debe_pos ht hf))
    rw [heq]
    exact ⟨P, hs.pedir ht hf hvol hlibre hm hC hn⟩
  · exact ⟨P, hs.terminar ht hf⟩
  · exact hs.escribir ht hf

/-- While the counter is not zero a take is safe. -/
theorem Sano.pedidoSeguro {P : Nat → Nat → Prop} (hs : Sano fijo P s)
    (hlibres : 0 < s.fs.sb.sFreeBlocksCount) : PedidoSeguro s.fs := by
  obtain ⟨hvol, hlibre⟩ := buscarBloqueLibre_spec hs.geometria hs.cuentas hlibres
  obtain ⟨fs', b, heq, -, -, -, -, hn⟩ :=
    pedirBloqueLibre_spec hs.geometria hs.cuentas hlibres
  refine ⟨⟨_, hvol, hlibre⟩, ?_, ?_⟩
  · have h1 := hvol.2
    have h2 : s.fs.sb.sBlocksCount ≤ menosUno := Nat.le_sub_one_of_lt hs.geometria.bloques_lt
    omega
  · rw [heq]
    exact hn

/-- **A SAFE RESERVATION**: in every run whose tests leave room, a worker that
    is about to take a block finds one free. -/
theorem reserva_segura (l : List AccionAsignar) (h0 : Arranque fijo nros s)
    (hA : EnCadaPaso pasoAsignar Alcanza l s) (hl : corrida pasoAsignar l s = some s')
    (t : Nat) (ht : t < s'.cant) (k : Nat) (ps viejos nuevos : List Nat)
    (hf : (s'.hilos t).fase = .pidiendo k ps viejos nuevos) : PedidoSeguro s'.fs := by
  obtain ⟨P, hs⟩ := corrida_invariante (P := fun s => ∃ P, Sano fijo P s)
    (fun a s s' ⟨_, hs⟩ hA h => hs.paso hA h) l ⟨_, h0.sano⟩ hA hl
  exact hs.pedidoSeguro (hs.hay ht (hs.debe_pos ht hf))

end Arranque

/-! ## Disks of one group -/

/-- A file of one block has one site. -/
theorem vivo_uno {sb : Superblock} {k : Nat} {ps : List Nat} (h : Vivo (esquema sb) 1 k ps) :
    k = 0 ∧ ps = [] := by
  have hantes := h.antes
  cases k with
  | zero =>
      have hlargo := h.valido.largo
      exact ⟨rfl, List.length_eq_zero_iff.mp (Nat.le_zero.mp hlargo)⟩
  | succ k =>
      have hbase := @base_le (esquema sb) 0 (k + 1) (Nat.succ_pos k)
      have huno : (esquema sb).p ^ (esquema sb).nivel 0 = 1 := pow_zero _
      unfold Esquema.primero at hantes
      omega

/-- Files of at most one block share the blocks when their first pointers do. -/
theorem repartido_uno {fs : Ext2} {fijo : Nat → Prop}
    (huno : ∀ x, fs.EnUso x → fs.bloquesDe x ≤ 1)
    (hraiz : ∀ x, fs.EnUso x → ∀ k, k < 15 → fs.bloquesDe x ≤ (esquema fs.sb).base k →
      (leerInodo fs x).iBlock k = 0)
    (hdentro : ∀ x, fs.EnUso x → fs.bloquesDe x = 1 →
      fs.sb.enVolumen ((leerInodo fs x).iBlock 0) ∧ ¬ fijo ((leerInodo fs x).iBlock 0))
    (hdistintos : ∀ x y, fs.EnUso x → fs.EnUso y → fs.bloquesDe x = 1 → fs.bloquesDe y = 1 →
      (leerInodo fs x).iBlock 0 = (leerInodo fs y).iBlock 0 → x = y)
    (hbits : ∀ b, fs.sb.enVolumen b → (fs.bitBloque b = true ↔
      fijo b ∨ ∃ x, fs.EnUso x ∧ fs.bloquesDe x = 1 ∧ (leerInodo fs x).iBlock 0 = b)) :
    fs.Repartido fijo (fun x => (leerInodo fs x).iBlock) fs.bloquesDe := by
  have hsitio : ∀ {x k ps}, fs.EnUso x → Vivo (esquema fs.sb) (fs.bloquesDe x) k ps →
      fs.bloquesDe x = 1 ∧ k = 0 ∧ ps = [] := by
    intro x k ps hx hv
    have h1 : fs.bloquesDe x = 1 := Nat.le_antisymm (huno x hx)
      (Nat.lt_of_le_of_lt (Nat.zero_le _) hv.antes)
    exact ⟨h1, vivo_uno (h1 ▸ hv)⟩
  constructor
  · exact hraiz
  · intro x hx k ps pos hv hval
    obtain ⟨-, rfl, rfl⟩ := hsitio hx hv
    exact absurd hval.largo (Nat.not_succ_le_zero 0)
  · intro x hx k ps hv
    obtain ⟨h1, rfl, rfl⟩ := hsitio hx hv
    exact hdentro x hx h1
  · intro x y hx hy k ps k' ps' hv hv' heq
    obtain ⟨h1, rfl, rfl⟩ := hsitio hx hv
    obtain ⟨h1', rfl, rfl⟩ := hsitio hy hv'
    exact ⟨hdistintos x y hx hy h1 h1' heq, rfl, rfl⟩
  · intro b hb
    rw [hbits b hb]
    refine or_congr Iff.rfl ⟨?_, ?_⟩
    · rintro ⟨x, hx, h1, heq⟩
      refine ⟨x, 0, [], hx, ⟨Valido.nil (show 0 < 15 by decide), ?_⟩, heq⟩
      rw [h1]
      exact Nat.one_pos
    · rintro ⟨x, k, ps, hx, hv, heq⟩
      obtain ⟨h1, rfl, rfl⟩ := hsitio hx hv
      exact ⟨x, hx, h1, heq⟩

/-- An image of one group, with its inode table in one block. -/
theorem geometria_unGrupo {fs : Ext2} {fijo : Nat → Prop}
    (hbloques : 0 < fs.sb.sBlocksPerGroup ∧ fs.sb.sBlocksPerGroup ≤ 8 * fs.sb.blockSize
      ∧ fs.sb.sBlocksPerGroup < 2 ^ 16)
    (hvol : fs.sb.sBlocksCount * fs.sb.blockSize < 2 ^ 32 ∧ fs.sb.sFirstDataBlock ≤ 1
      ∧ fs.sb.sFirstDataBlock < fs.sb.sBlocksCount)
    (hinodos : 0 < fs.sb.sInodesPerGroup ∧ fs.sb.sInodesPerGroup ≤ 8 * fs.sb.blockSize
      ∧ fs.sb.sInodesCount < 2 ^ 32)
    (huno : fs.sb.sBlocksCount - fs.sb.sFirstDataBlock ≤ fs.sb.sBlocksPerGroup
      ∧ fs.sb.sInodesCount ≤ fs.sb.sInodesPerGroup
      ∧ fs.sb.sInodesPerGroup * tamanoInodo ≤ fs.sb.blockSize)
    (hcant : fs.sb.cantGrupos = 1 ∧ fs.bgdt.length = 1)
    (hcubierto : fs.sb.tamGrupo 0 ≤ 8 * tamArray (tamBlockBitmap fs.sb 0))
    (hcero : fs.sb.enVolumen 0 → fijo 0)
    (hfijos : fijo (fs.grupo 0).bgBlockBitmap ∧ fijo (fs.grupo 0).bgInodeBitmap
      ∧ fijo (fs.grupo 0).bgInodeTable)
    (hdentro : fs.sb.enVolumen (fs.grupo 0).bgBlockBitmap
      ∧ fs.sb.enVolumen (fs.grupo 0).bgInodeTable)
    (hdist : (fs.grupo 0).bgBlockBitmap ≠ (fs.grupo 0).bgInodeBitmap
      ∧ (fs.grupo 0).bgBlockBitmap ≠ (fs.grupo 0).bgInodeTable
      ∧ (fs.grupo 0).bgInodeTable ≠ (fs.grupo 0).bgInodeBitmap) : Geometria fijo fs := by
  have hg : ∀ {g}, 0 < fs.sb.tamGrupo g → g = 0 := by
    intro g h
    by_contra hne
    have h' := Nat.lt_of_lt_of_le h (Nat.min_le_right _ _)
    have := Nat.le_mul_of_pos_left fs.sb.sBlocksPerGroup (Nat.pos_of_ne_zero hne)
    omega
  have hi : ∀ {g}, g * fs.sb.sInodesPerGroup < fs.sb.sInodesCount → g = 0 := by
    intro g h
    by_contra hne
    have := Nat.le_mul_of_pos_left fs.sb.sInodesPerGroup (Nat.pos_of_ne_zero hne)
    omega
  have ht : ∀ {t}, t * fs.sb.blockSize < fs.sb.sInodesPerGroup * tamanoInodo → t = 0 := by
    intro t h
    by_contra hne
    have := Nat.le_mul_of_pos_left fs.sb.blockSize (Nat.pos_of_ne_zero hne)
    omega
  refine ⟨hvol.1, hvol.2.1, hvol.2.2, hbloques.1, hbloques.2.1, hbloques.2.2, fun g hlt => ?_,
    hcant.2.trans hcant.1.symm, hcero, fun g h => ?_, fun g g' h h' _ => ?_,
    ⟨hinodos.1, hinodos.2.1⟩, hinodos.2.2, fun g h => ?_, fun g t h h' => ?_,
    fun g g' _ _ h h' _ _ _ => ?_⟩
  · obtain rfl : g = 0 := by omega
    exact hcubierto
  · obtain rfl := hg h
    exact ⟨hdentro.1, hfijos.1⟩
  · rw [hg h, hg h']
  · obtain rfl := hi h
    refine ⟨hfijos.2.1, fun g' h' => ?_, fun g' t h' h'' => ?_⟩
    · obtain rfl := hg h'
      exact hdist.1
    · obtain rfl := hi h'
      obtain rfl := ht h''
      exact hdist.2.2
  · obtain rfl := hi h
    obtain rfl := ht h'
    refine ⟨hdentro.2, hfijos.2.2, fun g' h'' => ?_⟩
    obtain rfl := hg h''
    exact hdist.2.1
  · rw [hi h, hi h']

/-- A file of one block. -/
def UnBloque (fs : Ext2) (x : Nat) : Prop := fs.EnUso x ∧ fs.bloquesDe x = 1

instance (fs : Ext2) : DecidablePred (UnBloque fs) := fun _ => inferInstanceAs (Decidable (_ ∧ _))

/-- The roots of a file of at most one block. -/
def RaizChica (fijo : Nat → Prop) (fs : Ext2) (x : Nat) : Prop :=
  fs.bloquesDe x ≤ 1
    ∧ (∀ k < 15, fs.bloquesDe x ≤ (esquema fs.sb).base k → (leerInodo fs x).iBlock k = 0)
    ∧ (fs.bloquesDe x = 1 →
      fs.sb.enVolumen ((leerInodo fs x).iBlock 0) ∧ ¬ fijo ((leerInodo fs x).iBlock 0))

instance (fijo : Nat → Prop) [DecidablePred fijo] (fs : Ext2) :
    DecidablePred (RaizChica fijo fs) := fun _ => inferInstanceAs (Decidable (_ ∧ _ ∧ _))

/-- What an image of one group with files of at most one block is asked apart
    from its geometry: its counters, its roots and its bitmap. -/
def ArchivosChicos (fijo : Nat → Prop) (fs : Ext2) : Prop :=
  (fs.sb.cantGrupos = 1
    ∧ (fs.grupo 0).bgFreeBlocksCount
      = ((Finset.range (fs.sb.tamGrupo 0)).filter fun j => fs.bitGrupo 0 j = false).card
    ∧ fs.sb.sFreeBlocksCount = (fs.grupo 0).bgFreeBlocksCount)
  ∧ (∀ x < fs.sb.sInodesCount + 1, fs.EnUso x → RaizChica fijo fs x)
  ∧ (∀ x < fs.sb.sInodesCount + 1, ∀ y < fs.sb.sInodesCount + 1, UnBloque fs x → UnBloque fs y →
    (leerInodo fs x).iBlock 0 = (leerInodo fs y).iBlock 0 → x = y)
  ∧ ∀ b < fs.sb.sBlocksCount, fs.sb.enVolumen b → (fs.bitBloque b = true ↔
    fijo b ∨ ∃ x < fs.sb.sInodesCount + 1, UnBloque fs x ∧ (leerInodo fs x).iBlock 0 = b)

instance (fijo : Nat → Prop) [DecidablePred fijo] (fs : Ext2) :
    Decidable (ArchivosChicos fijo fs) :=
  @instDecidableAnd _ _ inferInstance
    (@instDecidableAnd _ _ inferInstance (@instDecidableAnd _ _ inferInstance inferInstance))

/-- The image is consistent. -/
theorem ArchivosChicos.consistente {fs : Ext2} {fijo : Nat → Prop} (h : ArchivosChicos fijo fs)
    (hg : Geometria fijo fs) : Consistente fijo fs := by
  obtain ⟨⟨hcant, hlibres, htotal⟩, hraices, hdistintos, hbits⟩ := h
  have hlt : ∀ {x}, fs.EnUso x → x < fs.sb.sInodesCount + 1 := fun hx => Nat.lt_succ_of_le hx.2.1
  refine ⟨hg, ⟨fun g hgr => ?_, ?_⟩, repartido_uno (fun x hx => (hraices x (hlt hx) hx).1)
    (fun x hx => (hraices x (hlt hx) hx).2.1) (fun x hx => (hraices x (hlt hx) hx).2.2)
    (fun x y hx hy hx1 hy1 => hdistintos x (hlt hx) y (hlt hy) ⟨hx, hx1⟩ ⟨hy, hy1⟩)
    fun b hb => ?_⟩
  · obtain rfl : g = 0 := by omega
    exact hlibres
  · rw [hcant, Finset.sum_range_one]
    exact htotal
  · rw [hbits b hb.2 hb]
    refine or_congr Iff.rfl ⟨?_, ?_⟩
    · rintro ⟨x, -, ⟨hx, hx1⟩, heq⟩
      exact ⟨x, hx, hx1, heq⟩
    · rintro ⟨x, hx, hx1, heq⟩
      exact ⟨x, hlt hx, ⟨hx, hx1⟩, heq⟩

/-- One group of seven blocks of 1 KiB: blocks 1 to 6 hold the metadata, block
    7 is free, and inodes 1 and 2 are in use and empty. -/
def imagenChica : Ext2 where
  disco := fun o => if o = 3 * 1024 then 0x3F else if o = 4 * 1024 then 3 else 0
  sb := ⟨8, 8, 1, 6, 1, 0, 8, 8⟩
  bgdt := [{ bgBlockBitmap := 3, bgInodeBitmap := 4, bgInodeTable := 5, bgFreeBlocksCount := 1,
             bgFreeInodesCount := 6 }]

/-- Two workers on it, with inodes 1 and 2. -/
def tallerChico : Taller :=
  ⟨imagenChica, 2, fun t => ⟨leerInodo imagenChica (t + 1), .fuera⟩⟩

/-- The metadata of the image is below block 6. -/
theorem geometria_chica {n : Nat} (hn : 5 ≤ n) : Geometria (· ≤ n) imagenChica := by
  refine geometria_unGrupo (by decide) (by decide) (by decide) (by decide) (by decide) (by decide)
    (fun _ => Nat.zero_le n) ⟨?_, ?_, hn⟩ ⟨?_, ?_⟩ (by decide)
  · exact show 3 ≤ n by omega
  · exact show 4 ≤ n by omega
  · exact ⟨by decide, by decide⟩
  · exact ⟨by decide, by decide⟩

theorem geometria_imagenChica : Geometria (· ≤ 6) imagenChica := geometria_chica (by decide)

theorem consistente_imagenChica : Consistente (· ≤ 6) imagenChica :=
  ArchivosChicos.consistente (by decide) geometria_imagenChica

/-- Both workers may start. -/
theorem arranque_tallerChico : Arranque (· ≤ 6) (· + 1) tallerChico := by
  have huso : imagenChica.EnUso 1 ∧ imagenChica.EnUso 2 := by decide
  refine ⟨consistente_imagenChica, ?_, fun t _ => rfl⟩
  intro t ht
  have ht' : t < 2 := ht
  interval_cases t
  · exact huso.1
  · exact huso.2

/-- The same with seventeen free blocks, 7 to 23. -/
def imagenAmplia : Ext2 where
  disco := fun o => if o = 3 * 1024 then 0x3F else if o = 4 * 1024 then 3 else 0
  sb := ⟨8, 24, 17, 6, 1, 0, 24, 8⟩
  bgdt := [{ bgBlockBitmap := 3, bgInodeBitmap := 4, bgInodeTable := 5, bgFreeBlocksCount := 17,
             bgFreeInodesCount := 6 }]

def tallerAmplio : Taller :=
  ⟨imagenAmplia, 2, fun t => ⟨leerInodo imagenAmplia (t + 1), .fuera⟩⟩

/-- The metadata of the larger image is where it was. -/
theorem geometria_amplia {n : Nat} (hn : 5 ≤ n) : Geometria (· ≤ n) imagenAmplia := by
  refine geometria_unGrupo (by decide) (by decide) (by decide) (by decide) (by decide) (by decide)
    (fun _ => Nat.zero_le n) ⟨?_, ?_, hn⟩ ⟨?_, ?_⟩ (by decide)
  · exact show 3 ≤ n by omega
  · exact show 4 ≤ n by omega
  · exact ⟨by decide, by decide⟩
  · exact ⟨by decide, by decide⟩

theorem consistente_imagenAmplia : Consistente (· ≤ 6) imagenAmplia :=
  ArchivosChicos.consistente (by decide) (geometria_amplia (by decide))

theorem enUso_imagenAmplia : imagenAmplia.EnUso 1 ∧ imagenAmplia.EnUso 2 := by decide

theorem arranque_tallerAmplio : Arranque (· ≤ 6) (· + 1) tallerAmplio := by
  refine ⟨consistente_imagenAmplia, ?_, fun t _ => rfl⟩
  intro t ht
  have ht' : t < 2 := ht
  interval_cases t
  · exact enUso_imagenAmplia.1
  · exact enUso_imagenAmplia.2

/-- Both workers want a block behind the simple indirect one, which their files
    lack too.  They test one after the other and take in turn. -/
def reservasCruzadas : List AccionAsignar :=
  [.probar 0 12, .probar 1 12, .pedir 1, .pedir 0, .pedir 1, .escribir 1]

/-- Worker 0 has its pointer block and is to take the data block, while worker 1
    writes. -/
theorem reserva_segura_cruzada : ∃ s,
    corrida pasoAsignar reservasCruzadas tallerAmplio = some s ∧
      (s.hilos 0).fase = .pidiendo 12 [0] [] [8] ∧ PedidoSeguro s.fs := by
  have hfase : (corrida pasoAsignar reservasCruzadas tallerAmplio).map
      (fun s => (s.cant, (s.hilos 0).fase)) = some (2, .pidiendo 12 [0] [] [8]) := by
    decide +kernel
  obtain ⟨s, hs, heq⟩ := Option.map_eq_some_iff.mp hfase
  obtain ⟨hcant, hf⟩ := Prod.mk.inj heq
  refine ⟨s, hs, hf, reserva_segura reservasCruzadas arranque_tallerAmplio (by decide) hs 0 ?_
    12 [0] [] [8] hf⟩
  rw [hcant]
  exact Nat.two_pos

/-- Both workers test before either takes: the second one takes with no block
    left, the search answers `-1`, and the counter wraps. -/
theorem reserva_segura_falla :
    Arranque (· ≤ 6) (· + 1) tallerChico ∧
      ∃ s, corrida pasoAsignar [.probar 0 0, .probar 1 0, .pedir 0] tallerChico = some s ∧
        (s.hilos 1).fase = .pidiendo 0 [] [] [] ∧ s.fs.sb.sFreeBlocksCount = 0 ∧
        buscarBloqueLibre s.fs = menosUno ∧
        (pedirBloqueLibre s.fs).1.sb.sFreeBlocksCount = menosUno :=
  ⟨arranque_tallerChico, _, rfl, by decide, by decide, by decide,
    by decide⟩

end Rfs
