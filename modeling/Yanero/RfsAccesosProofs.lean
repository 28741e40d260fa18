import Yanero.RfsTablaProofs

/-! # What a list of accesses does

    An assignment or a release is a list of takes, pointer writes and releases
    (`RfsCamino`).  `Efecto` says where such a list has led from an image: the
    metadata stays, the counters are right, and the pointers of data blocks and
    the bits of the volume are given functions.  One access, one take, and then
    a whole list of either are followed through it, so what an assignment does
    becomes a matter of the functions alone. -/

namespace Rfs

open Arboles Palabras

/-- The block an access works on. -/
def Acceso.bloque : Acceso → Nat
  | .liberar b => b
  | .puntero b _ _ => b
  | .inicializar b => b

/-- What the pointers read after an access. -/
def Acceso.leerTras (leer : Nat → Nat → Nat) : Acceso → Nat → Nat → Nat
  | .liberar _ => leer
  | .puntero b pos v => fun c q => if c = b ∧ q = pos then v else leer c q
  | .inicializar b => fun c q => if c = b then 0 else leer c q

/-- What the pointers read after a list of accesses. -/
def leerTras (leer : Nat → Nat → Nat) (l : List Acceso) : Nat → Nat → Nat :=
  l.foldl Acceso.leerTras leer

/-- The blocks a list of accesses gives back. -/
def liberados (l : List Acceso) : List Nat :=
  l.filterMap fun
    | .liberar b => some b
    | _ => none

/-- An access works on a data block, and a pointer it writes fits. -/
structure Acceso.Bien (fijo : Nat → Prop) (fs : Ext2) (a : Acceso) : Prop where
  dato : Dato fijo fs a.bloque
  puntero : ∀ b pos v, a = .puntero b pos v → pos < fs.sb.cantPunteros ∧ v < 2 ^ 32

/-- Work on data blocks has led from `fs` to `fs'`, where the pointers read
    `leer`, the bits are `bit` and `n` blocks are free. -/
structure Efecto (fijo : Nat → Prop) (fs fs' : Ext2) (leer : Nat → Nat → Nat)
    (bit : Nat → Bool) (n : Nat) : Prop where
  guarda : Guarda fijo fs fs'
  cuentas : Cuentas fs'
  punteros : ∀ c q, Dato fijo fs c → q < fs.sb.cantPunteros → buscarBloque fs' c q = leer c q
  bits : ∀ c, fs.sb.enVolumen c → fs'.bitBloque c = bit c
  libres : fs'.sb.sFreeBlocksCount = n

section Efecto

variable {fijo : Nat → Prop} {fs fs' fs'' : Ext2} {leer : Nat → Nat → Nat} {bit : Nat → Bool}
  {n : Nat}

theorem Efecto.inicial (fijo : Nat → Prop) (hC : Cuentas fs) :
    Efecto fijo fs fs (buscarBloque fs) fs.bitBloque fs.sb.sFreeBlocksCount :=
  ⟨Guarda.refl fijo fs, hC, fun _ _ _ _ => rfl, fun _ _ => rfl, rfl⟩

theorem Efecto.dato (h : Efecto fijo fs fs' leer bit n) {b : Nat} :
    Dato fijo fs' b ↔ Dato fijo fs b := by
  unfold Dato
  rw [h.guarda.mismo.enVolumen]

theorem Efecto.cantPunteros (h : Efecto fijo fs fs' leer bit n) :
    fs'.sb.cantPunteros = fs.sb.cantPunteros := by
  unfold Superblock.cantPunteros
  rw [h.guarda.mismo.blockSize]

/-- A pointer is written. -/
theorem Efecto.escribirPtroBloq (hG : Geometria fijo fs) (h : Efecto fijo fs fs' leer bit n)
    {b pos v : Nat} (hb : Dato fijo fs b) (hpos : pos < fs.sb.cantPunteros) (hv : v < 2 ^ 32) :
    Efecto fijo fs (escribirPtroBloq fs' b pos v)
      (Acceso.leerTras leer (.puntero b pos v)) bit n := by
  have hG' := h.guarda.mismo.geometria hG
  have hb' := h.dato.mpr hb
  rw [← h.cantPunteros] at hpos
  have hsolo : SoloBloque fs' (Rfs.escribirPtroBloq fs' b pos v) b :=
    soloBloque_escribirPtroBloq hG' hb'.1 hpos
  have hno := hG'.noBitmap hb'.2
  refine ⟨h.guarda.trans (hsolo.guarda hG' hb'.2), hsolo.cuentas hG' hno h.cuentas, ?_, ?_, ?_⟩
  · intro c q hc hq
    have hc' := h.dato.mpr hc
    have hq' := hq
    rw [← h.cantPunteros] at hq'
    rw [buscarBloque_escribirPtroBloq hG' hb'.1 hpos hv hc'.1 hq', h.punteros c q hc hq]
    rfl
  · intro c hc
    rw [hsolo.bitBloque hG' hno (by rw [h.guarda.mismo.enVolumen]; exact hc), h.bits c hc]
  · rw [hsolo.sb, h.libres]

/-- A pointer block is cleared. -/
theorem Efecto.inicializarBloqdePtros (hG : Geometria fijo fs)
    (h : Efecto fijo fs fs' leer bit n) {b : Nat} (hb : Dato fijo fs b) :
    Efecto fijo fs (inicializarBloqdePtros fs' b) (Acceso.leerTras leer (.inicializar b))
      bit n := by
  have hG' := h.guarda.mismo.geometria hG
  have hb' := h.dato.mpr hb
  have hsolo : SoloBloque fs' (Rfs.inicializarBloqdePtros fs' b) b :=
    soloBloque_inicializar hG' hb'.1
  have hno := hG'.noBitmap hb'.2
  refine ⟨h.guarda.trans (hsolo.guarda hG' hb'.2), hsolo.cuentas hG' hno h.cuentas, ?_, ?_, ?_⟩
  · intro c q hc hq
    have hc' := h.dato.mpr hc
    have hq' := hq
    rw [← h.cantPunteros] at hq'
    rw [buscarBloque_inicializar hG' hb'.1 hc'.1 hq', h.punteros c q hc hq]
    rfl
  · intro c hc
    rw [hsolo.bitBloque hG' hno (by rw [h.guarda.mismo.enVolumen]; exact hc), h.bits c hc]
  · rw [hsolo.sb, h.libres]

/-- A block changes its bit. -/
theorem Efecto.marca (hG : Geometria fijo fs) (h : Efecto fijo fs fs' leer bit n) {b m : Nat}
    {w : Bool} (hm : Marca fs' fs'' b w) (hC : Cuentas fs'')
    (hn : fs''.sb.sFreeBlocksCount = m) :
    Efecto fijo fs fs'' leer (fun c => if c = b then w else bit c) m := by
  have hG' := h.guarda.mismo.geometria hG
  refine ⟨h.guarda.trans hm.guarda, hC, ?_, ?_, hn⟩
  · intro c q hc hq
    have hq' := hq
    rw [← h.cantPunteros] at hq'
    rw [hm.buscarBloque hG' (h.dato.mpr hc) hq', h.punteros c q hc hq]
  · intro c hc
    rw [hm.bit c (by rw [h.guarda.mismo.enVolumen]; exact hc), h.bits c hc]

theorem Efecto.congr {leer' : Nat → Nat → Nat} {bit' : Nat → Bool} {m : Nat}
    (h : Efecto fijo fs fs' leer bit n) (hl : ∀ c q, leer' c q = leer c q)
    (hb : ∀ c, fs.sb.enVolumen c → bit' c = bit c) (hm : m = n) :
    Efecto fijo fs fs' leer' bit' m := by
  subst hm
  exact ⟨h.guarda, h.cuentas, fun c q hc hq => (h.punteros c q hc hq).trans (hl c q).symm,
    fun c hc => (h.bits c hc).trans (hb c hc).symm, h.libres⟩

/-! ## Lists -/

/-- **A LIST OF ACCESSES** on data blocks that gives back each block once. -/
theorem Efecto.accesos (hG : Geometria fijo fs) : ∀ (l : List Acceso) {fs' : Ext2}
    {leer : Nat → Nat → Nat} {bit : Nat → Bool} {n : Nat}, Efecto fijo fs fs' leer bit n →
    (∀ a ∈ l, a.Bien fijo fs) → (liberados l).Nodup → (∀ b ∈ liberados l, bit b = true) →
    Efecto fijo fs (l.foldl Acceso.aplicar fs') (leerTras leer l)
      (fun c => bit c && decide (c ∉ liberados l)) (n + (liberados l).length) := by
  intro l
  induction l with
  | nil =>
      intro fs' leer bit n h _ _ _
      exact h.congr (fun _ _ => rfl) (fun c _ => by simp [liberados]) rfl
  | cons a l ih =>
      intro fs' leer bit n h hbien hnodup hocup
      have ha := hbien a List.mem_cons_self
      have hresto : ∀ a ∈ l, a.Bien fijo fs := fun a' ha' => hbien a' (List.mem_cons_of_mem _ ha')
      cases a with
      | liberar b =>
          have hlib : liberados (.liberar b :: l) = b :: liberados l := rfl
          rw [hlib] at hnodup hocup ⊢
          obtain ⟨hb, hnodup⟩ := List.nodup_cons.mp hnodup
          have hG' := h.guarda.mismo.geometria hG
          have hvol : fs'.sb.enVolumen b := by
            rw [h.guarda.mismo.enVolumen]
            exact ha.dato.1
          have hbit : fs'.bitBloque b = true :=
            (h.bits b ha.dato.1).trans (hocup b List.mem_cons_self)
          obtain ⟨hm, hC, hs⟩ := liberarBloqueEnBitmap_spec hG' h.cuentas hvol hbit
          have h₁ := h.marca hG hm hC (hs.trans (by rw [h.libres]))
          refine (ih h₁ hresto hnodup fun c hc => ?_).congr (fun _ _ => rfl) (fun c _ => ?_) ?_
          · have hne : c ≠ b := by
              rintro rfl
              exact hb hc
            rw [if_neg hne]
            exact hocup c (List.mem_cons_of_mem _ hc)
          · by_cases hcb : c = b
            · simp [hcb]
            · simp [hcb]
          · rw [List.length_cons]
            omega
      | puntero b pos v =>
          obtain ⟨hpos, hv⟩ := ha.puntero b pos v rfl
          exact ih (h.escribirPtroBloq hG ha.dato hpos hv) hresto hnodup hocup
      | inicializar b =>
          exact ih (h.inicializarBloqdePtros hG ha.dato) hresto hnodup hocup

/-- **A ROW OF TAKES**, when that many blocks are free: different blocks of the
    volume that were free. -/
theorem Efecto.pedirBloques (hG : Geometria fijo fs) : ∀ (k : Nat) {fs' : Ext2}
    {bit : Nat → Bool} {n : Nat}, Efecto fijo fs fs' leer bit n → k ≤ n →
    ∃ fs'' nuevos, pedirBloques k fs' = (fs'', nuevos) ∧ nuevos.length = k ∧ nuevos.Nodup
      ∧ (∀ b ∈ nuevos, fs.sb.enVolumen b ∧ bit b = false)
      ∧ Efecto fijo fs fs'' leer (fun c => bit c || decide (c ∈ nuevos)) (n - k) := by
  intro k
  induction k with
  | zero =>
      intro fs' bit n h _
      exact ⟨fs', [], rfl, rfl, List.nodup_nil, by simp,
        h.congr (fun _ _ => rfl) (fun c _ => by simp) (by omega)⟩
  | succ k ih =>
      intro fs' bit n h hk
      obtain ⟨fs₁, b, hp, hvol, hlibre, hm, hC, hs⟩ :=
        pedirBloqueLibre_spec (h.guarda.mismo.geometria hG) h.cuentas
          (by rw [h.libres]; omega)
      rw [h.guarda.mismo.enVolumen] at hvol
      rw [h.libres] at hs
      have hbit : bit b = false := (h.bits b hvol).symm.trans hlibre
      have h₁ := h.marca hG hm hC (m := n - 1) (by omega)
      obtain ⟨fs₂, nuevos, hps, hlen, hnodup, hnuevos, h₂⟩ := ih h₁ (by omega)
      have hnot : b ∉ nuevos := by
        intro hmem
        have := (hnuevos b hmem).2
        rw [if_pos rfl] at this
        cases this
      refine ⟨fs₂, b :: nuevos, ?_, by rw [List.length_cons, hlen],
        List.nodup_cons.mpr ⟨hnot, hnodup⟩, ?_, h₂.congr (fun _ _ => rfl) (fun c _ => ?_)
          (by omega)⟩
      · rw [pedirBloques_succ, hp, hps]
      · intro c hc
        rcases List.mem_cons.mp hc with rfl | hc
        · exact ⟨hvol, hbit⟩
        · obtain ⟨hcv, hcb⟩ := hnuevos c hc
          refine ⟨hcv, ?_⟩
          by_cases hcb' : c = b
          · rw [hcb']
            exact hbit
          · rwa [if_neg hcb'] at hcb
      · by_cases hcb : c = b
        · simp [hcb]
        · simp [hcb]

end Efecto

/-! ## The pointers after an assignment -/

theorem leerTras_append (leer : Nat → Nat → Nat) (l l' : List Acceso) :
    leerTras leer (l ++ l') = leerTras (leerTras leer l) l' := List.foldl_append ..

theorem leerTras_cons (leer : Nat → Nat → Nat) (a : Acceso) (l : List Acceso) :
    leerTras leer (a :: l) = leerTras (a.leerTras leer) l := rfl

/-- Clearing a list of blocks. -/
theorem leerTras_inicializar (bs : List Nat) : ∀ (leer : Nat → Nat → Nat) (c q : Nat),
    leerTras leer (bs.map .inicializar) c q = if c ∈ bs then 0 else leer c q := by
  induction bs with
  | nil => intro leer c q; simp [leerTras]
  | cons b bs ih =>
      intro leer c q
      rw [List.map_cons, leerTras_cons, ih]
      by_cases hc : c ∈ bs
      · rw [if_pos hc, if_pos (List.mem_cons_of_mem _ hc)]
      · rw [if_neg hc]
        by_cases hcb : c = b
        · rw [if_pos (by simp [hcb])]
          exact if_pos hcb
        · rw [if_neg (by simp [hcb, hc])]
          exact if_neg hcb

/-- The links leave the pointers of other blocks alone. -/
theorem leerTras_enlaces_fuera : ∀ (bs ps : List Nat) (leer : Nat → Nat → Nat) (c q : Nat),
    (∀ i, i < ps.length → i + 1 < bs.length → c = bs.getD i 0 → q ≠ ps.getD i 0) →
    leerTras leer (enlaces bs ps) c q = leer c q := by
  intro bs
  induction bs with
  | nil => intro ps leer c q _; rfl
  | cons b bs ih =>
      intro ps leer c q hno
      cases bs with
      | nil => rfl
      | cons b' bs =>
          cases ps with
          | nil => rfl
          | cons pos ps =>
              rw [enlaces, leerTras_cons, ih ps _ c q fun i hi hi' hc => ?_]
              · refine if_neg ?_
                rintro ⟨rfl, rfl⟩
                exact hno 0 (by simp) (by simp) rfl rfl
              · exact hno (i + 1) (by simpa using hi) (by simpa using hi') (by simpa using hc)

/-- Each link of a path of different blocks leads to the next block. -/
theorem leerTras_enlaces : ∀ (bs ps : List Nat) (leer : Nat → Nat → Nat) (i : Nat),
    bs.Nodup → i < ps.length → i + 1 < bs.length →
    leerTras leer (enlaces bs ps) (bs.getD i 0) (ps.getD i 0) = bs.getD (i + 1) 0 := by
  intro bs
  induction bs with
  | nil => intro ps leer i _ _ hi; cases hi
  | cons b bs ih =>
      intro ps leer i hnodup hip hib
      obtain ⟨hb, hnodup⟩ := List.nodup_cons.mp hnodup
      cases bs with
      | nil => simp at hib
      | cons b' bs =>
          cases ps with
          | nil => cases hip
          | cons pos ps =>
              rw [enlaces, leerTras_cons]
              cases i with
              | zero =>
                  rw [leerTras_enlaces_fuera (b' :: bs) ps _ _ _ fun i _ hi' hc => ?_]
                  · exact if_pos ⟨rfl, rfl⟩
                  · -- block `b` comes once only
                    have hmem : (b' :: bs).getD i 0 ∈ b' :: bs := by
                      rw [List.getD_eq_getElem _ _ (by omega)]
                      exact List.getElem_mem _
                    rw [← hc] at hmem
                    exact absurd hmem hb
              | succ i =>
                  simp only [List.getD_cons_succ]
                  exact ih ps _ i hnodup (by simpa using hip) (by simpa using hib)

end Rfs
