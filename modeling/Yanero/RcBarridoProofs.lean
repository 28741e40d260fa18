import Yanero.RcBusquedaProofs
import Yanero.RcCompactarProofs

/-! # What a sweep keeps

    A sweep moves every item next to the one before it.  The items need no more
    than the bytes of their values, never less than a chunk, so the sweep keeps
    them from any table that starts as a tiling: the unusable bytes of the slot
    before a free run are lost to the count of the table, not to the items.
    Between two calls the swept slots and the items after them lie in order
    (`Barriendo`), each call adds a run of items to the swept slots, and the
    sweep ends at the first free run without an item after it. -/

namespace Rc

open Bucles Bytes Teselado

/-- The live slots come first and tile the area from `p` to `e`: an occupied
    slot has the bytes of its item and its unusable ones, a free slot at least
    a chunk. -/
structure AreaTeselada (t : TableInfo) (p e : Int) (L D : List Particion) : Prop where
  tabla : t.elements = L ++ D
  vivas : ∀ s ∈ L, s.viva = true
  muertas : ∀ s ∈ D, s.viva = false
  tesela : Tesela inicio (largoDin t.sizeChunk) p L e
  libres : ∀ s ∈ L, s.ocupado = false → (t.sizeChunk : Int) ≤ s.bytesDisponibles
  inutiles : ∀ s ∈ L, s.ocupado = true → 0 ≤ s.bytesInutilizados

/-- What is kept of an item: the key, the length, the stored mark, the
    timestamp and the bytes of the value. -/
def itemDe (m : Nat → UInt8) (s : Particion) : Clave × Nat × Bool × Nat × List UInt8 :=
  (s.item.key, s.item.ndata, s.item.stored, s.ultimaVezUsada, leer m s.item.data s.item.ndata)

/-- `t'` is `t` swept: the occupied slots `A`, with the items of `t` in their
    order, none over another, and then slots `V` that are free or dead, the
    first of them the only one with bytes. -/
structure Compactada (t t' : TableInfo) (A V : List Particion) : Prop where
  tabla : t'.elements = A ++ V
  ocupadas : ∀ s ∈ A, s.ocupado = true
  libres : ∀ s ∈ V, s.ocupado = false
  items : A.map (itemDe t'.memoria) = (Rc.ocupadas t.elements).map (itemDe t.memoria)
  separadas : A.Pairwise fun s u => s.item.data + s.item.ndata ≤ u.item.data
  uno : ∀ s ∈ V.tail, s.bytesDisponibles = 0

section Barrido

variable {t : TableInfo} {c : Nat} {p e : Int} {A T O O' R : List Particion} {g : Particion}
  {q : Nat}

/-! ## Slots that differ in their unusable bytes -/

/-- What does not look at the unusable bytes is the same on both. -/
theorem map_de_sinInutiles {β : Type} {f : Particion → β} (hf : ∀ s, f (sinInutiles s) = f s)
    (h : O.map sinInutiles = O'.map sinInutiles) : O.map f = O'.map f := by
  have hmap := congrArg (List.map f) h
  have hfun : f ∘ sinInutiles = f := funext hf
  rwa [List.map_map, List.map_map, hfun] at hmap

/-- So they fit where the others do. -/
theorem cabe_de_sinInutiles (h : O.map sinInutiles = O'.map sinInutiles)
    (hc : Cabe inicio (anchoItem c) p O' e) : Cabe inicio (anchoItem c) p O e := by
  have hpelar : ∀ L : List Particion, Cabe inicio (anchoItem c) p (L.map sinInutiles) e
      ↔ Cabe inicio (anchoItem c) p L e := fun L => cabe_map (fun _ => rfl) (fun _ => rfl)
  rw [← hpelar, h, hpelar]
  exact hc

/-- And are occupied when the others are. -/
theorem ocupadas_de_sinInutiles (h : O.map sinInutiles = O'.map sinInutiles)
    (ho : ∀ s ∈ O', s.ocupado = true) : ∀ s ∈ O, s.ocupado = true := by
  intro s hs
  have hmem : s.ocupado ∈ O'.map (·.ocupado) := by
    rw [← map_de_sinInutiles (fun _ => rfl) h]
    exact List.mem_map_of_mem hs
  obtain ⟨u, hu, heq⟩ := List.mem_map.mp hmem
  rw [← heq]
  exact ho u hu

/-- The end of `compactar` changes no more than unusable bytes of the items. -/
theorem cargarTotal_efecto {u : TableInfo} {G : List Particion} (total : Int)
    (hes : u.elements = A ++ (O ++ (g :: G ++ R))) (hO : O ≠ []) :
    ∃ O₁ g₁, cargarTotal u (A.length + O.length - 1) total
        = { u with elements := A ++ (O₁ ++ (g₁ :: G ++ R)) }
      ∧ O₁.map sinInutiles = O.map sinInutiles ∧ g₁.ocupado = g.ocupado := by
  have hpos := List.length_pos_iff.mpr hO
  unfold cargarTotal TableInfo.modificar
  split
  · -- the bytes stay with the last item
    obtain ⟨x, hx⟩ : ∃ x, O.dropLast ++ [x] = O :=
      ⟨O.getLast hO, List.dropLast_append_getLast hO⟩
    have hcorte : u.elements = (A ++ O.dropLast) ++ x :: (g :: G ++ R) := by
      rw [hes]
      conv_lhs => rw [← hx]
      simp
    have hdonde : A.length + O.length - 1 = (A ++ O.dropLast).length := by
      rw [List.length_append, List.length_dropLast]
      omega
    refine ⟨O.dropLast ++ [{ x with bytesInutilizados := total }], g, ?_, ?_, rfl⟩
    · rw [hcorte, hdonde, modify_mitad]
      simp
    · conv_rhs => rw [← hx]
      rw [List.map_append, List.map_append]
      rfl
  · -- the bytes go to the slot after it
    have hmod : ∀ f : Particion → Particion, u.elements.modify (A.length + O.length - 1 + 1) f
        = A ++ (O ++ (f g :: G ++ R)) := by
      intro f
      have hcorte : u.elements = (A ++ O) ++ g :: (G ++ R) := by
        rw [hes]
        simp
      have hdonde : A.length + O.length - 1 + 1 = (A ++ O).length := by
        rw [List.length_append]
        omega
      rw [hcorte, hdonde, modify_mitad]
      simp
    rw [hmod]
    refine ⟨O, _, rfl, rfl, ?_⟩
    rfl

/-! ## Items in order -/

/-- The items of a layout lie in order without what stands between them. -/
theorem cabe_ocupadas {L : List Particion} (hnn : ∀ s ∈ L, 0 ≤ largoDin c s)
    (hin : ∀ s ∈ L, s.ocupado = true → 0 ≤ s.bytesInutilizados) :
    ∀ {p : Int}, Cabe inicio (largoDin c) p L e → Cabe inicio (anchoItem c) p (ocupadas L) e := by
  induction L with
  | nil => intro p h; exact h
  | cons s L ih =>
      intro p h
      have ih' : Cabe inicio (anchoItem c) (inicio s + largoDin c s) (ocupadas L) e :=
        ih (fun u hu => hnn u (List.mem_cons_of_mem s hu))
          (fun u hu => hin u (List.mem_cons_of_mem s hu)) h.2
      have h0 := hnn s List.mem_cons_self
      cases ho : s.ocupado with
      | false =>
          rw [ocupadas_cons_of_false ho]
          have := h.1
          exact cabe_baja ih' (by omega)
      | true =>
          rw [ocupadas_cons_of_true ho]
          have hi := hin s List.mem_cons_self ho
          refine ⟨h.1, cabe_baja ih' ?_⟩
          rw [largoDin_of_ocupado ho, anchoItem]
          omega

theorem cabe_recolocar_ancho (O : List Particion) : ∀ q : Nat,
    Cabe inicio (anchoItem c) q (recolocar c q O) (finRecolocar c q O) := by
  induction O with
  | nil => intro q; exact le_refl _
  | cons o O ih =>
      intro q
      refine ⟨le_refl _, ?_⟩
      have hsig := ih (q + ocupa c o.item.ndata)
      rwa [Nat.cast_add] at hsig

/-- The layout of the items ends no later than they did. -/
theorem finRecolocar_le {q : Nat} (h : Cabe inicio (anchoItem c) q O e) :
    (finRecolocar c q O : Int) ≤ e := by
  rw [finRecolocar_eq]
  exact cabe_suma h

/-- What is before and after the items moved reads the same. -/
theorem legajos_ajenos {L : List Particion} {m : Nat → UInt8}
    (hO : Cabe inicio (anchoItem c) q O e)
    (hL : ∀ s ∈ L, s.item.data + s.item.ndata ≤ q ∨ e ≤ s.item.data) :
    L.map (legajo (moverTodas c q O m)) = L.map (legajo m) := by
  refine List.map_congr_left fun s hs => ?_
  rw [legajo, legajo, leer_moverTodas hO (hL s hs)]

/-! ## The sweep -/

/-- The table between two calls: the swept slots `A`, the free slot `g`, and
    the rest.  The next item goes to `q`. -/
structure Barriendo (t : TableInfo) (p e : Int) (A : List Particion) (g : Particion)
    (T : List Particion) (q : Nat) : Prop where
  tabla : t.elements = A ++ g :: T
  ocupadas : ∀ s ∈ A, s.ocupado = true
  libre : g.ocupado = false
  comienza : Comienza t.sizeChunk A g q
  antes : Cabe inicio (anchoItem t.sizeChunk) p A q
  despues : Cabe inicio (anchoItem t.sizeChunk) q (Rc.ocupadas T) e

theorem Barriendo.ocupadas_eq (h : Barriendo t p e A g T q) :
    Rc.ocupadas t.elements = A ++ Rc.ocupadas T := by
  rw [h.tabla, ocupadas_append, ocupadas_todas h.ocupadas, ocupadas_cons_of_false h.libre]

/-- Where the sweep goes on after items that end at `fin`. -/
theorem comienza_tras {fin : Nat} (hO : O ≠ []) (hfin : ∀ s, O.getLast? = some s →
    comienzoSiguiente c s = fin) : Comienza c (A ++ O) g fin := by
  refine ⟨fun h0 => absurd (List.append_eq_nil_iff.mp h0).2 hO, fun P s hs => hfin s ?_⟩
  have hlast : (A ++ O).getLast? = some s := by
    rw [hs]
    simp
  rwa [List.getLast?_append_of_ne_nil _ hO] at hlast

section Turno

/-- A call that put the items `O` from `q` on: `O₁` are their slots now, `m` is
    where the items not reached may begin. -/
structure Mudada (c q : Nat) (O O₁ : List Particion) (m : Int) : Prop where
  ocupadas : ∀ s ∈ O, s.ocupado = true
  hay : O ≠ []
  iguales : O₁.map sinInutiles = (recolocar c q (O.map sinInutiles)).map sinInutiles
  caben : Cabe inicio (anchoItem c) q (O.map sinInutiles) m

namespace Mudada

variable {O₁ : List Particion} {m : Int} (hm : Mudada c q O O₁ m)

include hm

/-- As many slots as items. -/
theorem length_eq : O₁.length = O.length := by
  have hlen := congrArg List.length hm.iguales
  simpa using hlen

/-- There is one at least. -/
theorem ne_nil : O₁ ≠ [] := by
  rintro rfl
  exact hm.hay (List.length_eq_zero_iff.mp hm.length_eq.symm)

/-- The slots moved to are occupied. -/
theorem llenas : ∀ s ∈ O₁, s.ocupado = true := by
  refine ocupadas_de_sinInutiles hm.iguales
    (recolocar_mem (P := fun s => s.ocupado = true) (fun _ _ ho => ho) fun s hs => ?_)
  obtain ⟨u, hu, rfl⟩ := List.mem_map.mp hs
  exact hm.ocupadas u hu

/-- They lie in order from `q` on. -/
theorem cabe : Cabe inicio (anchoItem c) q O₁ (finRecolocar c q (O.map sinInutiles)) :=
  cabe_de_sinInutiles hm.iguales (cabe_recolocar_ancho _ q)

/-- The sweep goes on where they end. -/
theorem comienza : Comienza c (A ++ O₁) g (finRecolocar c q (O.map sinInutiles)) := by
  have hne : recolocar c q (O.map sinInutiles) ≠ [] := movidas_ne_nil hm.hay
  refine comienza_tras hm.ne_nil fun s hs => ?_
  have hlast := congrArg List.getLast?
    (map_de_sinInutiles (f := comienzoSiguiente c) (fun _ => rfl) hm.iguales)
  rw [List.getLast?_map, List.getLast?_map, hs, List.getLast?_eq_getLast_of_ne_nil hne] at hlast
  rw [Option.some.inj hlast]
  exact comienzoSiguiente_recolocar hne

/-- Their items are those of the run. -/
theorem legajos (mem : Nat → UInt8) :
    O₁.map (legajo (moverTodas c q (O.map sinInutiles) mem)) = O.map (legajo mem) := by
  rw [map_de_sinInutiles (fun _ => rfl) hm.iguales, legajos_moverTodas hm.caben, List.map_map]
  rfl

end Mudada

/-- Where the items of the run and those not reached lie. -/
theorem Barriendo.corte {G : List Particion} (h : Barriendo t p e A g (G ++ (O ++ R)) q)
    (hG : ∀ s ∈ G, s.ocupado = false) (hO : ∀ s ∈ O, s.ocupado = true) :
    ∃ m, Cabe inicio (anchoItem t.sizeChunk) q (O.map sinInutiles) m
      ∧ Cabe inicio (anchoItem t.sizeChunk) m (Rc.ocupadas R) e := by
  have hdesp := h.despues
  rw [ocupadas_append, ocupadas_append, ocupadas_eq_nil.mpr hG, ocupadas_todas hO,
    List.nil_append] at hdesp
  obtain ⟨m, hqO, hmR⟩ := cabe_append.mp hdesp
  exact ⟨m, cabe_de_sinInutiles (by simp [Function.comp_def, sinInutiles]) hqO, hmR⟩

variable {O₁ G G' : List Particion} {g₁ : Particion} {m : Int}
  (h : Barriendo t p e A g (G ++ (O ++ R)) q) (hm : Mudada t.sizeChunk q O O₁ m)
  (hmR : Cabe inicio (anchoItem t.sizeChunk) m (Rc.ocupadas R) e)

include h hm hmR

/-- The sweep after the call. -/
theorem Barriendo.tras (hg₁ : g₁.ocupado = false) (hG' : Rc.ocupadas G' = []) :
    Barriendo { t with
      elements := A ++ (O₁ ++ (g₁ :: G' ++ R))
      memoria := moverTodas t.sizeChunk q (O.map sinInutiles) t.memoria } p e (A ++ O₁) g₁ (G' ++ R)
      (finRecolocar t.sizeChunk q (O.map sinInutiles)) where
  tabla := by simp
  ocupadas := by
    intro s hs
    rcases List.mem_append.mp hs with hs | hs
    · exact h.ocupadas s hs
    · exact hm.llenas s hs
  libre := hg₁
  comienza := hm.comienza
  antes := cabe_append.mpr ⟨q, h.antes, hm.cabe⟩
  despues := by
    rw [ocupadas_append, hG', List.nil_append]
    exact cabe_baja hmR (finRecolocar_le hm.caben)

/-- The items before and after the run were not written over, the run moved. -/
theorem Barriendo.legajos_tras (hG : ∀ s ∈ G, s.ocupado = false) :
    (A ++ O₁ ++ Rc.ocupadas R).map
        (legajo (moverTodas t.sizeChunk q (O.map sinInutiles) t.memoria))
      = (A ++ Rc.ocupadas (G ++ (O ++ R))).map (legajo t.memoria) := by
  have hA : A.map (legajo (moverTodas t.sizeChunk q (O.map sinInutiles) t.memoria))
      = A.map (legajo t.memoria) := by
    refine legajos_ajenos hm.caben fun s hs => Or.inl ?_
    have hfin := (cabe_mem h.antes (fun u _ => anchoItem_nonneg _ u) s hs).2
    have hnd := ndata_le_ocupa t.sizeChunk s.item.ndata
    simp only [inicio, anchoItem] at hfin
    omega
  have hR : (Rc.ocupadas R).map (legajo (moverTodas t.sizeChunk q (O.map sinInutiles) t.memoria))
      = (Rc.ocupadas R).map (legajo t.memoria) := by
    refine legajos_ajenos hm.caben fun s hs => Or.inr ?_
    exact (cabe_mem hmR (fun u _ => anchoItem_nonneg _ u) s hs).1
  simp only [ocupadas_append, ocupadas_eq_nil.mpr hG, ocupadas_todas hm.ocupadas, List.map_append,
    List.nil_append, hA, hR, hm.legajos, List.append_assoc]

end Turno

/-- **ONE CALL** with items after the free run: they join the swept slots. -/
theorem Barriendo.paso (h : Barriendo t p e A g T q) (hT : Rc.ocupadas T ≠ []) :
    ∃ t' O₁ g₁ T₁ q₁, compactar t A.length = (t', true) ∧ O₁ ≠ []
      ∧ Barriendo t' p e (A ++ O₁) g₁ T₁ q₁ ∧ t'.sizeChunk = t.sizeChunk
      ∧ t'.tableMaxSize = t.tableMaxSize
      ∧ (Rc.ocupadas t'.elements).map (legajo t'.memoria)
        = (Rc.ocupadas t.elements).map (legajo t.memoria) := by
  obtain ⟨G, O, R, rfl, hG, hOne, hO, hR⟩ := parte_ocupada hT
  have hV : ∀ s ∈ g :: G, s.ocupado = false := by
    intro s hs
    rcases List.mem_cons.mp hs with rfl | hs
    · exact h.libre
    · exact hG s hs
  have hes : t.elements = A ++ (g :: G ++ (O ++ R)) := h.tabla
  obtain ⟨g', G', hQ, hlenG, hcomp⟩ := compactar_corrida (Q := fun s => s.ocupado = false)
    (fun _ => rfl) hes hV hV hOne hO hR h.comienza
  -- the items moved, laid out from `q` on
  have hlenO : (recolocar t.sizeChunk q (O.map sinInutiles)).length = O.length := by simp
  have hne : recolocar t.sizeChunk q (O.map sinInutiles) ≠ [] := movidas_ne_nil hOne
  rw [← hlenO] at hcomp
  obtain ⟨O₁, g₁, hcarga, higuales, hg₁⟩ := cargarTotal_efecto (R := R)
    ((O.map (·.bytesInutilizados)).sum + ((g :: G).map (·.bytesDisponibles)).sum)
    (u := { t with
      elements := A ++ (recolocar t.sizeChunk q (O.map sinInutiles) ++ (g' :: G' ++ R))
      memoria := moverTodas t.sizeChunk q (O.map sinInutiles) t.memoria }) rfl hne
  rw [hcarga] at hcomp
  obtain ⟨m, hqO, hmR⟩ := h.corte hG hO
  have hm : Mudada t.sizeChunk q O O₁ m := ⟨hO, hOne, higuales, hqO⟩
  have hG' : Rc.ocupadas G' = [] := ocupadas_eq_nil.mpr fun s hs =>
    hQ s (List.mem_cons_of_mem g' hs)
  have hbarr := h.tras hm hmR (hg₁.trans (hQ g' List.mem_cons_self)) hG'
  refine ⟨_, O₁, g₁, G' ++ R, _, hcomp, hm.ne_nil, hbarr, rfl, ?_, ?_⟩
  · have hlen := hm.length_eq
    simp only [TableInfo.tableMaxSize, hes, List.length_append, List.length_cons]
    omega
  · rw [hbarr.ocupadas_eq, h.ocupadas_eq, ocupadas_append, hG', List.nil_append]
    exact h.legajos_tras hm hmR hG

/-- **LAST CALL**, with no item after the free run: the free bytes go to its
    first slot. -/
theorem Barriendo.fin (h : Barriendo t p e A g T q) (hT : Rc.ocupadas T = []) :
    ∃ t' V, compactar t A.length = (t', false) ∧ t'.elements = A ++ V ∧ t'.memoria = t.memoria
      ∧ (∀ s ∈ V, s.ocupado = false) ∧ ∀ s ∈ V.tail, s.bytesDisponibles = 0 := by
  have hV : ∀ s ∈ g :: T, s.ocupado = false := by
    intro s hs
    rcases List.mem_cons.mp hs with rfl | hs
    · exact h.libre
    · exact ocupadas_eq_nil.mp hT s hs
  refine ⟨_, { sinLibres g with
      bytesDisponibles := ((g :: T).map (·.bytesDisponibles)).sum
      bytesInutilizados := 0 } :: T.map sinLibres, compactar_fin h.tabla hV, ?_, rfl, ?_, ?_⟩
  · rw [List.map_cons, modify_mitad]
  · intro s hs
    rcases List.mem_cons.mp hs with rfl | hs
    · exact h.libre
    · obtain ⟨u, hu, rfl⟩ := List.mem_map.mp hs
      exact hV u (List.mem_cons_of_mem g hu)
  · intro s hs
    obtain ⟨u, -, rfl⟩ := List.mem_map.mp hs
    rfl

/-- The sweep from the middle on; `vueltas` turns are enough to pass over the
    table. -/
theorem Barriendo.barrer (fuera : Nat → Particion) : ∀ (vueltas i : Nat) {t : TableInfo}
    {A T : List Particion} {g : Particion} {q : Nat}, Barriendo t p e A g T q → i ≤ A.length →
    t.tableMaxSize ≤ vueltas + i → ∃ t' A' V, barrer fuera vueltas i t = some t'
      ∧ t'.elements = A' ++ V ∧ (∀ s ∈ A', s.ocupado = true) ∧ (∀ s ∈ V, s.ocupado = false)
      ∧ (∀ s ∈ V.tail, s.bytesDisponibles = 0)
      ∧ A'.map (legajo t'.memoria) = (Rc.ocupadas t.elements).map (legajo t.memoria)
      ∧ ∃ b, Cabe inicio (anchoItem t.sizeChunk) p A' b := by
  intro vueltas
  induction vueltas with
  | zero =>
      intro i t A T g q h hi hv
      have hlen := congrArg List.length h.tabla
      rw [List.length_append, List.length_cons] at hlen
      unfold TableInfo.tableMaxSize at hv
      omega
  | succ v ih =>
      intro i t A T g q h hi hv
      have hleer : ∀ j, A.length = j → t.leer fuera j = g := by
        rintro j rfl
        rw [TableInfo.leer, h.tabla]
        exact getD_mitad _ _ _ _
      rcases Nat.lt_or_eq_of_le hi with hlt | rfl
      · -- a swept slot is passed over
        have hoc : (t.leer fuera i).ocupado = true := by
          rw [TableInfo.leer, h.tabla, List.getD_append _ _ _ _ hlt, List.getD_eq_getElem _ _ hlt]
          exact h.ocupadas _ (List.getElem_mem hlt)
        rw [Rc.barrer, if_pos hoc]
        exact ih (i + 1) h hlt (by omega)
      · have hlib : ¬ (t.leer fuera A.length).ocupado = true := by
          rw [hleer _ rfl, h.libre]
          exact Bool.false_ne_true
        by_cases hT : Rc.ocupadas T = []
        · obtain ⟨t', V, hcomp, hes, hmem, hV, huno⟩ := h.fin hT
          refine ⟨t', A, V, ?_, hes, h.ocupadas, hV, huno, ?_, q, h.antes⟩
          · rw [Rc.barrer, if_neg hlib, hcomp]
          · rw [h.ocupadas_eq, hT, List.append_nil, hmem]
        · obtain ⟨t₁, O₁, g₁, T₁, q₁, hcomp, hne, hb, hchunk, hmax, hleg⟩ := h.paso hT
          have hpos := List.length_pos_iff.mpr hne
          obtain ⟨t', A', V, hr, hes, hA, hV, huno, hitems, b, hcab⟩ :=
            ih (A.length + 1) hb (by rw [List.length_append]; omega) (by omega)
          refine ⟨t', A', V, ?_, hes, hA, hV, huno, hitems.trans hleg, b, by rwa [← hchunk]⟩
          rw [Rc.barrer, if_neg hlib, hcomp]
          exact hr

/-- The first slot that is not occupied. -/
theorem primer_libre {l : List Particion} (h : ∃ s ∈ l, s.ocupado = false) :
    ∃ A g T, l = A ++ g :: T ∧ (∀ s ∈ A, s.ocupado = true) ∧ g.ocupado = false := by
  obtain ⟨A, B, rfl, hA, hB⟩ := corte_prueba (fun s : Particion => s.ocupado) l
  cases B with
  | nil =>
      obtain ⟨s, hs, ho⟩ := h
      rw [List.append_nil] at hs
      rw [hA s hs] at ho
      cases ho
  | cons g T => exact ⟨A, g, T, rfl, hA, hB g rfl⟩

section Comienzo

variable {L D : List Particion} (h : AreaTeselada t p e L D)

include h

/-- The dead slots hold no item. -/
theorem AreaTeselada.sin_items : Rc.ocupadas D = [] := ocupadas_eq_nil.mpr fun s hs => by
  have := h.muertas s hs
  simp only [Particion.viva, Bool.or_eq_false_iff] at this
  exact this.1

/-- The items of a tiled table lie in order. -/
theorem AreaTeselada.caben : Cabe inicio (anchoItem t.sizeChunk) p (Rc.ocupadas t.elements) e := by
  have hnn : ∀ s ∈ L, 0 ≤ largoDin t.sizeChunk s := by
    intro s hs
    cases ho : s.ocupado with
    | false =>
        have := h.libres s hs ho
        rw [largoDin_of_libre ho]
        omega
    | true =>
        have := h.inutiles s hs ho
        rw [largoDin_of_ocupado ho]
        omega
  rw [h.tabla, ocupadas_append, h.sin_items, List.append_nil]
  exact cabe_ocupadas hnn h.inutiles (cabe_of_tesela h.tesela)

/-- A sweep from the first slot, which is free. -/
theorem AreaTeselada.barriendo_inicio (htab : t.elements = g :: T) (hg : g.ocupado = false) :
    ∃ p e q, Barriendo t p e [] g T q := by
  have hq : Comienza t.sizeChunk [] g g.item.data :=
    ⟨fun _ => rfl, fun P u hu => absurd hu (by simp)⟩
  have hA : ∀ s ∈ ([] : List Particion), s.ocupado = true := fun s hs => nomatch hs
  by_cases hT : Rc.ocupadas T = []
  · -- nothing is occupied
    exact ⟨inicio g, inicio g, g.item.data, htab, hA, hg, hq, le_refl _,
      by rw [hT]; exact le_refl _⟩
  · -- the free slot is the first of the tiling
    have hgL : inicio g = p := by
      have htab' := h.tabla
      rw [htab] at htab'
      cases hL : L with
      | nil =>
          have hD := h.sin_items
          rw [hL, List.nil_append] at htab'
          rw [← htab', ocupadas_cons_of_false hg] at hD
          exact absurd hD hT
      | cons l L' =>
          rw [hL, List.cons_append] at htab'
          have htes := h.tesela
          rw [hL] at htes
          rw [(List.cons.inj htab').1]
          exact htes.1
    have hcabe := h.caben
    rw [htab, ocupadas_cons_of_false hg, ← hgL] at hcabe
    exact ⟨p, e, g.item.data, htab, hA, hg, hq, le_of_eq hgL.symm, hcabe⟩

/-- A sweep from behind occupied slots. -/
theorem AreaTeselada.barriendo_tras {s : Particion} (htab : t.elements = (A ++ [s]) ++ g :: T)
    (hA : ∀ u ∈ A ++ [s], u.ocupado = true) (hg : g.ocupado = false) :
    Barriendo t p e (A ++ [s]) g T (comienzoSiguiente t.sizeChunk s) := by
  have hcabe := h.caben
  rw [htab, ocupadas_append, ocupadas_todas hA, ocupadas_cons_of_false hg] at hcabe
  obtain ⟨m, hA', hresto⟩ := cabe_append.mp hcabe
  obtain ⟨m', hAm, hs⟩ := cabe_append.mp hA'
  have hfin : ((comienzoSiguiente t.sizeChunk s : Nat) : Int)
      = inicio s + anchoItem t.sizeChunk s := by
    rw [comienzoSiguiente_eq]
    rfl
  refine ⟨htab, hA, hg, ⟨fun h0 => absurd h0 (by simp), ?_⟩, ?_, ?_⟩
  · intro P u hu
    obtain ⟨-, hu⟩ := List.append_inj' hu rfl
    rw [(List.cons.inj hu).1]
  · rw [hfin]
    exact cabe_append.mpr ⟨m', hAm, ⟨hs.1, le_refl _⟩⟩
  · rw [hfin]
    exact cabe_baja hresto hs.2

/-- The table a sweep starts from: `g` is its first slot that is not
    occupied. -/
theorem AreaTeselada.barriendo (hlibre : ∃ s ∈ t.elements, s.ocupado = false) :
    ∃ p e A g T q, Barriendo t p e A g T q := by
  obtain ⟨A, g, T, htab, hA, hg⟩ := primer_libre hlibre
  rcases List.eq_nil_or_concat A with rfl | ⟨A', s, rfl⟩
  · obtain ⟨p, e, q, hb⟩ := h.barriendo_inicio htab hg
    exact ⟨p, e, [], g, T, q, hb⟩
  · rw [List.concat_eq_append] at htab hA
    exact ⟨p, e, _, g, T, _, h.barriendo_tras htab hA hg⟩

end Comienzo

/-- The sweep of a tiled table, as what it leaves. -/
theorem AreaTeselada.compacta {L D : List Particion} (h : AreaTeselada t p e L D)
    (fuera : Nat → Particion) {vueltas : Nat} (hlibre : ∃ s ∈ t.elements, s.ocupado = false)
    (hv : t.tableMaxSize ≤ vueltas) :
    ∃ t' A V, barrer fuera vueltas 0 t = some t' ∧ Compactada t t' A V := by
  obtain ⟨p, e, A, g, T, q, hb⟩ := h.barriendo hlibre
  obtain ⟨t', A', V, hr, hes, hA, hV, huno, hleg, b, hcab⟩ :=
    Barriendo.barrer fuera vueltas 0 hb (Nat.zero_le _) hv
  refine ⟨t', A', V, hr, hes, hA, hV, ?_, ?_, huno⟩
  · have hmap := congrArg (List.map fun r : Particion × List UInt8 =>
      (r.1.item.key, r.1.item.ndata, r.1.item.stored, r.1.ultimaVezUsada, r.2)) hleg
    rwa [List.map_map, List.map_map] at hmap
  · refine (cabe_pairwise hcab fun u _ => anchoItem_nonneg _ u).imp fun {s u} hsep => ?_
    have hnd := ndata_le_ocupa t.sizeChunk s.item.ndata
    simp only [inicio, anchoItem] at hsep
    omega

/-- **COMPACTION** of a tiled table with a slot that is not occupied, over an
    area with no key longer than its cell, ends and keeps every item, its key
    as read from the area included. -/
theorem barrer_compactada {L D : List Particion} {claves : Nat → UInt8} (fuera : Nat → Particion)
    (vueltas : Nat) (hcortas : ∀ s ∈ t.elements, s.item.key.length ≤ 60)
    (h : AreaTeselada (sobreArea t claves).actual p e L D)
    (hlibre : ∃ s ∈ (sobreArea t claves).actual.elements, s.ocupado = false)
    (hv : t.tableMaxSize ≤ vueltas) :
    ∃ p' A V, barrerPlano fuera vueltas (sobreArea t claves) = some p'
      ∧ Compactada (sobreArea t claves).actual p'.actual A V := by
  have hsize : (sobreArea t claves).actual.tableMaxSize = t.tableMaxSize := List.length_mapIdx
  obtain ⟨t', A, V, hr, hcom⟩ : ∃ t' A V,
      barrer fuera vueltas 0 (sobreArea t claves).actual = some t'
        ∧ Compactada (sobreArea t claves).actual t' A V := h.compacta fuera hlibre (by omega)
  have hact : (⟨t', clavesBarrer fuera vueltas 0 (sobreArea t claves).actual
      (sobreArea t claves).area⟩ : Plana).actual = t' :=
    Plana.Bien.actual (barrer_area vueltas 0 (sobreArea_area hcortas claves) hr)
  refine ⟨_, A, V, by rw [barrerPlano, hr, Option.map_some], ?_⟩
  rw [hact]
  exact hcom

end Barrido

/-- An item of 4 bytes and an unusable one, a free slot, an item of 8 bytes and
    a dead slot. -/
def tablaPartida : TableInfo :=
  { elements :=
      [{ item := { key := [98], data := 1, ndata := 4, stored := true }
         ocupado := true
         bytesInutilizados := 1 },
       libre 6 4,
       { item := { key := [97], data := 10, ndata := 8, stored := true }, ocupado := true },
       Particion.vacia]
    elementsAmount := 2
    espacioLibre := 4
    sizeChunk := 4 }

/-- The table over an area with the key of the first item in the first cell and
    that of the second after it. -/
def planaPartida : Plana := sobreArea tablaPartida fun i => if i < 60 then 98 else 97

theorem barrer_compactada_partida : ∃ p' A V,
    barrerPlano (fun _ => Particion.vacia) 4 planaPartida = some p'
      ∧ Compactada planaPartida.actual p'.actual A V :=
  barrer_compactada (p := 1) (e := 18) (L := tablaPartida.elements.take 3)
    (D := [Particion.vacia]) (fun _ => Particion.vacia) 4 (by decide)
    ⟨rfl, by decide, by decide, by decide, by decide, by decide⟩
    ⟨libre 6 4, by decide, rfl⟩ (by decide)

/-- Two items of 4 bytes with a free slot between them; the key of the first
    has 70 bytes. -/
def tablaLarga : TableInfo :=
  { elements :=
      [{ item := { key := List.replicate 70 98, data := 1, ndata := 4, stored := true }
         ocupado := true },
       libre 5 4,
       { item := { key := [97], data := 9, ndata := 4, stored := true }, ocupado := true }]
    elementsAmount := 2
    espacioLibre := 4
    sizeChunk := 4 }

/-- The table over an area with the key of the second item in the third cell
    and that of the first before it. -/
def planaLarga : Plana := sobreArea tablaLarga fun i => if i < 120 then 98 else 97

/-- **A KEY IS LOST**: the second item moves to the second slot and its key is
    copied over the sixtieth byte of the first one. -/
theorem barrer_compactada_falla :
    (∃ L D, AreaTeselada planaLarga.actual 1 13 L D)
      ∧ (∃ s ∈ planaLarga.actual.elements, s.ocupado = false)
      ∧ ∃ p', barrerPlano (fun _ => Particion.vacia) 3 planaLarga = some p'
        ∧ ∀ A V, ¬ Compactada planaLarga.actual p'.actual A V := by
  refine ⟨⟨tablaLarga.elements, [], by decide, by decide, by decide, by decide, by decide,
    by decide⟩, ⟨libre 5 4, by decide, rfl⟩, ?_⟩
  have hbyte : (barrerPlano (fun _ => Particion.vacia) 3 planaLarga).map
      (fun p' => (Rc.ocupadas p'.actual.elements).map fun s => s.item.key.getD 60 0)
      = some [97, 0] := by decide
  obtain ⟨p', hp, hlista⟩ := Option.map_eq_some_iff.mp hbyte
  refine ⟨p', hp, fun A V h => ?_⟩
  have hA : Rc.ocupadas p'.actual.elements = A := by
    rw [h.tabla, ocupadas_append, ocupadas_todas h.ocupadas, ocupadas_eq_nil.mpr h.libres,
      List.append_nil]
  have hitems := congrArg (List.map fun r => r.1.getD 60 0) h.items
  rw [List.map_map, List.map_map, ← hA] at hitems
  exact absurd (hlista.symm.trans hitems) (by decide)

end Rc
