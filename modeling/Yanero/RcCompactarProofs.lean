import Yanero.RcAltaProofs

/-! # Compaction

    `compactar` closes one run of free slots by moving the occupied run after
    it up, descriptors and bytes, and the sweep repeats it until the free run
    reaches the end of the table.  Between two calls the table has dead slots
    after the free one, so the sweep has an invariant of its own (`Barrida`).
    The first call computes where to move from the slot before the free run
    and forgets its unusable bytes (`barridoSeguro`). -/

namespace Rc

open Bucles Bytes Teselado

/-- Where the next item goes, in bytes occupied. -/
theorem comienzoSiguiente_eq (c : Nat) (s : Particion) :
    comienzoSiguiente c s = s.item.data + ocupa c s.item.ndata := by
  unfold comienzoSiguiente ocupa
  split <;> split <;> omega

/-! ## Moving a run of items -/

/-- The items of `O` laid out one after the other from `q` on. -/
def recolocar (c : Nat) : Nat → List Particion → List Particion
  | _, [] => []
  | q, o :: O =>
      { o with item := { o.item with data := q } } :: recolocar c (q + ocupa c o.item.ndata) O

/-- Where that layout ends. -/
def finRecolocar (c : Nat) : Nat → List Particion → Nat
  | q, [] => q
  | q, o :: O => finRecolocar c (q + ocupa c o.item.ndata) O

/-- The moves of their bytes, in order. -/
def moverTodas (c : Nat) : Nat → List Particion → (Nat → UInt8) → Nat → UInt8
  | _, [], m => m
  | q, o :: O, m =>
      moverTodas c (q + ocupa c o.item.ndata) O (mover m q o.item.data o.item.ndata)

@[simp] theorem length_recolocar (c q : Nat) (O : List Particion) :
    (recolocar c q O).length = O.length := by
  induction O generalizing q with
  | nil => rfl
  | cons o O ih => simp [recolocar, ih]

/-- A property that does not look at the place is kept. -/
theorem recolocar_mem {c q : Nat} {O : List Particion} {P : Particion → Prop}
    (hP : ∀ o a, P o → P { o with item := { o.item with data := a } })
    (h : ∀ o ∈ O, P o) : ∀ o ∈ recolocar c q O, P o := by
  induction O generalizing q with
  | nil => intro o ho; exact nomatch ho
  | cons x O ih =>
      intro o ho
      rcases List.mem_cons.mp ho with rfl | ho
      · exact hP x q (h x (by simp))
      · exact ih (fun u hu => h u (by simp [hu])) o ho

/-- The last item ends where the layout does. -/
theorem comienzoSiguiente_recolocar {c : Nat} {O : List Particion} :
    ∀ {q : Nat} (h : recolocar c q O ≠ []),
      comienzoSiguiente c ((recolocar c q O).getLast h) = finRecolocar c q O := by
  induction O with
  | nil => intro q h; exact absurd rfl h
  | cons o O ih =>
      intro q h
      cases O with
      | nil => simp [recolocar, finRecolocar, comienzoSiguiente_eq]
      | cons x O =>
          have hne : recolocar c (q + ocupa c o.item.ndata) (x :: O) ≠ [] := by simp [recolocar]
          show comienzoSiguiente c ((_ :: recolocar c (q + ocupa c o.item.ndata) (x :: O)).getLast
            (by simp)) = finRecolocar c (q + ocupa c o.item.ndata) (x :: O)
          rw [List.getLast_cons hne]
          exact ih hne

/-- The end of the items after the sweep. -/
theorem finRecolocar_eq (c : Nat) (O : List Particion) :
    ∀ q : Nat, (finRecolocar c q O : Int)
      = q + (O.map fun o => (ocupa c o.item.ndata : Int)).sum := by
  induction O with
  | nil => intro q; simp [finRecolocar]
  | cons o O ih =>
      intro q
      rw [finRecolocar, ih]
      simp only [List.map_cons, List.sum_cons]
      push_cast
      ring

/-- Items without unusable bytes fit the layout. -/
theorem cabe_recolocar {c : Nat} {O : List Particion}
    (h : ∀ o ∈ O, o.ocupado = true ∧ o.bytesInutilizados = 0) :
    ∀ q : Nat, Cabe inicio (largoDin c) q (recolocar c q O) (finRecolocar c q O) := by
  induction O with
  | nil => intro q; exact le_refl _
  | cons o O ih =>
      intro q
      obtain ⟨ho, hi⟩ := h o (by simp)
      refine ⟨le_refl _, ?_⟩
      have hrec := ih (fun u hu => h u (by simp [hu])) (q + ocupa c o.item.ndata)
      have hlargo : largoDin c { o with item := { o.item with data := q } }
          = ocupa c o.item.ndata := by simp [largoDin, ho, hi]
      rw [hlargo]
      show Cabe inicio (largoDin c) ((q : Int) + ocupa c o.item.ndata) _ _
      exact_mod_cast hrec

/-- What the items take after the sweep. -/
theorem suma_recolocar {c : Nat} {O : List Particion}
    (h : ∀ o ∈ O, o.ocupado = true ∧ o.bytesInutilizados = 0) :
    ∀ q : Nat, ((recolocar c q O).map (largoDin c)).sum
      = (O.map fun o => (ocupa c o.item.ndata : Int)).sum := by
  induction O with
  | nil => intro q; rfl
  | cons o O ih =>
      intro q
      obtain ⟨ho, hi⟩ := h o (by simp)
      simp only [recolocar, List.map_cons, List.sum_cons,
        ih (fun u hu => h u (by simp [hu])) (q + ocupa c o.item.ndata)]
      simp [largoDin, ho, hi]

/-- The bytes of an item, its unusable ones not counted. -/
def anchoItem (c : Nat) (s : Particion) : Int := ocupa c s.item.ndata

/-- An item has no negative width. -/
theorem anchoItem_nonneg (c : Nat) (s : Particion) : 0 ≤ anchoItem c s := Int.natCast_nonneg _

/-- Items fit without their unusable bytes where they fit with them. -/
theorem cabe_ancho {c : Nat} {O : List Particion} (hb : ∀ o ∈ O, BienDin c o ∧ o.ocupado = true) :
    ∀ {q b : Int}, Cabe inicio (largoDin c) q O b → Cabe inicio (anchoItem c) q O b := by
  induction O with
  | nil => intro q b h; exact h
  | cons o O ih =>
      intro q b h
      obtain ⟨hbo, ho⟩ := hb o (by simp)
      refine ⟨h.1, ih (fun u hu => hb u (by simp [hu])) (cabe_baja h.2 ?_)⟩
      have hin := (hbo.ocupada ho).2
      rw [largoDin_of_ocupado ho, anchoItem]
      omega

/-- The moves write only between the start of the layout and the end of the
    items moved. -/
theorem leer_moverTodas {c : Nat} {O : List Particion} {x k : Nat} :
    ∀ {q : Nat} {b : Int} {m : Nat → UInt8}, Cabe inicio (anchoItem c) q O b →
      (x + k ≤ q ∨ b ≤ x) → leer (moverTodas c q O m) x k = leer m x k := by
  induction O with
  | nil => intro q b m _ _; rfl
  | cons o O ih =>
      intro q b m hc hx
      have hq : (q : Int) ≤ o.item.data := hc.1
      have hnd := ndata_le_ocupa c o.item.ndata
      have hsig := hc.2
      have hend := cabe_suma hsig
      have hnn := suma_nonneg (L := O) (fun u _ => anchoItem_nonneg c u)
      simp only [inicio, anchoItem] at hsig hend hnn
      have hrest : Cabe inicio (anchoItem c) ((q + ocupa c o.item.ndata : Nat) : Int) O b := by
        refine cabe_baja hsig ?_
        push_cast
        omega
      rw [moverTodas, ih hrest (by
        rcases hx with hx | hx
        · exact Or.inl (by omega)
        · exact Or.inr hx)]
      refine leer_mover_ajeno ?_
      rcases hx with hx | hx
      · exact Or.inl hx
      · refine Or.inr ?_
        have : (o.item.data : Int) + ocupa c o.item.ndata ≤ x := by omega
        omega

/-- A descriptor without its address and its counts of bytes. -/
def sinLugar (s : Particion) : Particion :=
  { s with item := { s.item with data := 0 }, bytesDisponibles := 0, bytesInutilizados := 0 }

/-- What a slot says of its item, and the bytes of the value. -/
def legajo (m : Nat → UInt8) (s : Particion) : Particion × List UInt8 :=
  (sinLugar s, leer m s.item.data s.item.ndata)

/-- **THE MOVED ITEMS** read after the moves what they read before. -/
theorem legajos_moverTodas {c : Nat} {O : List Particion} :
    ∀ {q : Nat} {b : Int} {m : Nat → UInt8}, Cabe inicio (anchoItem c) q O b →
      (recolocar c q O).map (legajo (moverTodas c q O m)) = O.map (legajo m) := by
  induction O with
  | nil => intro q b m _; rfl
  | cons o O ih =>
      intro q b m hc
      have hq : (q : Int) ≤ o.item.data := hc.1
      have hnd := ndata_le_ocupa c o.item.ndata
      have hsig := hc.2
      simp only [inicio, anchoItem] at hsig
      have hrest : Cabe inicio (anchoItem c) ((q + ocupa c o.item.ndata : Nat) : Int) O b := by
        refine cabe_baja hsig ?_
        push_cast
        omega
      rw [recolocar, moverTodas, List.map_cons, List.map_cons, ih hrest]
      congr 1
      · -- the first item: its move, untouched by the later ones
        have hleer := leer_moverTodas (x := q) (k := o.item.ndata)
          (m := mover m q o.item.data o.item.ndata) hrest (Or.inl (by omega))
        simp only [legajo]
        rw [hleer, leer_mover]
        rfl
      · -- the items after it are not where it was moved to
        refine List.map_congr_left ?_
        intro u hu
        have hsep := (cabe_mem hsig (fun v _ => anchoItem_nonneg c v) u hu).1
        simp only [inicio] at hsep
        simp only [legajo]
        rw [leer_mover_ajeno (Or.inr (by omega))]

/-- The moves keep every entry: each item has its bytes at the new place. -/
theorem entradas_moverTodas {c : Nat} {O : List Particion} {q : Nat} {b : Int} {m : Nat → UInt8}
    (h : Cabe inicio (anchoItem c) q O b) :
    (recolocar c q O).map (entrada (moverTodas c q O m)) = O.map (entrada m) := by
  have hreg := congrArg (List.map fun r : Particion × List UInt8 =>
    (r.1.item.key, r.1.item.stored, r.2)) (legajos_moverTodas (m := m) h)
  rwa [List.map_map, List.map_map] at hreg

/-- What `desplazarArriba` leaves behind. -/
def apagada (s : Particion) : Particion :=
  { s with ocupado := false, bytesInutilizados := 0, bytesDisponibles := 0 }

/-- Where `desplazarArriba` moves the next item to: `q` is the end of the last
    slot of `P`, or the start of the free slot `g` when there is none. -/
def Comienza (c : Nat) (P : List Particion) (g : Particion) (q : Nat) : Prop :=
  (P = [] → g.item.data = q) ∧ ∀ P' s, P = P' ++ [s] → comienzoSiguiente c s = q

/-- One turn that meets free slots and then an item. -/
theorem desplazarArriba_paso {t : TableInfo} {P G W : List Particion} {g o : Particion} {q : Nat}
    (hes : t.elements = P ++ (g :: G ++ o :: W)) (hq : Comienza t.sizeChunk P g q) :
    desplazarArriba t P.length (G.length + 1) = { t with
      elements := P ++ [{ o with item := { o.item with data := q } }]
        ++ ((G ++ [apagada o]) ++ W)
      memoria := mover t.memoria q o.item.data o.item.ndata } := by
  have hes' : t.elements = (P ++ g :: G) ++ o :: W := by rw [hes]; simp
  have hl : P.length + (G.length + 1) = (P ++ g :: G).length := by simp
  have hsrc : t.elements.getD (P.length + (G.length + 1)) Particion.vacia = o := by
    rw [hl, hes']; exact getD_mitad _ _ _ _
  have hcom : (if P.length = 0 then (t.elements.getD P.length Particion.vacia).item.data
      else comienzoSiguiente t.sizeChunk (t.elements.getD (P.length - 1) Particion.vacia)) = q := by
    rcases List.eq_nil_or_concat P with rfl | ⟨P', s, rfl⟩
    · rw [if_pos List.length_nil, hes]
      exact hq.1 rfl
    · rw [List.concat_eq_append] at *
      have hget : t.elements.getD ((P' ++ [s]).length - 1) Particion.vacia = s := by
        rw [hes, List.append_assoc, show (P' ++ [s]).length - 1 = P'.length by simp]
        exact getD_mitad _ _ _ _
      rw [if_neg (by simp), hget]
      exact hq.2 P' s rfl
  have hmod : ∀ u : Particion, (P ++ u :: (G ++ o :: W)).modify (P.length + (G.length + 1)) apagada
      = P ++ u :: (G ++ apagada o :: W) := by
    intro u
    have hs : P ++ u :: (G ++ o :: W) = (P ++ u :: G) ++ o :: W := by simp
    rw [show P.length + (G.length + 1) = (P ++ u :: G).length by simp, hs, modify_mitad]
    simp
  simp only [desplazarArriba, hsrc, hcom]
  simp only [hes, List.cons_append, modify_mitad]
  have hap : (fun s : Particion => { s with
      ocupado := false, bytesInutilizados := 0, bytesDisponibles := 0 }) = apagada := rfl
  rw [hap, hmod]
  simp

/-- **THE LOOP OF MOVES**: the occupied run goes right after `P`, and the gap
    goes after it; `Q` is what its slots have in common with those left
    behind. -/
theorem iterar_desplazarArriba {c : Nat} {Q : Particion → Prop} (hQ : ∀ s, Q (apagada s))
    {R : List Particion} (O : List Particion) :
    ∀ {t : TableInfo} {P G : List Particion} {g : Particion} {q : Nat}, t.sizeChunk = c →
      t.elements = P ++ (g :: G ++ (O ++ R)) → Comienza c P g q → (∀ s ∈ g :: G, Q s) →
      ∃ G', iterar (fun i t => desplazarArriba t (P.length + i) (G.length + 1)) O.length t
          = { t with
              elements := P ++ (recolocar c q O ++ (G' ++ R))
              memoria := moverTodas c q O t.memoria }
        ∧ G'.length = G.length + 1 ∧ ∀ s ∈ G', Q s := by
  induction O with
  | nil =>
      intro t P G g q _ hes _ hG
      refine ⟨g :: G, ?_, by simp, hG⟩
      have : t = { t with elements := P ++ (g :: G ++ R), memoria := t.memoria } := by
        rw [show P ++ (g :: G ++ R) = t.elements by rw [hes]; simp]
      simpa [recolocar, moverTodas] using this
  | cons o O ih =>
      intro t P G g q hc hes hq hG
      have hpaso := desplazarArriba_paso (G := G) (W := O ++ R) (by simpa using hes)
        (by rw [hc]; exact hq)
      let o' : Particion := { o with item := { o.item with data := q } }
      let t₁ : TableInfo := { t with
        elements := P ++ [o'] ++ ((G ++ [apagada o]) ++ (O ++ R))
        memoria := mover t.memoria q o.item.data o.item.ndata }
      rw [List.length_cons, iterar_primera]
      -- the gap rotates: its first slot is taken and the source joins it
      obtain ⟨g₁, G₁, hG₁⟩ : ∃ g₁ G₁, G ++ [apagada o] = g₁ :: G₁ :=
        List.exists_cons_of_ne_nil (by simp)
      have hlenG : G₁.length + 1 = G.length + 1 := by
        have := congrArg List.length hG₁
        simpa using this.symm
      have hmu : ∀ s ∈ g₁ :: G₁, Q s := by
        rw [← hG₁]
        intro s hs
        rcases List.mem_append.mp hs with hs | hs
        · exact hG s (by simp [hs])
        · obtain rfl := List.mem_singleton.mp hs
          exact hQ o
      have hq₁ : Comienza c (P ++ [o']) g₁ (q + ocupa c o.item.ndata) := by
        refine ⟨fun h => absurd h (by simp), ?_⟩
        intro P' s hs
        obtain ⟨-, hs⟩ := List.append_inj' hs rfl
        obtain rfl := (List.cons.inj hs).1
        rw [comienzoSiguiente_eq]
      obtain ⟨G', hG', hlen, hmuG⟩ := ih (t := t₁) (P := P ++ [o']) (G := G₁) (g := g₁)
        (q := q + ocupa c o.item.ndata) hc (by simp only [t₁]; rw [hG₁]) hq₁ hmu
      refine ⟨G', ?_, by omega, hmuG⟩
      have hbody : (fun i t => desplazarArriba t (P.length + (i + 1)) (G.length + 1))
          = (fun i t => desplazarArriba t ((P ++ [o']).length + i) (G₁.length + 1)) := by
        funext i u
        rw [hlenG, show P.length + (i + 1) = (P ++ [o']).length + i by simp; omega]
      show iterar _ O.length (desplazarArriba t P.length (G.length + 1)) = _
      rw [hpaso, hbody]
      show iterar _ O.length t₁ = _
      rw [hG']
      simp [t₁, o', recolocar, moverTodas]

/-! ## One call of `compactar` -/

/-- A leading block of matches is what `takeWhile` takes. -/
theorem takeWhile_bloque {α : Type} {p : α → Bool} {l₁ l₂ : List α} (h₁ : ∀ x ∈ l₁, p x = true)
    (h₂ : ∀ x, l₂.head? = some x → p x = false) : (l₁ ++ l₂).takeWhile p = l₁ := by
  rw [List.takeWhile_append_of_pos h₁]
  cases l₂ with
  | nil => simp
  | cons x l₂ => simp [h₂ x rfl]

/-- A slot without its free bytes. -/
def sinLibres (s : Particion) : Particion := { s with bytesDisponibles := 0 }

/-- A slot without its unusable bytes. -/
def sinInutiles (s : Particion) : Particion := { s with bytesInutilizados := 0 }

/-- The free run reaches the end of the table: it becomes one free slot. -/
theorem compactar_fin {t : TableInfo} {A V : List Particion} (hes : t.elements = A ++ V)
    (hV : ∀ s ∈ V, s.ocupado = false) :
    compactar t A.length = ({ t with
      elements := (A ++ V.map sinLibres).modify A.length fun s =>
        { s with bytesDisponibles := (V.map (·.bytesDisponibles)).sum, bytesInutilizados := 0 } },
      false) := by
  have hdrop : t.elements.drop A.length = V := by rw [hes]; exact List.drop_left
  have htw : V.takeWhile (fun s => !s.ocupado) = V := by
    have : (V ++ []).takeWhile (fun s : Particion => !s.ocupado) = V :=
      takeWhile_bloque (fun s hs => by simp [hV s hs]) (by simp)
    simpa using this
  have hes₁ : iterar (fun i es => es.modify (A.length + i) fun s : Particion =>
      { s with bytesDisponibles := 0 }) V.length t.elements = A ++ V.map sinLibres := by
    have := iterar_bloque sinLibres [] V A
    rw [List.append_nil, List.append_nil, ← hes] at this
    exact this
  have hN : t.tableMaxSize ≤ A.length + V.length := by
    simp [TableInfo.tableMaxSize, hes]
  simp only [compactar, hdrop, htw, hes₁]
  rw [if_pos hN]

/-- The end of `compactar`: the free bytes go to the slot after the last item
    moved, or stay with that item when they do not make a chunk. -/
def cargarTotal (t : TableInfo) (posAux : Nat) (total : Int) : TableInfo :=
  if total < t.sizeChunk then t.modificar posAux fun s => { s with bytesInutilizados := total }
  else
    t.modificar (posAux + 1) fun s =>
      { s with
        bytesDisponibles := total
        item := { s.item with
          data := comienzoSiguiente t.sizeChunk (t.elements.getD posAux Particion.vacia) } }

/-- The free run ends at an occupied one: its items move up. -/
theorem compactar_corrida {t : TableInfo} {A G O R : List Particion} {g : Particion} {q : Nat}
    {Q : Particion → Prop} (hQ : ∀ s, Q (apagada s))
    (hes : t.elements = A ++ (g :: G ++ (O ++ R))) (hV : ∀ s ∈ g :: G, s.ocupado = false)
    (hVQ : ∀ s ∈ g :: G, Q (sinLibres s)) (hO : O ≠ []) (hOoc : ∀ s ∈ O, s.ocupado = true)
    (hR : ∀ s, R.head? = some s → s.ocupado = false) (hq : Comienza t.sizeChunk A g q) :
    ∃ g' G', (∀ s ∈ g' :: G', Q s) ∧ G'.length = G.length
      ∧ compactar t A.length = (cargarTotal { t with
          elements := A ++ (recolocar t.sizeChunk q (O.map sinInutiles) ++ (g' :: G' ++ R))
          memoria := moverTodas t.sizeChunk q (O.map sinInutiles) t.memoria }
        (A.length + O.length - 1)
        ((O.map (·.bytesInutilizados)).sum + ((g :: G).map (·.bytesDisponibles)).sum), true) := by
  have hdrop : t.elements.drop A.length = g :: G ++ (O ++ R) := by rw [hes]; exact List.drop_left
  have htwV : (g :: G ++ (O ++ R)).takeWhile (fun s => !s.ocupado) = g :: G := by
    refine takeWhile_bloque (fun s hs => by simp [hV s hs]) ?_
    intro s hs
    obtain ⟨o, O', rfl⟩ := List.exists_cons_of_ne_nil hO
    obtain rfl := Option.some.inj hs
    simp [hOoc o (by simp)]
  have hes₁ : iterar (fun i es => es.modify (A.length + i) fun s : Particion =>
      { s with bytesDisponibles := 0 }) (g :: G).length t.elements
      = A ++ ((g :: G).map sinLibres ++ (O ++ R)) := by
    have := iterar_bloque sinLibres (O ++ R) (g :: G) A
    rw [hes]
    exact this
  have hpos := List.length_pos_iff.mpr hO
  have hN : ¬ (t.tableMaxSize ≤ A.length + (g :: G).length) := by
    simp only [TableInfo.tableMaxSize, hes, List.length_append]
    omega
  have hdrop₂ : (A ++ ((g :: G).map sinLibres ++ (O ++ R))).drop (A.length + (g :: G).length)
      = O ++ R := by
    have hs : A ++ ((g :: G).map sinLibres ++ (O ++ R))
        = (A ++ (g :: G).map sinLibres) ++ (O ++ R) := by simp
    rw [hs, show A.length + (g :: G).length = (A ++ (g :: G).map sinLibres).length by simp]
    exact List.drop_left
  have htwO : (O ++ R).takeWhile (fun s => s.ocupado) = O :=
    takeWhile_bloque hOoc hR
  have hes₂ : iterar (fun i es => es.modify (A.length + (g :: G).length + i)
      fun s : Particion => { s with bytesInutilizados := 0 }) O.length
      (A ++ ((g :: G).map sinLibres ++ (O ++ R)))
      = A ++ (sinLibres g :: G.map sinLibres ++ (O.map sinInutiles ++ R)) := by
    have := iterar_bloque sinInutiles R O (A ++ (g :: G).map sinLibres)
    rw [show (A ++ (g :: G).map sinLibres).length = A.length + (g :: G).length by simp,
      List.append_assoc, List.append_assoc] at this
    exact this
  have hmu : ∀ s ∈ sinLibres g :: G.map sinLibres, Q s := by
    intro s hs
    rw [← List.map_cons] at hs
    obtain ⟨u, hu, rfl⟩ := List.mem_map.mp hs
    exact hVQ u hu
  obtain ⟨G₂, hG₂, hlen, hmuG⟩ := iterar_desplazarArriba (c := t.sizeChunk) hQ (R := R)
    (O.map sinInutiles)
    (t := { t with
      elements := A ++ (sinLibres g :: G.map sinLibres ++ (O.map sinInutiles ++ R)) })
    (P := A) (G := G.map sinLibres) (g := sinLibres g) (q := q) rfl rfl hq hmu
  rw [List.length_map, List.length_map] at hG₂
  obtain ⟨g₂, G', rfl⟩ : ∃ g₂ G', G₂ = g₂ :: G' := by
    refine List.exists_cons_of_ne_nil ?_
    rintro rfl
    exact absurd hlen (by simp)
  refine ⟨g₂, G', hmuG, by simpa using hlen, ?_⟩
  simp only [compactar, hdrop, htwV, hes₁]
  rw [if_neg hN]
  simp only [hdrop₂, htwO, hes₂]
  rw [if_neg (by simp), List.length_cons, hG₂]
  unfold cargarTotal
  dsimp only
  split <;> rfl

/-- The free bytes, with the unusable ones of the items moved, stay in one slot
    after them. -/
theorem compactar_mueve {t : TableInfo} {A G O R : List Particion} {g : Particion} {q : Nat}
    (hes : t.elements = A ++ (g :: G ++ (O ++ R)))
    (hV : ∀ s ∈ g :: G, s.ocupado = false ∧ s.bytesInutilizados = 0) (hO : O ≠ [])
    (hOoc : ∀ s ∈ O, s.ocupado = true) (hR : ∀ s, R.head? = some s → s.ocupado = false)
    (hq : Comienza t.sizeChunk A g q)
    (htot : (t.sizeChunk : Int) ≤ (O.map (·.bytesInutilizados)).sum
      + ((g :: G).map (·.bytesDisponibles)).sum) :
    ∃ G', (∀ s ∈ G', muerta s) ∧ G'.length = G.length ∧ ∃ g', g'.ocupado = false
      ∧ g'.bytesInutilizados = 0
      ∧ g'.item.data = finRecolocar t.sizeChunk q (O.map sinInutiles)
      ∧ g'.bytesDisponibles = (O.map (·.bytesInutilizados)).sum
          + ((g :: G).map (·.bytesDisponibles)).sum
      ∧ compactar t A.length = ({ t with
          elements := A ++ (recolocar t.sizeChunk q (O.map sinInutiles) ++ (g' :: G' ++ R))
          memoria := moverTodas t.sizeChunk q (O.map sinInutiles) t.memoria }, true) := by
  obtain ⟨g₂, G', hmuG, hlen, hcomp⟩ := compactar_corrida (Q := muerta) (fun _ => ⟨rfl, rfl, rfl⟩)
    hes (fun s hs => (hV s hs).1) (fun s hs => ⟨(hV s hs).1, rfl, (hV s hs).2⟩) hO hOoc hR hq
  have hg₂ := hmuG g₂ (by simp)
  have hpos := List.length_pos_iff.mpr hO
  let O' : List Particion := recolocar t.sizeChunk q (O.map sinInutiles)
  have hO' : O' ≠ [] := by
    intro h0
    have := congrArg List.length h0
    simp only [O', length_recolocar, List.length_map, List.length_nil] at this
    omega
  have hlenO : O'.length = O.length := by simp [O']
  -- the last item moved, and the free slot right after it
  have hult : (A ++ (O' ++ (g₂ :: G' ++ R))).getD (A.length + O.length - 1) Particion.vacia
      = O'.getLast hO' := by
    have hs : A ++ (O' ++ (g₂ :: G' ++ R))
        = (A ++ O'.dropLast) ++ O'.getLast hO' :: (g₂ :: G' ++ R) := by
      conv_lhs => rw [← List.dropLast_append_getLast hO']
      simp
    rw [hs, show A.length + O.length - 1 = (A ++ O'.dropLast).length by
      simp only [List.length_append, List.length_dropLast, hlenO]; omega]
    exact getD_mitad _ _ _ _
  have hmod : ∀ f : Particion → Particion,
      (A ++ (O' ++ (g₂ :: G' ++ R))).modify (A.length + O.length - 1 + 1) f
        = A ++ (O' ++ (f g₂ :: G' ++ R)) := by
    intro f
    have hs : A ++ (O' ++ (g₂ :: G' ++ R)) = (A ++ O') ++ g₂ :: (G' ++ R) := by simp
    rw [hs, show A.length + O.length - 1 + 1 = (A ++ O').length by
      rw [List.length_append, hlenO]; omega, modify_mitad]
    simp
  have hfin := comienzoSiguiente_recolocar (c := t.sizeChunk) hO'
  refine ⟨G', fun s hs => hmuG s (by simp [hs]), hlen,
    { g₂ with
      bytesDisponibles := (O.map (·.bytesInutilizados)).sum
        + ((g :: G).map (·.bytesDisponibles)).sum
      item := { g₂.item with data := finRecolocar t.sizeChunk q (O.map sinInutiles) } },
    hg₂.1, hg₂.2.2, rfl, rfl, ?_⟩
  have hnt : ¬ ((O.map (·.bytesInutilizados)).sum + ((g :: G).map (·.bytesDisponibles)).sum
      < (t.sizeChunk : Int)) := by omega
  rw [hcomp, cargarTotal, if_neg hnt]
  simp only [TableInfo.modificar]
  simp only [O'] at hult hmod hfin
  rw [hult, hmod, hfin]

/-! ## The sweep -/

section Barrido

variable {cfg : Config} {exacto : Prop} {t t' : TableInfo}

/-- The table in the middle of a sweep: occupied slots `A`, the free slot `W`
    of the last call with the dead slots `Z` it left, and the slots `B` and
    `D` not reached yet. -/
structure Barrida (cfg : Config) (exacto : Prop) (t : TableInfo)
    (A W Z B D : List Particion) : Prop where
  chunk : t.sizeChunk = cfg.chunkSize
  tabla : vista t = A ++ (W ++ (Z ++ (B ++ D)))
  ocupadas : ∀ s ∈ A, s.ocupado = true
  hueco : (W = [] ∧ Z = [] ∧ B = []) ∨ ∃ a F, W = [libre a F]
  muertas : ∀ s ∈ Z ++ D, muerta s
  bien : ∀ s ∈ A ++ (W ++ B), BienDin cfg.chunkSize s
  cabe : Cabe inicio (largoDin cfg.chunkSize) cfg.ptrdata (A ++ (W ++ B))
    (cfg.ptrdata + cfg.blockSizeMax)
  slots : A.length + W.length + Z.length + B.length + D.length
    = cfg.blockSizeMax / cfg.chunkSize
  suma : exacto → ((A ++ (W ++ B)).map (largoDin cfg.chunkSize)).sum = cfg.blockSizeMax
  pegado : ∀ A' s, A = A' ++ [s] → s.bytesInutilizados = 0 ∨ Rc.ocupadas B = []

/-- All slots are occupied. -/
theorem ocupadas_todas {A : List Particion} (h : ∀ s ∈ A, s.ocupado = true) :
    ocupadas A = A := List.filter_eq_self.mpr h

/-- No slot is. -/
theorem ocupadas_eq_nil {B : List Particion} :
    ocupadas B = [] ↔ ∀ s ∈ B, s.ocupado = false := by
  simp [ocupadas, List.filter_eq_nil_iff]

/-- The free bytes of a run of slots, seen on the cleaned table. -/
theorem suma_disponibles {V : List Particion} :
    (V.map (·.bytesDisponibles)).sum = ((V.map limpia).map (·.bytesDisponibles)).sum := by
  rw [List.map_map]
  congr 1
  refine List.map_congr_left ?_
  intro s _
  exact (limpia_disponibles s).symm

/-- Dead slots have no bytes. -/
theorem suma_muertas {Z : List Particion} (h : ∀ s ∈ Z, muerta s) :
    (Z.map (·.bytesDisponibles)).sum = 0 := by
  refine List.sum_eq_zero ?_
  intro x hx
  obtain ⟨s, hs, rfl⟩ := List.mem_map.mp hx
  exact (h s hs).2.1

/-- Free slots are as long as their bytes. -/
theorem suma_libres {c : Nat} {B : List Particion} (h : ∀ s ∈ B, s.ocupado = false) :
    (B.map (·.bytesDisponibles)).sum = (B.map (largoDin c)).sum := by
  congr 1
  refine List.map_congr_left ?_
  intro s hs
  exact (largoDin_of_libre (h s hs)).symm

/-- A free slot that gave its bytes away is dead. -/
theorem sinLibres_muerta {s : Particion} (ho : s.ocupado = false)
    (hi : s.bytesInutilizados = 0) : muerta (limpia (sinLibres s)) :=
  muerta_limpia.mpr ⟨ho, rfl, hi⟩

/-- With nothing occupied left, the rest of the table is one free run. -/
theorem Barrida.cola {A W Z B D : List Particion} (h : Barrida cfg exacto t A W Z B D)
    (hB : Rc.ocupadas B = []) :
    ∃ A₀ V, t.elements = A₀ ++ V ∧ A₀.map limpia = A ∧ V.map limpia = W ++ (Z ++ (B ++ D))
      ∧ (∀ s ∈ V, s.ocupado = false ∧ s.bytesInutilizados = 0)
      ∧ (V.map (·.bytesDisponibles)).sum = ((W ++ B).map (largoDin cfg.chunkSize)).sum := by
  obtain ⟨A₀, V, hes, hA, hV⟩ := List.map_eq_append_iff.mp h.tabla
  have hBf : ∀ s ∈ B, s.ocupado = false := ocupadas_eq_nil.mp hB
  have hlibres : ∀ s ∈ W ++ (Z ++ (B ++ D)), s.ocupado = false ∧ s.bytesInutilizados = 0 := by
    intro s hs
    rcases List.mem_append.mp hs with hs | hs
    · rcases h.hueco with ⟨rfl, -, -⟩ | ⟨a, F, rfl⟩
      · exact nomatch hs
      · obtain rfl := List.mem_singleton.mp hs; exact ⟨rfl, rfl⟩
    · rcases List.mem_append.mp hs with hs | hs
      · have := h.muertas s (by simp [hs]); exact ⟨this.1, this.2.2⟩
      · rcases List.mem_append.mp hs with hs | hs
        · exact ⟨hBf s hs, ((h.bien s (by simp [hs])).libre (hBf s hs)).1⟩
        · have := h.muertas s (by simp [hs]); exact ⟨this.1, this.2.2⟩
  refine ⟨A₀, V, hes, hA, hV, ?_, ?_⟩
  · intro s hs
    have := hlibres (limpia s) (by rw [← hV]; exact List.mem_map_of_mem hs)
    simpa using this
  · have hW : (W.map (·.bytesDisponibles)).sum = (W.map (largoDin cfg.chunkSize)).sum := by
      rcases h.hueco with ⟨rfl, -, -⟩ | ⟨a, F, rfl⟩ <;> simp
    rw [suma_disponibles, hV]
    simp only [List.map_append, List.sum_append]
    rw [hW, suma_libres (c := cfg.chunkSize) hBf,
      suma_muertas (fun s hs => h.muertas s (by simp [hs])),
      suma_muertas (Z := D) (fun s hs => h.muertas s (by simp [hs]))]
    ring

/-- A sweep over a table without free slots ends where it began. -/
theorem Barrida.llena {A : List Particion} (h : Barrida cfg exacto t A [] [] [] []) :
    Din cfg exacto t :=
  ⟨A, [], h.chunk, by simpa using h.tabla, by simp, by simpa using h.bien,
    by simpa using h.cabe, by simpa using h.slots, by simpa using h.suma⟩

/-- The table when the free run reaches the end: `A` and one free slot. -/
theorem Barrida.cierre {A W Z B D D' : List Particion} {a : Nat}
    (h : Barrida cfg exacto t A W Z B D) (hch : t'.sizeChunk = t.sizeChunk)
    (hv : vista t' = A ++ libre a ((W ++ B).map (largoDin cfg.chunkSize)).sum :: D')
    (ha : ∀ b F, W = [libre b F] → a = b) (hD : ∀ s ∈ D', muerta s)
    (hlen : D'.length + 1 = W.length + (Z.length + (B.length + D.length))) :
    Din cfg exacto t' := by
  have hslots := h.slots
  rcases h.hueco with ⟨rfl, rfl, rfl⟩ | ⟨b, F, rfl⟩
  · -- no free slot at all: the table is full
    refine ⟨A, libre a 0 :: D', hch.trans h.chunk, by simpa using hv, ?_, by simpa using h.bien,
      by simpa using h.cabe, ?_, by simpa using h.suma⟩
    · intro s hs
      rcases List.mem_cons.mp hs with rfl | hs
      · exact ⟨rfl, rfl, rfl⟩
      · exact hD s hs
    · simp only [List.length_cons, List.length_nil] at hslots hlen ⊢
      omega
  · obtain rfl := ha b F rfl
    have hF := ((h.bien (libre a F) (by simp)).libre rfl).2
    rw [libre_disponibles] at hF
    have hBn : 0 ≤ (B.map (largoDin cfg.chunkSize)).sum := by
      refine suma_nonneg ?_
      intro s hs
      have := (h.bien s (by simp [hs])).chunk_le
      omega
    refine ⟨A ++ [libre a (([libre a F] ++ B).map (largoDin cfg.chunkSize)).sum], D',
      hch.trans h.chunk, by simpa using hv, hD, ?_, ?_, ?_, ?_⟩
    · intro s hs
      rcases List.mem_append.mp hs with hs | hs
      · exact h.bien s (by simp [hs])
      · obtain rfl := List.mem_singleton.mp hs
        refine bienDin_libre ?_
        simp only [List.singleton_append, List.map_cons, List.sum_cons, largoDin_libre]
        omega
    · obtain ⟨m, hAm, hr⟩ := cabe_append.mp h.cabe
      refine cabe_append.mpr ⟨m, hAm, ?_⟩
      have hr' : Cabe inicio (largoDin cfg.chunkSize) m (libre a F :: B)
        (cfg.ptrdata + cfg.blockSizeMax) := hr
      have hsum := cabe_suma hr'.2
      have hini := hr'.1
      simp only [inicio_libre, largoDin_libre] at hsum hini
      simp only [cabe_cons, cabe_nil, inicio_libre, largoDin_libre, List.singleton_append,
        List.map_cons, List.sum_cons]
      exact ⟨hini, by linarith⟩
    · simp only [List.length_cons, List.length_nil, List.length_append] at hslots hlen ⊢
      omega
    · intro he
      have := h.suma he
      simp only [List.map_append, List.sum_append, List.map_cons, List.map_nil,
        largoDin_libre, List.sum_cons, List.sum_nil, add_zero] at this ⊢
      linarith

/-- **LAST CALL**: with nothing occupied left, the free run becomes one slot
    and the sweep ends with the live slots first. -/
theorem Barrida.fin {A W Z B D : List Particion} (h : Barrida cfg exacto t A W Z B D)
    (hB : Rc.ocupadas B = []) :
    ∃ t', compactar t A.length = (t', false) ∧ Din cfg exacto t'
      ∧ Rc.contenido t' = Rc.contenido t := by
  obtain ⟨A₀, V, hes, hA, hV, hlib, hacum⟩ := h.cola hB
  have hlen : A₀.length = A.length := by rw [← hA, List.length_map]
  have hfin := compactar_fin hes (fun s hs => (hlib s hs).1)
  rw [hlen] at hfin
  cases V with
  | nil =>
      -- past the end of the table nothing is written
      have hnil : W = [] ∧ Z = [] ∧ B = [] ∧ D = [] := by
        simpa [List.append_eq_nil_iff] using hV.symm
      obtain ⟨rfl, rfl, rfl, rfl⟩ := hnil
      have hno : ∀ f : Particion → Particion,
          (A₀ ++ ([] : List Particion).map sinLibres).modify A.length f = t.elements := by
        intro f
        rw [hes, List.map_nil, List.append_nil]
        exact List.modify_eq_self (by omega)
      rw [hno] at hfin
      exact ⟨t, hfin, h.llena, rfl⟩
  | cons v V =>
      have hv := hlib v (by simp)
      rw [List.map_cons, ← hlen, modify_mitad, hacum] at hfin
      rw [hlen] at hfin
      have hvis : vista { t with elements := A₀ ++ { sinLibres v with
            bytesDisponibles := ((W ++ B).map (largoDin cfg.chunkSize)).sum
            bytesInutilizados := 0 } :: V.map sinLibres }
          = A ++ libre v.item.data ((W ++ B).map (largoDin cfg.chunkSize)).sum
            :: (V.map sinLibres).map limpia := by
        simp only [vista, List.map_append, List.map_cons, hA]
        simp [limpia, sinLibres, hv.1, libre]
      refine ⟨_, hfin, h.cierre rfl hvis ?_ ?_ ?_, ?_⟩
      · rintro b F rfl
        rw [← limpia_data, (List.cons.inj hV).1]
        rfl
      · intro s hs
        obtain ⟨u, hu, rfl⟩ := List.mem_map.mp hs
        obtain ⟨w, hw, rfl⟩ := List.mem_map.mp hu
        exact sinLibres_muerta (hlib w (by simp [hw])).1 (hlib w (by simp [hw])).2
      · have := congrArg List.length hV
        simpa using this
      · -- the occupied slots are those of `A₀`
        have h1 : ∀ f : Particion → Particion, (∀ s, (f s).ocupado = s.ocupado) →
            Rc.ocupadas (A₀ ++ f (sinLibres v) :: V.map sinLibres) = Rc.ocupadas A₀ := by
          intro f hf
          rw [ocupadas_append, ocupadas_eq_nil (B := f (sinLibres v) :: V.map sinLibres) |>.mpr,
            List.append_nil]
          intro s hs
          rcases List.mem_cons.mp hs with rfl | hs
          · rw [hf]; exact hv.1
          · obtain ⟨u, hu, rfl⟩ := List.mem_map.mp hs
            exact (hlib u (by simp [hu])).1
        have h2 : Rc.ocupadas (A₀ ++ v :: V) = Rc.ocupadas A₀ := by
          rw [ocupadas_append, ocupadas_eq_nil (B := v :: V) |>.mpr (fun s hs => (hlib s hs).1),
            List.append_nil]
        simp only [Rc.contenido, hes, h2]
        congr 1
        exact h1 (fun s => { s with
          bytesDisponibles := ((W ++ B).map (largoDin cfg.chunkSize)).sum
          bytesInutilizados := 0 }) (fun _ => rfl)

/-- Where the next item is moved to, and what it leaves on both sides. -/
theorem Barrida.comienzo {A Z B D : List Particion} {a : Nat} {F : Int} {g : Particion}
    (h : Barrida cfg exacto t A [libre a F] Z B D) (hB : Rc.ocupadas B ≠ [])
    (hg : g.item.data = a) :
    ∃ q : Nat, Comienza cfg.chunkSize A g q
      ∧ Cabe inicio (largoDin cfg.chunkSize) cfg.ptrdata A q
      ∧ Cabe inicio (largoDin cfg.chunkSize) q ([libre a F] ++ B)
          (cfg.ptrdata + cfg.blockSizeMax) := by
  obtain ⟨m, hAm, hr⟩ := cabe_append.mp h.cabe
  rcases List.eq_nil_or_concat A with rfl | ⟨A', s, rfl⟩
  · refine ⟨a, ⟨fun _ => hg, fun P' s hs => absurd hs (by simp)⟩, ?_, ⟨le_refl _, hr.2⟩⟩
    exact le_trans hAm hr.1
  · rw [List.concat_eq_append] at *
    have ho := h.ocupadas s (by simp)
    -- the slot before the free run has no unusable bytes
    have hin : s.bytesInutilizados = 0 := by
      rcases h.pegado A' s rfl with hin | hnil
      · exact hin
      · exact absurd hnil hB
    have hfin : (comienzoSiguiente cfg.chunkSize s : Int)
      = inicio s + largoDin cfg.chunkSize s := by
      rw [comienzoSiguiente_eq, largoDin_of_ocupado ho, hin]
      simp [inicio]
    obtain ⟨m', hA', hs⟩ := cabe_append.mp hAm
    refine ⟨comienzoSiguiente cfg.chunkSize s, ⟨fun h0 => absurd h0 (by simp), ?_⟩, ?_, ?_⟩
    · intro P' u hu
      obtain ⟨-, hu⟩ := List.append_inj' hu rfl
      rw [(List.cons.inj hu).1]
    · rw [hfin]
      exact cabe_append.mpr ⟨m', hA', ⟨hs.1, le_refl _⟩⟩
    · rw [hfin]
      exact cabe_baja hr hs.2

/-- Occupied slots without their unusable bytes fit where they did. -/
theorem cabe_sinInutiles {c : Nat} {O : List Particion}
    (h : ∀ s ∈ O, BienDin c s ∧ s.ocupado = true) :
    ∀ {p q : Int}, Cabe inicio (largoDin c) p O q →
      Cabe inicio (largoDin c) p (O.map sinInutiles) q := by
  induction O with
  | nil => intro p q hc; exact hc
  | cons o O ih =>
      intro p q hc
      obtain ⟨hb, ho⟩ := h o (by simp)
      refine ⟨hc.1, ih (fun s hs => h s (by simp [hs])) (cabe_baja hc.2 ?_)⟩
      have hin := (hb.ocupada ho).2
      have ho' : (sinInutiles o).ocupado = true := ho
      rw [largoDin_of_ocupado ho, largoDin_of_ocupado ho']
      simp only [sinInutiles, inicio]
      omega

/-- What the items take is their bytes and those they lost. -/
theorem suma_inutiles {c : Nat} {O : List Particion} (h : ∀ s ∈ O, s.ocupado = true) :
    (O.map (largoDin c)).sum
      = ((O.map sinInutiles).map fun o => (ocupa c o.item.ndata : Int)).sum
        + (O.map (·.bytesInutilizados)).sum := by
  induction O with
  | nil => rfl
  | cons o O ih =>
      have := ih (fun s hs => h s (by simp [hs]))
      simp only [List.map_cons, List.sum_cons, this, largoDin_of_ocupado (h o (by simp)),
        sinInutiles]
      ring

/-- The split of the slots not reached yet: a free run, the occupied run after
    it, and the rest, which does not start with an occupied slot. -/
theorem parte_ocupada {B : List Particion} (h : ocupadas B ≠ []) :
    ∃ Bf O B', B = Bf ++ (O ++ B') ∧ (∀ s ∈ Bf, s.ocupado = false) ∧ O ≠ []
      ∧ (∀ s ∈ O, s.ocupado = true) ∧ ∀ s, B'.head? = some s → s.ocupado = false := by
  obtain ⟨Bf, Y, rfl, hBf, hY⟩ := corte_prueba (fun s : Particion => !s.ocupado) B
  obtain ⟨O, B', rfl, hO, hB'⟩ := corte_prueba (fun s : Particion => s.ocupado) Y
  have hBf' : ∀ s ∈ Bf, s.ocupado = false := fun s hs => by simpa using hBf s hs
  refine ⟨Bf, O, B', rfl, hBf', ?_, hO, hB'⟩
  rintro rfl
  refine h (ocupadas_eq_nil.mpr fun s hs => ?_)
  rcases List.mem_append.mp hs with hs | hs
  · exact hBf' s hs
  · -- with no occupied run there is nothing after the free one
    rw [List.nil_append] at hY hs
    cases B' with
    | nil => cases hs
    | cons x X =>
        have h1 := hY x rfl
        rw [hB' x rfl] at h1
        cases h1

/-- Among occupied slots cleaning changes nothing. -/
theorem eq_of_map_limpia {L₀ L : List Particion} (h : L₀.map limpia = L)
    (ho : ∀ s ∈ L, s.ocupado = true) : L₀ = L := by
  rw [← h]
  conv_lhs => rw [← List.map_id L₀]
  refine List.map_congr_left ?_
  intro s hs
  have := ho (limpia s) (by rw [← h]; exact List.mem_map_of_mem hs)
  rw [limpia_ocupado] at this
  exact (limpia_of_ocupado this).symm

/-- The free run before an occupied one leaves room for what is moved. -/
theorem cabe_corrida {c : Nat} {V O B : List Particion} {q e : Int}
    (h : Cabe inicio (largoDin c) q (V ++ (O ++ B)) e) (hV : 0 ≤ (V.map (largoDin c)).sum) :
    ∃ m, Cabe inicio (largoDin c) q O m ∧ Cabe inicio (largoDin c) m B e
      ∧ q + (V.map (largoDin c)).sum + (O.map (largoDin c)).sum ≤ m := by
  obtain ⟨m₁, hVm, hr⟩ := cabe_append.mp h
  obtain ⟨m, hO, hB⟩ := cabe_append.mp hr
  have h1 := cabe_suma hVm
  have h2 := cabe_suma hO
  exact ⟨m, cabe_baja hO (by omega), hB, by omega⟩

/-- The entries before and after the items moved read the same. -/
theorem entradas_ajenas {c q : Nat} {A O B : List Particion} {p m e : Int} (mem : Nat → UInt8)
    (hA : Cabe inicio (largoDin c) p A q) (hO : Cabe inicio (largoDin c) q O m)
    (hB : Cabe inicio (largoDin c) m B e) (hbA : ∀ s ∈ A, BienDin c s)
    (hbO : ∀ s ∈ O, BienDin c s ∧ s.ocupado = true) (hbB : ∀ s ∈ B, BienDin c s) :
    (ocupadas A).map (entrada (moverTodas c q O mem)) = (ocupadas A).map (entrada mem)
      ∧ (ocupadas B).map (entrada (moverTodas c q O mem)) = (ocupadas B).map (entrada mem) := by
  have hnA : ∀ s ∈ A, 0 ≤ largoDin c s := by
    intro s hs
    have := (hbA s hs).chunk_le
    omega
  have hnB : ∀ s ∈ B, 0 ≤ largoDin c s := by
    intro s hs
    have := (hbB s hs).chunk_le
    omega
  constructor
  · refine List.map_congr_left ?_
    intro s hs
    obtain ⟨hs, ho⟩ := mem_ocupadas.mp hs
    have h1 := (cabe_mem hA hnA s hs).2
    have h2 := (hbA s hs).ndata_le ho
    simp only [inicio] at h1
    simp only [entrada]
    rw [leer_moverTodas (cabe_ancho hbO hO) (Or.inl (by omega))]
  · refine List.map_congr_left ?_
    intro s hs
    obtain ⟨hs, -⟩ := mem_ocupadas.mp hs
    have h1 := (cabe_mem hB hnB s hs).1
    simp only [inicio] at h1
    simp only [entrada]
    rw [leer_moverTodas (cabe_ancho hbO hO) (Or.inr h1)]

/-- The raw slots a call meets: the swept slots `A` and the occupied run `O`
    have no stale fields, the free run `g :: G` has no unusable bytes. -/
theorem Barrida.corrida {A Z Bf O B D : List Particion} {a : Nat} {F : Int}
    (h : Barrida cfg exacto t A [libre a F] Z (Bf ++ (O ++ B)) D)
    (hBf : ∀ s ∈ Bf, s.ocupado = false) (hO : ∀ s ∈ O, s.ocupado = true)
    (hB : ∀ s, B.head? = some s → s.ocupado = false) :
    ∃ g G R, t.elements = A ++ (g :: G ++ (O ++ R)) ∧ R.map limpia = B ++ D
      ∧ g.item.data = a ∧ G.length = Z.length + Bf.length
      ∧ (∀ s ∈ g :: G, s.ocupado = false ∧ s.bytesInutilizados = 0)
      ∧ ((g :: G).map (·.bytesDisponibles)).sum = F + (Bf.map (largoDin cfg.chunkSize)).sum
      ∧ ∀ s, R.head? = some s → s.ocupado = false := by
  have htab : vista t = A ++ ((libre a F :: (Z ++ Bf)) ++ (O ++ (B ++ D))) := by
    rw [h.tabla]; simp
  obtain ⟨A₀, T₁, hes, hA₀, hT₁⟩ := List.map_eq_append_iff.mp htab
  obtain ⟨V, T₂, rfl, hV, hT₂⟩ := List.map_eq_append_iff.mp hT₁
  obtain ⟨O₀, R, rfl, hO₀, hR⟩ := List.map_eq_append_iff.mp hT₂
  obtain rfl := eq_of_map_limpia hA₀ h.ocupadas
  obtain rfl := eq_of_map_limpia hO₀ hO
  obtain ⟨g, G, rfl, hg, hG⟩ := List.map_eq_cons_iff.mp hV
  refine ⟨g, G, R, hes, hR, ?_, ?_, ?_, ?_, ?_⟩
  · rw [← limpia_data, hg]; rfl
  · rw [← List.length_map (f := limpia), hG, List.length_append]
  · intro s hs
    have hmem : limpia s ∈ libre a F :: (Z ++ Bf) := by
      rw [← hV]; exact List.mem_map_of_mem hs
    have hgoal : (limpia s).ocupado = false ∧ (limpia s).bytesInutilizados = 0 := by
      rcases List.mem_cons.mp hmem with hm | hm
      · rw [hm]; exact ⟨rfl, rfl⟩
      · rcases List.mem_append.mp hm with hm | hm
        · have := h.muertas _ (List.mem_append.mpr (Or.inl hm)); exact ⟨this.1, this.2.2⟩
        · exact ⟨hBf _ hm, ((h.bien (limpia s) (by simp [hm])).libre (hBf _ hm)).1⟩
    simpa using hgoal
  · rw [suma_disponibles, hV]
    simp only [List.map_cons, List.sum_cons, List.map_append, List.sum_append]
    rw [suma_muertas (Z := Z) (fun s hs => h.muertas s (by simp [hs])),
      suma_libres (c := cfg.chunkSize) hBf]
    simp
  · intro s hs
    have hs' : (B ++ D).head? = some (limpia s) := by rw [← hR, List.head?_map, hs]; rfl
    rw [← limpia_ocupado]
    cases B with
    | nil => exact (h.muertas _ (List.mem_append.mpr (Or.inr (List.mem_of_head? hs')))).1
    | cons b B => exact hB _ hs'

/-! ### The run a call moves -/

/-- Cleaning leaves occupied slots alone. -/
theorem map_limpia_ocupadas {O : List Particion} (hO : ∀ s ∈ O, s.ocupado = true) :
    O.map limpia = O := by
  conv_rhs => rw [← List.map_id O]
  exact List.map_congr_left fun s hs => limpia_of_ocupado (hO s hs)

section Movida

variable {c q : Nat} {O : List Particion}

/-- A run to be moved has given up its unusable bytes. -/
theorem sinInutiles_mem (hO : ∀ s ∈ O, s.ocupado = true) :
    ∀ s ∈ O.map sinInutiles, s.ocupado = true ∧ s.bytesInutilizados = 0 := by
  intro s hs
  obtain ⟨u, hu, rfl⟩ := List.mem_map.mp hs
  exact ⟨hO u hu, rfl⟩

/-- Its slots are still well formed. -/
theorem bien_sinInutiles (hO : ∀ s ∈ O, BienDin c s ∧ s.ocupado = true) :
    ∀ s ∈ O.map sinInutiles, BienDin c s ∧ s.ocupado = true := by
  intro s hs
  obtain ⟨u, hu, rfl⟩ := List.mem_map.mp hs
  obtain ⟨hb, ho⟩ := hO u hu
  have hu' : (sinInutiles u).ocupado = true := ho
  exact ⟨⟨fun hf => absurd (hf.symm.trans hu') (by simp),
    fun _ => ⟨(hb.ocupada ho).1, le_refl _⟩⟩, hu'⟩

/-- A moved run is full: no free and no unusable bytes. -/
theorem movidas_llenas (hO : ∀ s ∈ O, BienDin c s ∧ s.ocupado = true) :
    ∀ s ∈ recolocar c q (O.map sinInutiles),
      s.ocupado = true ∧ s.bytesInutilizados = 0 ∧ s.bytesDisponibles = 0 := by
  refine recolocar_mem (P := fun s => s.ocupado = true ∧ s.bytesInutilizados = 0
    ∧ s.bytesDisponibles = 0) (fun o a ho => ho) ?_
  intro s hs
  obtain ⟨hb, ho⟩ := bien_sinInutiles hO s hs
  exact ⟨ho, (sinInutiles_mem (fun u hu => (hO u hu).2) s hs).2, (hb.ocupada ho).1⟩

/-- A run stays one when it is moved. -/
theorem movidas_ne_nil (hO : O ≠ []) : recolocar c q (O.map sinInutiles) ≠ [] := by
  intro h0
  have := congrArg List.length h0
  rw [length_recolocar, List.length_map, List.length_nil] at this
  exact hO (List.length_eq_zero_iff.mp this)

end Movida

section Turno

variable {A Z Bf O B D : List Particion} {a : Nat} {F : Int}

/-- The bytes the free slot has after a call. -/
def sueltos (c : Nat) (F : Int) (Bf O : List Particion) : Int :=
  (O.map (·.bytesInutilizados)).sum + (F + (Bf.map (largoDin c)).sum)

/-- They are those of the free slot, or more. -/
theorem le_sueltos {c : Nat} (hBf : ∀ s ∈ Bf, BienDin c s)
    (hO : ∀ s ∈ O, BienDin c s ∧ s.ocupado = true) : F ≤ sueltos c F Bf O := by
  have h1 : 0 ≤ (Bf.map (largoDin c)).sum := by
    refine suma_nonneg ?_
    intro s hs
    have := (hBf s hs).chunk_le
    omega
  have h2 : 0 ≤ (O.map (·.bytesInutilizados)).sum :=
    suma_nonneg fun s hs => ((hO s hs).1.ocupada (hO s hs).2).2
  unfold sueltos
  omega

/-- What was moved and the free slot after it fit before the slots not reached. -/
theorem cabe_movidas {c q : Nat} {e : Int} (hO : ∀ s ∈ O, BienDin c s ∧ s.ocupado = true)
    (hBf : ∀ s ∈ Bf, BienDin c s) (hF : 0 ≤ F)
    (h : Cabe inicio (largoDin c) q ((libre a F :: Bf) ++ (O ++ B)) e) :
    ∃ m, Cabe inicio (largoDin c) q (O.map sinInutiles) m ∧ Cabe inicio (largoDin c) m B e
      ∧ (finRecolocar c q (O.map sinInutiles) : Int) + sueltos c F Bf O ≤ m := by
  have hnn : 0 ≤ (Bf.map (largoDin c)).sum := by
    refine suma_nonneg ?_
    intro s hs
    have := (hBf s hs).chunk_le
    omega
  obtain ⟨m, hqO, hmB, hle⟩ := cabe_corrida h
    (by simp only [List.map_cons, List.sum_cons, largoDin_libre]; omega)
  have hfin := finRecolocar_eq c (O.map sinInutiles) q
  have hsumO := suma_inutiles (c := c) fun s hs => (hO s hs).2
  refine ⟨m, cabe_sinInutiles hO hqO, hmB, ?_⟩
  simp only [List.map_cons, largoDin_libre, List.sum_cons] at hle
  unfold sueltos
  omega

variable (h : Barrida cfg exacto t A [libre a F] Z (Bf ++ (O ++ B)) D)
  (hO : ∀ s ∈ O, s.ocupado = true)

include h hO

/-- The slots of the run are well formed. -/
theorem Barrida.bien_corrida : ∀ s ∈ O, BienDin cfg.chunkSize s ∧ s.ocupado = true :=
  fun s hs => ⟨h.bien s (by simp [hs]), hO s hs⟩

/-- The sweep after a call that moved the run to `q` and left the free slot
    after it. -/
theorem Barrida.movida (hOne : O ≠ []) {q : Nat} {m : Int} {t' : TableInfo} {G : List Particion}
    (hAq : Cabe inicio (largoDin cfg.chunkSize) cfg.ptrdata A q)
    (hmB : Cabe inicio (largoDin cfg.chunkSize) m B (cfg.ptrdata + cfg.blockSizeMax))
    (hqm : (finRecolocar cfg.chunkSize q (O.map sinInutiles) : Int)
      + sueltos cfg.chunkSize F Bf O ≤ m)
    (hch : t'.sizeChunk = cfg.chunkSize)
    (hv : vista t' = A ++ (recolocar cfg.chunkSize q (O.map sinInutiles)
      ++ libre (finRecolocar cfg.chunkSize q (O.map sinInutiles)) (sueltos cfg.chunkSize F Bf O)
        :: (G ++ (B ++ D))))
    (hG : ∀ s ∈ G, muerta s) (hlen : G.length = Z.length + Bf.length) :
    Barrida cfg exacto t' (A ++ recolocar cfg.chunkSize q (O.map sinInutiles))
      [libre (finRecolocar cfg.chunkSize q (O.map sinInutiles)) (sueltos cfg.chunkSize F Bf O)]
      G B D := by
  have hbO := h.bien_corrida hO
  have hllenas := movidas_llenas (q := q) hbO
  have hsin := sinInutiles_mem hO
  refine ⟨hch, by rw [hv]; simp, ?_, Or.inr ⟨_, _, rfl⟩, ?_, ?_, ?_, ?_, ?_, ?_⟩
  · intro s hs
    rcases List.mem_append.mp hs with hs | hs
    · exact h.ocupadas s hs
    · exact (hllenas s hs).1
  · intro s hs
    rcases List.mem_append.mp hs with hs | hs
    · exact hG s hs
    · exact h.muertas s (by simp [hs])
  · intro s hs
    rcases List.mem_append.mp hs with hs | hs
    · rcases List.mem_append.mp hs with hs | hs
      · exact h.bien s (by simp [hs])
      · obtain ⟨h1, h2, h3⟩ := hllenas s hs
        exact ⟨fun hf => absurd (hf.symm.trans h1) (by simp), fun _ => ⟨h3, by omega⟩⟩
    · rcases List.mem_cons.mp hs with rfl | hs
      · have hF := ((h.bien (libre a F) (by simp)).libre rfl).2
        rw [libre_disponibles] at hF
        have hbBf : ∀ s ∈ Bf, BienDin cfg.chunkSize s := fun s hs => h.bien s (by simp [hs])
        exact bienDin_libre (hF.trans (le_sueltos hbBf hbO))
      · have hs : s ∈ B := hs
        exact h.bien s (by simp [hs])
  · rw [List.append_assoc]
    refine cabe_append.mpr ⟨q, hAq, cabe_append.mpr
      ⟨finRecolocar cfg.chunkSize q (O.map sinInutiles), cabe_recolocar hsin q, le_refl _, ?_⟩⟩
    exact cabe_baja hmB hqm
  · have := h.slots
    simp only [List.length_append, List.length_cons, List.length_nil, length_recolocar,
      List.length_map] at this ⊢
    omega
  · intro he
    have := h.suma he
    have hsum := suma_recolocar (c := cfg.chunkSize) hsin q
    have hsumO := suma_inutiles (c := cfg.chunkSize) hO
    simp only [List.map_append, List.sum_append, List.map_cons, List.map_nil, largoDin_libre,
      List.sum_cons, List.sum_nil, hsum, sueltos] at this ⊢
    linarith
  · intro A' s hs
    refine Or.inl (hllenas s ?_).2.1
    have h1 : (A ++ recolocar cfg.chunkSize q (O.map sinInutiles)).getLast? = some s := by
      rw [hs]
      simp
    rw [List.getLast?_append_of_ne_nil _ (movidas_ne_nil hOne)] at h1
    exact List.mem_of_getLast? h1

/-- The entries after the call: those of `A` and of the slots not reached were
    not written over, those of the run moved. -/
theorem Barrida.contenido_movida {q : Nat} {m : Int} {V V' R : List Particion}
    (hes : t.elements = A ++ (V ++ (O ++ R))) (hR : R.map limpia = B ++ D)
    (hV : ∀ s ∈ V, s.ocupado = false) (hV' : ∀ s ∈ V', s.ocupado = false)
    (hAq : Cabe inicio (largoDin cfg.chunkSize) cfg.ptrdata A q)
    (hqO : Cabe inicio (largoDin cfg.chunkSize) q (O.map sinInutiles) m)
    (hmB : Cabe inicio (largoDin cfg.chunkSize) m B (cfg.ptrdata + cfg.blockSizeMax)) :
    Rc.contenido { t with
      elements := A ++ (recolocar cfg.chunkSize q (O.map sinInutiles) ++ (V' ++ R))
      sizeChunk := cfg.chunkSize
      memoria := moverTodas cfg.chunkSize q (O.map sinInutiles) t.memoria }
      = Rc.contenido t := by
  have hbO := h.bien_corrida hO
  have hbO' := bien_sinInutiles hbO
  obtain ⟨heA, heB⟩ := entradas_ajenas t.memoria hAq hqO hmB
    (fun s hs => h.bien s (by simp [hs])) hbO' fun s hs => h.bien s (by simp [hs])
  have heO : (recolocar cfg.chunkSize q (O.map sinInutiles)).map
      (entrada (moverTodas cfg.chunkSize q (O.map sinInutiles) t.memoria))
      = O.map (entrada t.memoria) := by
    rw [entradas_moverTodas (cabe_ancho hbO' hqO), List.map_map]
    rfl
  have hoR : Rc.ocupadas R = Rc.ocupadas B := by
    rw [← ocupadas_map_limpia, hR, ocupadas_append,
      ocupadas_muertas (D := D) (fun s hs => h.muertas s (by simp [hs])), List.append_nil]
  have hoO' := ocupadas_todas fun s hs => (movidas_llenas (q := q) hbO s hs).1
  simp only [Rc.contenido, hes, ocupadas_append, ocupadas_eq_nil.mpr hV, ocupadas_eq_nil.mpr hV',
    hoR, List.nil_append, ocupadas_todas hO, hoO', List.map_append, heA, heB, heO]

end Turno

/-- **ONE CALL** in the middle of a sweep: the occupied run joins the slots
    already swept, the free slot goes after it, and every entry reads the
    same. -/
theorem Barrida.paso {A Z B D : List Particion} {a : Nat} {F : Int}
    (h : Barrida cfg exacto t A [libre a F] Z B D) (hB : Rc.ocupadas B ≠ []) :
    ∃ t' O' a' F' Z' B', compactar t A.length = (t', true) ∧ O' ≠ []
      ∧ Barrida cfg exacto t' (A ++ O') [libre a' F'] Z' B' D
      ∧ Rc.contenido t' = Rc.contenido t := by
  obtain ⟨Bf, O, B', rfl, hBf, hOne, hO, hB'⟩ := parte_ocupada hB
  obtain ⟨g, G, R, hes, hR, hgd, hlenZ, hvlib, hacum, hRh⟩ := h.corrida hBf hO hB'
  obtain ⟨q, hcom, hAq, hqr⟩ := h.comienzo hB hgd
  have hbO := h.bien_corrida hO
  have hbBf : ∀ s ∈ Bf, BienDin cfg.chunkSize s := fun s hs => h.bien s (by simp [hs])
  have hF := ((h.bien (libre a F) (by simp)).libre rfl).2
  rw [libre_disponibles] at hF
  have hle : F ≤ sueltos cfg.chunkSize F Bf O := le_sueltos hbBf hbO
  obtain ⟨m, hqO, hmB, hqm⟩ := cabe_movidas hbO hbBf (by omega)
    (show Cabe inicio _ q ((libre a F :: Bf) ++ (O ++ B')) _ from hqr)
  -- the call itself
  obtain ⟨G', hG', hlenG, g', hg'o, hg'i, hg'd, hg'b, hcomp⟩ :=
    compactar_mueve (O := O) (R := R) (q := q) hes hvlib hOne hO hRh
      (by rw [h.chunk]; exact hcom)
      (by rw [h.chunk, hacum]; exact le_trans (by omega) hle)
  rw [h.chunk] at hcomp hg'd
  rw [hacum, ← sueltos] at hg'b
  have hvis : vista { t with
      elements := A ++ (recolocar cfg.chunkSize q (O.map sinInutiles) ++ (g' :: G' ++ R))
      sizeChunk := cfg.chunkSize
      memoria := moverTodas cfg.chunkSize q (O.map sinInutiles) t.memoria }
      = A ++ (recolocar cfg.chunkSize q (O.map sinInutiles)
        ++ libre (finRecolocar cfg.chunkSize q (O.map sinInutiles))
          (sueltos cfg.chunkSize F Bf O) :: (G'.map limpia ++ (B' ++ D))) := by
    simp only [vista, List.map_append, List.map_cons, List.cons_append,
      map_limpia_ocupadas h.ocupadas,
      map_limpia_ocupadas fun s hs => (movidas_llenas (q := q) hbO s hs).1,
      limpia_of_libre hg'o hg'i, hg'd, hg'b, hR]
  refine ⟨_, _, _, _, G'.map limpia, B', hcomp, movidas_ne_nil hOne,
    h.movida hO hOne hAq hmB hqm rfl hvis ?_ (by rw [List.length_map]; omega), ?_⟩
  · intro s hs
    obtain ⟨u, hu, rfl⟩ := List.mem_map.mp hs
    exact muerta_limpia.mpr (hG' u hu)
  · refine h.contenido_movida hO hes hR (fun s hs => (hvlib s hs).1) ?_ hAq hqO hmB
    intro s hs
    rcases List.mem_cons.mp hs with rfl | hs
    · exact hg'o
    · exact (hG' s hs).1

/-- The slot before the first free run has no unusable bytes, or nothing is
    occupied after it. -/
def barridoSeguro (t : TableInfo) : Prop :=
  (∀ s ∈ (t.elements.takeWhile (·.ocupado)).getLast?, s.bytesInutilizados = 0)
    ∨ ∀ s ∈ t.elements.dropWhile (·.ocupado), s.ocupado = false

instance : DecidablePred barridoSeguro := fun t =>
  inferInstanceAs (Decidable
    ((∀ s ∈ (t.elements.takeWhile (·.ocupado)).getLast?, s.bytesInutilizados = 0)
      ∨ ∀ s ∈ t.elements.dropWhile (·.ocupado), s.ocupado = false))

/-- The table a sweep starts from. -/
theorem Din.barrida (h : Din cfg exacto t) (hseg : barridoSeguro t) :
    ∃ A W B D, Barrida cfg exacto t A W [] B D := by
  obtain ⟨L, D, h⟩ := h
  let A : List Particion := L.takeWhile (·.ocupado)
  let X : List Particion := L.dropWhile (·.ocupado)
  have hL : L = A ++ X := (List.takeWhile_append_dropWhile).symm
  have hA : ∀ s ∈ A, s.ocupado = true := fun s hs => List.mem_takeWhile_imp hs
  have hXh : ∀ s, X.head? = some s → s.ocupado = false := by
    intro s hs
    have := List.head?_dropWhile_not (fun s : Particion => s.ocupado) L
    rw [show L.dropWhile (fun s => s.ocupado) = X from rfl, hs] at this
    simpa using this
  -- the same split on the raw table
  have hseg' : ∀ A' s, A = A' ++ [s] → s.bytesInutilizados = 0 ∨ Rc.ocupadas X = [] := by
    intro A' s hs
    have htab : vista t = A ++ (X ++ D) := by rw [h.tabla, hL]; simp
    obtain ⟨A₀, Y, hes, hA₀, hY⟩ := List.map_eq_append_iff.mp htab
    obtain rfl := eq_of_map_limpia hA₀ hA
    have hYh : ∀ y, Y.head? = some y → y.ocupado = false := by
      intro y hy
      have hy' : (X ++ D).head? = some (limpia y) := by rw [← hY, List.head?_map, hy]; rfl
      rw [← limpia_ocupado]
      cases hX : X with
      | nil =>
          rw [hX] at hy'
          exact (h.muertas _ (List.mem_of_head? hy')).1
      | cons x X' =>
          rw [hX] at hy' hXh
          exact hXh _ hy'
    have htake : t.elements.takeWhile (·.ocupado) = A := by
      rw [hes]; exact takeWhile_bloque hA hYh
    have hdrop : t.elements.dropWhile (·.ocupado) = Y := by
      have h1 := List.takeWhile_append_dropWhile (p := fun s : Particion => s.ocupado)
        (l := t.elements)
      rw [htake] at h1
      exact (List.append_inj (h1.trans hes) rfl).2
    rcases hseg with hin | hno
    · exact Or.inl (hin s (by rw [htake, hs]; simp))
    · right
      rw [hdrop] at hno
      refine ocupadas_eq_nil.mpr ?_
      intro x hx
      have hx' : x ∈ Y.map limpia := by rw [hY]; simp [hx]
      obtain ⟨y, hy, rfl⟩ := List.mem_map.mp hx'
      rw [limpia_ocupado]
      exact hno y hy
  have hslots := h.slots
  cases hX : X with
  | nil =>
      refine ⟨A, [], [], D, h.chunk, ?_, hA, Or.inl ⟨rfl, rfl, rfl⟩, by simpa using h.muertas,
        ?_, ?_, ?_, ?_, ?_⟩
      · rw [h.tabla, hL, hX]; simp
      · rw [hL, hX] at h; simpa using h.bien
      · rw [hL, hX] at h; simpa using h.cabe
      · rw [hL, hX] at hslots; simpa using hslots
      · rw [hL, hX] at h; simpa using h.suma
      · intro A' s _; exact Or.inr rfl
  | cons x B =>
      have hxo : x.ocupado = false := hXh x (by rw [hX]; rfl)
      rw [hL, hX] at h hslots
      have hxi := ((h.bien x (by simp)).libre hxo).1
      obtain ⟨a, F, rfl⟩ : ∃ a F, x = libre a F := by
        have hmem : x ∈ vista t := by rw [h.tabla]; simp
        obtain ⟨s₀, -, rfl⟩ := List.mem_map.mp hmem
        exact ⟨_, _, limpia_of_libre (by simpa using hxo) (by simpa using hxi)⟩
      refine ⟨A, [libre a F], B, D, h.chunk, ?_, hA, Or.inr ⟨a, F, rfl⟩, by simpa using h.muertas,
        by simpa using h.bien, by simpa using h.cabe, ?_, by simpa using h.suma, ?_⟩
      · rw [h.tabla]; simp
      · simp only [List.length_append, List.length_cons, List.length_nil] at hslots ⊢
        omega
      · intro A' s hs
        rcases hseg' A' s hs with h1 | h1
        · exact Or.inl h1
        · rw [hX, ocupadas_libre] at h1; exact Or.inr h1

/-- The loop rule of the sweep: what passes over an occupied slot and through
    a compaction at a free one holds of its result. -/
theorem barrer_regla {fuera : Nat → Particion} {P : Nat → TableInfo → Prop}
    (hsalta : ∀ i t, P i t → (t.leer fuera i).ocupado = true → P (i + 1) t)
    (hmueve : ∀ i t, P i t → (t.leer fuera i).ocupado = false → P (i + 1) (compactar t i).1) :
    ∀ (vueltas i : Nat) {t t' : TableInfo}, P i t → barrer fuera vueltas i t = some t' →
      ∃ j, P j t' := by
  intro vueltas
  induction vueltas with
  | zero => intro i t t' _ h; exact nomatch h
  | succ v ih =>
      intro i t t' hP h
      simp only [barrer] at h
      cases ho : (t.leer fuera i).ocupado with
      | true =>
          rw [ho, if_pos rfl] at h
          exact ih (i + 1) (hsalta i t hP ho) h
      | false =>
          rw [ho, if_neg (by simp)] at h
          have hP' := hmueve i t hP ho
          rcases hc : compactar t i with ⟨t₁, sigue⟩
          rw [hc] at h hP'
          cases sigue with
          | true => exact ih (i + 1) hP' h
          | false =>
              obtain rfl := Option.some.inj h
              exact ⟨i + 1, hP'⟩

/-- `u` is `t` but for its slots and its memory. -/
def MismoMarco (t u : TableInfo) : Prop :=
  u = { t with elements := u.elements, memoria := u.memoria }

/-- A turn keeps the frame of the table. -/
theorem compactar_marco (t : TableInfo) (pos : Nat) : MismoMarco t (compactar t pos).1 := by
  have hmov : ∀ (n cantVacios : Nat) (es : List Particion),
      MismoMarco t (iterar (fun i t => desplazarArriba t (pos + i) cantVacios) n
        { t with elements := es }) := by
    intro n cantVacios es
    refine iterar_invariante (f := fun i t => desplazarArriba t (pos + i) cantVacios)
      (s := { t with elements := es }) (fun _ u => MismoMarco t u) rfl ?_
    intro i u _ hu
    rw [hu]
    rfl
  have htoca : ∀ (u : TableInfo) (i : Nat) f, MismoMarco t u → MismoMarco t (u.modificar i f) := by
    intro u i f hu
    rw [hu]
    rfl
  unfold compactar
  dsimp only
  split
  · rfl
  · split
    · rfl
    · split <;> exact htoca _ _ _ (hmov _ _ _)

/-- So does the sweep. -/
theorem barrer_marco {fuera : Nat → Particion} {vueltas i : Nat}
    (h : barrer fuera vueltas i t = some t') : MismoMarco t t' := by
  have hpaso : ∀ i u, MismoMarco t u → MismoMarco t (compactar u i).1 := by
    intro i u hu
    have hm := compactar_marco u i
    unfold MismoMarco at hu hm ⊢
    rw [hm, hu]
  have hpropio : MismoMarco t t := rfl
  obtain ⟨-, hb⟩ := barrer_regla (P := fun _ u => MismoMarco t u) (fun _ _ hu _ => hu)
    (fun i u hu _ => hpaso i u hu) vueltas i hpropio h
  exact hb

/-- The sweep writes no log. -/
theorem barrer_bitacora {fuera : Nat → Particion} {vueltas i : Nat}
    (h : barrer fuera vueltas i t = some t') : t'.bitacora = t.bitacora := by
  rw [barrer_marco h]

/-- Past the end of the table there is nothing to compact. -/
theorem compactar_fuera {i : Nat} (hi : t.tableMaxSize ≤ i) : compactar t i = (t, false) := by
  have hdrop : t.elements.drop i = [] := List.drop_eq_nil_of_le hi
  have hmod : ∀ f : Particion → Particion, t.elements.modify i f = t.elements :=
    fun f => List.modify_eq_self hi
  simp only [compactar, hdrop, List.takeWhile_nil, List.length_nil, iterar_zero, hmod]
  rw [if_pos (by omega)]

/-- Of an occupied table a read that is not occupied is past the end. -/
theorem leer_lleno {fuera : Nat → Particion} {i : Nat}
    (hlleno : ∀ s ∈ t.elements, s.ocupado = true) (ho : (t.leer fuera i).ocupado = false) :
    t.tableMaxSize ≤ i := by
  by_contra hi
  have hlt : i < t.elements.length := Nat.lt_of_not_le hi
  rw [TableInfo.leer, List.getD_eq_getElem _ _ hlt, hlleno _ (List.getElem_mem hlt)] at ho
  cases ho

/-- The sweep of a table without a free slot changes nothing. -/
theorem barrer_lleno {fuera : Nat → Particion} (hlleno : ∀ s ∈ t.elements, s.ocupado = true)
    {vueltas i : Nat} (h : barrer fuera vueltas i t = some t') : t' = t := by
  have hpaso : ∀ i u, u = t → (u.leer fuera i).ocupado = false → (compactar u i).1 = t := by
    rintro i u rfl ho
    rw [compactar_fuera (leer_lleno hlleno ho)]
  obtain ⟨-, hb⟩ := barrer_regla (P := fun _ u => u = t) (fun _ _ hu _ => hu) hpaso vueltas i rfl h
  exact hb

/-- **THE SWEEP** keeps the layout and every entry. -/
theorem barrer_barrida {fuera : Nat → Particion} :
    ∀ (vueltas i : Nat) {t t' : TableInfo} {A W Z B D : List Particion},
      Barrida cfg exacto t A W Z B D → i ≤ A.length → barrer fuera vueltas i t = some t' →
      Din cfg exacto t' ∧ contenido t' = contenido t := by
  intro vueltas
  induction vueltas with
  | zero => intro i t t' A W Z B D _ _ h; exact nomatch h
  | succ v ih =>
      intro i t t' A W Z B D hb hi h
      obtain ⟨A₀, Y, hes, hA₀, hY⟩ := List.map_eq_append_iff.mp hb.tabla
      obtain rfl := eq_of_map_limpia hA₀ hb.ocupadas
      by_cases hlt : i < A₀.length
      · -- an occupied slot is passed over
        have hoc : (t.leer fuera i).ocupado = true := by
          rw [TableInfo.leer, hes, List.getD_append _ _ _ _ hlt, List.getD_eq_getElem _ _ hlt]
          exact hb.ocupadas _ (List.getElem_mem hlt)
        simp only [barrer] at h
        rw [if_pos hoc] at h
        exact ih (i + 1) hb hlt h
      · obtain rfl : i = A₀.length := by omega
        cases Y with
        | nil =>
            -- the whole table is occupied
            have hnil : W = [] ∧ Z = [] ∧ B = [] ∧ D = [] := by
              simpa [List.append_eq_nil_iff] using hY.symm
            obtain ⟨rfl, rfl, rfl, rfl⟩ := hnil
            obtain rfl := barrer_lleno (by rw [hes, List.append_nil]; exact hb.ocupadas) h
            exact ⟨hb.llena, rfl⟩
        | cons y Y =>
            have hyo : y.ocupado = false := by
              have hmem : limpia y ∈ (W ++ (Z ++ (B ++ D))).head? := by rw [← hY]; rfl
              rw [← limpia_ocupado]
              rcases hb.hueco with ⟨rfl, rfl, rfl⟩ | ⟨a, F, rfl⟩
              · exact (hb.muertas _ (by simpa using List.mem_of_head? hmem)).1
              · rw [← Option.some.inj hmem]; rfl
            have hleer := leer_mitad fuera hes
            simp only [barrer, hleer] at h
            rw [if_neg (by simp [hyo])] at h
            by_cases hB : Rc.ocupadas B = []
            · obtain ⟨t₁, hc₁, hd₁, hcon⟩ := hb.fin hB
              simp only [hc₁] at h
              obtain rfl := Option.some.inj h
              exact ⟨hd₁, hcon⟩
            · rcases hb.hueco with ⟨-, -, rfl⟩ | ⟨a, F, rfl⟩
              · exact absurd rfl hB
              · obtain ⟨t₁, O', a', F', Z', B', hc₁, hne, hb₁, hcon⟩ := hb.paso hB
                have hpos := List.length_pos_iff.mpr hne
                simp only [hc₁] at h
                obtain ⟨hd, hcon'⟩ := ih (A₀.length + 1) hb₁
                  (by rw [List.length_append]; omega) h
                exact ⟨hd, hcon'.trans hcon⟩

/-- **COMPACTION** keeps the layout and every entry. -/
theorem barrer_din {fuera : Nat → Particion} {vueltas : Nat} (h : Din cfg exacto t)
    (hseg : barridoSeguro t) (hr : barrer fuera vueltas 0 t = some t') :
    Din cfg exacto t' ∧ contenido t' = contenido t := by
  obtain ⟨A, W, B, D, hb⟩ := h.barrida hseg
  exact barrer_barrida vueltas 0 hb (Nat.zero_le _) hr

end Barrido

end Rc
