import Yanero.RcParticionesProofs
import Yanero.RcMapaProofs

/-! # Placing an item in a dynamic partition

    The hole a search finds is merged into one slot, and the creation routine
    occupies it and hands the leftover to the slot after it.  The merge never
    moves the last slot of the table (`huecoSeguro`), and the creation moves
    the start of the next slot even when the leftover stays with the item
    (`altaSegura`). -/

namespace Rc

open Bucles Teselado

section Operaciones

variable {cfg : Config} {exacto : Prop} {t t' : TableInfo}

/-! ## Merging a hole -/

/-- The merge of `k` slots from slot `p` on moves every live slot after them:
    there is none, or the table has `k` dead slots at its end. -/
def huecoSeguro (t : TableInfo) (p k : Nat) : Prop :=
  k ≤ 1 ∨ (∀ s ∈ t.elements.drop (p + k), s.viva = false)
    ∨ (t.elements.filter (·.viva)).length + k ≤ t.tableMaxSize

instance (t : TableInfo) (p k : Nat) : Decidable (huecoSeguro t p k) :=
  inferInstanceAs (Decidable (k ≤ 1 ∨ (∀ s ∈ t.elements.drop (p + k), s.viva = false)
    ∨ (t.elements.filter (·.viva)).length + k ≤ t.tableMaxSize))

theorem BienDin.viva {c : Nat} {s : Particion} (h : BienDin c s) (hc : 0 < c) :
    s.viva = true := by
  cases ho : s.ocupado with
  | true => simp [Particion.viva, ho]
  | false =>
      have := (h.libre ho).2
      simp only [Particion.viva, ho, Bool.false_or, bne_iff_ne, ne_eq]
      omega

/-- The live slots of the table are the slots `L`. -/
theorem DinInv.vivas {L D : List Particion} (h : DinInv cfg exacto t L D)
    (hc : 0 < cfg.chunkSize) : (t.elements.filter (·.viva)).map limpia = L := by
  obtain ⟨L₀, D₀, hes, rfl, rfl⟩ := List.map_eq_append_iff.mp h.tabla
  rw [hes, List.filter_append, List.filter_eq_self.mpr, List.filter_eq_nil_iff.mpr]
  · simp
  · intro s hs
    have := muerta_not_viva (h.muertas (limpia s) (List.mem_map_of_mem hs))
    rw [limpia_viva] at this
    simp [this]
  · intro s hs
    rw [← limpia_viva]
    exact (h.bien (limpia s) (List.mem_map_of_mem hs)).viva hc

theorem mem_of_drop_append {α : Type} {l₁ l₂ : List α} {n : Nat} {x : α}
    (hn : l₁.length ≤ n) (h : x ∈ (l₁ ++ l₂).drop n) : x ∈ l₂ := by
  rw [List.drop_append, List.drop_eq_nil_of_le hn, List.nil_append] at h
  exact List.mem_of_mem_drop h

/-- A slot without its flag and its free bytes. -/
def anulada (s : Particion) : Particion := { s with ocupado := false, bytesDisponibles := 0 }

theorem unirHueco_elements {A H R : List Particion} {x : Particion} (total : Int)
    (hes : t.elements = A ++ (x :: H ++ R)) (hH : H ≠ []) :
    (unirHueco t A.length (H.length + 1) total).elements
      = A ++ { x with bytesDisponibles := total }
          :: (List.zipWith copiarDescriptor R.dropLast (H.map anulada ++ R.dropLast)
            ++ (H.map anulada ++ R.dropLast).drop R.dropLast.length ++ R.drop (R.length - 1)) := by
  let x' : Particion := { x with bytesDisponibles := total }
  have hk : 1 < H.length + 1 := by
    have := List.length_pos_iff.mpr hH
    omega
  have hmod : t.elements.modify A.length (fun s => { s with bytesDisponibles := total })
      = (A ++ [x']) ++ (H ++ R) := by
    rw [hes, List.cons_append, modify_mitad]
    simp [x']
  have hlen : A.length + 1 = (A ++ [x']).length := by simp
  have hR : R = R.dropLast ++ R.drop (R.length - 1) := by
    rw [List.dropLast_eq_take]; simp
  have htope : t.tableMaxSize - 1 - (A.length + (H.length + 1)) = R.dropLast.length := by
    simp only [TableInfo.tableMaxSize, hes, List.length_append, List.length_cons,
      List.length_dropLast]
    omega
  have hb₁ := iterar_bloque anulada R H (A ++ [x'])
  have hb₂ := iterar_subir copiarDescriptor Particion.vacia (R.drop (R.length - 1)) R.dropLast
    (A ++ [x']) (H.map anulada) (by simpa using hH)
  have hjuntar : (fun i es => juntarParticionesVacias es (A.length + (H.length + 1) + i)
        (H.length + 1))
      = (fun i (es : List Particion) => es.modify ((A ++ [x']).length + i)
        (copiarDescriptor (es.getD ((A ++ [x']).length + (H.map anulada).length + i)
          Particion.vacia))) := by
    funext i es
    unfold juntarParticionesVacias
    rw [show A.length + (H.length + 1) + i + 1 - (H.length + 1) = (A ++ [x']).length + i by
        simp; omega,
      show A.length + (H.length + 1) + i
        = (A ++ [x']).length + (H.map anulada).length + i by simp; omega]
  have hsplit : (A ++ [x']) ++ (H.map anulada ++ R)
      = (A ++ [x']) ++ (H.map anulada ++ R.dropLast) ++ R.drop (R.length - 1) := by
    conv_lhs => rw [hR]
    simp
  simp only [unirHueco, if_pos hk, hmod, htope, Nat.add_sub_cancel]
  rw [hjuntar, hlen]
  have hanu : (fun (i : Nat) (es : List Particion) => es.modify ((A ++ [x']).length + i)
        fun s => { s with ocupado := false, bytesDisponibles := 0 })
      = fun i es => es.modify ((A ++ [x']).length + i) anulada := rfl
  rw [hanu, hb₁, hsplit, hb₂]
  simp [x']

/-- A merge writes slots only. -/
theorem unirHueco_marco (t : TableInfo) (p k : Nat) (total : Int) :
    unirHueco t p k total = { t with elements := (unirHueco t p k total).elements } := by
  unfold unirHueco
  dsimp only
  split <;> rfl

/-- Two dead runs and the last slot after them are dead. -/
theorem muertas_finales {X Y Z : List Particion} (hX : ∀ s ∈ X, muerta (limpia s))
    (hY : ∀ s ∈ Y, muerta (limpia s)) (hZ : ∀ s ∈ Z, muerta (limpia s)) :
    ∀ d ∈ (X ++ Y ++ Z).map limpia, muerta d := by
  intro d hd
  obtain ⟨s, hs, rfl⟩ := List.mem_map.mp hd
  rcases List.mem_append.mp hs with hs | hs
  · rcases List.mem_append.mp hs with hs | hs
    · exact hX s hs
    · exact hY s hs
  · exact hZ s hs

section Union

variable {A H R B D : List Particion} {x : Particion}

/-- What a merge of more than one slot shows: the slots after the hole move up,
    the copies they leave and the last slot stay behind. -/
theorem unirHueco_corrida (total : Int) (hes : t.elements = A ++ (x :: H ++ R)) (hH0 : H ≠ [])
    (hx : x.ocupado = false ∧ x.bytesInutilizados = 0) :
    vista (unirHueco t A.length (H.length + 1) total)
      = A.map limpia ++ libre x.item.data total :: (R.dropLast.map limpia
        ++ ((H.map anulada ++ R.dropLast).drop R.dropLast.length
          ++ R.drop (R.length - 1)).map limpia) := by
  have hzip : (List.zipWith copiarDescriptor R.dropLast (H.map anulada ++ R.dropLast)).map limpia
      = R.dropLast.map limpia :=
    map_zipWith_copia limpia_copiarDescriptor _ _ (by simp)
  have hlib : limpia { x with bytesDisponibles := total } = libre x.item.data total :=
    limpia_of_libre hx.1 hx.2
  simp only [vista, unirHueco_elements total hes hH0, List.map_append, List.map_cons, hlib, hzip,
    List.append_assoc]

/-- They are as many as the slots that went into the hole and the last one. -/
theorem length_sobrantes (H R : List Particion) :
    ((H.map anulada ++ R.dropLast).drop R.dropLast.length ++ R.drop (R.length - 1)).length
      + R.dropLast.length = H.length + R.length := by
  simp only [List.length_append, List.length_drop, List.length_map, List.length_dropLast]
  omega

/-- With dead slots only after the hole, all that is left behind is dead. -/
theorem unirHueco_vista_fin (total : Int) (hes : t.elements = A ++ (x :: H ++ R))
    (hR : ∀ s ∈ R, muerta (limpia s))
    (hH : ∀ s ∈ x :: H, s.ocupado = false ∧ s.bytesInutilizados = 0) (hH0 : H ≠ []) :
    ∃ D', (∀ d ∈ D', muerta d) ∧ D'.length = R.length + H.length
      ∧ vista (unirHueco t A.length (H.length + 1) total)
        = A.map limpia ++ libre x.item.data total :: D' := by
  have hanu : ∀ s ∈ H.map anulada, muerta (limpia s) := by
    intro s hs
    obtain ⟨u, hu, rfl⟩ := List.mem_map.mp hs
    exact muerta_limpia.mpr ⟨rfl, rfl, (hH u (by simp [hu])).2⟩
  have hlen := length_sobrantes H R
  refine ⟨(R.dropLast ++ (H.map anulada ++ R.dropLast).drop R.dropLast.length
    ++ R.drop (R.length - 1)).map limpia, muertas_finales ?_ ?_ ?_, ?_, ?_⟩
  · exact fun s hs => hR s (List.dropLast_subset _ hs)
  · intro s hs
    rcases List.mem_append.mp (List.mem_of_mem_drop hs) with hs | hs
    · exact hanu s hs
    · exact hR s (List.dropLast_subset _ hs)
  · exact fun s hs => hR s (List.mem_of_mem_drop hs)
  · simp only [List.length_map, List.length_append] at hlen ⊢
    omega
  · rw [unirHueco_corrida total hes hH0 (hH x (by simp))]
    simp only [List.map_append, List.append_assoc]

/-- With more dead slots at the end than the hole gives, every live slot moves. -/
theorem unirHueco_vista_cabe {RB RD : List Particion} (total : Int)
    (hes : t.elements = A ++ (x :: H ++ (RB ++ RD))) (hRD : ∀ s ∈ RD, muerta (limpia s))
    (hx : x.ocupado = false ∧ x.bytesInutilizados = 0) (hH0 : H ≠ [])
    (hlt : H.length < RD.length) :
    ∃ D', (∀ d ∈ D', muerta d) ∧ D'.length = RD.length + H.length
      ∧ vista (unirHueco t A.length (H.length + 1) total)
        = A.map limpia ++ libre x.item.data total :: (RB.map limpia ++ D') := by
  have hne : RD ≠ [] := by
    rintro rfl
    exact absurd hlt (Nat.not_lt_zero _)
  have hdl : (RB ++ RD).dropLast = RB ++ RD.dropLast := List.dropLast_append_of_ne_nil hne
  have hlen := length_sobrantes H (RB ++ RD)
  refine ⟨(RD.dropLast ++ (H.map anulada ++ (RB ++ RD).dropLast).drop (RB ++ RD).dropLast.length
    ++ (RB ++ RD).drop ((RB ++ RD).length - 1)).map limpia, muertas_finales ?_ ?_ ?_, ?_, ?_⟩
  · exact fun s hs => hRD s (List.dropLast_subset _ hs)
  · intro s hs
    rw [hdl, ← List.append_assoc] at hs
    refine hRD s (List.dropLast_subset _ (mem_of_drop_append ?_ hs))
    simp only [List.length_append, List.length_map, List.length_dropLast]
    omega
  · intro s hs
    exact hRD s (mem_of_drop_append (by rw [List.length_append]; omega) hs)
  · simp only [hdl, List.length_map, List.length_append] at hlen ⊢
    omega
  · rw [unirHueco_corrida total hes hH0 hx, hdl]
    simp only [List.map_append, List.append_assoc]

/-- **MERGE**: away from its slip, the merge leaves one free slot with all the
    bytes of the hole and moves the rest of the live slots up. -/
theorem unirHueco_vista (total : Int)
    (hes : t.elements = A ++ (x :: H ++ R)) (hR : R.map limpia = B ++ D)
    (hD : ∀ s ∈ D, muerta s) (hH : ∀ s ∈ x :: H, s.ocupado = false ∧ s.bytesInutilizados = 0)
    (hseg : H = [] ∨ B = [] ∨ H.length < D.length) :
    ∃ D', (∀ d ∈ D', muerta d) ∧ D'.length = D.length + H.length
      ∧ vista (unirHueco t A.length (H.length + 1) total)
        = A.map limpia ++ libre x.item.data total :: (B ++ D') := by
  by_cases hH0 : H = []
  · subst hH0
    have hx : limpia { x with bytesDisponibles := total } = libre x.item.data total :=
      limpia_of_libre (hH x (by simp)).1 (hH x (by simp)).2
    refine ⟨D, hD, rfl, ?_⟩
    have hmod : (unirHueco t A.length 1 total).elements
        = A ++ { x with bytesDisponibles := total } :: R := by
      simp only [unirHueco, hes, List.cons_append, List.nil_append, modify_mitad]
      rfl
    simp only [vista, List.length_nil, Nat.zero_add, hmod, List.map_append, List.map_cons, hx, hR]
  rcases hseg.resolve_left hH0 with rfl | hlt
  · rw [List.nil_append] at hR
    subst hR
    rw [List.length_map]
    exact unirHueco_vista_fin total hes (fun s hs => hD _ (List.mem_map_of_mem hs)) hH hH0
  · obtain ⟨RB, RD, rfl, rfl, rfl⟩ := List.map_eq_append_iff.mp hR
    rw [List.length_map] at hlt ⊢
    exact unirHueco_vista_cabe total hes (fun s hs => hD _ (List.mem_map_of_mem hs))
      (hH x (by simp)) hH0 hlt

end Union

/-! ## Creating the element -/

/-- The slot `micache_create_element` makes of slot `x`. -/
def creadaDin (ahora : Nat) (key : Clave) (n : Nat) (inutilizados : Int) (x : Particion) :
    Particion :=
  { x with
    item := { x.item with key := key, ndata := n }
    ocupado := true
    ultimaVezUsada := ahora
    bytesInutilizados := inutilizados
    bytesDisponibles := 0 }

/-- What it leaves in the slots after it: `fin` is where the item ends and `d`
    the bytes left over. -/
def restoAlta (c fin : Nat) (d : Int) : List Particion → List Particion
  | [] => []
  | y :: R =>
      if y.ocupado then
        if (c : Int) ≤ d then
          { y with
            ocupado := false, bytesDisponibles := d, bytesInutilizados := 0
            item := { y.item with data := fin } } :: desplazada copiarTodo y R
        else y :: R
      else
        if (c : Int) ≤ d then
          { y with bytesDisponibles := y.bytesDisponibles + d
                   item := { y.item with data := fin } } :: R
        else { y with item := { y.item with data := fin } } :: R

/-- `desplazarAbajo` right after the slot `o`. -/
theorem desplazarAbajo_elements {A R : List Particion} {o y : Particion} {d : Int}
    (hes : t.elements = A ++ o :: y :: R) :
    (desplazarAbajo t (A.length + 1) d).elements
      = A ++ o :: { y with
          ocupado := false, bytesDisponibles := d, bytesInutilizados := 0
          item := { y.item with data := o.item.data + ocupa t.sizeChunk o.item.ndata } }
        :: desplazada copiarTodo y R := by
  have hN : t.tableMaxSize = (A ++ [o]).length + 1 + R.length := by
    simp only [TableInfo.tableMaxSize, hes, List.length_append, List.length_cons, List.length_nil]
    omega
  have hcount : t.tableMaxSize - 1 - (A.length + 1) = R.length := by
    rw [hN]; simp
  have hes' : t.elements = (A ++ [o]) ++ y :: R := by rw [hes]; simp
  have hlen : A.length + 1 = (A ++ [o]).length := by simp
  have hget : ∀ W : List Particion, ((A ++ [o]) ++ W).getD A.length Particion.vacia = o := by
    intro W
    rw [List.append_assoc]
    exact getD_mitad _ A o W
  simp only [desplazarAbajo, hcount, hes']
  rw [iterar_bajar copiarTodo Particion.vacia R (A ++ [o]) y t.tableMaxSize hN]
  simp only [Nat.add_sub_cancel, hget]
  rw [hlen, modify_mitad]
  simp

/-- The leftover of slot `o`, given away. -/
theorem repartirSobra_elements (fuera : Nat → Particion) {n c : Nat} {A R : List Particion}
    {o : Particion} (hes : t.elements = A ++ o :: R) (hc : t.sizeChunk = c)
    (hnd : o.item.ndata = n) :
    let d := o.bytesDisponibles - ocupa c n
    (R = [] → d < c) →
    (repartirSobra fuera t A.length n c).elements
      = A ++ { o with bytesInutilizados := if (c : Int) ≤ d then o.bytesInutilizados else d }
          :: restoAlta c (o.item.data + ocupa c n) d R := by
  subst hc
  intro d hR
  have hleer := leer_mitad fuera hes
  have hmod1 : ∀ (w y : Particion) (R' : List Particion) (f : Particion → Particion),
      (A ++ w :: y :: R').modify (A.length + 1) f = A ++ w :: f y :: R' := by
    intro w y R' f
    have hl : A.length + 1 = (A ++ [w]).length := by simp
    have hs : A ++ w :: y :: R' = (A ++ [w]) ++ y :: R' := by simp
    rw [hl, hs, modify_mitad]
    simp
  unfold repartirSobra
  simp only [hleer]
  cases R with
  | nil =>
      -- the slot is the last one: what is written past it is lost
      have hd : ¬ ((t.sizeChunk : Int) ≤ d) := by have := hR rfl; omega
      have hfuera : ∀ w : Particion, ∀ f : Particion → Particion,
          (A ++ [w]).modify (A.length + 1) f = A ++ [w] := by
        intro w f
        exact List.modify_eq_self (by simp)
      simp only [d] at hd
      simp only [if_neg hd, d, restoAlta]
      split
      · simp only [TableInfo.modificar, hes, modify_mitad]
      · simp only [TableInfo.modificar, hes, hfuera, modify_mitad]
  | cons y R' =>
      have hy := leer_siguiente fuera
        (t := { t with espacioLibre := t.espacioLibre - ocupa t.sizeChunk n }) hes
      simp only [hy, restoAlta]
      by_cases ho : y.ocupado = true
      · simp only [if_pos ho]
        by_cases hd : (t.sizeChunk : Int) ≤ d
        · have hdes := desplazarAbajo_elements (d := d)
            (t := { t with espacioLibre := t.espacioLibre - ocupa t.sizeChunk n }) hes
          rw [hnd] at hdes
          simp only [d] at hd hdes
          simp only [if_pos hd, d]
          exact hdes
        · simp only [d] at hd
          simp only [if_neg hd, TableInfo.modificar, hes, modify_mitad, d]
      · simp only [if_neg ho]
        by_cases hd : (t.sizeChunk : Int) ≤ d
        · simp only [d] at hd
          simp only [if_pos hd, TableInfo.modificar, hes, hmod1, d]
        · simp only [d] at hd
          simp only [if_neg hd, TableInfo.modificar, hes, hmod1, modify_mitad, d]

/-- The table after a creation in a slot with room. -/
theorem micacheCreateElement_elements (fuera : Nat → Particion) (ahora : Nat) (key : Clave)
    {n c : Nat} {A R : List Particion} {x : Particion} (hes : t.elements = A ++ x :: R)
    (hc : t.sizeChunk = c) (hn : (n : Int) ≤ x.bytesDisponibles) :
    let d := x.bytesDisponibles - ocupa c n
    (R = [] → d < c) →
    (micacheCreateElement fuera ahora t key A.length n c).elements
      = A ++ creadaDin ahora key n (if (c : Int) ≤ d then x.bytesInutilizados else d) x
          :: restoAlta c (x.item.data + ocupa c n) d R := by
  intro d hR
  let o : Particion := { x with
    item := { x.item with key := key, ndata := n }, ocupado := true, ultimaVezUsada := ahora }
  let t₁ : TableInfo := { t with elements := A ++ o :: R }
  have ht₁ : lruGet ahora (t.modificar A.length fun s =>
      { s with item := { s.item with key := key, ndata := n }, ocupado := true }) A.length
      = t₁ := by
    simp only [lruGet, TableInfo.modificar, hes, modify_mitad, t₁, o]
  have hleer : t₁.leer fuera A.length = o := getD_mitad _ _ _ _
  have hrep := repartirSobra_elements fuera (t := t₁) (o := o) rfl hc rfl hR
  unfold micacheCreateElement
  simp only [ht₁, hleer]
  rw [if_pos hn]
  simp only [TableInfo.modificar, hrep, modify_mitad, creadaDin, o, d]

/-- A creation writes no data and keeps the chunk size. -/
theorem micacheCreateElement_resto (t : TableInfo) (fuera : Nat → Particion) (ahora : Nat)
    (key : Clave) (pos n c : Nat) :
    (micacheCreateElement fuera ahora t key pos n c).memoria = t.memoria
      ∧ (micacheCreateElement fuera ahora t key pos n c).sizeChunk = t.sizeChunk := by
  unfold micacheCreateElement repartirSobra
  dsimp only
  split <;> (try split) <;> (try split) <;> exact ⟨rfl, rfl⟩

/-- What a placement for `n` bytes leaves: slot `i` is a free partition with
    room, a free slot after it is there only if the leftover is none or a
    chunk, and the entries are those of `t₀`, but for some whose keys were
    logged. -/
structure LugarDin (cfg : Config) (exacto : Prop) (t₀ t : TableInfo) (n i : Nat)
    (A : List Particion) (a : Nat) (F : Int) (B D : List Particion) : Prop where
  inv : DinInv cfg exacto t (A ++ libre a F :: B) D
  pos : A.length = i
  cabe : (n : Int) ≤ F
  resto : ∀ b B', B = b :: B' → b.ocupado = false →
    F - ocupa cfg.chunkSize n = 0 ∨ (cfg.chunkSize : Int) ≤ F - ocupa cfg.chunkSize n
  entradas : ((ocupadas A ++ ocupadas B).map (entrada t.memoria)).Sublist (contenido t₀)
  registra : Registra (·.1) t₀.bitacora (contenido t₀) t.bitacora
    ((ocupadas A ++ ocupadas B).map (entrada t.memoria))

/-- The result of a creation at slot `i`: an item of `n` bytes under `key`, in
    a table that keeps its layout and its other occupied slots. -/
structure Creada (cfg : Config) (exacto : Prop) (t' : TableInfo) (key : Clave) (n i : Nat)
    (A B : List Particion) : Prop where
  tabla : ∃ A₀ o R B' D, t'.elements = A₀ ++ o :: R ∧ A₀.length = i ∧ A₀.map limpia = A
    ∧ R.map limpia = B' ++ D ∧ o.ocupado = true ∧ o.item.key = key ∧ o.item.ndata = n
    ∧ ocupadas B' = ocupadas B ∧ DinInv cfg exacto t' (A ++ o :: B') D

theorem largoDin_creada (c ahora n : Nat) (key : Clave) (inut : Int) (x : Particion) :
    largoDin c (creadaDin ahora key n inut x) = ocupa c n + inut := rfl

theorem inicio_creada (ahora n : Nat) (key : Clave) (inut : Int) (x : Particion) :
    inicio (creadaDin ahora key n inut x) = x.item.data := rfl

theorem bienDin_creada {c ahora n : Nat} {key : Clave} {inut : Int} {x : Particion}
    (h : 0 ≤ inut) : BienDin c (creadaDin ahora key n inut x) :=
  ⟨(fun hf => nomatch hf), fun _ => ⟨rfl, h⟩⟩

section Formas

variable {A B D D' : List Particion} {a n ahora : Nat} {F : Int} {key : Clave} {x : Particion}

/-- The item takes the whole slot: the leftover is unusable. -/
theorem DinInv.alta_sola (h : DinInv cfg exacto t (A ++ libre a F :: B) D)
    (hx : x.item.data = a) (hF : (ocupa cfg.chunkSize n : Int) ≤ F)
    (hch : t'.sizeChunk = t.sizeChunk)
    (hv : vista t' = A ++ creadaDin ahora key n (F - ocupa cfg.chunkSize n) x :: (B ++ D'))
    (hD : ∀ s ∈ D', muerta s) (hlen : D'.length = D.length) :
    DinInv cfg exacto t'
      (A ++ creadaDin ahora key n (F - ocupa cfg.chunkSize n) x :: B) D' := by
  have hinv : DinInv cfg exacto t (A ++ ([libre a F] ++ B)) D := h
  show DinInv cfg exacto t'
    (A ++ ([creadaDin ahora key n (F - ocupa cfg.chunkSize n) x] ++ B)) D'
  refine DinInv.trueque hinv hch (by simpa using hv) hD (by simp [hlen]) ?_ ?_ ?_
  · intro s hs
    obtain rfl := List.mem_singleton.mp hs
    exact bienDin_creada (by omega)
  · intro p q
    simp only [cabe_cons, cabe_nil, inicio_creada, largoDin_creada, inicio_libre,
      largoDin_libre, hx]
    omega
  · intro _
    simp [largoDin_creada]

/-- The leftover gets a slot of its own. -/
theorem DinInv.alta_con_sobra (h : DinInv cfg exacto t (A ++ libre a F :: B) D)
    (hx : x.item.data = a) (hd : (cfg.chunkSize : Int) ≤ F - ocupa cfg.chunkSize n)
    (hch : t'.sizeChunk = t.sizeChunk)
    (hv : vista t' = A ++ creadaDin ahora key n 0 x
      :: libre (a + ocupa cfg.chunkSize n) (F - ocupa cfg.chunkSize n) :: (B ++ D'))
    (hD : ∀ s ∈ D', muerta s) (hlen : D'.length + 1 = D.length) :
    DinInv cfg exacto t' (A ++ creadaDin ahora key n 0 x
      :: libre (a + ocupa cfg.chunkSize n) (F - ocupa cfg.chunkSize n) :: B) D' := by
  have hinv : DinInv cfg exacto t (A ++ ([libre a F] ++ B)) D := h
  show DinInv cfg exacto t' (A ++ ([creadaDin ahora key n 0 x,
    libre (a + ocupa cfg.chunkSize n) (F - ocupa cfg.chunkSize n)] ++ B)) D'
  refine DinInv.trueque hinv hch (by simpa using hv) hD (by simp; omega) ?_ ?_ ?_
  · intro s hs
    rcases List.mem_cons.mp hs with rfl | hs
    · exact bienDin_creada (le_refl 0)
    · obtain rfl := List.mem_singleton.mp hs
      exact bienDin_libre hd
  · intro p q
    simp only [cabe_cons, cabe_nil, inicio_creada, largoDin_creada, inicio_libre,
      largoDin_libre, hx]
    push_cast
    omega
  · intro _
    simp [largoDin_creada]

/-- The leftover joins the free slot after it. -/
theorem DinInv.alta_junta {f : Nat} {b : Int}
    (h : DinInv cfg exacto t (A ++ libre a F :: libre f b :: B) D)
    (hx : x.item.data = a) (hF : (ocupa cfg.chunkSize n : Int) ≤ F)
    (hch : t'.sizeChunk = t.sizeChunk)
    (hv : vista t' = A ++ creadaDin ahora key n 0 x
      :: libre (a + ocupa cfg.chunkSize n) (b + (F - ocupa cfg.chunkSize n)) :: (B ++ D)) :
    DinInv cfg exacto t' (A ++ creadaDin ahora key n 0 x
      :: libre (a + ocupa cfg.chunkSize n) (b + (F - ocupa cfg.chunkSize n)) :: B) D := by
  have hinv : DinInv cfg exacto t (A ++ ([libre a F, libre f b] ++ B)) D := h
  have hb := ((h.bien (libre f b) (by simp)).libre rfl).2
  rw [libre_disponibles] at hb
  show DinInv cfg exacto t' (A ++ ([creadaDin ahora key n 0 x,
    libre (a + ocupa cfg.chunkSize n) (b + (F - ocupa cfg.chunkSize n))] ++ B)) D
  refine DinInv.trueque hinv hch (by simpa using hv) h.muertas rfl ?_ ?_ ?_
  · intro s hs
    rcases List.mem_cons.mp hs with rfl | hs
    · exact bienDin_creada (le_refl 0)
    · obtain rfl := List.mem_singleton.mp hs
      exact bienDin_libre (by omega)
  · intro p q
    simp only [cabe_cons, cabe_nil, inicio_creada, largoDin_creada, inicio_libre,
      largoDin_libre, hx]
    push_cast
    omega
  · intro _
    simp only [List.map_cons, List.map_nil, largoDin_creada, largoDin_libre, List.sum_cons,
      List.sum_nil]
    omega

end Formas

/-- A leftover of a chunk makes two chunks with the item, so the table has a
    spare slot. -/
theorem LugarDin.sobra {t₀ : TableInfo} {n i a : Nat} {A B D : List Particion} {F : Int}
    (hc : 0 < cfg.chunkSize) (h : LugarDin cfg exacto t₀ t n i A a F B D)
    (hd : (cfg.chunkSize : Int) ≤ F - ocupa cfg.chunkSize n) : D ≠ [] := by
  refine h.inv.sobra hc ?_
  have := chunk_le_ocupa cfg.chunkSize n
  rw [largoDin_libre]
  omega

/-- The placed slot in the table itself, and what a creation makes of it. -/
theorem LugarDin.elements {t₀ : TableInfo} (fuera : Nat → Particion) {n i : Nat}
    (ahora : Nat) (key : Clave) {A B D : List Particion} {a : Nat} {F : Int}
    (hc : 0 < cfg.chunkSize) (h : LugarDin cfg exacto t₀ t n i A a F B D) :
    ∃ A₀ x R, t.elements = A₀ ++ x :: R ∧ A₀.length = i ∧ A₀.map limpia = A
      ∧ R.map limpia = B ++ D ∧ x.item.data = a ∧ x.bytesDisponibles = F
      ∧ (R = [] → F - ocupa cfg.chunkSize n < cfg.chunkSize)
      ∧ (micacheCreateElement fuera ahora t key i n cfg.chunkSize).elements
        = A₀ ++ creadaDin ahora key n (if (cfg.chunkSize : Int) ≤ F - ocupa cfg.chunkSize n then 0
            else F - ocupa cfg.chunkSize n) x
          :: restoAlta cfg.chunkSize (a + ocupa cfg.chunkSize n) (F - ocupa cfg.chunkSize n) R := by
  have hv : vista t = A ++ libre a F :: (B ++ D) := by rw [h.inv.tabla]; simp
  obtain ⟨A₀, x, R, hes, hA, hx, hR⟩ := vista_parte hv
  have hlen : A₀.length = i := by rw [← h.pos, ← hA, List.length_map]
  have hxd : x.item.data = a := by rw [← limpia_data, hx]; rfl
  have hxb : x.bytesDisponibles = F := by rw [← limpia_disponibles, hx]; rfl
  have hxi : x.bytesInutilizados = 0 := by rw [← limpia_inutilizados, hx]; rfl
  have hRne : R = [] → F - ocupa cfg.chunkSize n < cfg.chunkSize := by
    rintro rfl
    by_contra hd
    have hnil : B ++ D = [] := by rw [← hR]; rfl
    exact h.sobra hc (by omega) (List.append_eq_nil_iff.mp hnil).2
  have hel := micacheCreateElement_elements fuera ahora key
    hes h.inv.chunk (by rw [hxb]; exact h.cabe) (by rw [hxb]; exact hRne)
  rw [hlen, hxb, hxd, hxi] at hel
  exact ⟨A₀, x, R, hes, hlen, hA, hR, hxd, hxb, hRne, hel⟩

/-- What a creation shows after its slot, where the live part `B` and the dead
    slots `D` were: the live part as it was, a new free slot before it, or its
    first free slot moved back over the leftover. -/
inductive RestoPuesto (c fin : Nat) (d : Int) (D : List Particion) :
    List Particion → List Particion → Prop where
  | igual {B D' : List Particion} (hd : ¬ (c : Int) ≤ d) (hD : ∀ s ∈ D', muerta s)
      (hlen : D'.length = D.length) : RestoPuesto c fin d D B (B ++ D')
  | sobra {B D' : List Particion} (hd : (c : Int) ≤ d) (hD : ∀ s ∈ D', muerta s)
      (hlen : D'.length + 1 = D.length) : RestoPuesto c fin d D B (libre fin d :: (B ++ D'))
  | junta {B : List Particion} {f : Nat} {b : Int} (hd : ¬ (c : Int) ≤ d → d = 0) :
      RestoPuesto c fin d D (libre f b :: B) (libre fin (b + d) :: (B ++ D))

section Resto

variable {c fin : Nat} {d : Int} {B R D : List Particion} {y : Particion}

/-- The next slot is dead: it takes the leftover, or stays dead. -/
theorem restoAlta_muerta (hy : muerta y) (hD : ∀ s ∈ R.map limpia, muerta s) :
    RestoPuesto c fin d ((y :: R).map limpia) [] ((restoAlta c fin d (y :: R)).map limpia) := by
  have ho : y.ocupado = false := hy.1
  by_cases hd : (c : Int) ≤ d
  · have hlib : (restoAlta c fin d (y :: R)).map limpia
        = libre fin d :: ([] ++ R.map limpia) := by
      rw [restoAlta, if_neg (by simp [ho]), if_pos hd, List.map_cons]
      simp [limpia, ho, libre, hy.2.1, hy.2.2]
    rw [hlib]
    exact .sobra hd hD rfl
  · rw [restoAlta, if_neg (by simp [ho]), if_neg hd]
    refine .igual (B := []) hd ?_ rfl
    intro s hs
    rcases List.mem_cons.mp hs with rfl | hs
    · exact muerta_limpia.mpr ⟨hy.1, hy.2.1, hy.2.2⟩
    · exact hD s hs

/-- The next slot is occupied: the slots from it on move down to make room for
    the leftover, over the last dead one. -/
theorem restoAlta_ocupada (ho : y.ocupado = true) (hR : R.map limpia = B ++ D)
    (hD : ∀ s ∈ D, muerta s) (hsobra : (c : Int) ≤ d → D ≠ []) :
    RestoPuesto c fin d D (y :: B) ((restoAlta c fin d (y :: R)).map limpia) := by
  by_cases hd : (c : Int) ≤ d
  · obtain ⟨D', z, rfl⟩ : ∃ D' z, D = D' ++ [z] := ⟨D.dropLast, D.getLast (hsobra hd),
      (List.dropLast_append_getLast (hsobra hd)).symm⟩
    rw [← List.append_assoc] at hR
    obtain ⟨Q, W, rfl, hQ, hW⟩ := List.map_eq_append_iff.mp hR
    obtain ⟨w, rfl, -⟩ := List.map_eq_singleton_iff.mp hW
    have hmap := map_desplazada limpia_copiarTodo y Q w
    rw [limpia_of_ocupado ho, hQ] at hmap
    have hlib : (restoAlta c fin d (y :: (Q ++ [w]))).map limpia
        = libre fin d :: (y :: B ++ D') := by
      rw [restoAlta, if_pos ho, if_pos hd, List.map_cons, hmap]
      simp [limpia, libre]
    rw [hlib]
    exact .sobra hd (fun s hs => hD s (by simp [hs])) (by simp)
  · rw [restoAlta, if_pos ho, if_neg hd, List.map_cons, limpia_of_ocupado ho, hR]
    exact .igual hd hD rfl

/-- The next slot is a free one: the leftover joins it. -/
theorem restoAlta_libre (ho : y.ocupado = false) (hin : y.bytesInutilizados = 0)
    (hR : R.map limpia = B ++ D) (hd : ¬ (c : Int) ≤ d → d = 0) :
    RestoPuesto c fin d D (limpia y :: B) ((restoAlta c fin d (y :: R)).map limpia) := by
  have hlib : ((restoAlta c fin d (y :: R)).map limpia)
      = libre fin (y.bytesDisponibles + d) :: (B ++ D) := by
    by_cases hcd : (c : Int) ≤ d
    · rw [restoAlta, if_neg (by simp [ho]), if_pos hcd, List.map_cons, hR]
      simp [limpia, ho, libre, hin]
    · rw [restoAlta, if_neg (by simp [ho]), if_neg hcd, List.map_cons, hR, hd hcd]
      simp [limpia, ho, libre, hin]
  rw [hlib, limpia_of_libre ho hin]
  exact .junta hd

/-- The slots after a creation, whatever the next one is. -/
theorem restoAlta_puesto (hR : R.map limpia = B ++ D) (hD : ∀ s ∈ D, muerta s)
    (hB : ∀ s ∈ B, s.ocupado = false → s.bytesInutilizados = 0)
    (hresto : ∀ b B', B = b :: B' → b.ocupado = false → d = 0 ∨ (c : Int) ≤ d)
    (hsobra : (c : Int) ≤ d → D ≠ []) :
    RestoPuesto c fin d D B ((restoAlta c fin d R).map limpia) := by
  cases R with
  | nil =>
      obtain ⟨rfl, rfl⟩ := List.append_eq_nil_iff.mp hR.symm
      exact .igual (B := []) (fun hd => hsobra hd rfl) hD rfl
  | cons y R =>
      cases B with
      | nil =>
          rw [List.nil_append] at hR
          subst hR
          refine restoAlta_muerta (muerta_limpia.mp (hD _ (by simp))) fun s hs => ?_
          exact hD s (by rw [List.map_cons]; exact List.mem_cons_of_mem _ hs)
      | cons b B =>
          rw [List.map_cons, List.cons_append, List.cons.injEq] at hR
          obtain ⟨rfl, hR⟩ := hR
          by_cases ho : y.ocupado = true
          · rw [limpia_of_ocupado ho]
            exact restoAlta_ocupada ho hR hD hsobra
          · have ho' : (limpia y).ocupado = false := by simpa using ho
            have hin := hB _ List.mem_cons_self ho'
            rw [limpia_inutilizados] at hin
            exact restoAlta_libre (by simpa using ho') hin hR
              fun hd => (hresto _ _ rfl ho').resolve_right hd

end Resto

/-- **CREATION**: on a placed slot the routine makes an occupied partition and
    keeps the layout. -/
theorem micacheCreateElement_din {t₀ : TableInfo} (fuera : Nat → Particion) {n i : Nat}
    (ahora : Nat) (key : Clave) {A B D : List Particion} {a : Nat} {F : Int}
    (hc : 0 < cfg.chunkSize) (h : LugarDin cfg exacto t₀ t n i A a F B D) :
    Creada cfg exacto (micacheCreateElement fuera ahora t key i n cfg.chunkSize) key n i A B := by
  obtain ⟨A₀, x, R, hes, hlen, hA, hR, hxd, hxb, hRne, hel⟩ := h.elements fuera ahora key hc
  have hcF : (cfg.chunkSize : Int) ≤ F :=
    ((h.inv.bien (libre a F) (by simp)).libre rfl).2
  have hoF : (ocupa cfg.chunkSize n : Int) ≤ F := by
    have := h.cabe
    unfold ocupa
    split <;> omega
  obtain ⟨-, hsz⟩ := micacheCreateElement_resto t fuera ahora key i n cfg.chunkSize
  have hpuesto : RestoPuesto cfg.chunkSize (a + ocupa cfg.chunkSize n)
      (F - ocupa cfg.chunkSize n) D B _ := restoAlta_puesto hR h.inv.muertas
    (fun s hs ho => ((h.inv.bien s (by simp [hs])).libre ho).1) h.resto (h.sobra hc)
  have hvista : vista (micacheCreateElement fuera ahora t key i n cfg.chunkSize)
      = A ++ creadaDin ahora key n (if (cfg.chunkSize : Int) ≤ F - ocupa cfg.chunkSize n then 0
          else F - ocupa cfg.chunkSize n) x
        :: (restoAlta cfg.chunkSize (a + ocupa cfg.chunkSize n) (F - ocupa cfg.chunkSize n)
          R).map limpia := by
    rw [vista, hel, List.map_append, List.map_cons, hA, limpia_of_ocupado rfl]
  generalize hV : (restoAlta cfg.chunkSize (a + ocupa cfg.chunkSize n)
    (F - ocupa cfg.chunkSize n) R).map limpia = V at hpuesto hvista
  cases hpuesto with
  | igual hd hD hl =>
      rw [if_neg hd] at hel hvista
      exact ⟨A₀, _, _, B, _, hel, hlen, hA, hV, rfl, rfl, rfl, rfl,
        h.inv.alta_sola hxd hoF hsz hvista hD hl⟩
  | sobra hd hD hl =>
      rw [if_pos hd] at hel hvista
      exact ⟨A₀, _, _, _ :: B, _, hel, hlen, hA, hV, rfl, rfl, rfl, ocupadas_libre ..,
        h.inv.alta_con_sobra hxd hd hsz hvista hD hl⟩
  | junta hd =>
      rw [ite_eq_left_iff.mpr hd] at hel hvista
      refine ⟨A₀, _, _, _ :: _, D, hel, hlen, hA, hV, rfl, rfl, rfl, ?_,
        h.inv.alta_junta hxd hoF hsz hvista⟩
      rw [ocupadas_libre, ocupadas_libre]

/-! ## From the search to the new item -/

/-- The creation in the hole of `total` bytes at slots `p .. p + k - 1` does
    not move the start of a free slot without giving it the leftover: the slot
    after the hole is not a free one, or the leftover is none or a chunk. -/
def altaSegura (c : Nat) (t : TableInfo) (p k : Nat) (total : Int) (n : Nat) : Prop :=
  let s := t.elements.getD (p + k) Particion.vacia
  s.ocupado = true ∨ s.bytesDisponibles = 0 ∨ total - ocupa c n = 0 ∨ (c : Int) ≤ total - ocupa c n

instance (c : Nat) (t : TableInfo) (p k : Nat) (total : Int) (n : Nat) :
    Decidable (altaSegura c t p k total n) :=
  inferInstanceAs (Decidable (_ ∨ _ ∨ _ ∨ _))

theorem map_largoDin_libres {c : Nat} {H : List Particion} (hH : ∀ s ∈ H, s.ocupado = false) :
    (H.map limpia).map (largoDin c) = H.map (·.bytesDisponibles) := by
  rw [List.map_map]
  refine List.map_congr_left ?_
  intro s hs
  show largoDin c (limpia s) = s.bytesDisponibles
  rw [largoDin_of_libre (by simpa using hH s hs), limpia_disponibles]

/-- What the merge keeps of a hole that fits. -/
theorem cabe_hueco {c : Nat} {x : Particion} {H : List Particion} {p q total : Int}
    (hH : ∀ s ∈ x :: H, s.ocupado = false)
    (htot : total = ((x :: H).map (·.bytesDisponibles)).sum)
    (h : Cabe inicio (largoDin c) p ((x :: H).map limpia) q) :
    Cabe inicio (largoDin c) p [libre x.item.data total] q := by
  have hini : p ≤ x.item.data := by simpa [inicio] using h.1
  have hsum := cabe_suma (show Cabe inicio (largoDin c) x.item.data ((x :: H).map limpia) q from
    ⟨by simp [inicio], h.2⟩)
  rw [map_largoDin_libres hH, ← htot] at hsum
  simp only [cabe_cons, cabe_nil, inicio_libre, largoDin_libre]
  exact ⟨hini, hsum⟩

section Hueco

variable {A H R B D : List Particion} {x : Particion} {n : Nat} {total : Int}

/-- The slots after a hole. -/
theorem drop_hueco (A H R : List Particion) (x : Particion) :
    (A ++ (x :: H ++ R)).drop (A.length + (H.length + 1)) = R := by
  have hs : A ++ (x :: H ++ R) = (A ++ x :: H) ++ R := by simp
  rw [hs, show A.length + (H.length + 1) = (A ++ x :: H).length by simp]
  exact List.drop_left

/-- A safe hole is one slot, has only dead slots after it, or the table has dead
    slots enough. -/
theorem DinInv.hueco_seguro (hc : 0 < cfg.chunkSize)
    (h : DinInv cfg exacto t (A.map limpia ++ ((x :: H).map limpia ++ B)) D)
    (hes : t.elements = A ++ (x :: H ++ R)) (hR : R.map limpia = B ++ D)
    (hseg : huecoSeguro t A.length (H.length + 1)) : H = [] ∨ B = [] ∨ H.length < D.length := by
  rcases hseg with hk | hdead | hfit
  · exact Or.inl (List.length_eq_zero_iff.mp (by omega))
  · refine Or.inr (Or.inl ?_)
    rw [hes, drop_hueco] at hdead
    cases B with
    | nil => rfl
    | cons b B =>
        rw [List.cons_append] at hR
        obtain ⟨y, R', rfl, hy, -⟩ := List.map_eq_cons_iff.mp hR
        have hviva := (h.bien b (by simp)).viva hc
        rw [← hy, limpia_viva, hdead y (by simp)] at hviva
        exact nomatch hviva
  · refine Or.inr (Or.inr ?_)
    have hviv := congrArg List.length (h.vivas hc)
    rw [List.length_map] at hviv
    rw [hviv, h.tableMaxSize] at hfit
    simp only [List.length_append, List.length_map, List.length_cons] at hfit
    omega

/-- The table with the hole merged keeps its layout. -/
theorem DinInv.unida (h : DinInv cfg exacto t (A.map limpia ++ ((x :: H).map limpia ++ B)) D)
    (hes : t.elements = A ++ (x :: H ++ R)) (hR : R.map limpia = B ++ D)
    (hH : ∀ s ∈ x :: H, s.ocupado = false ∧ s.bytesInutilizados = 0)
    (htot : total = ((x :: H).map (·.bytesDisponibles)).sum) (hct : (cfg.chunkSize : Int) ≤ total)
    (hcase : H = [] ∨ B = [] ∨ H.length < D.length) :
    ∃ D', DinInv cfg exacto (unirHueco t A.length (H.length + 1) total)
      (A.map limpia ++ ([libre x.item.data total] ++ B)) D' := by
  obtain ⟨D', hD', hlen, hv⟩ := unirHueco_vista total hes hR h.muertas hH hcase
  have hsz : (unirHueco t A.length (H.length + 1) total).sizeChunk = t.sizeChunk := by
    rw [unirHueco_marco]
  refine ⟨D', DinInv.trueque h hsz (by simpa using hv) hD' (by simp; omega) ?_ ?_ ?_⟩
  · intro s hs
    obtain rfl := List.mem_singleton.mp hs
    exact bienDin_libre hct
  · intro p q hpq
    exact cabe_hueco (fun s hs => (hH s hs).1) htot hpq
  · intro _
    rw [map_largoDin_libres (fun s hs => (hH s hs).1), ← htot]
    simp

/-- The slots of a hole hold no entry. -/
theorem DinInv.ocupadas_hueco
    (h : DinInv cfg exacto t (A.map limpia ++ ((x :: H).map limpia ++ B)) D)
    (hH : ∀ s ∈ x :: H, s.ocupado = false) :
    ocupadas t.elements = ocupadas (A.map limpia) ++ ocupadas B := by
  have hHo : ocupadas ((x :: H).map limpia) = [] := by
    rw [ocupadas_map_limpia]
    simp only [ocupadas, List.filter_eq_nil_iff]
    intro s hs
    simp [hH s hs]
  rw [h.ocupadas_eq, ocupadas_append, ocupadas_append, hHo, List.nil_append]

/-- A safe creation gives its leftover to the free slot after the hole, or has
    none to give. -/
theorem DinInv.resto_alta
    (h : DinInv cfg exacto t (A.map limpia ++ ((x :: H).map limpia ++ B)) D)
    (hc : 0 < cfg.chunkSize)
    (hes : t.elements = A ++ (x :: H ++ R)) (hR : R.map limpia = B ++ D)
    (halta : altaSegura cfg.chunkSize t A.length (H.length + 1) total n) :
    ∀ b B', B = b :: B' → b.ocupado = false →
      total - ocupa cfg.chunkSize n = 0
        ∨ (cfg.chunkSize : Int) ≤ total - ocupa cfg.chunkSize n := by
  rintro b B₁ rfl hbo
  rw [List.cons_append] at hR
  obtain ⟨y, R', rfl, rfl, -⟩ := List.map_eq_cons_iff.mp hR
  have hget : t.elements.getD (A.length + (H.length + 1)) Particion.vacia = y := by
    have hs : A ++ (x :: H ++ y :: R') = (A ++ x :: H) ++ y :: R' := by simp
    rw [hes, hs, show A.length + (H.length + 1) = (A ++ x :: H).length by simp]
    exact getD_mitad _ _ _ _
  unfold altaSegura at halta
  rw [hget] at halta
  rw [limpia_ocupado] at hbo
  have hbd := ((h.bien (limpia y) (by simp)).libre (by simpa using hbo)).2
  rw [limpia_disponibles] at hbd
  rcases halta with h1 | h1 | h1 | h1
  · rw [hbo] at h1
    exact nomatch h1
  · omega
  · exact Or.inl h1
  · exact Or.inr h1

end Hueco

/-- **SEARCH**: the hole a search returns, merged away from its slip, is a
    place for the item. -/
theorem unirHueco_lugar {alg : AlgBusqueda} {n p k : Nat} {total : Int}
    (hc : 0 < cfg.chunkSize) (h : Din cfg exacto t) (hh : hueco alg t n = some (p, k, total))
    (hseg : huecoSeguro t p k) (halta : altaSegura cfg.chunkSize t p k total n) :
    contenido (unirHueco t p k total) = contenido t
      ∧ ocupadas (unirHueco t p k total).elements = ocupadas t.elements
      ∧ ∃ A a B D, LugarDin cfg exacto t (unirHueco t p k total) n p A a total B D := by
  obtain ⟨L, D, h⟩ := h
  obtain ⟨A, x, H, R, B, hes, rfl, rfl, rfl, hR, hH, htot, hn, hct⟩ := hueco_parte hc h hh
  obtain ⟨D', hinv⟩ := h.unida hes hR hH htot hct (h.hueco_seguro hc hes hR hseg)
  have hmem : (unirHueco t A.length (H.length + 1) total).memoria = t.memoria := by
    rw [unirHueco_marco]
  have hbit : (unirHueco t A.length (H.length + 1) total).bitacora = t.bitacora := by
    rw [unirHueco_marco]
  have hoc := h.ocupadas_hueco fun s hs => (hH s hs).1
  have hoc' : ocupadas (unirHueco t A.length (H.length + 1) total).elements
      = ocupadas t.elements := by
    rw [hinv.ocupadas_eq, hoc]
    simp
  have hcon : contenido t = (ocupadas (A.map limpia) ++ ocupadas B).map
      (entrada (unirHueco t A.length (H.length + 1) total).memoria) := by
    rw [hmem, contenido, hoc]
  refine ⟨by rw [contenido, contenido, hoc', hmem], hoc', A.map limpia, x.item.data, B, D', hinv,
    by simp, hn, h.resto_alta hc hes hR halta, by rw [hcon], ?_⟩
  exact Registra.of_subset hbit (by rw [hcon]; exact fun _ hx => hx)

end Operaciones

end Rc
