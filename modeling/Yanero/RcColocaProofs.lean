import Yanero.RcAlDiaProofs
import Yanero.RcBusquedaProofs

/-! # The dynamic placement ends

    Each turn of `compactacion` finds a hole, evicts an item or sweeps, and it
    sweeps only once on the count of failed searches and once more when there
    is nothing left to evict.  That last sweep leaves one hole of the whole
    cache, so the next search finds it: as long as the slots tile the data
    area.  Bytes that a removal has forgotten are never found again, and a
    request of the whole cache then goes round for ever. -/

namespace Rc

open Bucles Corridas Rachas Teselado

/-- The sweep comes to a slot that is not occupied: one of the table, or one
    the memory past it holds. -/
def barridoAcaba (e : Entorno) (t : TableInfo) : Prop :=
  (∃ s ∈ t.elements, s.ocupado = false)
    ∨ ∃ i < e.vueltas, t.tableMaxSize ≤ i ∧ (e.fuera i).ocupado = false

instance (e : Entorno) (t : TableInfo) : Decidable (barridoAcaba e t) :=
  inferInstanceAs (Decidable (_ ∨ _))

section Colocacion

variable {cfg : Config} {ahora n : Nat} {t t' : TableInfo} {e : Entorno}

/-! ## The sweep ends -/

/-- A sweep of an occupied table stops at the first read past its end that is
    not occupied. -/
theorem barrer_acaba_fuera {fuera : Nat → Particion} (hlleno : ∀ s ∈ t.elements, s.ocupado = true) :
    ∀ (vueltas i : Nat), (∃ j, i ≤ j ∧ j < i + vueltas ∧ t.tableMaxSize ≤ j
      ∧ (fuera j).ocupado = false) → barrer fuera vueltas i t = some t := by
  intro vueltas
  induction vueltas with
  | zero =>
      rintro i ⟨j, hij, hj, -⟩
      omega
  | succ v ih =>
      rintro i ⟨j, hij, hj, hN, hlib⟩
      rw [barrer]
      split
      · rename_i ho
        have hne : i ≠ j := by
          rintro rfl
          rw [TableInfo.leer, List.getD_eq_default _ _ hN, hlib] at ho
          cases ho
        exact ih (i + 1) ⟨j, by omega, by omega, hN, hlib⟩
      · rename_i ho
        rw [compactar_fuera (leer_lleno hlleno (by simpa using ho))]

theorem barrer_acaba (hc : 0 < cfg.chunkSize) (hd : Din cfg True t) (hac : barridoAcaba e t)
    (hv : t.tableMaxSize ≤ e.vueltas) : ∃ t', barrer e.fuera e.vueltas 0 t = some t' := by
  by_cases hlibre : ∃ s ∈ t.elements, s.ocupado = false
  · obtain ⟨L, D, harea⟩ := hd.areaTeselada hc
    obtain ⟨t', A, V, hr, -⟩ := harea.compacta e.fuera hlibre hv
    exact ⟨t', hr⟩
  · have hlleno : ∀ s ∈ t.elements, s.ocupado = true := by
      intro s hs
      by_contra ho
      exact hlibre ⟨s, hs, by simpa using ho⟩
    obtain ⟨j, hj, hN, hlib⟩ := hac.resolve_left hlibre
    exact ⟨t, barrer_acaba_fuera hlleno e.vueltas 0 ⟨j, Nat.zero_le j, by omega, hN, hlib⟩⟩

/-! ## An empty cache, swept -/

theorem Din.vivasPrimero (h : Din cfg True t) (hc : 0 < cfg.chunkSize) :
    VivasPrimero t.elements := by
  obtain ⟨L, D, harea⟩ := h.areaTeselada hc
  exact ⟨L, D, harea.tabla, harea.vivas, harea.muertas⟩

/-- The free bytes of a tiled table without items are those of the cache. -/
theorem Din.sumaDisponibles (h : Din cfg True t) (hno : ocupadas t.elements = []) :
    sumaDisponibles t.elements = cfg.blockSizeMax := by
  obtain ⟨L, D, h⟩ := h
  have hlib : ∀ s ∈ L, s.ocupado = false := by
    rw [← ocupadas_eq_nil, ← h.ocupadas_eq]
    exact hno
  rw [Rc.sumaDisponibles, suma_disponibles]
  show ((vista t).map (·.bytesDisponibles)).sum = _
  rw [h.tabla, List.map_append, List.sum_append, suma_muertas h.muertas,
    suma_libres (c := cfg.chunkSize) hlib, h.suma trivial, add_zero]

/-- A search fails only when no streak has room, by its counter too. -/
theorem hueco_ne_none {alg : AlgBusqueda} {p k : Nat} (hc : 0 < t.sizeChunk)
    (hv : VivasPrimero t.elements) (ha : Alcanza t.sizeChunk n t.elements p k)
    (hle : bytesDe t.elements p k ≤ t.espacioLibre) : hueco alg t n ≠ none := by
  intro hh
  cases alg with
  | firstFit =>
      have h := primera_hueco (n := n) hc hv
      rw [hh] at h
      exact h p k ha
  | bestFit =>
      have h := mejor_hueco (n := n) hc
      rw [hh] at h
      exact absurd hle (Int.not_le.mpr (h p k ha))

/-- **EMPTY AND SWEPT**, the cache is one hole that holds every request. -/
theorem barrer_vacia (hcfg : ConfigDin cfg) (hd : Din cfg True t) (hal : AlDia cfg ahora t)
    (hno : ocupadas t.elements = []) (hn : n ≤ cfg.blockSizeMax)
    (hr : barrer e.fuera e.vueltas 0 t = some t') (hv : t.tableMaxSize ≤ e.vueltas) :
    hueco cfg.algBusqueda t' n ≠ none := by
  have hlib := ocupadas_eq_nil.mp hno
  have hseg : barridoSeguro t := Or.inr fun s hs => hlib s (List.dropWhile_subset _ hs)
  have hd' := (barrer_din hd hseg hr).1
  have hal' := barrer_alDia hcfg.chunk hd hal hr
  have hno' : ocupadas t'.elements = [] := by
    have := barrer_items hcfg.chunk hd hr
    rw [hno, List.map_nil, List.map_eq_nil_iff] at this
    exact this
  have hsuma := hd'.sumaDisponibles hno'
  have hpos := hcfg.entra
  have hc := hcfg.chunk
  -- the sweep leaves bytes in the first slot only
  obtain ⟨s, V, hes, hV⟩ : ∃ s V, t'.elements = s :: V ∧ ∀ u ∈ V, u.bytesDisponibles = 0 := by
    have hhay : ∀ {u}, Rc.sumaDisponibles u = cfg.blockSizeMax → u ≠ [] := by
      rintro u hu rfl
      have : (0 : Int) = cfg.blockSizeMax := hu
      omega
    obtain ⟨u, hu⟩ := List.exists_mem_of_ne_nil _ (hhay (hd.sumaDisponibles hno))
    obtain ⟨L, D, harea⟩ := hd.areaTeselada hc
    obtain ⟨t₁, A, V, hr₁, hcom⟩ := harea.compacta e.fuera ⟨u, hu, hlib u hu⟩ hv
    obtain rfl := Option.some.inj (hr.symm.trans hr₁)
    have hA : A = [] := by
      rw [hcom.tabla, ocupadas_append, ocupadas_todas hcom.ocupadas] at hno'
      exact (List.append_eq_nil_iff.mp hno').1
    have hes := hcom.tabla
    rw [hA, List.nil_append] at hes
    cases V with
    | nil => exact absurd hes (hhay hsuma)
    | cons s V => exact ⟨s, V, hes, hcom.uno⟩
  have hbytes : s.bytesDisponibles = cfg.blockSizeMax := by
    have hcero : (V.map (·.bytesDisponibles)).sum = 0 := by
      refine List.sum_eq_zero fun x hx => ?_
      obtain ⟨u, hu, rfl⟩ := List.mem_map.mp hx
      exact hV u hu
    rw [hes, Rc.sumaDisponibles, List.map_cons, List.sum_cons, hcero, add_zero] at hsuma
    exact hsuma
  have hs : s.ocupado = false := ocupadas_eq_nil.mp hno' s (by rw [hes]; simp)
  have hget : t'.elements[0]? = some s := by rw [hes]; rfl
  have hde : bytesDe t'.elements 0 1 = cfg.blockSizeMax := by
    rw [bytesDe, peso_succ (k := 0) _ (by simpa using hget), peso_cero, zero_add, hbytes]
  have halc : Alcanza t'.sizeChunk n t'.elements 0 1 := by
    refine ⟨(racha_cero t'.elements).crece (by simpa using hget) ?_, ?_, ?_⟩
    · exact hueca_iff.mpr ⟨hs, by omega⟩
    · omega
    · rw [hde, hd'.chunk_eq]
      omega
  refine hueco_ne_none (by rw [hd'.chunk_eq]; exact hc) (hd'.vivasPrimero hc) halc ?_
  have hesp := hal'.espacio
  rw [usado_ocupadas, hno'] at hesp
  rw [hde]
  simpa using hesp

/-! ## The loop -/

/-- What every turn of a placement keeps. -/
structure EnColocacion (cfg : Config) (ahora : Nat) (t : TableInfo) : Prop where
  din : Din cfg True t
  mapa : ∃ σ, Representa σ t
  alDia : AlDia cfg ahora t

theorem EnColocacion.ocupada (h : EnColocacion cfg ahora t) (hcant : t.elementsAmount ≠ 0) :
    ocupadas t.elements ≠ [] := by
  intro hno
  rw [h.alDia.cantidad, hno] at hcant
  exact hcant rfl

/-- An eviction finds its victim, under a clock past the last touch. -/
theorem EnColocacion.quita {a : Nat} (h : EnColocacion cfg ahora t) (hp : 0 < cfg.ptrdata)
    (ha : ahora < a) (hcant : t.elementsAmount ≠ 0)
    (hper : ∀ key, victima a t = some key → bajaCompleta t key) :
    ∃ t', reemplazar a t = some t' ∧ EnColocacion cfg ahora t'
      ∧ (ocupadas t'.elements).length + 1 = (ocupadas t.elements).length := by
  obtain ⟨σ, hrep⟩ := h.mapa
  have hst : ∀ s ∈ ocupadas t.elements, s.item.stored = true := fun s hs =>
    (hrep.guardadas (entrada t.memoria s) (List.mem_map_of_mem hs)).1
  have hlt : ∀ s ∈ ocupadas t.elements, s.ultimaVezUsada < a := fun s hs =>
    Nat.lt_of_le_of_lt (h.alDia.pasadas s hs) ha
  obtain ⟨s, -, -, t₁, -, hree⟩ := reemplazar_vuelve hst hlt (h.ocupada hcant)
  exact ⟨_, hree, ⟨reemplazar_din h.din (fun _ => hper) hree,
    ⟨σ, hrep.sublist (reemplazar_desaloja hree).quita.contenido⟩,
    reemplazar_alDia h.din hp h.alDia hree⟩, reemplazar_ocupadas hree⟩

/-- A sweep ends and keeps the items. -/
theorem EnColocacion.barre (h : EnColocacion cfg ahora t) (hc : 0 < cfg.chunkSize)
    (hseg : barridoSeguro t) (hac : barridoAcaba e t) (hv : t.tableMaxSize ≤ e.vueltas) :
    ∃ t', barrer e.fuera e.vueltas 0 t = some t' ∧ EnColocacion cfg ahora t'
      ∧ (ocupadas t'.elements).length = (ocupadas t.elements).length := by
  obtain ⟨t', hr⟩ := barrer_acaba hc h.din hac hv
  obtain ⟨hd, hcon⟩ := barrer_din h.din hseg hr
  have hlen := congrArg List.length (barrer_items hc h.din hr)
  rw [List.length_map, List.length_map] at hlen
  obtain ⟨σ, hrep⟩ := h.mapa
  exact ⟨t', hr, ⟨hd, ⟨σ, hrep.sublist (by rw [hcon])⟩, barrer_alDia hc h.din h.alDia hr⟩, hlen⟩

theorem Din.tableMaxSize_eq {exacto : Prop} (h : Din cfg exacto t) :
    t.tableMaxSize = cfg.blockSizeMax / cfg.chunkSize := by
  obtain ⟨L, D, h⟩ := h
  rw [h.tableMaxSize, h.slots]

/-- The turns the loop may still need after `j` failed searches: one for each
    item, one for the sweep on the count if it has not come yet, and one for
    the sweep of the empty cache. -/
def turnosPendientes (frecuencia : Int) (j : Nat) (t : TableInfo) : Nat :=
  (ocupadas t.elements).length + (if (j : Int) < frecuencia then 1 else 0) + 1

theorem turnosPendientes_pos (frecuencia : Int) (j : Nat) (t : TableInfo) :
    0 < turnosPendientes frecuencia j t := Nat.succ_pos _

/-- The sweep on the count takes its turn off. -/
theorem turnosPendientes_barre (frecuencia : Int) (j : Nat)
    (hlen : (ocupadas t'.elements).length = (ocupadas t.elements).length)
    (hfrec : ((j + 1 : Nat) : Int) = frecuencia) :
    turnosPendientes frecuencia (j + 1) t' < turnosPendientes frecuencia j t := by
  unfold turnosPendientes
  rw [hlen, if_neg (by omega), if_pos (by omega)]
  omega

/-- An eviction takes the turn of its item off. -/
theorem turnosPendientes_quita (frecuencia : Int) (j : Nat)
    (hmenos : (ocupadas t'.elements).length + 1 = (ocupadas t.elements).length) :
    turnosPendientes frecuencia (j + 1) t' < turnosPendientes frecuencia j t := by
  unfold turnosPendientes
  split <;> split <;> omega

/-- **THE PLACEMENT ENDS**, on a free slot that holds the request, with turns
    for every slot of the table, one sweep on the count of searches and one of
    the empty cache. -/
theorem compactacion_termina (hcfg : ConfigDin cfg) (hp : 0 < cfg.ptrdata)
    (hn : n ≤ cfg.blockSizeMax) (hreloj : ∀ j < e.vueltas, ahora < e.relojLru j)
    (hv : t.tableMaxSize + 3 ≤ e.vueltas) (h : EnColocacion cfg ahora t)
    (hcada : EnCadaVuelta cfg e n (fun _ _ _ _ => True)
      (fun t => barridoSeguro t ∧ barridoAcaba e t) bajaCompleta e.vueltas 0 t) :
    ∃ t' i, compactacion cfg e n e.vueltas 0 t = some (t', i)
      ∧ (t'.elements.getD i Particion.vacia).ocupado = false
      ∧ (n : Int) ≤ (t'.elements.getD i Particion.vacia).bytesDisponibles := by
  have hslots : ∀ {u}, Din cfg True u → u.tableMaxSize ≤ e.vueltas := fun hu => by
    rw [hu.tableMaxSize_eq, ← h.din.tableMaxSize_eq]
    omega
  refine compactacion_total (m := n)
    (P := fun v j u => EnColocacion cfg ahora u ∧ v + j ≤ e.vueltas
      ∧ (turnosPendientes cfg.frecuenciaCompactacion j u < v ∨ 0 < v
        ∧ hueco cfg.algBusqueda u n ≠ none)
      ∧ EnCadaVuelta cfg e n (fun _ _ _ _ => True)
        (fun t => barridoSeguro t ∧ barridoAcaba e t) bajaCompleta v j u)
    (Q := fun u i => (u.elements.getD i Particion.vacia).ocupado = false
      ∧ (n : Int) ≤ (u.elements.getD i Particion.vacia).bytesDisponibles)
    ?_ ?_ ?_ ?_ e.vueltas 0 ⟨h, by omega, Or.inl ?_, hcada⟩
  · rintro j u ⟨-, -, hlt | ⟨hlt, -⟩, -⟩
    · exact absurd hlt (Nat.not_lt_zero _)
    · exact absurd hlt (Nat.lt_irrefl 0)
  · -- the hole found
    rintro v j u p k total ⟨hu, -⟩ hh
    have hc : 0 < u.sizeChunk := by
      rw [hu.din.chunk_eq]
      exact hcfg.chunk
    obtain ⟨hel, rfl⟩ := (hueco_iff_elegida hc (hu.din.vivasPrimero hcfg.chunk)).mp hh
    obtain ⟨ho, hb⟩ := unirHueco_primera hel.1.racha (hel.1.alguna hc) (bytesDe u.elements p k)
    exact ⟨ho, by rw [hb]; exact hel.1.pedido⟩
  · -- a sweep
    rintro v j u ⟨hu, hj, hlt, hvu⟩ hh hcond
    have hlt := hlt.resolve_right fun hsome => hsome.2 hh
    have hpend := turnosPendientes_pos cfg.frecuenciaCompactacion j u
    have hvu' := hvu.2 hh
    rw [if_pos hcond] at hvu'
    obtain ⟨⟨hseg, hac⟩, hsig⟩ := hvu'
    obtain ⟨u', hr, hu', hlen⟩ := hu.barre hcfg.chunk hseg hac (hslots hu.din)
    refine ⟨u', hr, hu', by omega, ?_, hsig u' hr⟩
    by_cases hcant : u.elementsAmount = 0
    · have hno : ocupadas u.elements = [] := by
        have := hu.alDia.cantidad
        rw [hcant] at this
        exact List.eq_nil_of_length_eq_zero (by omega)
      refine Or.inr ⟨by omega, ?_⟩
      exact barrer_vacia hcfg hu.din hu.alDia hno hn hr (hslots hu.din)
    · have := turnosPendientes_barre _ j hlen (hcond.resolve_right hcant)
      exact Or.inl (by omega)
  · -- an eviction
    rintro v j u ⟨hu, hj, hlt, hvu⟩ hh hcond
    have hlt := hlt.resolve_right fun hsome => hsome.2 hh
    have hpend := turnosPendientes_pos cfg.frecuenciaCompactacion j u
    have hvu' := hvu.2 hh
    rw [if_neg hcond] at hvu'
    obtain ⟨hper, hsig⟩ := hvu'
    obtain ⟨-, hcant⟩ := not_or.mp hcond
    obtain ⟨u', hq, hu', hmenos⟩ := hu.quita hp (hreloj (j + 1) (by omega)) hcant hper
    have := turnosPendientes_quita cfg.frecuenciaCompactacion j hmenos
    exact ⟨u', hq, hu', by omega, Or.inl (by omega), hsig u' hq⟩
  · have hle : (ocupadas t.elements).length ≤ t.elements.length := List.length_filter_le _ _
    have hN : t.tableMaxSize = t.elements.length := rfl
    unfold turnosPendientes
    split <;> omega

end Colocacion

/-- Three items, the first deleted, under a rising clock. -/
def pedidosHora : List (Op × Entorno) :=
  [(.set [1] [1, 1, 1], entornoHora 100), (.set [2] [2, 2], entornoHora 200),
   (.set [4] [4, 4], entornoHora 300), (.delete [1], entornoHora 400)]

/-- A sweep of a table without items writes its slots only. -/
theorem barrer_libre {fuera : Nat → Particion} {t t' : TableInfo} {vueltas : Nat}
    (hlib : ∀ s ∈ t.elements, s.ocupado = false) (hne : t.elements ≠ [])
    (hr : barrer fuera vueltas 0 t = some t') : t' = { t with elements := t'.elements } := by
  obtain ⟨s, R, hsR⟩ := List.exists_cons_of_ne_nil hne
  have hs : (t.leer fuera 0).ocupado = false := by
    rw [TableInfo.leer, hsR]
    exact hlib s (by rw [hsR]; simp)
  have htodos : (t.elements.drop 0).takeWhile (fun s => !s.ocupado) = t.elements := by
    rw [List.drop_zero, List.takeWhile_eq_self_iff]
    intro u hu
    rw [hlib u hu]
    rfl
  cases vueltas with
  | zero => cases hr
  | succ v =>
      rw [barrer, hs, if_neg Bool.false_ne_true] at hr
      simp only [compactar, htodos] at hr
      rw [if_pos (by simp [TableInfo.tableMaxSize])] at hr
      rw [← Option.some.inj hr]

/-- A turn that finds nothing on an empty cache sweeps and goes on. -/
theorem compactacion_barre {cfg : Config} {e : Entorno} {n v j : Nat} {t u : TableInfo}
    (hh : hueco cfg.algBusqueda t n = none) (hc : t.elementsAmount = 0)
    (hb : barrer e.fuera e.vueltas 0 t = some u) :
    compactacion cfg e n (v + 1) j t = compactacion cfg e n v (j + 1) u := by
  simp [compactacion, buscarLugar_hueco, hh, hc, hb]

/-- A table on which the loop of `compactacion` goes round without a change. -/
theorem compactacion_gira {cfg : Config} {e : Entorno} {n : Nat} {t : TableInfo}
    (hh : hueco cfg.algBusqueda t n = none) (hc : t.elementsAmount = 0)
    (hb : barrer e.fuera e.vueltas 0 t = some t) :
    ∀ vueltas j, compactacion cfg e n vueltas j t = none := by
  intro vueltas
  induction vueltas with
  | zero => exact fun _ => rfl
  | succ v ih =>
      intro j
      rw [compactacion_barre hh hc hb]
      exact ih (j + 1)

/-- An item of one byte in a hole of three, deleted, and the rest deleted. -/
def pedidosPerdidos : List (Op × Entorno) :=
  [(.set [1] [1, 1, 1], entornoDiez), (.set [2] [2, 2], entornoDiez),
   (.delete [1], entornoDiez), (.set [3] [3], entornoDiez), (.delete [3], entornoDiez),
   (.delete [2], entornoDiez)]

end Rc
