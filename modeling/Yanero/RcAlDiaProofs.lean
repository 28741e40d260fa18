import Yanero.RcEspacioProofs
import Yanero.RcBarridoProofs
import Yanero.RcDesalojoProofs

/-! # What a run keeps of its counters and its clock

    The placement loop of the dynamic scheme trusts two counters and the clock:
    it stops evicting when `elements_amount` is zero, `best_fit` looks for less
    than `espacio_libre + 1` bytes, and `lru` for a slot used before its
    reading.  Runs that tile the data area keep all three sound: the amount
    counts the occupied slots, the free space is never short of the bytes not
    in use, and no slot was used after the last touch (`AlDia`). -/

namespace Rc

open Bucles Corridas Teselado

/-- The counters and the readings of a table at time `ahora`. -/
structure AlDia (cfg : Config) (ahora : Nat) (t : TableInfo) : Prop where
  cantidad : t.elementsAmount = (ocupadas t.elements).length
  espacio : (cfg.blockSizeMax : Int) ≤ t.espacioLibre + usado cfg.chunkSize t
  pasadas : ∀ s ∈ ocupadas t.elements, s.ultimaVezUsada ≤ ahora

section AlDia

variable {cfg : Config} {ahora : Nat} {t t' : TableInfo} {e : Entorno}

/-- The occupied slots of a tiled table lie in the data area. -/
theorem Din.dato_pos {exacto : Prop} (h : Din cfg exacto t) (hp : 0 < cfg.ptrdata)
    {s : Particion} (hs : s ∈ ocupadas t.elements) :
    s.item.data ≠ 0 ∧ 0 ≤ s.bytesInutilizados := by
  obtain ⟨L, D, h⟩ := h
  rw [h.ocupadas_eq] at hs
  obtain ⟨hsL, ho⟩ := mem_ocupadas.mp hs
  refine ⟨?_, ((h.bien s hsL).ocupada ho).2⟩
  have hini := (cabe_mem h.cabe h.no_negativa s hsL).1
  simp only [inicio] at hini
  omega

/-! ## Removal -/

theorem ocupa_le_bytesLiberados {c : Nat} {s : Particion} (h : 0 ≤ s.bytesInutilizados) :
    (ocupa c s.item.ndata : Int) ≤ bytesLiberados c s := by
  unfold ocupa bytesLiberados
  split <;> omega

theorem micacheRemove_alDia {key : Clave} (hd : Din cfg True t) (hp : 0 < cfg.ptrdata)
    (h : AlDia cfg ahora t) (hr : micacheRemove t key = some t') : AlDia cfg ahora t' := by
  constructor
  · obtain ⟨A, s, B, hv, hoc, -, -, hv', -, hcant, -⟩ := micacheRemove_vista hr
    have hs : ocupadas t.elements = ocupadas A ++ s :: ocupadas B := by
      rw [← ocupadas_vista, hv, ocupadas_append, ocupadas_cons_of_true hoc]
    have hs' : ocupadas t'.elements = ocupadas A ++ ocupadas B := by
      rw [← ocupadas_vista, hv', ocupadas_append, ocupadas_libre]
    have hdato := (hd.dato_pos hp (s := s) (by rw [hs]; simp)).1
    rw [hcant, if_neg hdato, h.cantidad, hs, hs']
    simp only [List.length_append, List.length_cons]
    omega
  · obtain ⟨s, hs, -, hus, hesp⟩ := micacheRemove_usado (c := cfg.chunkSize) hr
    have hle := ocupa_le_bytesLiberados (c := cfg.chunkSize) (hd.dato_pos hp hs).2
    have := h.espacio
    rw [hesp, hd.chunk_eq]
    omega
  · exact fun s hs => h.pasadas s ((micacheRemove_soloQuita hr).1.subset hs)

theorem reemplazar_alDia {a : Nat} (hd : Din cfg True t) (hp : 0 < cfg.ptrdata)
    (h : AlDia cfg ahora t) (hr : reemplazar a t = some t') : AlDia cfg ahora t' := by
  obtain ⟨key, t₁, -, hr₁, rfl⟩ := reemplazar_remove hr
  obtain ⟨hcant, hesp, hpas⟩ := micacheRemove_alDia hd hp h hr₁
  exact ⟨hcant, hesp, hpas⟩

/-! ## The sweep -/

/-- More turns do not change what a sweep that ends leaves. -/
theorem barrer_mas {fuera : Nat → Particion} (d : Nat) :
    ∀ (vueltas i : Nat) {t t' : TableInfo}, barrer fuera vueltas i t = some t' →
      barrer fuera (vueltas + d) i t = some t' := by
  intro vueltas
  induction vueltas with
  | zero => intro i t t' h; cases h
  | succ v ih =>
      intro i t t' h
      rw [Nat.succ_add]
      rw [barrer] at h ⊢
      split
      · rename_i ho
        rw [if_pos ho] at h
        exact ih (i + 1) h
      · rename_i ho
        rw [if_neg ho] at h
        rcases hc : compactar t i with ⟨u, sigue⟩
        rw [hc] at h
        cases sigue with
        | true => exact ih (i + 1) h
        | false => exact h

/-- The live slots of the scheme tile the data area from its start. -/
theorem Din.areaTeselada (h : Din cfg True t) (hc : 0 < cfg.chunkSize) :
    ∃ L D, AreaTeselada t cfg.ptrdata (cfg.ptrdata + cfg.blockSizeMax) L D := by
  obtain ⟨L, D, h⟩ := h
  obtain ⟨L₀, D₀, hes, rfl, rfl⟩ := List.map_eq_append_iff.mp h.tabla
  have hlargo : ∀ s, largoDin cfg.chunkSize (limpia s) = largoDin cfg.chunkSize s :=
    largoDin_limpia cfg.chunkSize
  refine ⟨L₀, D₀, hes, ?_, ?_, ?_, ?_, ?_⟩
  · intro s hs
    rw [← limpia_viva]
    exact (h.bien _ (List.mem_map_of_mem hs)).viva hc
  · intro s hs
    rw [← limpia_viva]
    exact muerta_not_viva (h.muertas _ (List.mem_map_of_mem hs))
  · rw [h.chunk]
    refine (tesela_map (g := limpia) ?_ hlargo).mp (tesela_of_cabe h.cabe (by rw [h.suma trivial]))
    intro s
    simp [inicio]
  · intro s hs ho
    rw [h.chunk, ← limpia_disponibles]
    exact ((h.bien _ (List.mem_map_of_mem hs)).libre (by simpa using ho)).2
  · intro s hs ho
    have := ((h.bien _ (List.mem_map_of_mem hs)).ocupada (by simpa using ho)).2
    rwa [limpia_of_ocupado ho] at this

/-- The sweep keeps the items, with their readings. -/
theorem barrer_items {fuera : Nat → Particion} {vueltas : Nat} (hc : 0 < cfg.chunkSize)
    (hd : Din cfg True t) (hr : barrer fuera vueltas 0 t = some t') :
    (ocupadas t'.elements).map (itemDe t'.memoria)
      = (ocupadas t.elements).map (itemDe t.memoria) := by
  by_cases hlibre : ∃ s ∈ t.elements, s.ocupado = false
  · obtain ⟨L, D, harea⟩ := hd.areaTeselada hc
    obtain ⟨t₁, A, V, hr₁, hcom⟩ :=
      harea.compacta fuera hlibre (Nat.le_add_right t.tableMaxSize vueltas)
    have hr' := barrer_mas t.tableMaxSize vueltas 0 hr
    rw [Nat.add_comm, hr₁] at hr'
    obtain rfl := Option.some.inj hr'
    rw [hcom.tabla, ocupadas_append, ocupadas_todas hcom.ocupadas,
      ocupadas_eq_nil.mpr hcom.libres, List.append_nil]
    exact hcom.items
  · -- the whole table is occupied
    have hlleno : ∀ s ∈ t.elements, s.ocupado = true := by
      intro s hs
      by_contra ho
      exact hlibre ⟨s, hs, by simpa using ho⟩
    rw [barrer_lleno hlleno hr]

/-- What depends on the length, the reading and the number of the occupied
    slots only. -/
theorem AlDia.of_items {m o : Nat → UInt8} (h : AlDia cfg ahora t)
    (hit : (ocupadas t'.elements).map (itemDe o) = (ocupadas t.elements).map (itemDe m))
    (hcant : t'.elementsAmount = t.elementsAmount) (hesp : t'.espacioLibre = t.espacioLibre) :
    AlDia cfg ahora t' := by
  have hde : ∀ {β : Type} (f : Clave × Nat × Bool × Nat × List UInt8 → β),
      (ocupadas t'.elements).map (fun s => f (itemDe o s))
        = (ocupadas t.elements).map (fun s => f (itemDe m s)) := by
    intro β f
    have := congrArg (List.map f) hit
    simpa only [List.map_map, Function.comp_def] using this
  constructor
  · have hlen := congrArg List.length hit
    rw [List.length_map, List.length_map] at hlen
    rw [hcant, h.cantidad, hlen]
  · have hus : usado cfg.chunkSize t' = usado cfg.chunkSize t := by
      rw [usado_ocupadas, usado_ocupadas]
      exact congrArg List.sum (hde fun x => (ocupa cfg.chunkSize x.2.1 : Int))
    rw [hesp, hus]
    exact h.espacio
  · intro s hs
    have hlect : (ocupadas t'.elements).map (·.ultimaVezUsada)
        = (ocupadas t.elements).map (·.ultimaVezUsada) := hde fun x => x.2.2.2.1
    have hmem : s.ultimaVezUsada ∈ (ocupadas t.elements).map (·.ultimaVezUsada) := by
      rw [← hlect]
      exact List.mem_map_of_mem hs
    obtain ⟨u, hu, heq⟩ := List.mem_map.mp hmem
    rw [← heq]
    exact h.pasadas u hu

theorem barrer_alDia {fuera : Nat → Particion} {vueltas : Nat} (hc : 0 < cfg.chunkSize)
    (hd : Din cfg True t) (h : AlDia cfg ahora t) (hr : barrer fuera vueltas 0 t = some t') :
    AlDia cfg ahora t' := by
  have hmarco := barrer_marco hr
  refine h.of_items (barrer_items hc hd hr) ?_ ?_
  · rw [hmarco]
  · rw [hmarco]

/-! ## Placement -/

/-- **PLACEMENT** keeps the counters and the readings. -/
theorem compactacion_alDia {n vueltas fallidas i : Nat} (hc : 0 < cfg.chunkSize)
    (hp : 0 < cfg.ptrdata) (hd : Din cfg True t) (h : AlDia cfg ahora t)
    (hpis : EnCadaVuelta cfg e n
      (fun t p k total => huecoSeguro t p k ∧ altaSegura cfg.chunkSize t p k total n)
      barridoSeguro (fun _ _ => True) vueltas fallidas t)
    (hper : EnCadaVuelta cfg e n (fun _ _ _ _ => True) (fun _ => True) bajaCompleta
      vueltas fallidas t)
    (hr : compactacion cfg e n vueltas fallidas t = some (t', i)) : AlDia cfg ahora t' := by
  refine compactacion_regla
    (P := fun v j t => Din cfg True t ∧ AlDia cfg ahora t
      ∧ EnCadaVuelta cfg e n
        (fun t p k total => huecoSeguro t p k ∧ altaSegura cfg.chunkSize t p k total n)
        barridoSeguro (fun _ _ => True) v j t
      ∧ EnCadaVuelta cfg e n (fun _ _ _ _ => True) (fun _ => True) bajaCompleta v j t)
    (Q := fun t' _ => AlDia cfg ahora t') ?_ ?_ ?_ vueltas fallidas ⟨hd, h, hpis, hper⟩ hr
  · rintro v j u p k total ⟨hd, h, hpis, -⟩ hh
    obtain ⟨hseg, halta⟩ := hpis.halla hh
    obtain ⟨-, hoc, -⟩ := unirHueco_lugar hc hd hh hseg halta
    have hmarco := unirHueco_marco u p k total
    refine h.of_items (m := u.memoria) (o := u.memoria) (by rw [hoc]) ?_ ?_
    · rw [hmarco]
    · rw [hmarco]
  · rintro v j u u' ⟨hd, h, hpis, hper⟩ hh hcond hb
    obtain ⟨hseg, hpis'⟩ := hpis.barre hh hcond hb
    exact ⟨(barrer_din hd hseg hb).1, barrer_alDia hc hd h hb, hpis',
      (hper.barre hh hcond hb).2⟩
  · rintro v j u u' ⟨hd, h, hpis, hper⟩ hh hcond hq
    obtain ⟨hcom, hper'⟩ := hper.quita hh hcond hq
    exact ⟨reemplazar_din hd (fun _ => hcom) hq, reemplazar_alDia hd hp h hq,
      (hpis.quita hh hcond hq).2, hper'⟩

/-! ## Creation -/

theorem micacheCreateElement_cantidad (fuera : Nat → Particion) (a : Nat) (u : TableInfo)
    (key : Clave) (pos n c : Nat) :
    (micacheCreateElement fuera a u key pos n c).elementsAmount = u.elementsAmount + 1 := by
  unfold micacheCreateElement repartirSobra
  dsimp only
  split <;> (try split) <;> (try split) <;> rfl

/-- The occupied slots after a creation: the new one, used at its reading,
    among the others. -/
theorem LugarDin.ocupadas_alta {t₀ : TableInfo} (fuera : Nat → Particion) (a : Nat) (key : Clave)
    {i n : Nat} {A B D : List Particion} {d : Nat} {F : Int} (hc : 0 < cfg.chunkSize)
    (h : LugarDin cfg True t₀ t n i A d F B D) :
    ∃ A₀ o R, (micacheCreateElement fuera a t key i n cfg.chunkSize).elements = A₀ ++ o :: R
      ∧ A₀.length = i ∧ o.ocupado = true ∧ o.item.ndata = n ∧ o.ultimaVezUsada = a
      ∧ ocupadas t.elements = ocupadas A₀ ++ ocupadas R := by
  obtain ⟨A₁, x, R₁, -, hA₁, -, -, -, -, -, hel⟩ := h.elements fuera a key hc
  obtain ⟨A₀, o, R, B', D', hes, hA₀, hA, hR, hoc, -, hnd, hoB, hinv⟩ :=
    (micacheCreateElement_din fuera a key hc h).tabla
  have hmismo : o = creadaDin a key n (if (cfg.chunkSize : Int) ≤ F - ocupa cfg.chunkSize n then 0
      else F - ocupa cfg.chunkSize n) x := by
    have hcorte := hes.symm.trans hel
    exact (List.cons.inj (List.append_inj hcorte (hA₀.trans hA₁.symm)).2).1
  refine ⟨A₀, o, R, hes, hA₀, hoc, hnd, by rw [hmismo]; rfl, ?_⟩
  have hoA : ocupadas A = ocupadas A₀ := by rw [← hA, ocupadas_map_limpia]
  have hoR : ocupadas B = ocupadas R := by
    rw [← ocupadas_map_limpia R, hR, ocupadas_append, ocupadas_muertas hinv.muertas,
      List.append_nil, hoB]
  rw [h.inv.ocupadas_eq, ocupadas_append, ocupadas_libre, hoA, hoR]

/-- The end of a SET on a placed slot. -/
theorem alta_alDia {t₀ : TableInfo} {a i : Nat} {key : Clave} {valor : List UInt8}
    {A B D : List Particion} {d : Nat} {F : Int} (hc : 0 < cfg.chunkSize) (ha : ahora ≤ a)
    (h : LugarDin cfg True t₀ t valor.length i A d F B D) (hal : AlDia cfg ahora t)
    (hr : itemRelease (storeInfo (copiarValor
      (micacheCreateElement e.fuera a t key i valor.length cfg.chunkSize) i valor) i) i
      = some t') : AlDia cfg a t' := by
  obtain ⟨A₁, x, R₁, hes₁, hA₁, -, -, -, hxF, -, -⟩ := h.elements e.fuera a key hc
  obtain ⟨A₀, o, R, hes, rfl, hoc, hnd, hus, hocup⟩ :=
    h.ocupadas_alta e.fuera a key hc
  have hesp := micacheCreateElement_espacio e.fuera a key (c := cfg.chunkSize) hes₁
    (n := valor.length) (by rw [hxF]; exact h.cabe)
  rw [hA₁] at hesp
  have hoc' : (Rc.marcar true o).ocupado = true := hoc
  have hnuevas : ocupadas t'.elements = ocupadas A₀ ++ Rc.marcar true o :: ocupadas R := by
    rw [guardar_eq hes hr, ocupadas_append, ocupadas_cons_of_true hoc']
  constructor
  · have hcant : t'.elementsAmount = t.elementsAmount + 1 := by
      rw [guardar_eq hes hr]
      exact micacheCreateElement_cantidad ..
    rw [hcant, hal.cantidad, hocup, hnuevas]
    simp only [List.length_append, List.length_cons]
    omega
  · have hespacio := hal.espacio
    have hesp' : t'.espacioLibre = t.espacioLibre - ocupa cfg.chunkSize valor.length := by
      rw [guardar_eq hes hr, ← hesp]
    have hnd' : (Rc.marcar true o).item.ndata = valor.length := hnd
    rw [usado_ocupadas, hocup] at hespacio
    rw [hesp', usado_ocupadas, hnuevas]
    simp only [List.map_append, List.map_cons, List.sum_append, List.sum_cons, hnd'] at hespacio ⊢
    omega
  · intro s hs
    rw [hnuevas] at hs
    have hcasos : s = Rc.marcar true o ∨ s ∈ ocupadas t.elements := by
      rw [hocup]
      simp only [List.mem_append, List.mem_cons] at hs ⊢
      tauto
    rcases hcasos with rfl | hs
    · exact hus.le
    · exact (hal.pasadas s hs).trans ha

/-! ## The operations -/

/-- A change of an occupied slot that keeps its length. -/
theorem AlDia.retoca {a : Nat} {A B : List Particion} {s : Particion} {f : Particion → Particion}
    (h : AlDia cfg ahora t) (hes : t.elements = A ++ s :: B) (hoc : s.ocupado = true)
    (ho : (f s).ocupado = true) (hnd : (f s).item.ndata = s.item.ndata)
    (hus : (f s).ultimaVezUsada ≤ a) (ha : ahora ≤ a) :
    AlDia cfg a (t.modificar A.length f) := by
  have hantes : ocupadas t.elements = ocupadas A ++ s :: ocupadas B := by
    rw [hes, ocupadas_append, ocupadas_cons_of_true hoc]
  have hdesp : ocupadas (t.modificar A.length f).elements
      = ocupadas A ++ f s :: ocupadas B := by
    rw [TableInfo.modificar, hes]
    show ocupadas ((A ++ s :: B).modify A.length f) = _
    rw [modify_mitad, ocupadas_append, ocupadas_cons_of_true ho]
  constructor
  · show t.elementsAmount = _
    rw [h.cantidad, hantes, hdesp]
    simp only [List.length_append, List.length_cons]
  · have hesp := h.espacio
    show (cfg.blockSizeMax : Int) ≤ t.espacioLibre + _
    rw [usado_ocupadas, hantes] at hesp
    rw [usado_ocupadas, hdesp]
    simpa only [List.map_append, List.map_cons, hnd] using hesp
  · intro u hu
    rw [hdesp] at hu
    have hcasos : u = f s ∨ u ∈ ocupadas t.elements := by
      rw [hantes]
      simp only [List.mem_append, List.mem_cons] at hu ⊢
      tauto
    rcases hcasos with rfl | hu
    · exact hus
    · exact (h.pasadas u hu).trans ha

theorem opSet_alDia {key : Clave} {valor : List UInt8} {r : Respuesta} (hcfg : ConfigDin cfg)
    (hp : 0 < cfg.ptrdata) (hd : Din cfg True t) (h : AlDia cfg ahora t)
    (ha : ahora ≤ e.relojGet) (hpis : SinPisar cfg (.set key valor) e t)
    (hper : SinPerder cfg (.set key valor) e t) (hr : opSet cfg e t key valor = some (t', r)) :
    (toca cfg (.set key valor) r = none ∧ AlDia cfg ahora t')
      ∨ (toca cfg (.set key valor) r = some key ∧ AlDia cfg e.relojGet t') := by
  unfold opSet at hr
  by_cases hmax : cfg.blockSizeMax < valor.length
  · rw [if_pos hmax] at hr
    obtain ⟨rfl, rfl⟩ := Prod.mk.inj (Option.some.inj hr)
    exact Or.inl ⟨rfl, h⟩
  · rw [if_neg hmax] at hr
    obtain ⟨⟨t₂, pos⟩, h1, hr⟩ := Option.bind_eq_some_iff.mp hr
    obtain ⟨t₃, h2, heq⟩ := Option.map_eq_some_iff.mp hr
    obtain ⟨rfl, rfl⟩ := Prod.mk.inj heq
    refine Or.inr ⟨rfl, ?_⟩
    unfold colocar at h1
    obtain ⟨t₁, hprev, hbs⟩ := Option.bind_eq_some_iff.mp h1
    simp only [hcfg.esquema] at hbs
    simp only [crear, hcfg.esquema] at h2
    have hd₁ : Din cfg True t₁ ∧ AlDia cfg ahora t₁ := by
      rcases quitarPrevio_casos hprev with ⟨rfl, -⟩ | hrem
      · exact ⟨hd, h⟩
      · exact ⟨micacheRemove_din' hd (fun _ => hper.1) hrem, micacheRemove_alDia hd hp h hrem⟩
    have hal := compactacion_alDia hcfg.chunk hp hd₁.1 hd₁.2 (hpis t₁ hprev) (hper.2 t₁ hprev) hbs
    obtain ⟨A, d, F, B, D, hl⟩ := compactacion_din hcfg.chunk hd₁.1 (hpis t₁ hprev)
      (fun _ => hper.2 t₁ hprev) hbs
    exact alta_alDia hcfg.chunk ha hl hal h2

theorem opGet_alDia {key : Clave} {r : Respuesta} (h : AlDia cfg ahora t)
    (ha : ahora ≤ e.relojGet) (hr : opGet cfg e t key = some (t', r)) :
    (toca cfg (.get key) r = none ∧ AlDia cfg ahora t')
      ∨ (toca cfg (.get key) r = some key ∧ AlDia cfg e.relojGet t') := by
  rcases opGet_casos hr with
    ⟨rfl, rfl, -⟩ | ⟨A, s, B, hes, hoc, -, -, rfl, ⟨halg, rfl⟩ | ⟨halg, rfl⟩⟩
  · exact Or.inl ⟨rfl, h⟩
  · exact Or.inl ⟨by simp [toca, halg], h⟩
  · exact Or.inr ⟨by simp [toca, halg], h.retoca hes hoc hoc rfl (le_refl _) ha⟩

theorem deleteOne_alDia {key : Clave} {b : Bool} (hd : Din cfg True t) (hp : 0 < cfg.ptrdata)
    (h : AlDia cfg ahora t) (hr : deleteOne t key = some (t', b)) : AlDia cfg ahora t' := by
  rcases deleteOne_casos hr with ⟨rfl, -⟩ | ⟨A, s, B, hes, hoc, -, h1⟩
  · exact h
  · have hus := h.pasadas s (mem_ocupadas.mpr ⟨by rw [hes]; simp, hoc⟩)
    exact micacheRemove_alDia (hd.retoque hes hoc (mismaForma_marcar false s)) hp
      (h.retoca (f := Rc.marcar false) hes hoc hoc rfl hus (le_refl _)) h1

theorem micacheClean_alDia (hd : Din cfg True t)
    (hseg : ∀ s ∈ t.elements, s.ocupado = true → bajaSegura t.sizeChunk s) :
    AlDia cfg ahora (micacheClean t) := by
  have hno := micacheClean_contenido t
  rw [contenido, List.map_eq_nil_iff] at hno
  refine ⟨?_, (micacheClean_cuenta hd hseg).ge, ?_⟩
  · rw [hno]
    rfl
  · intro s hs
    rw [hno] at hs
    cases hs

theorem cacheInitialize_alDia (cfg : Config) : AlDia cfg 0 (cacheInitialize cfg) := by
  have hno : ocupadas (cacheInitialize cfg).elements = [] := by
    refine List.eq_nil_iff_forall_not_mem.mpr fun s hs => ?_
    exact nomatch ((cacheInitialize_representa cfg).guardadas _ (List.mem_map_of_mem hs)).2
  refine ⟨?_, (cacheInitialize_cuenta cfg).ge, ?_⟩
  · rw [hno]
    rfl
  · intro s hs
    rw [hno] at hs
    cases hs

/-! ## Runs -/

/-- What a run keeps: the layout, the map, and the counters and readings. -/
structure Corriente (cfg : Config) (h : Historia) : Prop where
  din : Din cfg True h.tabla
  mapa : ∃ σ, Representa σ h.tabla
  alDia : AlDia cfg h.ahora h.tabla

/-- **ONE OPERATION** that overlaps no partitions and forgets no bytes, under
    a clock that has not gone back. -/
theorem Corriente.avanza {x : Op × Entorno} {h h' : Historia} (hcfg : ConfigDin cfg)
    (hp : 0 < cfg.ptrdata) (hco : Corriente cfg h) (hrel : RelojSube x h)
    (hpis : SinPisar cfg x.1 x.2 h.tabla) (hper : SinPerder cfg x.1 x.2 h.tabla)
    (hr : avanzar cfg x h = some h') : Corriente cfg h' := by
  obtain ⟨op, e⟩ := x
  obtain ⟨⟨t', r⟩, h1, rfl⟩ := Option.map_eq_some_iff.mp hr
  have hd := ejecutar_din hcfg hco.din hpis (fun _ => hper) h1
  have hm := ejecutar_representada hcfg hco.din hco.mapa hpis hper h1
  have hal := hco.alDia
  have ha : h.ahora ≤ e.relojGet := hrel.2.le
  cases op with
  | set key valor =>
      rcases opSet_alDia hcfg hp hco.din hal ha hpis hper h1 with ⟨htoca, hal'⟩ | ⟨htoca, hal'⟩
      · simp only [htoca]
        exact ⟨hd, hm, hal'⟩
      · simp only [htoca]
        exact ⟨hd, hm, hal'⟩
  | get key =>
      rcases opGet_alDia hal ha h1 with ⟨htoca, hal'⟩ | ⟨htoca, hal'⟩
      · simp only [htoca]
        exact ⟨hd, hm, hal'⟩
      · simp only [htoca]
        exact ⟨hd, hm, hal'⟩
  | delete key =>
      obtain ⟨⟨t₁, b⟩, h2, heq⟩ := Option.map_eq_some_iff.mp h1
      obtain ⟨rfl, -⟩ := Prod.mk.inj heq
      exact ⟨hd, hm, deleteOne_alDia hco.din hp hal h2⟩
  | flushAll =>
      obtain ⟨rfl, -⟩ := Prod.mk.inj (Option.some.inj h1)
      exact ⟨hd, hm, micacheClean_alDia hco.din hper⟩

end AlDia

end Rc
