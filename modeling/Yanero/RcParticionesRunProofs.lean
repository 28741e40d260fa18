import Yanero.RcCompactarProofs
import Yanero.RcReglas

/-! # Runs of the dynamic scheme

    The placement loop searches, compacts and replaces until a hole is found.
    `SinPisar` says that no turn of it, nor the creation that follows, takes
    one of the three branches that make partitions overlap; `SinPerder` says
    that no removal forgets bytes.  Runs that keep both tile the data area,
    and runs that keep the first are a lossy map. -/

namespace Rc

open Bucles Bytes Teselado

/-! ## The conditions of a step -/

/-- Every turn of the placement loop for `n` bytes meets its condition:
    `hallado` on the hole that ends it, `barrido` before a sweep, `baja` on
    the key of a replacement. -/
def EnCadaVuelta (cfg : Config) (e : Entorno) (n : Nat)
    (hallado : TableInfo → Nat → Nat → Int → Prop) (barrido : TableInfo → Prop)
    (baja : TableInfo → Clave → Prop) : Nat → Nat → TableInfo → Prop
  | 0, _, _ => True
  | vueltas + 1, fallidas, t =>
      (∀ h ∈ hueco cfg.algBusqueda t n, hallado t h.1 h.2.1 h.2.2) ∧
      (hueco cfg.algBusqueda t n = none →
        if ((fallidas + 1 : Nat) : Int) = cfg.frecuenciaCompactacion ∨ t.elementsAmount = 0 then
          barrido t ∧ ∀ t' ∈ barrer e.fuera e.vueltas 0 t,
            EnCadaVuelta cfg e n hallado barrido baja vueltas (fallidas + 1) t'
        else
          (∀ key ∈ victima (e.relojLru (fallidas + 1)) t, baja t key) ∧
            ∀ t' ∈ reemplazar (e.relojLru (fallidas + 1)) t,
              EnCadaVuelta cfg e n hallado barrido baja vueltas (fallidas + 1) t')

instance decidableEnCadaVuelta {cfg : Config} {e : Entorno} {n : Nat}
    {hallado : TableInfo → Nat → Nat → Int → Prop} {barrido : TableInfo → Prop}
    {baja : TableInfo → Clave → Prop} [∀ t p k total, Decidable (hallado t p k total)]
    [DecidablePred barrido] [∀ t key, Decidable (baja t key)] :
    ∀ (vueltas fallidas : Nat) (t : TableInfo),
      Decidable (EnCadaVuelta cfg e n hallado barrido baja vueltas fallidas t)
  | 0, _, _ => inferInstanceAs (Decidable True)
  | vueltas + 1, fallidas, _ =>
      have : ∀ t', Decidable (EnCadaVuelta cfg e n hallado barrido baja vueltas
        (fallidas + 1) t') :=
        fun t' => decidableEnCadaVuelta vueltas (fallidas + 1) t'
      inferInstanceAs (Decidable (_ ∧ (_ → _)))

/-- The operation takes no branch that makes partitions overlap. -/
def SinPisar (cfg : Config) (op : Op) (e : Entorno) (t : TableInfo) : Prop :=
  match op with
  | .set key valor => ∀ t' ∈ quitarPrevio t key,
      EnCadaVuelta cfg e valor.length
        (fun t p k total => huecoSeguro t p k
          ∧ altaSegura cfg.chunkSize t p k total valor.length)
        barridoSeguro (fun _ _ => True) e.vueltas 0 t'
  | .get _ | .delete _ | .flushAll => True

instance (cfg : Config) (op : Op) (e : Entorno) (t : TableInfo) :
    Decidable (SinPisar cfg op e t) :=
  match op with
  | .set key valor => inferInstanceAs (Decidable (∀ t' ∈ quitarPrevio t key,
      EnCadaVuelta cfg e valor.length
        (fun t p k total => huecoSeguro t p k
          ∧ altaSegura cfg.chunkSize t p k total valor.length)
        barridoSeguro (fun _ _ => True) e.vueltas 0 t'))
  | .get _ | .delete _ | .flushAll => inferInstanceAs (Decidable True)

/-- The removal of a key gives back all the bytes of its slot. -/
def bajaCompleta (t : TableInfo) (key : Clave) : Prop :=
  ∀ s ∈ t.elements, s.ocupado = true → s.item.key = key → bajaSegura t.sizeChunk s

instance (t : TableInfo) (key : Clave) : Decidable (bajaCompleta t key) :=
  inferInstanceAs (Decidable (∀ s ∈ t.elements, s.ocupado = true → s.item.key = key →
    bajaSegura t.sizeChunk s))

/-- No removal of the operation forgets bytes. -/
def SinPerder (cfg : Config) (op : Op) (e : Entorno) (t : TableInfo) : Prop :=
  match op with
  | .set key valor => bajaCompleta t key ∧ ∀ t' ∈ quitarPrevio t key,
      EnCadaVuelta cfg e valor.length (fun _ _ _ _ => True) (fun _ => True) bajaCompleta
        e.vueltas 0 t'
  | .delete key => bajaCompleta t key
  | .flushAll => ∀ s ∈ t.elements, s.ocupado = true → bajaSegura t.sizeChunk s
  | .get _ => True

instance (cfg : Config) (op : Op) (e : Entorno) (t : TableInfo) :
    Decidable (SinPerder cfg op e t) :=
  match op with
  | .set key valor => inferInstanceAs (Decidable (bajaCompleta t key
      ∧ ∀ t' ∈ quitarPrevio t key, EnCadaVuelta cfg e valor.length (fun _ _ _ _ => True)
        (fun _ => True) bajaCompleta e.vueltas 0 t'))
  | .delete key => inferInstanceAs (Decidable (bajaCompleta t key))
  | .flushAll => inferInstanceAs (Decidable (∀ s ∈ t.elements, s.ocupado = true →
      bajaSegura t.sizeChunk s))
  | .get _ => inferInstanceAs (Decidable True)

section Operaciones

variable {cfg : Config} {exacto : Prop} {t t' : TableInfo}

/-! ## Placement -/

/-- The chunk of the table is the one of the configuration. -/
theorem Din.chunk_eq (h : Din cfg exacto t) : t.sizeChunk = cfg.chunkSize := by
  obtain ⟨L, D, h⟩ := h
  exact h.chunk

/-- The tiling does not see the data area. -/
theorem Din.memoria (h : Din cfg exacto t) (m : Nat → UInt8) :
    Din cfg exacto { t with memoria := m } := by
  obtain ⟨L, D, h⟩ := h
  exact ⟨L, D, h.chunk, h.tabla, h.muertas, h.bien, h.cabe, h.slots, h.suma⟩

/-- A removal, when the bytes of the slot matter. -/
theorem micacheRemove_din' {key : Clave} (h : Din cfg exacto t)
    (hseg : exacto → bajaCompleta t key) (hr : micacheRemove t key = some t') :
    Din cfg exacto t' := by
  refine micacheRemove_din h ?_ hr
  intro he s hs ho hk
  rw [← h.chunk_eq]
  exact hseg he s hs ho hk

/-- An eviction keeps the tiling, exactly when the item gives all its bytes back. -/
theorem reemplazar_din {ahora : Nat} (h : Din cfg exacto t)
    (hseg : exacto → ∀ key, victima ahora t = some key → bajaCompleta t key)
    (hr : reemplazar ahora t = some t') : Din cfg exacto t' := by
  obtain ⟨key, t₁, hv, hr₁, rfl⟩ := reemplazar_remove hr
  obtain ⟨L, D, h₁⟩ := micacheRemove_din' h (fun he => hseg he key hv) hr₁
  exact ⟨L, D, h₁.chunk, h₁.tabla, h₁.muertas, h₁.bien, h₁.cabe, h₁.slots, h₁.suma⟩

/-- A place found after something else left. -/
theorem LugarDin.previo {t₀ : TableInfo} {n i : Nat} {A B D : List Particion} {a : Nat}
    {F : Int} (h : LugarDin cfg exacto t t' n i A a F B D)
    (hs : (contenido t).Sublist (contenido t₀))
    (hreg : Registra (·.1) t₀.bitacora (contenido t₀) t.bitacora (contenido t)) :
    LugarDin cfg exacto t₀ t' n i A a F B D :=
  ⟨h.inv, h.pos, h.cabe, h.resto, h.entradas.trans hs, hreg.trans h.registra⟩

/-- A placement adds no item. -/
theorem LugarDin.contenido_sublist {t₀ : TableInfo} {n i : Nat} {A B D : List Particion}
    {a : Nat} {F : Int} (h : LugarDin cfg exacto t₀ t n i A a F B D) :
    (contenido t).Sublist (contenido t₀) := by
  have := h.entradas
  rw [contenido, h.inv.ocupadas_eq]
  simpa using this

section Vueltas

variable {e : Entorno} {n v j : Nat} {hallado : TableInfo → Nat → Nat → Int → Prop}
  {barrido : TableInfo → Prop} {baja : TableInfo → Clave → Prop}

/-- The turn that finds a place. -/
theorem EnCadaVuelta.halla {p k : Nat} {total : Int}
    (h : EnCadaVuelta cfg e n hallado barrido baja (v + 1) j t)
    (hh : hueco cfg.algBusqueda t n = some (p, k, total)) : hallado t p k total :=
  h.1 (p, k, total) hh

/-- The turn that sweeps. -/
theorem EnCadaVuelta.barre (h : EnCadaVuelta cfg e n hallado barrido baja (v + 1) j t)
    (hh : hueco cfg.algBusqueda t n = none)
    (hc : ((j + 1 : Nat) : Int) = cfg.frecuenciaCompactacion ∨ t.elementsAmount = 0)
    (hr : barrer e.fuera e.vueltas 0 t = some t') :
    barrido t ∧ EnCadaVuelta cfg e n hallado barrido baja v (j + 1) t' := by
  have h' := h.2 hh
  rw [if_pos hc] at h'
  exact ⟨h'.1, h'.2 t' hr⟩

/-- The turn that evicts. -/
theorem EnCadaVuelta.quita (h : EnCadaVuelta cfg e n hallado barrido baja (v + 1) j t)
    (hh : hueco cfg.algBusqueda t n = none)
    (hc : ¬ (((j + 1 : Nat) : Int) = cfg.frecuenciaCompactacion ∨ t.elementsAmount = 0))
    (hr : reemplazar (e.relojLru (j + 1)) t = some t') :
    (∀ key, victima (e.relojLru (j + 1)) t = some key → baja t key)
      ∧ EnCadaVuelta cfg e n hallado barrido baja v (j + 1) t' := by
  have h' := h.2 hh
  rw [if_neg hc] at h'
  exact ⟨h'.1, h'.2 t' hr⟩

end Vueltas

/-- **PLACEMENT**: away from its slips, the loop returns a hole that fits and
    keeps the layout; it may drop entries and changes none. -/
theorem compactacion_din {e : Entorno} {n vueltas fallidas i : Nat} {t₀ : TableInfo}
    (hc : 0 < cfg.chunkSize) (h : Din cfg exacto t₀)
    (hpis : EnCadaVuelta cfg e n
      (fun t p k total => huecoSeguro t p k ∧ altaSegura cfg.chunkSize t p k total n)
      barridoSeguro (fun _ _ => True) vueltas fallidas t₀)
    (hper : exacto → EnCadaVuelta cfg e n (fun _ _ _ _ => True) (fun _ => True) bajaCompleta
      vueltas fallidas t₀)
    (hr : compactacion cfg e n vueltas fallidas t₀ = some (t', i)) :
    ∃ A a F B D, LugarDin cfg exacto t₀ t' n i A a F B D := by
  refine compactacion_regla
    (P := fun v j t => Din cfg exacto t
      ∧ EnCadaVuelta cfg e n
        (fun t p k total => huecoSeguro t p k ∧ altaSegura cfg.chunkSize t p k total n)
        barridoSeguro (fun _ _ => True) v j t
      ∧ (exacto → EnCadaVuelta cfg e n (fun _ _ _ _ => True) (fun _ => True) bajaCompleta v j t)
      ∧ (contenido t).Sublist (contenido t₀)
      ∧ Registra (·.1) t₀.bitacora (contenido t₀) t.bitacora (contenido t))
    (Q := fun t' i => ∃ A a F B D, LugarDin cfg exacto t₀ t' n i A a F B D)
    ?_ ?_ ?_ vueltas fallidas
    ⟨h, hpis, hper, List.Sublist.refl _, Registra.of_subset rfl fun _ hx => hx⟩ hr
  · rintro v j t p k total ⟨hd, hp, -, hsub, hreg⟩ hh
    obtain ⟨hseg, halta⟩ := hp.halla hh
    obtain ⟨-, -, A, a, B, D, hl⟩ := unirHueco_lugar hc hd hh hseg halta
    exact ⟨A, a, total, B, D, hl.previo hsub hreg⟩
  · rintro v j t t₁ ⟨hd, hp, hq, hsub, hreg⟩ hh hcond h1
    obtain ⟨hseg, hp'⟩ := hp.barre hh hcond h1
    obtain ⟨hd', hcon⟩ := barrer_din hd hseg h1
    refine ⟨hd', hp', fun he => ((hq he).barre hh hcond h1).2, by rw [hcon]; exact hsub, ?_⟩
    exact hreg.trans (Registra.of_subset (barrer_bitacora h1) (by rw [hcon]; exact fun _ hx => hx))
  · rintro v j t t₁ ⟨hd, hp, hq, hsub, hreg⟩ hh hcond h1
    have hdes := reemplazar_desaloja h1
    refine ⟨reemplazar_din hd (fun he => ((hq he).quita hh hcond h1).1) h1,
      (hp.quita hh hcond h1).2, fun he => ((hq he).quita hh hcond h1).2,
      hdes.quita.contenido.trans hsub, hreg.trans hdes.contenido⟩

/-! ## The operations -/

/-- **SET on a placed slot**: creation, copy, `store_info` and `item_release`
    keep the layout, add the new entry and change no other. -/
theorem alta_din {t₀ : TableInfo} {fuera : Nat → Particion} {ahora i : Nat} {key : Clave}
    {valor : List UInt8} {A B D : List Particion} {a : Nat} {F : Int} (hc : 0 < cfg.chunkSize)
    (h : LugarDin cfg exacto t₀ t valor.length i A a F B D)
    (hr : itemRelease (storeInfo (copiarValor
      (micacheCreateElement fuera ahora t key i valor.length cfg.chunkSize) i valor) i) i
      = some t') :
    Din cfg exacto t' ∧ ∃ X Y, contenido t' = X ++ (key, true, valor) :: Y
      ∧ X ++ Y = contenido t := by
  obtain ⟨A₀, o, R, B', D', hes, rfl, hA, hR, hoc, hkey, hnd, hoB, hinv⟩ :=
    (micacheCreateElement_din fuera ahora key hc h).tabla
  obtain ⟨hm, -⟩ := micacheCreateElement_resto t fuera ahora key A₀.length valor.length
    cfg.chunkSize
  constructor
  · have ht' := guardar_eq hes hr
    have hd : Din cfg exacto _ := (Din.memoria ⟨_, _, hinv⟩
      (escribir (micacheCreateElement fuera ahora t key A₀.length valor.length
        cfg.chunkSize).memoria o.item.data valor)).retoque hes hoc (mismaForma_marcar true o)
    rw [ht']
    simpa only [TableInfo.modificar, hes, modify_mitad] using hd
  · obtain ⟨X, Y, hc', hXY⟩ := guardar_contenido hes hA hR hinv.muertas hoc hnd hinv.cabe
      hinv.no_negativa (fun s hs ho => (hinv.bien s hs).ndata_le ho) hr
    refine ⟨X, Y, by rw [hc', hkey], ?_⟩
    rw [hXY, hm, hoB, contenido, h.inv.ocupadas_eq]
    simp

/-- A SET keeps the tiling. -/
theorem opSet_din {e : Entorno} {key : Clave} {valor : List UInt8} {r : Respuesta}
    (hesq : cfg.esquema = .particionesDinamicas) (hc : 0 < cfg.chunkSize)
    (h : Din cfg exacto t) (hpis : SinPisar cfg (.set key valor) e t)
    (hper : exacto → SinPerder cfg (.set key valor) e t)
    (hr : opSet cfg e t key valor = some (t', r)) :
    Din cfg exacto t' ∧ (valor.length ≤ cfg.blockSizeMax →
      ∀ σ, Representa σ t → Representa (conValor σ key (some valor)) t') := by
  unfold opSet at hr
  by_cases hmax : cfg.blockSizeMax < valor.length
  · rw [if_pos hmax] at hr
    obtain ⟨rfl, -⟩ := Prod.mk.inj (Option.some.inj hr)
    exact ⟨h, fun hle => absurd hmax (by omega)⟩
  · rw [if_neg hmax] at hr
    obtain ⟨⟨t₂, pos⟩, h1, hr⟩ := Option.bind_eq_some_iff.mp hr
    obtain ⟨t₃, h2, heq⟩ := Option.map_eq_some_iff.mp hr
    obtain ⟨rfl, -⟩ := Prod.mk.inj heq
    unfold colocar at h1
    obtain ⟨t₁, hprev, hbs⟩ := Option.bind_eq_some_iff.mp h1
    simp only [hesq] at hbs
    simp only [crear, hesq] at h2
    have hd₁ : Din cfg exacto t₁ := by
      rcases quitarPrevio_casos hprev with ⟨rfl, -⟩ | hrem
      · exact h
      · exact micacheRemove_din' h (fun he => (hper he).1) hrem
    obtain ⟨A, a, F, B, D, hl⟩ := compactacion_din hc hd₁ (hpis t₁ hprev)
      (fun he => (hper he).2 t₁ hprev) hbs
    obtain ⟨hd, X, Y, hcon, hXY⟩ := alta_din hc hl h2
    refine ⟨hd, fun _ σ hσ => ?_⟩
    obtain ⟨hσ₁, hno⟩ := quitarPrevio_representa hσ hprev
    exact representa_alta hσ₁ hno hcon (by rw [hXY]; exact hl.contenido_sublist)

/-- So does a GET. -/
theorem opGet_din {e : Entorno} {key : Clave} {r : Respuesta} (h : Din cfg exacto t)
    (hr : opGet cfg e t key = some (t', r)) : Din cfg exacto t' := by
  rcases opGet_casos hr with ⟨rfl, -, -⟩ | ⟨A, s, B, hes, hoc, -, -, -, ⟨-, rfl⟩ | ⟨-, rfl⟩⟩
  · exact h
  · exact h
  · exact h.retoque hes hoc (mismaForma_usar _ s)

/-- So does a DELETE. -/
theorem deleteOne_din {key : Clave} {b : Bool} (h : Din cfg exacto t)
    (hper : exacto → bajaCompleta t key) (hr : deleteOne t key = some (t', b)) :
    Din cfg exacto t' := by
  rcases deleteOne_casos hr with ⟨rfl, -⟩ | ⟨A, s, B, hes, hoc, hkey, h1⟩
  · exact h
  · refine micacheRemove_din' (h.retoque hes hoc (mismaForma_marcar _ s)) ?_ h1
    intro he u hu ho hk
    simp only [TableInfo.modificar, hes, modify_mitad] at hu
    have hmem : u ∈ A ++ s :: B ∨ u = marcar false s := by
      simp only [List.mem_append, List.mem_cons] at hu ⊢
      tauto
    rcases hmem with hmem | rfl
    · exact hper he u (by rw [hes]; exact hmem) ho hk
    · exact hper he s (by rw [hes]; simp) hoc hkey

/-! ## Whole runs -/

/-- A configuration of the dynamic scheme, with room for one chunk. -/
structure ConfigDin (cfg : Config) : Prop where
  esquema : cfg.esquema = .particionesDinamicas
  chunk : 0 < cfg.chunkSize
  entra : cfg.chunkSize ≤ cfg.blockSizeMax

/-- A new cache is one free partition. -/
theorem cacheInitialize_din (hcfg : ConfigDin cfg) : Din cfg exacto (cacheInitialize cfg) := by
  have hdiv : 0 < cfg.blockSizeMax / cfg.chunkSize := Nat.div_pos hcfg.entra hcfg.chunk
  obtain ⟨N, hN⟩ : ∃ N, cfg.blockSizeMax / cfg.chunkSize = N + 1 :=
    ⟨cfg.blockSizeMax / cfg.chunkSize - 1, by omega⟩
  have hle : (cfg.chunkSize : Int) ≤ cfg.blockSizeMax := by exact_mod_cast hcfg.entra
  refine ⟨[libre cfg.ptrdata cfg.blockSizeMax], List.replicate N Particion.vacia, rfl, ?_, ?_,
    ?_, ?_, ?_, ?_⟩
  · simp [vista, cacheInitialize, hN, List.replicate_succ, limpia, libre, Particion.vacia]
  · intro s hs
    obtain rfl := List.eq_of_mem_replicate hs
    exact ⟨rfl, rfl, rfl⟩
  · intro s hs
    obtain rfl := List.mem_singleton.mp hs
    exact bienDin_libre hle
  · simp
  · simp only [List.length_singleton, List.length_replicate]
    omega
  · intro _
    simp

/-- One complete operation keeps the layout. -/
theorem ejecutar_din {op : Op} {e : Entorno} {r : Respuesta} (hcfg : ConfigDin cfg)
    (h : Din cfg exacto t) (hpis : SinPisar cfg op e t) (hper : exacto → SinPerder cfg op e t)
    (hr : ejecutar cfg op e t = some (t', r)) : Din cfg exacto t' := by
  cases op with
  | set key valor => exact (opSet_din hcfg.esquema hcfg.chunk h hpis hper hr).1
  | get key => exact opGet_din h hr
  | delete key =>
      obtain ⟨⟨t₁, b⟩, h1, heq⟩ := Option.map_eq_some_iff.mp hr
      obtain ⟨rfl, -⟩ := Prod.mk.inj heq
      exact deleteOne_din h hper h1
  | flushAll =>
      obtain ⟨rfl, -⟩ := Prod.mk.inj (Option.some.inj hr)
      refine micacheClean_din hcfg.chunk h ?_
      intro he s hs ho
      rw [← h.chunk_eq]
      exact hper he s hs ho

/-- One complete operation follows the map. -/
theorem ejecutar_din_mapa {op : Op} {e : Entorno} {hist : List Op} {r : Respuesta}
    (hcfg : ConfigDin cfg) (h : Din cfg False t) (hrep : Representa (fun k => ultimoSet k hist) t)
    (hval : ValorEntra cfg 0 op) (hpis : SinPisar cfg op e t)
    (hr : ejecutar cfg op e t = some (t', r)) :
    Representa (fun k => ultimoSet k (hist ++ [op])) t' := by
  refine ejecutar_representa hrep ?_ hr
  rintro key valor rfl
  exact (opSet_din hcfg.esquema hcfg.chunk h hpis (fun he => he.elim) hr).2 hval.2 _ hrep

end Operaciones

/-! ## What the runs satisfy -/

/-- The live slots, in order, cover the data area without gaps; so occupied
    partitions lie apart. -/
structure EstadoDin (cfg : Config) (t : TableInfo) : Prop where
  tesela : Tesela inicio (largoDin cfg.chunkSize) cfg.ptrdata (t.elements.filter (·.viva))
    (cfg.ptrdata + cfg.blockSizeMax)
  separadas : (t.elements.filter (·.ocupado)).Pairwise fun s s' =>
    inicio s + largoDin cfg.chunkSize s ≤ inicio s'

/-- Cleaning a slot keeps its length. -/
theorem largoDin_limpia (c : Nat) (s : Particion) : largoDin c (limpia s) = largoDin c s := by
  cases h : s.ocupado with
  | true => rw [limpia_of_ocupado h]
  | false => rw [largoDin_of_libre h, largoDin_of_libre (by simpa using h)]; simp

/-- The exact tiling says what `EstadoDin` asks. -/
theorem Din.estado {cfg : Config} {t : TableInfo} (hc : 0 < cfg.chunkSize)
    (h : Din cfg True t) : EstadoDin cfg t := by
  obtain ⟨L, D, h⟩ := h
  have hviv := h.vivas hc
  constructor
  · have htes := tesela_of_cabe h.cabe (by rw [h.suma trivial])
    rw [← hviv] at htes
    refine (tesela_map (g := limpia) ?_ ?_).mp htes
    · intro s; simp [inicio]
    · intro s; exact largoDin_limpia _ s
  · have hoc : t.elements.filter (·.ocupado) = L.filter (·.ocupado) := h.ocupadas_eq
    rw [hoc]
    exact (cabe_pairwise h.cabe h.no_negativa).sublist List.filter_sublist

/-- **THE DYNAMIC SCHEME TILES** the data area after every run none of whose
    operations takes a branch that overlaps partitions or forgets bytes. -/
theorem din_estado {cfg : Config} {ops : List (Op × Entorno)} {t : TableInfo}
    (hcfg : ConfigDin cfg)
    (hops : Cumple cfg (fun op e t => ClaveCorta op ∧ SinPisar cfg op e t ∧ SinPerder cfg op e t)
      ops (cacheInitialize cfg))
    (hr : correr cfg ops (cacheInitialize cfg) = some t) : EstadoDin cfg t := by
  have := correr_regla (P := fun _ t => Din cfg True t)
    (fun hop h hr => ejecutar_din hcfg h hop.2.1 (fun _ => hop.2.2) hr) ops []
    (cacheInitialize_din hcfg) hops hr
  exact this.estado hcfg.chunk

/-- Five chunks of two bytes; `frecuencia` failed searches bring a sweep. -/
def cacheDiez (frecuencia : Int) : Config :=
  { esquema := .particionesDinamicas, algBusqueda := .firstFit, algReemplazo := .lru
    frecuenciaCompactacion := frecuencia, blockSizeMax := 10, chunkSize := 2, ptrdata := 100 }

theorem cacheDiez_config (frecuencia : Int) : ConfigDin (cacheDiez frecuencia) :=
  ⟨rfl, by simp [cacheDiez], by simp [cacheDiez]⟩

/-- Zeroed memory past the table, and a clock. -/
def entornoDiez : Entorno :=
  { fuera := fun _ => Particion.vacia, antes := fun _ => Particion.vacia
    relojLru := fun n => 10 + n, relojGet := 5, vueltas := 20 }

/-- The last item fits only after a sweep has moved the second one. -/
def pedidosBarridos : List (Op × Entorno) :=
  [(.set [1] [1, 1, 1, 1], entornoDiez), (.set [2] [2, 2, 2, 2], entornoDiez),
   (.delete [1], entornoDiez), (.set [3] [3, 3, 3, 3, 3], entornoDiez)]

theorem din_estado_barridos : ∃ t,
    correr (cacheDiez 1) pedidosBarridos (cacheInitialize (cacheDiez 1)) = some t
      ∧ EstadoDin (cacheDiez 1) t := by
  have hsome : (correr (cacheDiez 1) pedidosBarridos
      (cacheInitialize (cacheDiez 1))).isSome = true := by decide
  obtain ⟨t, ht⟩ := Option.isSome_iff_exists.mp hsome
  exact ⟨t, ht, din_estado (cacheDiez_config 1) (by decide) ht⟩

/-- The last item leaves one byte over, before a free slot. -/
def pedidosPisan : List (Op × Entorno) :=
  [(.set [1] [1, 1, 1], entornoDiez), (.set [2] [2, 2, 2, 2], entornoDiez),
   (.delete [1], entornoDiez), (.delete [2], entornoDiez), (.set [4] [4, 4], entornoDiez)]

/-- **THE TILING FAILS**: the free slot after the new item starts inside its
    unusable bytes. -/
theorem din_estado_falla : ∃ t,
    correr (cacheDiez (-1)) pedidosPisan (cacheInitialize (cacheDiez (-1))) = some t
      ∧ ¬ EstadoDin (cacheDiez (-1)) t := by
  have hno : (correr (cacheDiez (-1)) pedidosPisan (cacheInitialize (cacheDiez (-1)))).map
      (fun t => decide (Tesela inicio (largoDin 2) 100 (t.elements.filter (·.viva)) (100 + 10)))
      = some false := by decide
  obtain ⟨t, ht, hdec⟩ := Option.map_eq_some_iff.mp hno
  exact ⟨t, ht, fun h => of_decide_eq_false hdec h.tesela⟩

/-- **THE DYNAMIC SCHEME IS A LOSSY MAP** after every run none of whose
    operations takes a branch that overlaps partitions. -/
theorem din_mapa {cfg : Config} {ops : List (Op × Entorno)} {t : TableInfo}
    (hcfg : ConfigDin cfg)
    (hops : Cumple cfg (fun op e t => ClaveCorta op ∧ ValorEntra cfg 0 op ∧ SinPisar cfg op e t)
      ops (cacheInitialize cfg))
    (hr : correr cfg ops (cacheInitialize cfg) = some t) :
    ∀ e key t' r, opGet cfg e t key = some (t', r) →
      r = .keyEnoent ∨ ∃ v, r = .valor v ∧ ultimoSet key (ops.map Prod.fst) = some v := by
  have := correr_regla
    (P := fun hist t => Din cfg False t ∧ Representa (fun k => ultimoSet k hist) t)
    (fun hop h hr => ⟨ejecutar_din hcfg h.1 hop.2.2 (fun he => he.elim) hr,
      ejecutar_din_mapa hcfg h.1 h.2 hop.2.1 hop.2.2 hr⟩) ops []
    ⟨cacheInitialize_din hcfg, cacheInitialize_representa cfg⟩ hops hr
  intro e key t' r hget
  have hrep : Representa (fun k => ultimoSet k (ops.map Prod.fst)) t := by simpa using this.2
  exact (opGet_representa hrep hget).2

theorem din_mapa_barridos : ∃ t t' r,
    correr (cacheDiez 1) pedidosBarridos (cacheInitialize (cacheDiez 1)) = some t
      ∧ opGet (cacheDiez 1) entornoDiez t [2] = some (t', r)
      ∧ (r = .keyEnoent ∨ ∃ v, r = .valor v
        ∧ ultimoSet [2] (pedidosBarridos.map Prod.fst) = some v) := by
  have hsome : ((correr (cacheDiez 1) pedidosBarridos (cacheInitialize (cacheDiez 1))).bind
      fun t => opGet (cacheDiez 1) entornoDiez t [2]).isSome = true := by decide
  obtain ⟨⟨t', r⟩, h⟩ := Option.isSome_iff_exists.mp hsome
  obtain ⟨t, ht, hget⟩ := Option.bind_eq_some_iff.mp h
  exact ⟨t, t', r, ht, hget, din_mapa (cacheDiez_config 1) (by decide) ht _ _ _ _ hget⟩

/-- The free slot that starts too early is filled, and then the bytes before
    it are given out again. -/
def pedidosMezclan : List (Op × Entorno) :=
  pedidosPisan ++ [(.set [5] [5, 5, 5, 5], entornoDiez), (.delete [4], entornoDiez),
    (.set [6] [6, 6, 6], entornoDiez)]

/-- **A GET RETURNS BYTES OF ANOTHER KEY**. -/
theorem din_mapa_falla : ∃ t t',
    correr (cacheDiez (-1)) pedidosMezclan (cacheInitialize (cacheDiez (-1))) = some t
      ∧ opGet (cacheDiez (-1)) entornoDiez t [5] = some (t', .valor [6, 5, 5, 5])
      ∧ ultimoSet [5] (pedidosMezclan.map Prod.fst) = some [5, 5, 5, 5] := by
  have hval : ((correr (cacheDiez (-1)) pedidosMezclan (cacheInitialize (cacheDiez (-1)))).bind
      fun t => opGet (cacheDiez (-1)) entornoDiez t [5]).map Prod.snd
      = some (.valor [6, 5, 5, 5]) := by decide
  obtain ⟨⟨t', r⟩, h, rfl⟩ := Option.map_eq_some_iff.mp hval
  obtain ⟨t, ht, hget⟩ := Option.bind_eq_some_iff.mp h
  exact ⟨t, t', ht, hget, by decide⟩

end Rc
