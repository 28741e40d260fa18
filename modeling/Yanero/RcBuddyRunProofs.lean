import Yanero.RcBuddyProofs
import Yanero.RcMapaProofs

/-! # Runs of the buddy scheme

    From the steps of `RcBuddyProofs` to whole runs: the placement loop ends
    on a block that fits, the creation routine makes it an occupied block of
    the same length, and every complete operation keeps both the blocks and
    the map the cache stands for. -/

namespace Rc

open Bucles Bytes Teselado

section Operaciones

variable {cfg : Config} {exacto : Prop} {t t' : TableInfo}

/-! ## Placement -/

/-- The items are in the tiling. -/
theorem BuddyInv.ocupadas_eq {L D : List Particion} (h : BuddyInv cfg exacto t L D) :
    Rc.ocupadas t.elements = Rc.ocupadas L := by
  rw [← ocupadas_vista, h.tabla, ocupadas_append, ocupadas_muertas h.muertas, List.append_nil]

/-- A placement after a step that only drops items. -/
theorem Lugar.previo {t₀ : TableInfo} {n i : Nat} {A B D : List Particion} {a : Nat} {F : Int}
    (h : Lugar cfg exacto t t' n i A a F B D) (hq : SoloDesaloja t₀ t) :
    Lugar cfg exacto t₀ t' n i A a F B D :=
  ⟨h.inv, h.pos, h.cabe, h.justo, h.ocupadas.trans hq.quita.1, h.memoria.trans hq.quita.2,
    hq.registra.trans h.registra⟩

/-- The search finds a free block and halves it until it is tight. -/
theorem buscarHueco_buddy {e : Entorno} {n i : Nat} (hc : 0 < cfg.chunkSize) (hn : 0 < n)
    (h : Buddy cfg exacto t) (hr : buscarHueco e t n = some (some (t', i))) :
    ∃ A a F B D, Lugar cfg exacto t t' n i A a F B D := by
  obtain ⟨L, D, hinv⟩ := h
  unfold buscarHueco at hr
  cases hh : huecoBuddy t n with
  | none => rw [hh] at hr; exact nomatch hr
  | some j =>
      obtain ⟨A₀, s₀, R₀, hes, rfl, hs, -⟩ := findIdx?_parte hh
      simp only [Bool.and_eq_true, Bool.not_eq_true', decide_eq_true_eq] at hs
      have hget : t.elements.getD A₀.length Particion.vacia = s₀ := by
        rw [hes]; exact getD_mitad _ _ _ _
      rw [hh] at hr
      simp only [hget] at hr
      obtain ⟨t₁, hp, heq⟩ := Option.map_eq_some_iff.mp hr
      obtain ⟨rfl, rfl⟩ := Prod.mk.inj (Option.some.inj heq)
      -- `n` is positive, so the slot found is a live one
      obtain ⟨B, rfl, -⟩ := hinv.parte hes (fun hm => by have := hm.2.1; omega)
      have hlib : limpia s₀ = libre s₀.item.data s₀.bytesDisponibles := by
        refine limpia_of_libre hs.1 ?_
        rw [← limpia_inutilizados]
        exact (hinv.bien (limpia s₀) (by simp)).libre (by simpa using hs.1)
      have hsol := hinv.soltar (by simpa using hs.1)
      have hoc := hinv.ocupadas_eq
      rw [List.length_map, hlib] at hsol
      rw [hlib, ocupadas_append, ocupadas_libre] at hoc
      obtain ⟨F', B', D', hl⟩ := partir_buddy hc (List.length_map _) e.vueltas hsol
        hs.2 (Or.inl rfl) hoc.symm rfl rfl hp
      exact ⟨_, _, _, _, _, hl⟩

/-- **PLACEMENT**: merging, replacing and searching again, the loop returns a
    block that fits. -/
theorem buddysystem_buddy {e : Entorno} {nbytes : Nat} (hp : 0 < cfg.ptrdata)
    (hc : 0 < cfg.chunkSize) (hn : 0 < nbytes) :
    ∀ (vueltas n : Nat) {t t' : TableInfo} {i : Nat}, Buddy cfg exacto t →
      buddysystem e nbytes vueltas n t = some (t', i) →
      ∃ A a F B D, Lugar cfg exacto t t' nbytes i A a F B D := by
  intro vueltas
  induction vueltas with
  | zero => intro n t t' i _ h; exact nomatch h
  | succ v ih =>
      intro n t t' i h hr
      obtain ⟨r₁, h1, hr₁⟩ := Option.bind_eq_some_iff.mp hr
      cases r₁ with
      | some r =>
          obtain rfl := Option.some.inj hr₁
          exact buscarHueco_buddy hc hn h h1
      | none =>
          obtain ⟨t₁, h2, hr₂⟩ := Option.bind_eq_some_iff.mp hr₁
          obtain ⟨hb₁, hq₁⟩ := unirTodasLasHermanas_buddy e.vueltas h h2
          obtain ⟨r₃, h3, hr₃⟩ := Option.bind_eq_some_iff.mp hr₂
          cases r₃ with
          | some r =>
              obtain rfl := Option.some.inj hr₃
              obtain ⟨A, a, F, B, D, hl⟩ := buscarHueco_buddy hc hn hb₁ h3
              exact ⟨A, a, F, B, D, hl.previo hq₁⟩
          | none =>
              by_cases he : t₁.elementsAmount ≠ 0
              · simp only [if_pos he] at hr₃
                obtain ⟨t₂, h4, hr₄⟩ := Option.bind_eq_some_iff.mp hr₃
                obtain ⟨A, a, F, B, D, hl⟩ := ih (n + 1) (reemplazar_buddy hp hb₁ h4) hr₄
                exact ⟨A, a, F, B, D, hl.previo (hq₁.trans (reemplazar_desaloja h4))⟩
              · simp only [if_neg he] at hr₃
                obtain ⟨A, a, F, B, D, hl⟩ := ih (n + 1) hb₁ hr₃
                exact ⟨A, a, F, B, D, hl.previo hq₁⟩

/-! ## Creation -/

/-- The slot `buddy_create_element` makes of slot `x`. -/
def creadaBuddy (ahora : Nat) (key : Clave) (n : Nat) (x : Particion) : Particion :=
  { x with
    item := { x.item with key := key, ndata := n }
    ocupado := true
    ultimaVezUsada := ahora
    bytesInutilizados := x.bytesDisponibles - n
    bytesDisponibles := 0 }

/-- A new element changes its slot and no other. -/
theorem buddyCreateElement_eq (ahora : Nat) (key : Clave) (n : Nat) {A R : List Particion}
    {x : Particion} (hes : t.elements = A ++ x :: R) :
    buddyCreateElement ahora t key A.length n
      = { t with
          elements := A ++ creadaBuddy ahora key n x :: R
          espacioLibre := t.espacioLibre - (if n < t.sizeChunk then (t.sizeChunk : Int)
            else n + (x.bytesDisponibles - n))
          elementsAmount := t.elementsAmount + 1 } := by
  simp only [buddyCreateElement, lruGet, TableInfo.modificar, hes, modify_mitad, getD_mitad,
    creadaBuddy]

/-- It is as long as the free slot was. -/
theorem largoBuddy_creada {c n : Nat} (ahora : Nat) (key : Clave) {x : Particion} {F : Int}
    (hx : x.bytesDisponibles = F) (hF : (c : Int) ≤ F) (hn : (n : Int) ≤ F) :
    largoBuddy c (creadaBuddy ahora key n x) ≤ F
      ∧ (c : Int) ≤ largoBuddy c (creadaBuddy ahora key n x)
      ∧ (n : Int) ≤ largoBuddy c (creadaBuddy ahora key n x)
      ∧ ((n < c → F = c) → largoBuddy c (creadaBuddy ahora key n x) = F) := by
  rw [largoBuddy_of_ocupado rfl]
  by_cases h : n < c
  · simp only [bytesLiberados, creadaBuddy, h, if_true]
    exact ⟨hF, le_refl _, by omega, fun hj => (hj trivial).symm⟩
  · simp only [bytesLiberados, creadaBuddy, h, if_false]
    exact ⟨by omega, by omega, by omega, fun _ => by omega⟩

/-- **CREATION**: on a placed slot the routine makes an occupied block of the
    same length. -/
theorem buddyCreateElement_buddy {t₀ : TableInfo} {n i : Nat} (ahora : Nat) (key : Clave)
    {A B D : List Particion} {a : Nat} {F : Int} (h : Lugar cfg exacto t₀ t n i A a F B D) :
    ∃ A₀ x R₀, t.elements = A₀ ++ x :: R₀ ∧ A₀.length = i ∧ A₀.map limpia = A
      ∧ R₀.map limpia = B ++ D ∧ x.item.data = a ∧ x.bytesDisponibles = F
      ∧ BuddyInv cfg exacto (buddyCreateElement ahora t key i n)
          (A ++ creadaBuddy ahora key n x :: B) D := by
  have hv : vista (soltar i t) = A ++ libre a F :: (B ++ D) := by rw [h.inv.tabla]; simp
  obtain ⟨A₀, x, R₀, hes, hA, hR, hxd, hxb⟩ := soltar_parte hv h.pos
  rw [libre_data] at hxd
  rw [libre_disponibles] at hxb
  have hlen : A₀.length = i := by rw [← h.pos, ← hA, List.length_map]
  have hchunk : t.sizeChunk = cfg.chunkSize := h.inv.chunk
  have hpot := (h.inv.bien (libre a F) (by simp)).potencia
  refine ⟨A₀, x, R₀, hes, hlen, hA, hR, hxd, hxb, ?_⟩
  have heq := buddyCreateElement_eq ahora key n hes
  rw [hlen] at heq
  rw [heq]
  have hmin : (cfg.chunkSize : Int) ≤ F := (h.inv.bien (libre a F) (by simp)).chunk_le
  obtain ⟨hle, hclen, hnlen, hjusto⟩ :=
    largoBuddy_creada (c := cfg.chunkSize) ahora key hxb hmin h.cabe
  have hinv : BuddyInv cfg exacto (soltar i t) (A ++ ([libre a F] ++ B)) D := h.inv
  show BuddyInv cfg exacto _ (A ++ ([creadaBuddy ahora key n x] ++ B)) D
  refine BuddyInv.trueque hinv rfl ?_ h.inv.muertas rfl (by simp) ?_ ?_ ?_ ?_ ?_
  · simp [vista, hA, hR, limpia, creadaBuddy]
  · intro s hs
    obtain rfl := List.mem_singleton.mp hs
    refine ⟨hclen, fun hx => ?_, fun hf => Bool.noConfusion hf, fun _ => ⟨rfl, hnlen⟩⟩
    rw [hjusto (h.justo hx)]
    simpa using hpot hx
  · intro p q
    have hini : inicio (creadaBuddy ahora key n x) = a := by
      simp [inicio, creadaBuddy, hxd]
    simp only [cabe_cons, cabe_nil, hini, inicio_libre, largoBuddy_libre]
    omega
  · show t.elementsAmount + 1 - _ = t.elementsAmount - _
    simp [ocupadas, creadaBuddy]
  · intro hx
    simp [hjusto (h.justo hx)]
  · intro hx
    show t.espacioLibre - _ - _ = t.espacioLibre - _
    rw [hchunk]
    by_cases hnc : n < cfg.chunkSize
    · simp [hnc, creadaBuddy, h.justo hx hnc]
    · simp [hnc, creadaBuddy, hxb]

/-! ## The calls that only retouch a slot -/

/-- A change that keeps the form of an occupied slot. -/
theorem BuddyInv.retoque {A B D : List Particion} {s s' : Particion}
    (h : BuddyInv cfg exacto t (A ++ s :: B) D) (hoc : s.ocupado = true) (hf : MismaForma s s')
    (hv : vista t' = A ++ s' :: (B ++ D)) (hch : t'.sizeChunk = t.sizeChunk)
    (hesp : t'.espacioLibre = t.espacioLibre) (hcant : t'.elementsAmount = t.elementsAmount) :
    BuddyInv cfg exacto t' (A ++ s' :: B) D := by
  have hoc' : s'.ocupado = true := hf.ocupado.trans hoc
  have hlargo : largoBuddy cfg.chunkSize s' = largoBuddy cfg.chunkSize s := by
    simp [largoBuddy, largoOcupada, hf.ocupado, hf.ndata, hf.inutilizados, hf.disponibles]
  have hb := h.bien s (by simp)
  have hinv : BuddyInv cfg exacto t (A ++ ([s] ++ B)) D := h
  show BuddyInv cfg exacto t' (A ++ ([s'] ++ B)) D
  refine BuddyInv.trueque hinv hch (by simpa using hv) h.muertas rfl (by simp) ?_ ?_ ?_ ?_ ?_
  · intro u hu
    obtain rfl := List.mem_singleton.mp hu
    refine ⟨by rw [hlargo]; exact hb.chunk_le, by rw [hlargo]; exact hb.potencia,
      fun hf' => ?_, fun _ => ?_⟩
    · rw [hoc'] at hf'; cases hf'
    · rw [hlargo, hf.disponibles, hf.ndata]; exact hb.ocupada hoc
  · intro p q
    simp [inicio, hlargo, hf.data]
  · simp [hcant, ocupadas, hoc, hoc']
  · simp [hlargo]
  · simp [hesp, hf.disponibles]

/-- A retouch of an occupied slot keeps the table. -/
theorem Buddy.retoque {A B : List Particion} {s : Particion} {f : Particion → Particion}
    (h : Buddy cfg exacto t) (hes : t.elements = A ++ s :: B) (hoc : s.ocupado = true)
    (hf : MismaForma s (f s)) : Buddy cfg exacto (t.modificar A.length f) := by
  obtain ⟨L, D, h⟩ := h
  obtain ⟨B', rfl, hB⟩ := h.parte hes (fun hm => by rw [hm.1] at hoc; exact nomatch hoc)
  rw [limpia_of_ocupado hoc] at h
  have hv := vista_modificar hes f
  rw [limpia_of_ocupado (hf.ocupado.trans hoc), hB] at hv
  exact ⟨_, D, h.retoque hoc hf hv rfl rfl rfl⟩

/-- A GET keeps the tiling. -/
theorem opGet_buddy {e : Entorno} {key : Clave} {r : Respuesta} (h : Buddy cfg exacto t)
    (hr : opGet cfg e t key = some (t', r)) : Buddy cfg exacto t' := by
  rcases opGet_casos hr with ⟨rfl, -, -⟩ | ⟨A, s, B, hes, hoc, -, -, -, ⟨-, rfl⟩ | ⟨-, rfl⟩⟩
  · exact h
  · exact h
  · exact h.retoque hes hoc (mismaForma_usar _ s)

/-- So does a DELETE. -/
theorem deleteOne_buddy {key : Clave} {b : Bool} (hp : 0 < cfg.ptrdata) (h : Buddy cfg exacto t)
    (hr : deleteOne t key = some (t', b)) :
    Buddy cfg exacto t' := by
  rcases deleteOne_casos hr with ⟨rfl, -⟩ | ⟨A, s, B, hes, hoc, -, h1⟩
  · exact h
  · exact micacheRemove_buddy hp (h.retoque hes hoc (mismaForma_marcar _ s)) h1

/-! ## SET -/

/-- A table with another memory. -/
theorem BuddyInv.memoria {L D : List Particion} (h : BuddyInv cfg exacto t L D) (m : Nat → UInt8) :
    BuddyInv cfg exacto { t with memoria := m } L D :=
  ⟨h.chunk, h.tabla, h.muertas, h.hay, h.bien, h.cabe, h.lleno, h.cantidad, h.suma, h.espacio⟩

/-- **SET on a placed slot**: creation, copy, `store_info` and `item_release`
    keep the blocks, add the new entry and change no other. -/
theorem alta_buddy {t₀ : TableInfo} {ahora i : Nat} {key : Clave} {valor : List UInt8}
    {A B D : List Particion} {a : Nat} {F : Int}
    (h : Lugar cfg exacto t₀ t valor.length i A a F B D)
    (hr : itemRelease (storeInfo (copiarValor (buddyCreateElement ahora t key i valor.length)
      i valor) i) i = some t') :
    Buddy cfg exacto t' ∧ ∃ X Y, contenido t' = X ++ (key, true, valor) :: Y
      ∧ (X ++ Y).Sublist (contenido t₀) := by
  obtain ⟨A₀, x, R₀, hes, rfl, hA, hR, hxd, hxb, hinv⟩ :=
    buddyCreateElement_buddy ahora key h
  have heq := buddyCreateElement_eq ahora key valor.length hes
  let o : Particion := creadaBuddy ahora key valor.length x
  have hes₁ : (buddyCreateElement ahora t key A₀.length valor.length).elements
      = A₀ ++ o :: R₀ := by rw [heq]
  have hm₁ : (buddyCreateElement ahora t key A₀.length valor.length).memoria = t₀.memoria := by
    rw [heq]; exact h.memoria
  constructor
  · have ht' := guardar_eq hes₁ hr
    refine ⟨_, D, hinv.retoque (s := o) rfl (mismaForma_marcar true o) ?_ ?_ ?_ ?_⟩
    · rw [ht']
      simp [vista, hA, hR, limpia, marcar, o, creadaBuddy]
    · rw [ht']
    · rw [ht']
    · rw [ht']
  · obtain ⟨X, Y, hc', hXY⟩ := guardar_contenido hes₁ hA hR hinv.muertas rfl rfl hinv.cabe
      hinv.no_negativa (fun s hs hoc => ((hinv.bien s hs).ocupada hoc).2) hr
    refine ⟨X, Y, hc', ?_⟩
    rw [hXY, hm₁]
    exact h.ocupadas.map _

/-- The removal before a SET keeps the tiling. -/
theorem quitarPrevio_buddy {key : Clave} (hp : 0 < cfg.ptrdata)
    (h : Buddy cfg exacto t) (hr : quitarPrevio t key = some t') : Buddy cfg exacto t' := by
  rcases quitarPrevio_casos hr with ⟨rfl, -⟩ | hrem
  · exact h
  · exact micacheRemove_buddy hp h hrem

/-- **SET**: the blocks are kept; the new entry joins some of the entries that
    were there without the key. -/
theorem opSet_buddy {e : Entorno} {key : Clave} {valor : List UInt8} {r : Respuesta}
    (hesq : cfg.esquema = .buddySystem) (hp : 0 < cfg.ptrdata) (hc : 0 < cfg.chunkSize)
    (hv : 0 < valor.length) (hmax : valor.length ≤ cfg.blockSizeMax) (h : Buddy cfg exacto t)
    (hr : opSet cfg e t key valor = some (t', r)) :
    Buddy cfg exacto t' ∧ ∀ σ, Representa σ t → Representa (conValor σ key (some valor)) t' := by
  unfold opSet at hr
  rw [if_neg (by omega)] at hr
  obtain ⟨⟨t₂, pos⟩, h1, hr⟩ := Option.bind_eq_some_iff.mp hr
  obtain ⟨t₃, h2, heq⟩ := Option.map_eq_some_iff.mp hr
  obtain ⟨rfl, -⟩ := Prod.mk.inj heq
  unfold colocar at h1
  obtain ⟨t₁, hprev, hbs⟩ := Option.bind_eq_some_iff.mp h1
  simp only [hesq] at hbs
  simp only [crear, hesq] at h2
  obtain ⟨A, a, F, B, D, hl⟩ :=
    buddysystem_buddy hp hc hv e.vueltas 0 (quitarPrevio_buddy hp h hprev) hbs
  obtain ⟨hb, X, Y, hcon, hsub⟩ := alta_buddy hl h2
  refine ⟨hb, ?_⟩
  intro σ hσ
  obtain ⟨hσ₁, hno⟩ := quitarPrevio_representa hσ hprev
  exact representa_alta hσ₁ hno hcon hsub

/-! ## Whole runs -/

/-- The requests the scheme is meant for: keys of at most 60 bytes and values
    of one byte up to the size of the cache. -/
def OpValida (cfg : Config) (op : Op) : Prop := ClaveCorta op ∧ ValorEntra cfg 1 op

instance (cfg : Config) : DecidablePred (OpValida cfg) :=
  fun _ => inferInstanceAs (Decidable (_ ∧ _))

/-- A configuration of the buddy scheme: the data area has an address and is
    a power of two of chunks. -/
structure ConfigBuddy (cfg : Config) (k : Nat) : Prop where
  esquema : cfg.esquema = .buddySystem
  area : 0 < cfg.ptrdata
  chunk : 0 < cfg.chunkSize
  tam : cfg.blockSizeMax = cfg.chunkSize * 2 ^ k

/-- A chunk fits the cache. -/
theorem ConfigBuddy.entra {k : Nat} (hcfg : ConfigBuddy cfg k) :
    cfg.chunkSize ≤ cfg.blockSizeMax := by
  rw [hcfg.tam]
  exact Nat.le_mul_of_pos_right _ (Nat.two_pow_pos k)

/-- A new cache is one free partition. -/
theorem cacheInitialize_buddy (hc : 0 < cfg.chunkSize) (hle : cfg.chunkSize ≤ cfg.blockSizeMax)
    (hk : exacto → ∃ k, cfg.blockSizeMax = cfg.chunkSize * 2 ^ k) :
    Buddy cfg exacto (cacheInitialize cfg) := by
  obtain ⟨N, hN⟩ : ∃ N, cfg.blockSizeMax / cfg.chunkSize = N + 1 :=
    ⟨cfg.blockSizeMax / cfg.chunkSize - 1, by have := Nat.div_pos hle hc; omega⟩
  refine ⟨[libre cfg.ptrdata cfg.blockSizeMax], List.replicate N Particion.vacia, rfl, ?_, ?_,
    by simp, ?_, ?_, ?_, ?_, ?_, ?_⟩
  · simp [vista, cacheInitialize, hN, List.replicate_succ, limpia, libre, Particion.vacia]
  · intro s hs
    obtain rfl := List.eq_of_mem_replicate hs
    exact ⟨rfl, rfl, rfl⟩
  · intro s hs
    obtain rfl := List.mem_singleton.mp hs
    refine bienBuddy_libre (by exact_mod_cast hle) (fun hx => ?_)
    obtain ⟨k, hk⟩ := hk hx
    exact ⟨k, by rw [hk]; push_cast; ring⟩
  · simp
  · rw [hN]
    simp only [List.length_singleton, List.length_replicate]
    omega
  · simp [cacheInitialize]
  · simp
  · simp [cacheInitialize]

/-- One complete operation keeps the blocks and follows the map. -/
theorem ejecutar_buddy {k : Nat} {op : Op} {e : Entorno} {hist : List Op} {r : Respuesta}
    (hcfg : ConfigBuddy cfg k) (hop : OpValida cfg op)
    (h : Buddy cfg True t ∧ Representa (fun k => ultimoSet k hist) t)
    (hr : ejecutar cfg op e t = some (t', r)) :
    Buddy cfg True t' ∧ Representa (fun k => ultimoSet k (hist ++ [op])) t' := by
  obtain ⟨hb, hrep⟩ := h
  refine ⟨?_, ejecutar_representa hrep ?_ hr⟩
  · cases op with
    | set key valor =>
        exact (opSet_buddy hcfg.esquema hcfg.area hcfg.chunk hop.2.1 hop.2.2 hb hr).1
    | get key => exact opGet_buddy hb hr
    | delete key =>
        obtain ⟨⟨t₁, b⟩, h1, heq⟩ := Option.map_eq_some_iff.mp hr
        obtain ⟨rfl, -⟩ := Prod.mk.inj heq
        exact deleteOne_buddy hcfg.area hb h1
    | flushAll =>
        obtain ⟨rfl, -⟩ := Prod.mk.inj (Option.some.inj hr)
        exact micacheClean_buddy (fun _ => ⟨k, hcfg.tam⟩) hb
  · rintro key valor rfl
    exact (opSet_buddy hcfg.esquema hcfg.area hcfg.chunk hop.2.1 hop.2.2 hb hr).2 _ hrep

/-- **EVERY RUN** of valid operations has the exact tiling and the map of its SETs. -/
theorem correr_buddy {k : Nat} {ops : List (Op × Entorno)} (hcfg : ConfigBuddy cfg k)
    (hops : ∀ x ∈ ops, OpValida cfg x.1)
    (hr : correr cfg ops (cacheInitialize cfg) = some t) :
    Buddy cfg True t ∧ Representa (fun k => ultimoSet k (ops.map Prod.fst)) t := by
  have := correr_regla (C := fun op _ _ => OpValida cfg op)
    (P := fun hist t => Buddy cfg True t ∧ Representa (fun k => ultimoSet k hist) t)
    (fun hop h hr => ejecutar_buddy hcfg hop h hr) ops
    [] ⟨cacheInitialize_buddy hcfg.chunk hcfg.entra fun _ => ⟨k, hcfg.tam⟩,
       cacheInitialize_representa cfg⟩
    (cumple_of_forall ops _ hops) hr
  simpa using this

end Operaciones

/-! ## What every reachable table satisfies -/

/-- The state of the buddy scheme, read off the table itself. -/
structure EstadoBuddy (cfg : Config) (t : TableInfo) : Prop where
  prefijo : ∃ L D, t.elements = L ++ D ∧ (∀ s ∈ L, s.viva = true) ∧ (∀ s ∈ D, s.viva = false)
  tesela : Tesela inicio (largoBuddy cfg.chunkSize) cfg.ptrdata (t.elements.filter (·.viva))
    (cfg.ptrdata + cfg.blockSizeMax)
  potencias : ∀ s ∈ t.elements, s.viva = true →
    ∃ j : Nat, largoBuddy cfg.chunkSize s = cfg.chunkSize * 2 ^ j
  espacio : t.espacioLibre = (t.elements.map (·.bytesDisponibles)).sum
  cantidad : t.elementsAmount = (t.elements.filter (·.ocupado)).length

/-- A slot of the tiling is alive. -/
theorem BienBuddy.viva {c : Nat} {exacto : Prop} {s : Particion} (h : BienBuddy c exacto s)
    (hc : 0 < c) : s.viva = true := by
  cases ho : s.ocupado with
  | true => simp [Particion.viva, ho]
  | false =>
      have := h.chunk_le
      rw [largoBuddy_of_libre ho] at this
      simp only [Particion.viva, ho, Bool.false_or, bne_iff_ne, ne_eq]
      omega

/-- The exact tiling says what `EstadoBuddy` asks. -/
theorem Buddy.estado {cfg : Config} {t : TableInfo} (hc : 0 < cfg.chunkSize)
    (h : Buddy cfg True t) : EstadoBuddy cfg t := by
  obtain ⟨L, D, h⟩ := h
  obtain ⟨L₀, D₀, hes, rfl, rfl⟩ := List.map_eq_append_iff.mp h.tabla
  have hL : ∀ s ∈ L₀, s.viva = true := by
    intro s hs
    rw [← limpia_viva]
    exact (h.bien (limpia s) (List.mem_map_of_mem hs)).viva hc
  have hD : ∀ s ∈ D₀, s.viva = false := by
    intro s hs
    rw [← limpia_viva]
    exact muerta_not_viva (h.muertas (limpia s) (List.mem_map_of_mem hs))
  have hfil : t.elements.filter (·.viva) = L₀ := by
    rw [hes, List.filter_append, List.filter_eq_self.mpr hL, List.filter_eq_nil_iff.mpr]
    · simp
    · intro s hs; simp [hD s hs]
  refine ⟨⟨L₀, D₀, hes, hL, hD⟩, ?_, ?_, ?_, ?_⟩
  · rw [hfil]
    have htes := tesela_of_cabe h.cabe (by rw [h.suma trivial])
    refine (tesela_map (g := limpia) ?_ ?_).mp htes
    · intro s; simp [inicio]
    · intro s; exact largoBuddy_limpia _ s
  · intro s hs hv
    rw [hes] at hs
    rcases List.mem_append.mp hs with hs | hs
    · obtain ⟨j, hj⟩ := (h.bien (limpia s) (List.mem_map_of_mem hs)).potencia trivial
      exact ⟨j, by rw [← largoBuddy_limpia]; exact hj⟩
    · rw [hD s hs] at hv; cases hv
  · have hz : (D₀.map (·.bytesDisponibles)).sum = 0 := by
      refine List.sum_eq_zero ?_
      intro x hx
      obtain ⟨s, hs, rfl⟩ := List.mem_map.mp hx
      simpa using (h.muertas (limpia s) (List.mem_map_of_mem hs)).2.1
    rw [h.espacio trivial, hes, List.map_append, List.sum_append, hz, add_zero, List.map_map]
    congr 1
    refine List.map_congr_left ?_
    intro s _
    exact limpia_disponibles s
  · have hoc : t.elements.filter (·.ocupado) = ocupadas t.elements := rfl
    rw [hoc, h.ocupadas_eq, h.cantidad]

/-- Four chunks of four bytes. -/
def cacheChica : Config :=
  { esquema := .buddySystem, algBusqueda := .firstFit, algReemplazo := .lru
    frecuenciaCompactacion := 0, blockSizeMax := 16, chunkSize := 4, ptrdata := 100 }

theorem cacheChica_config : ConfigBuddy cacheChica 2 := ⟨rfl, by decide, by decide, rfl⟩

/-- Surroundings whose `elements[-1]` looks like an occupied slot. -/
def entornoChico : Entorno :=
  { fuera := fun _ => Particion.vacia
    antes := fun _ => { ocupado := true, bytesDisponibles := 7, bytesInutilizados := -1 }
    relojLru := fun n => 10 + n, relojGet := 5, vueltas := 20 }

/-- Two items, of which the second is then deleted. -/
def pedidosChicos : List (Op × Entorno) :=
  [(.set [1] [1, 2, 3, 4, 5], entornoChico), (.set [2] [9], entornoChico),
   (.delete [2], entornoChico)]

theorem pedidosChicos_validos : ∀ x ∈ pedidosChicos, OpValida cacheChica x.1 := by
  simp [pedidosChicos, OpValida, ClaveCorta, ValorEntra, cacheChica]

end Rc
