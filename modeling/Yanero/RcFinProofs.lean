import Yanero.RcUnionProofs
import Yanero.RcDesalojoProofs

/-! # The buddy placement ends

    The loop of `buddysystem` searches, merges, searches again and evicts.
    Each eviction leaves one occupied slot less; with none left the merging
    passes rebuild the whole area as one block, which holds any request.  The
    slot it returns is free unless the last split has copied an occupied slot
    over it: `desplazarUnoAbajo` shifts one slot too far, and the slot before
    the block, or what lies before the table, leaves its mark on it. -/

namespace Rc

open Bucles Teselado Corridas

/-- The length of the last half the halving loop splits off. -/
def ultimaMitad (ndata sizeChunk : Nat) : Nat → Int → Option Int
  | 0, _ => none
  | vueltas + 1, part =>
      if (ndata : Int) ≤ part ∧ (sizeChunk : Int) ≤ part then
        some ((ultimaMitad ndata sizeChunk vueltas (part.tdiv 2)).getD part)
      else none

/-- The slot the last turn of `desplazarUnoAbajo` copies over slot `i`. -/
def previo (e : Entorno) (t : TableInfo) (i : Nat) (part : Int) : Particion :=
  if i = 0 then e.antes part else t.elements.getD (i - 1) Particion.vacia

/-- No split of the block of slot `i` for `m` bytes ends under an occupied
    slot. -/
def SinSombra (e : Entorno) (m : Nat) (t : TableInfo) (i : Nat) : Prop :=
  ∀ part ∈ ultimaMitad m t.sizeChunk e.vueltas
      ((t.elements.getD i Particion.vacia).bytesDisponibles.tdiv 2),
    (previo e t i part).ocupado = false

instance (e : Entorno) (m : Nat) (t : TableInfo) (i : Nat) : Decidable (SinSombra e m t i) :=
  inferInstanceAs (Decidable (∀ part ∈ (_ : Option Int), _))

section Busqueda

variable {cfg : Config} {k m i : Nat} {e : Entorno} {t t' : TableInfo}

/-- The halving loop ends within the logarithm of the length. -/
theorem partir_termina (j : Nat) : ∀ {v : Nat} {part : Int} {t : TableInfo},
    part < t.sizeChunk * 2 ^ j → j + 2 ≤ v → ∃ t', partir e m i v part t = some t' := by
  induction j with
  | zero =>
      intro v part t hlt hv
      obtain ⟨v, rfl⟩ : ∃ v', v = v' + 2 := ⟨v - 2, by omega⟩
      rw [pow_zero, mul_one] at hlt
      refine ⟨t, ?_⟩
      rw [partir]
      split
      · rw [if_neg (by omega), partir, if_neg (by omega)]
      · rfl
  | succ j ih =>
      intro v part t hlt hv
      obtain ⟨v, rfl⟩ : ∃ v', v = v' + 2 := ⟨v - 2, by omega⟩
      rw [partir]
      split
      · split
        · refine ih (t := desplazarUnoAbajo e t i part) ?_ (by omega)
          show part.tdiv 2 < (t.sizeChunk : Int) * 2 ^ j
          rw [pow_succ, ← mul_assoc] at hlt
          generalize (t.sizeChunk : Int) * 2 ^ j = q at hlt ⊢
          rw [Int.tdiv_eq_ediv_of_nonneg (by omega)]
          omega
        · rw [partir, if_neg (by omega)]
          exact ⟨t, rfl⟩
      · exact ⟨t, rfl⟩

/-- A free slot has at most the bytes of the cache. -/
theorem Buddy.disponibles_le (h : Buddy cfg True t) {s : Particion} (hs : s ∈ t.elements)
    (ho : s.ocupado = false) : s.bytesDisponibles ≤ cfg.blockSizeMax := by
  obtain ⟨L, D, hinv⟩ := h
  have hmem : limpia s ∈ vista t := List.mem_map_of_mem hs
  rw [hinv.tabla] at hmem
  rcases List.mem_append.mp hmem with hL | hD
  · obtain ⟨h1, h2⟩ := cabe_mem hinv.cabe hinv.no_negativa (limpia s) hL
    rw [largoBuddy_limpia, largoBuddy_of_libre ho] at h2
    omega
  · have := (hinv.muertas _ hD).2.1
    rw [limpia_disponibles] at this
    omega

theorem buscarHueco_termina (hcfg : ConfigBuddy cfg k) (h : Buddy cfg True t)
    (hv : k + 2 ≤ e.vueltas) : ∃ r, buscarHueco e t m = some r := by
  unfold buscarHueco
  cases hh : huecoBuddy t m with
  | none => exact ⟨none, rfl⟩
  | some j =>
      obtain ⟨A, s, B, hes, rfl, hs, -⟩ := findIdx?_parte hh
      simp only [Bool.and_eq_true, Bool.not_eq_true', decide_eq_true_eq] at hs
      have hget : t.elements.getD A.length Particion.vacia = s := by
        rw [hes]; exact getD_mitad _ _ _ _
      have hchunk : t.sizeChunk = cfg.chunkSize := by
        obtain ⟨L, D, hinv⟩ := h
        exact hinv.chunk
      have hle := h.disponibles_le (s := s) (by rw [hes]; simp) hs.1
      have hpos : 0 < cfg.blockSizeMax := Nat.lt_of_lt_of_le hcfg.chunk hcfg.entra
      have hlt : s.bytesDisponibles.tdiv 2 < (t.sizeChunk : Int) * 2 ^ k := by
        have htam : ((cfg.chunkSize * 2 ^ k : Nat) : Int) = cfg.chunkSize * 2 ^ k := by
          push_cast; rfl
        rw [hchunk, ← htam, ← hcfg.tam, Int.tdiv_eq_ediv_of_nonneg (by omega)]
        omega
      obtain ⟨t', ht'⟩ := partir_termina (e := e) (m := m) (i := A.length) k hlt hv
      exact ⟨some (t', A.length), by simp only [hget, ht', Option.map_some]⟩

/-- What a split leaves at its slot and at the one before it. -/
theorem desplazarUnoAbajo_previo (part : Int) (hi : i < t.tableMaxSize) :
    ((desplazarUnoAbajo e t i part).elements.getD i Particion.vacia).ocupado
        = (previo e t i part).ocupado
      ∧ ∀ q < i, (desplazarUnoAbajo e t i part).elements[q]? = t.elements[q]? := by
  have hq : ∀ q ≤ i, (iterar (fun j es => es.modify (t.tableMaxSize - 1 - j)
      (copiarDescriptor (es.getD (t.tableMaxSize - 1 - j - 1) Particion.vacia)))
      (t.tableMaxSize - 1 - i) t.elements)[q]? = t.elements[q]? := by
    intro q hq
    exact iterar_modify_otra (fun j es hj => getElem?_modify_otra _ _ (by omega)) t.elements
  have hcopia : ∀ src dst : Particion, (copiarDescriptor src dst).ocupado = src.ocupado := by
    intro src dst
    rw [← limpia_ocupado, limpia_copiarDescriptor, limpia_ocupado]
  obtain ⟨s, hs⟩ : ∃ s, t.elements[i]? = some s := ⟨_, List.getElem?_eq_getElem hi⟩
  have hi' := hq i (Nat.le_refl _)
  have hprev : ∀ d, i ≠ 0 → (iterar (fun j es => es.modify (t.tableMaxSize - 1 - j)
      (copiarDescriptor (es.getD (t.tableMaxSize - 1 - j - 1) Particion.vacia)))
      (t.tableMaxSize - 1 - i) t.elements).getD (i - 1) d = t.elements.getD (i - 1) d := by
    intro d h0
    rw [List.getD_eq_getElem?_getD, hq (i - 1) (by omega), List.getD_eq_getElem?_getD]
  have hprevio : (if i = 0 then e.antes part else (iterar (fun j es =>
      es.modify (t.tableMaxSize - 1 - j)
        (copiarDescriptor (es.getD (t.tableMaxSize - 1 - j - 1) Particion.vacia)))
      (t.tableMaxSize - 1 - i) t.elements).getD (i - 1) Particion.vacia) = previo e t i part := by
    by_cases h0 : i = 0
    · rw [previo, if_pos h0, if_pos h0]
    · rw [previo, if_neg h0, if_neg h0, hprev _ h0]
  unfold desplazarUnoAbajo
  dsimp only
  rw [hprevio]
  constructor
  · split <;>
    · rw [List.getD_eq_getElem?_getD]
      simp only [List.getElem?_modify, hi', hs]
      simp [hcopia]
  · intro q hlt
    have h1 : ∀ f : Particion → Particion, ∀ l : List Particion, (l.modify i f)[q]? = l[q]? :=
      fun f l => getElem?_modify_otra f l (by omega)
    have h2 : ∀ f : Particion → Particion, ∀ l : List Particion,
        (l.modify (i + 1) f)[q]? = l[q]? := fun f l => getElem?_modify_otra f l (by omega)
    split <;> simp only [h1, h2, hq q (Nat.le_of_lt hlt)]

/-- The halving loop leaves its slot free when its last split does. -/
theorem partir_libre :
    ∀ (v : Nat) {part : Int} {t t' : TableInfo}, i < t.tableMaxSize →
      partir e m i v part t = some t' →
      (∀ p ∈ ultimaMitad m t.sizeChunk v part, (previo e t i p).ocupado = false) →
      (ultimaMitad m t.sizeChunk v part = none →
        (t.elements.getD i Particion.vacia).ocupado = false) →
      (t'.elements.getD i Particion.vacia).ocupado = false := by
  intro v
  induction v with
  | zero => intro part t t' _ h; cases h
  | succ v ih =>
      intro part t t' hi hr hsombra hentera
      rw [partir] at hr
      rw [ultimaMitad] at hsombra hentera
      by_cases hm : (m : Int) ≤ part
      · rw [if_pos hm] at hr
        by_cases hcp : (t.sizeChunk : Int) ≤ part
        · -- one more split
          rw [if_pos hcp] at hr
          rw [if_pos ⟨hm, hcp⟩] at hsombra
          have hsom := hsombra _ rfl
          obtain ⟨hoc, hant⟩ := desplazarUnoAbajo_previo (e := e) part hi
          have hprev : ∀ p, previo e (desplazarUnoAbajo e t i part) i p = previo e t i p := by
            intro p
            by_cases h0 : i = 0
            · rw [previo, previo, if_pos h0, if_pos h0]
            · rw [previo, previo, if_neg h0, if_neg h0, List.getD_eq_getElem?_getD,
                hant (i - 1) (by omega), List.getD_eq_getElem?_getD]
          have hch : (desplazarUnoAbajo e t i part).sizeChunk = t.sizeChunk := rfl
          refine ih (by rw [desplazarUnoAbajo_tableMaxSize]; exact hi) hr ?_ ?_
          · intro p hp
            rw [hch, Option.mem_def] at hp
            rw [hp] at hsom
            rw [hprev]
            exact hsom
          · intro hno
            rw [hch] at hno
            rw [hno] at hsom
            rw [hoc]
            exact hsom
        · rw [if_neg hcp] at hr
          rw [if_neg fun h => hcp h.2] at hentera
          have hnada : ultimaMitad m t.sizeChunk v (-1) = none := by
            cases v with
            | zero => rfl
            | succ v => rw [ultimaMitad, if_neg (by omega)]
          refine ih hi hr ?_ fun _ => hentera rfl
          rw [hnada]
          simp
      · rw [if_neg hm] at hr
        rw [if_neg fun h => hm h.1] at hentera
        rw [← Option.some.inj hr]
        exact hentera rfl

/-- **THE SLOT RETURNED** holds the request, and is free unless the last split
    ends under an occupied slot. -/
theorem buscarHueco_libre (hcfg : ConfigBuddy cfg k) (hm : 0 < m) (h : Buddy cfg True t)
    (hsombra : ∀ j ∈ huecoBuddy t m, SinSombra e m t j)
    (hr : buscarHueco e t m = some (some (t', i))) :
    (t'.elements.getD i Particion.vacia).ocupado = false
      ∧ (m : Int) ≤ (t'.elements.getD i Particion.vacia).bytesDisponibles := by
  constructor
  · obtain ⟨hh, hp⟩ := buscarHueco_casos hr
    obtain ⟨A, s, B, hes, rfl, hs, -⟩ := findIdx?_parte hh
    simp only [Bool.and_eq_true, Bool.not_eq_true', decide_eq_true_eq] at hs
    have hi : A.length < t.tableMaxSize := by rw [TableInfo.tableMaxSize, hes]; simp
    refine partir_libre _ hi hp (hsombra _ hh) fun _ => ?_
    rw [hes, getD_mitad]
    exact hs.1
  · obtain ⟨A, a, F, B, D, hl⟩ := buscarHueco_buddy hcfg.chunk hm h hr
    have hv : vista (soltar i t') = A ++ libre a F :: (B ++ D) := by rw [hl.inv.tabla]; simp
    obtain ⟨A₀, x, R₀, hes, hA, -, -, hxb⟩ := soltar_parte hv hl.pos
    have hlen : A₀.length = i := by rw [← hl.pos, ← hA, List.length_map]
    rw [hes, ← hlen, getD_mitad, hxb, libre_disponibles]
    exact hl.cabe

end Busqueda

section Colocacion

variable {cfg : Config} {k m : Nat} {e : Entorno} {t t' : TableInfo} {toque : Clave → Nat}
  {ahora : Nat} {σ : Clave → Option (List UInt8)}

/-- What every turn of a placement keeps: the blocks and their places, the
    map, and the clock readings. -/
structure EnTurno (cfg : Config) (toque : Clave → Nat) (ahora : Nat)
    (σ : Clave → Option (List UInt8)) (t : TableInfo) : Prop where
  alineada : Alineada cfg t
  mapa : Representa σ t
  fechas : Fechas toque ahora (sellos t)

theorem EnTurno.quita (h : EnTurno cfg toque ahora σ t) (hal : Alineada cfg t')
    (hq : SoloQuita t t') : EnTurno cfg toque ahora σ t' :=
  ⟨hal, h.mapa.sublist hq.contenido, h.fechas.sublist hq.sellos⟩

/-- A table that holds no request of the size of the cache has an item. -/
theorem SinHermanas.ocupada (hsin : SinHermanas e.fuera t) (hcfg : ConfigBuddy cfg k)
    (hm : m ≤ cfg.blockSizeMax) (h : Alineada cfg t) (hno : huecoBuddy t m = none) :
    t.elementsAmount ≠ 0 := by
  intro hcero
  obtain ⟨L, D, hinv⟩ := h.buddy
  have hnada : ocupadas t.elements = [] := by
    have := hinv.cantidad
    rw [hcero, ← hinv.ocupadas_eq] at this
    exact List.eq_nil_of_length_eq_zero (by omega)
  have hlib : ∀ s ∈ t.elements, s.ocupado = false := by
    intro s hs
    by_contra ho
    have : s ∈ ocupadas t.elements := mem_ocupadas.mpr ⟨hs, by simpa using ho⟩
    rw [hnada] at this
    cases this
  obtain ⟨D', hv, -⟩ := hsin.bloque hcfg h hlib
  obtain ⟨s, B, hes, hs, -⟩ := List.map_eq_cons_iff.mp hv
  rw [huecoBuddy, List.findIdx?_eq_none_iff] at hno
  have := hno s (by rw [hes]; simp)
  have hb : s.bytesDisponibles = cfg.blockSizeMax := by
    rw [← limpia_disponibles, hs, libre_disponibles]
  simp only [hlib s (by rw [hes]; simp), hb, Bool.not_false, Bool.true_and,
    decide_eq_false_iff_not] at this
  omega

/-- **THE PLACEMENT ENDS**, on a free slot that holds the request, with turns
    for every slot of the table, while its merges are those of sisters and its
    last split does not end under an occupied slot. -/
theorem buddysystem_termina (hcfg : ConfigBuddy cfg k) (hk : 1 ≤ k) (hm : 0 < m)
    (hmax : m ≤ cfg.blockSizeMax) (hreloj : ∀ j < e.vueltas, ahora < e.relojLru j)
    (hv : t.tableMaxSize < e.vueltas) (h : EnTurno cfg toque ahora σ t)
    (hcada : EnCadaVueltaBuddy e m (SinSombra e m) (UnionRecta e.fuera e.vueltas)
      (fun _ _ => True) e.vueltas 0 t) :
    ∃ t' i, buddysystem e m e.vueltas 0 t = some (t', i)
      ∧ (t'.elements.getD i Particion.vacia).ocupado = false
      ∧ (m : Int) ≤ (t'.elements.getD i Particion.vacia).bytesDisponibles := by
  have hslots : ∀ {u}, Alineada cfg u → u.tableMaxSize < e.vueltas := fun hu => by
    rw [Buddy.tableMaxSize_eq hu.buddy h.alineada.buddy]
    exact hv
  have hkv : k + 2 ≤ e.vueltas := by
    obtain ⟨L, D, hinv⟩ := h.alineada.buddy
    have hlen := hinv.lleno
    rw [← hinv.tableMaxSize, hcfg.tam, Nat.mul_div_cancel_left _ hcfg.chunk] at hlen
    have := Nat.lt_two_pow_self (n := k)
    omega
  refine buddysystem_total (m := m)
    (P := fun v j u => EnTurno cfg toque ahora σ u ∧ (ocupadas u.elements).length < v
      ∧ v + j ≤ e.vueltas ∧ EnCadaVueltaBuddy e m (SinSombra e m)
        (UnionRecta e.fuera e.vueltas) (fun _ _ => True) v j u)
    (U := fun v j u => EnTurno cfg toque ahora σ u ∧ (ocupadas u.elements).length < v
      ∧ v + j ≤ e.vueltas ∧ SinHermanas e.fuera u ∧ (∀ i ∈ huecoBuddy u m, SinSombra e m u i)
      ∧ ∀ v', v = v' + 1 → huecoBuddy u m = none → u.elementsAmount ≠ 0 →
        ∀ u' ∈ reemplazar (e.relojLru j) u, EnCadaVueltaBuddy e m (SinSombra e m)
          (UnionRecta e.fuera e.vueltas) (fun _ _ => True) v' (j + 1) u')
    (Q := fun u i => (u.elements.getD i Particion.vacia).ocupado = false
      ∧ (m : Int) ≤ (u.elements.getD i Particion.vacia).bytesDisponibles)
    ?_ ?_ ?_ ?_ ?_ e.vueltas 0 ⟨h, ?_, by omega, hcada⟩
  · rintro j u ⟨-, hlt, -⟩
    omega
  · rintro v j u (⟨hu, -⟩ | ⟨hu, -⟩)
    · exact buscarHueco_termina hcfg hu.alineada.buddy hkv
    · exact buscarHueco_termina hcfg hu.alineada.buddy hkv
  · rintro v j u u' i (⟨hu, -, -, hvu⟩ | ⟨hu, -, -, -, hsom, -⟩) hb
    · exact buscarHueco_libre hcfg hm hu.alineada.buddy hvu.1 hb
    · exact buscarHueco_libre hcfg hm hu.alineada.buddy hsom hb
  · -- the merging passes
    rintro v j u ⟨hu, hlt, hj, hvu⟩ hb
    obtain ⟨hrec, hsig⟩ := hvu.2 (buscarHueco_none hb)
    obtain ⟨u', hun, hsin⟩ := unirTodasLasHermanas_termina hcfg hk e.vueltas hu.alineada hrec
      (Nat.lt_of_le_of_lt (vivas_le u) (hslots hu.alineada))
    have hal := unirTodasLasHermanas_alineada hcfg.chunk _ hu.alineada hrec hun
    have hq := (unirTodasLasHermanas_buddy e.vueltas hu.alineada.buddy hun).2.quita
    obtain ⟨hsom, hresto⟩ := hsig u' hun
    have hle := hq.1.length_le
    refine ⟨u', hun, hu.quita hal hq, by omega, hj, hsin, hsom, ?_⟩
    rintro v' heq hno hay u'' hree
    obtain rfl : v = v' := by omega
    have := hresto hno
    rw [if_pos hay] at this
    exact this.2 u'' hree
  · -- an eviction
    rintro v j u ⟨hu, hlt, hj, hsin, -, hresto⟩ hb
    have hno := buscarHueco_none hb
    have hay := hsin.ocupada hcfg hmax hu.alineada hno
    obtain ⟨key, u', hree, -⟩ := reemplazar_masViejo hu.alineada.buddy hu.mapa hu.fechas
      (hreloj j (by omega)) hay
    have hmenos := reemplazar_ocupadas hree
    exact ⟨hay, u', hree,
      hu.quita (reemplazar_alineada hcfg.area hu.alineada hree) (reemplazar_desaloja hree).quita,
      by omega, by omega, hresto v rfl hno hay u' hree⟩
  · have : (ocupadas t.elements).length ≤ t.elements.length := List.length_filter_le _ _
    have hN : t.tableMaxSize = t.elements.length := rfl
    omega

end Colocacion

/-! ## Whole runs -/

section Corridas

variable {cfg : Config} {k : Nat} {t : TableInfo}

/-- A history whose merges are those of sisters. -/
structure DatadaAlineada (cfg : Config) (h : Historia) : Prop where
  datada : Datada cfg h
  alineada : Alineada cfg h.tabla

theorem DatadaAlineada.avanza {x : Op × Entorno} {h h' : Historia} (hcfg : ConfigBuddy cfg k)
    (hd : DatadaAlineada cfg h) (hop : OpValida cfg x.1) (hrel : RelojSube x h)
    (hC : SinSaltear cfg x.1 x.2 h.tabla) (hr : avanzar cfg x h = some h') :
    DatadaAlineada cfg h' := by
  refine ⟨hd.datada.avanza hcfg hop hrel hr, ?_⟩
  obtain ⟨op, e⟩ := x
  obtain ⟨⟨t', r⟩, h1, rfl⟩ := Option.map_eq_some_iff.mp hr
  have hbytes : ConBytes op := by
    cases op with
    | set key valor => exact hop.2.1
    | get key => trivial
    | delete key => trivial
    | flushAll => trivial
  have hal := ejecutar_alineada hcfg hbytes hC hd.alineada h1
  dsimp only
  split <;> exact hal

theorem historiaInicial_alineada (hcfg : ConfigBuddy cfg k) :
    DatadaAlineada cfg (historiaInicial cfg) :=
  ⟨historiaInicial_datada hcfg, cacheInitialize_alineada hcfg⟩

end Corridas

/-- **THE BUDDY PLACEMENT ENDS** after every run under a rising clock whose
    merges are those of sisters, on the table a run leaves or on that table
    without an older item of the key: with merges of sisters and no last split
    under an occupied slot, every request of one byte up to the cache gets a
    free slot that holds it.  With nothing left to evict the merging passes
    rebuild one block of the whole cache. -/
theorem buddy_coloca {cfg : Config} {k : Nat} {ops : List (Op × Entorno)} {h : Historia}
    {t : TableInfo} (hcfg : ConfigBuddy cfg k) (hk : 1 ≤ k)
    (hops : EnCadaPaso (avanzar cfg) (fun x h => OpValida cfg x.1 ∧ RelojSube x h
      ∧ SinSaltear cfg x.1 x.2 h.tabla) ops (historiaInicial cfg))
    (hr : corrida (avanzar cfg) ops (historiaInicial cfg) = some h)
    (ht : t = h.tabla ∨ ∃ key, quitarPrevio h.tabla key = some t) :
    (∀ m e, 0 < m → m ≤ cfg.blockSizeMax → t.tableMaxSize < e.vueltas →
      (∀ j < e.vueltas, h.ahora < e.relojLru j) →
      EnCadaVueltaBuddy e m (SinSombra e m) (UnionRecta e.fuera e.vueltas) (fun _ _ => True)
        e.vueltas 0 t →
      ∃ t' i, buddysystem e m e.vueltas 0 t = some (t', i)
        ∧ (t'.elements.getD i Particion.vacia).ocupado = false
        ∧ (m : Int) ≤ (t'.elements.getD i Particion.vacia).bytesDisponibles) ∧
    ((∀ s ∈ t.elements, s.ocupado = false) → ∀ fuera vueltas, t.tableMaxSize < vueltas →
      UnionRecta fuera vueltas t →
      ∃ t' s D, unirTodasLasHermanas fuera vueltas t = some t' ∧ t'.elements = s :: D
        ∧ s.ocupado = false ∧ s.item.data = cfg.ptrdata ∧ s.bytesDisponibles = cfg.blockSizeMax
        ∧ ∀ d ∈ D, d.viva = false) := by
  have hd : DatadaAlineada cfg h := corrida_invariante
    (C := fun x h => OpValida cfg x.1 ∧ RelojSube x h ∧ SinSaltear cfg x.1 x.2 h.tabla)
    (fun x h h' hd hx hr => hd.avanza hcfg hx.1 hx.2.1 hx.2.2 hr) ops
    (historiaInicial_alineada hcfg) hops hr
  obtain ⟨hist, hrep⟩ := hd.datada.mapa
  have hturno : EnTurno cfg h.toque h.ahora (fun k => ultimoSet k hist) h.tabla :=
    ⟨hd.alineada, hrep, hd.datada.fechas⟩
  have hturno' : EnTurno cfg h.toque h.ahora (fun k => ultimoSet k hist) t := by
    rcases ht with rfl | ⟨key, hq⟩
    · exact hturno
    · rcases quitarPrevio_casos hq with ⟨rfl, -⟩ | hrem
      · exact hturno
      · exact hturno.quita (micacheRemove_alineada hcfg.area hd.alineada hrem)
          (micacheRemove_soloQuita hrem)
  have hal := hturno'.alineada
  constructor
  · intro m e hm hmax hv hreloj hcada
    exact buddysystem_termina hcfg hk hm hmax hreloj hv hturno' hcada
  · intro hlib fuera vueltas hv hu
    obtain ⟨t', hun, hsin⟩ := unirTodasLasHermanas_termina hcfg hk vueltas hal hu
      (Nat.lt_of_le_of_lt (vivas_le t) hv)
    have hal' := unirTodasLasHermanas_alineada hcfg.chunk _ hal hu hun
    have hq := (unirTodasLasHermanas_buddy vueltas hal.buddy hun).2.quita.1
    have hlib' : ∀ s ∈ t'.elements, s.ocupado = false := by
      intro s hs
      by_contra ho
      have hmem := hq.subset (mem_ocupadas.mpr ⟨hs, by simpa using ho⟩)
      rw [hlib s (mem_ocupadas.mp hmem).1] at ho
      exact ho rfl
    obtain ⟨D, hv', hD⟩ := hsin.bloque hcfg hal' hlib'
    obtain ⟨s, D₀, hes, hs, rfl⟩ := List.map_eq_cons_iff.mp hv'
    refine ⟨t', s, D₀, hun, hes, hlib' s (by rw [hes]; simp), ?_, ?_, ?_⟩
    · rw [← limpia_data, hs, libre_data]
    · rw [← limpia_disponibles, hs, libre_disponibles]
    · intro d hd
      rw [← limpia_viva]
      exact muerta_not_viva (hD _ (List.mem_map_of_mem hd))

/-- With the cache full, one byte more takes an eviction. -/
theorem buddy_coloca_llenos : ∃ h t' i,
    corrida (avanzar cacheChica) pedidosLlenos (historiaInicial cacheChica) = some h
      ∧ buddysystem (entornoHora 600) 1 20 0 h.tabla = some (t', i)
      ∧ (t'.elements.getD i Particion.vacia).ocupado = false
      ∧ (1 : Int) ≤ (t'.elements.getD i Particion.vacia).bytesDisponibles := by
  have hsome : (corrida (avanzar cacheChica) pedidosLlenos (historiaInicial cacheChica)).map
      (fun h => decide (h.ahora = 520 ∧ h.tabla.tableMaxSize = 4
        ∧ EnCadaVueltaBuddy (entornoHora 600) 1 (SinSombra (entornoHora 600) 1)
          (UnionRecta (entornoHora 600).fuera 20) (fun _ _ => True) 20 0 h.tabla))
      = some true := by decide
  obtain ⟨h, hh, hdec⟩ := Option.map_eq_some_iff.mp hsome
  obtain ⟨hahora, hN, hcada⟩ := of_decide_eq_true hdec
  obtain ⟨t', i, hb⟩ := (buddy_coloca cacheChica_config (by decide) (by decide) hh
    (Or.inl rfl)).1 1 (entornoHora 600) (by decide) (by decide)
    (by rw [hN]; decide)
    (fun j _ => by
      show h.ahora < 600 + j
      omega) hcada
  exact ⟨h, t', i, hh, hb⟩

/-- A table on which the loop of `buddysystem` goes round without a change. -/
theorem buddysystem_gira {e : Entorno} {m : Nat} {t : TableInfo}
    (hb : buscarHueco e t m = some none)
    (hu : unirTodasLasHermanas e.fuera e.vueltas t = some t) (hc : t.elementsAmount = 0) :
    ∀ vueltas j, buddysystem e m vueltas j t = none := by
  intro vueltas
  induction vueltas with
  | zero => exact fun _ => rfl
  | succ v ih =>
      intro j
      simp [buddysystem, hb, hu, hc, ih]

/-- The blocks merged askew, with every item deleted. -/
def pedidosVaciados : List (Op × Entorno) :=
  pedidosTorcidos ++ [(.delete [4], entornoDiez), (.delete [7], entornoDiez),
    (.delete [8], entornoDiez)]

theorem unirTodasLasHermanas_elements {fuera : Nat → Particion} {v : Nat} {t t' : TableInfo}
    (hr : unirTodasLasHermanas fuera v t = some t') :
    t' = { t with elements := t'.elements } := by
  refine unirTodasLasHermanas_regla (P := fun u => u = { t with elements := u.elements }) ?_ v
    rfl hr
  intro i p hp
  have h1 : ∀ arriba s, unirHermana p.self arriba s
      = { p.self with elements := (unirHermana p.self arriba s).elements } := fun _ _ => rfl
  have h2 : ∀ arriba s, unirHermana p.self arriba s
      = { t with elements := (unirHermana p.self arriba s).elements } := fun arriba s =>
    (h1 arriba s).trans (congrArg (fun u : TableInfo =>
      { u with elements := (unirHermana p.self arriba s).elements }) hp)
  unfold unirTurno
  dsimp only
  split
  · split <;> split
    · exact h2 _ _
    · exact hp
    · exact h2 _ _
    · exact hp
  · split <;> exact hp

/-- **THE LOOP DOES NOT END**: blocks of 4, 1, 2 and 1 bytes are left of an
    empty cache of eight, no two of them sisters, and a request of eight bytes
    goes round for ever. -/
theorem pedidosVaciados_gira : ∃ t, (∀ x ∈ pedidosVaciados, OpValida cacheOcho x.1)
    ∧ correr cacheOcho pedidosVaciados (cacheInitialize cacheOcho) = some t
    ∧ (∀ s ∈ t.elements, s.ocupado = false)
    ∧ ∀ vueltas j, buddysystem entornoDiez 8 vueltas j t = none := by
  have hsome : (correr cacheOcho pedidosVaciados (cacheInitialize cacheOcho)).map
      (fun t => decide ((∀ s ∈ t.elements, s.ocupado = false) ∧ t.elementsAmount = 0
        ∧ huecoBuddy t 8 = none
        ∧ (unirTodasLasHermanas entornoDiez.fuera entornoDiez.vueltas t).map (·.elements)
          = some t.elements)) = some true := by decide
  obtain ⟨t, ht, hdec⟩ := Option.map_eq_some_iff.mp hsome
  obtain ⟨hlib, hc, hno, hun⟩ := of_decide_eq_true hdec
  obtain ⟨t', hu, hes⟩ := Option.map_eq_some_iff.mp hun
  have hsame : t' = t := by
    rw [unirTodasLasHermanas_elements hu, hes]
  rw [hsame] at hu
  exact ⟨t, by decide, ht, hlib, buddysystem_gira (by rw [buscarHueco, hno]) hu hc⟩

/-- An item of two chunks in a cache of four. -/
def pedidosDobles : List (Op × Entorno) :=
  [(.set [1] [1, 2, 3, 4, 5, 6, 7, 8], entornoDiez)]

/-- **AN OCCUPIED SLOT IS RETURNED**: the block after an item, once split, has
    the mark of the item before it. -/
theorem pedidosDobles_ocupada : ∃ t t',
    correr cacheChica pedidosDobles (cacheInitialize cacheChica) = some t
      ∧ buddysystem entornoDiez 4 20 0 t = some (t', 1)
      ∧ (t'.elements.getD 1 Particion.vacia).ocupado = true := by
  have hsome : ((correr cacheChica pedidosDobles (cacheInitialize cacheChica)).bind fun t =>
      (buddysystem entornoDiez 4 20 0 t).map fun r =>
        (r.2, (r.1.elements.getD 1 Particion.vacia).ocupado)) = some (1, true) := by decide
  obtain ⟨t, ht, hs⟩ := Option.bind_eq_some_iff.mp hsome
  obtain ⟨⟨t', i⟩, hb, heq⟩ := Option.map_eq_some_iff.mp hs
  obtain ⟨rfl, hoc⟩ := Prod.mk.inj heq
  exact ⟨t, t', ht, hb, hoc⟩

/-- Both ways in which a placement fails. -/
theorem buddy_coloca_falla :
    (∃ t, (∀ x ∈ pedidosVaciados, OpValida cacheOcho x.1)
      ∧ correr cacheOcho pedidosVaciados (cacheInitialize cacheOcho) = some t
      ∧ (∀ s ∈ t.elements, s.ocupado = false)
      ∧ ∀ vueltas j, buddysystem entornoDiez 8 vueltas j t = none)
    ∧ ∃ t t', correr cacheChica pedidosDobles (cacheInitialize cacheChica) = some t
      ∧ buddysystem entornoDiez 4 20 0 t = some (t', 1)
      ∧ (t'.elements.getD 1 Particion.vacia).ocupado = true :=
  ⟨pedidosVaciados_gira, pedidosDobles_ocupada⟩

end Rc
