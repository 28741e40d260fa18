import Yanero.RcParticionesRunProofs

/-! # The free-space counter of the dynamic scheme

    A creation takes from `espacio_libre` what its item needs and leaves the
    unusable bytes of the slot in the counter; a removal gives them back once
    more when the item has a chunk or more.  Away from such removals
    (`SinFuga`) the counter and the bytes of the entries add up to the cache
    size, `Cuenta`, and this file carries that sum through every routine and
    every run. -/

namespace Rc

open Bucles Bytes Teselado

/-- The bytes the entries of a table take. -/
def usado (c : Nat) (t : TableInfo) : Int :=
  ((contenido t).map fun x => (ocupa c x.2.2.length : Int)).sum

/-- The counter and the bytes in use make up the cache. -/
def Cuenta (cfg : Config) (t : TableInfo) : Prop :=
  t.espacioLibre + usado cfg.chunkSize t = cfg.blockSizeMax

/-- The removal of a key gives back to the counter what its creation took: not
    of an item of a chunk or more that has unusable bytes. -/
def bajaJusta (t : TableInfo) (key : Clave) : Prop :=
  ∀ s ∈ t.elements, s.ocupado = true → s.item.key = key →
    s.item.ndata < t.sizeChunk ∨ s.bytesInutilizados = 0

instance (t : TableInfo) (key : Clave) : Decidable (bajaJusta t key) :=
  inferInstanceAs (Decidable (∀ s ∈ t.elements, s.ocupado = true → s.item.key = key →
    s.item.ndata < t.sizeChunk ∨ s.bytesInutilizados = 0))

/-- No removal of the operation gives back unusable bytes. -/
def SinFuga (cfg : Config) (op : Op) (e : Entorno) (t : TableInfo) : Prop :=
  match op with
  | .set key valor => bajaJusta t key ∧ ∀ t' ∈ quitarPrevio t key,
      EnCadaVuelta cfg e valor.length (fun _ _ _ _ => True) (fun _ => True) bajaJusta
        e.vueltas 0 t'
  | .delete key => bajaJusta t key
  | .get _ | .flushAll => True

instance (cfg : Config) (op : Op) (e : Entorno) (t : TableInfo) :
    Decidable (SinFuga cfg op e t) :=
  match op with
  | .set key valor => inferInstanceAs (Decidable (bajaJusta t key
      ∧ ∀ t' ∈ quitarPrevio t key, EnCadaVuelta cfg e valor.length (fun _ _ _ _ => True)
        (fun _ => True) bajaJusta e.vueltas 0 t'))
  | .delete key => inferInstanceAs (Decidable (bajaJusta t key))
  | .get _ | .flushAll => inferInstanceAs (Decidable True)

section Cuentas

variable {cfg : Config} {t t' : TableInfo}

theorem usado_nonneg (c : Nat) (t : TableInfo) : 0 ≤ usado c t := by
  refine List.sum_nonneg ?_
  intro x hx
  obtain ⟨y, -, rfl⟩ := List.mem_map.mp hx
  exact Int.natCast_nonneg _

/-- The bytes in use, slot by slot. -/
theorem usado_ocupadas (c : Nat) (t : TableInfo) :
    usado c t = ((ocupadas t.elements).map fun s => (ocupa c s.item.ndata : Int)).sum := by
  simp only [usado, contenido, List.map_map, Function.comp_def, entrada, length_leer]

theorem Cuenta.of_eq (h : Cuenta cfg t) (he : t'.espacioLibre = t.espacioLibre)
    (hc : contenido t' = contenido t) : Cuenta cfg t' := by
  unfold Cuenta usado at h ⊢
  rw [he, hc]
  exact h

/-! ## Removal -/

theorem bytesLiberados_justa {c : Nat} {s : Particion}
    (h : s.item.ndata < c ∨ s.bytesInutilizados = 0) :
    bytesLiberados c s = ocupa c s.item.ndata := by
  unfold bytesLiberados ocupa
  split <;> omega

/-- A removal takes one entry from the sum and gives its bytes to the
    counter. -/
theorem micacheRemove_usado {c : Nat} {key : Clave} (hr : micacheRemove t key = some t') :
    ∃ s ∈ ocupadas t.elements, s.item.key = key
      ∧ usado c t = usado c t' + ocupa c s.item.ndata
      ∧ t'.espacioLibre = t.espacioLibre + bytesLiberados t.sizeChunk s := by
  obtain ⟨A, s, B, hv, hoc, hkey, -, hv', hesp, -⟩ := micacheRemove_vista hr
  refine ⟨s, ?_, hkey, ?_, hesp⟩
  · rw [← ocupadas_vista, hv]
    exact mem_ocupadas.mpr ⟨by simp, hoc⟩
  · rw [usado_ocupadas, usado_ocupadas, ← ocupadas_vista, ← ocupadas_vista, hv, hv',
      ocupadas_append, ocupadas_append, ocupadas_cons_of_true hoc, ocupadas_libre]
    simp only [List.map_append, List.map_cons, List.sum_append, List.sum_cons]
    omega

/-- A removal moves the bytes of one entry from the sum to the counter. -/
theorem micacheRemove_cuenta {key : Clave} (hch : t.sizeChunk = cfg.chunkSize)
    (hj : bajaJusta t key) (h : Cuenta cfg t) (hr : micacheRemove t key = some t') :
    Cuenta cfg t' := by
  obtain ⟨s, hs, hkey, hus, hesp⟩ := micacheRemove_usado (c := cfg.chunkSize) hr
  obtain ⟨hmem, hoc⟩ := mem_ocupadas.mp hs
  have hlib := bytesLiberados_justa (hj s hmem hoc hkey)
  unfold Cuenta at h ⊢
  rw [hesp, hlib, hch]
  omega

theorem reemplazar_cuenta {ahora : Nat} (hch : t.sizeChunk = cfg.chunkSize)
    (hj : ∀ key, victima ahora t = some key → bajaJusta t key) (h : Cuenta cfg t)
    (hr : reemplazar ahora t = some t') : Cuenta cfg t' := by
  obtain ⟨key, t₁, hv, hr₁, rfl⟩ := reemplazar_remove hr
  exact (micacheRemove_cuenta hch (hj key hv) h hr₁).of_eq rfl rfl

/-! ## Placement -/

theorem unirHueco_espacio (t : TableInfo) (p k : Nat) (total : Int) :
    (unirHueco t p k total).espacioLibre = t.espacioLibre := by
  rw [unirHueco_marco]

/-- A sweep gives nothing back. -/
theorem barrer_espacio {fuera : Nat → Particion} {vueltas i : Nat}
    (h : barrer fuera vueltas i t = some t') : t'.espacioLibre = t.espacioLibre := by
  rw [barrer_marco h]

/-- **PLACEMENT** keeps the sum: a merge and a sweep touch neither side, a
    replacement moves bytes from one to the other. -/
theorem compactacion_cuenta {e : Entorno} {n vueltas fallidas i : Nat} (hc : 0 < cfg.chunkSize)
    (h : Din cfg True t) (hcta : Cuenta cfg t)
    (hpis : EnCadaVuelta cfg e n
      (fun t p k total => huecoSeguro t p k ∧ altaSegura cfg.chunkSize t p k total n)
      barridoSeguro (fun _ _ => True) vueltas fallidas t)
    (hper : EnCadaVuelta cfg e n (fun _ _ _ _ => True) (fun _ => True) bajaCompleta
      vueltas fallidas t)
    (hfug : EnCadaVuelta cfg e n (fun _ _ _ _ => True) (fun _ => True) bajaJusta
      vueltas fallidas t)
    (hr : compactacion cfg e n vueltas fallidas t = some (t', i)) : Cuenta cfg t' := by
  refine compactacion_regla
    (P := fun v j t => Din cfg True t ∧ Cuenta cfg t
      ∧ EnCadaVuelta cfg e n
        (fun t p k total => huecoSeguro t p k ∧ altaSegura cfg.chunkSize t p k total n)
        barridoSeguro (fun _ _ => True) v j t
      ∧ EnCadaVuelta cfg e n (fun _ _ _ _ => True) (fun _ => True) bajaCompleta v j t
      ∧ EnCadaVuelta cfg e n (fun _ _ _ _ => True) (fun _ => True) bajaJusta v j t)
    (Q := fun t' _ => Cuenta cfg t') ?_ ?_ ?_ vueltas fallidas ⟨h, hcta, hpis, hper, hfug⟩ hr
  · rintro v j t p k total ⟨hd, hcta, hp, -, -⟩ hh
    obtain ⟨hseg, halta⟩ := hp.halla hh
    obtain ⟨hcon, -⟩ := unirHueco_lugar hc hd hh hseg halta
    exact hcta.of_eq (unirHueco_espacio t p k total) hcon
  · rintro v j t t₁ ⟨hd, hcta, hp, hq, hf⟩ hh hcond h1
    obtain ⟨hseg, hp'⟩ := hp.barre hh hcond h1
    obtain ⟨hd', hcon⟩ := barrer_din hd hseg h1
    exact ⟨hd', hcta.of_eq (barrer_espacio h1) hcon, hp', (hq.barre hh hcond h1).2,
      (hf.barre hh hcond h1).2⟩
  · rintro v j t t₁ ⟨hd, hcta, hp, hq, hf⟩ hh hcond h1
    obtain ⟨hcom, hq'⟩ := hq.quita hh hcond h1
    obtain ⟨hjus, hf'⟩ := hf.quita hh hcond h1
    exact ⟨reemplazar_din hd (fun _ => hcom) h1, reemplazar_cuenta hd.chunk_eq hjus hcta h1,
      (hp.quita hh hcond h1).2, hq', hf'⟩

/-! ## Creation -/

/-- What a creation with room takes from the counter: what the item needs,
    and none of the bytes it leaves unusable. -/
theorem micacheCreateElement_espacio (fuera : Nat → Particion) (ahora : Nat) (key : Clave)
    {n c : Nat} {A R : List Particion} {x : Particion} (hes : t.elements = A ++ x :: R)
    (hn : (n : Int) ≤ x.bytesDisponibles) :
    (micacheCreateElement fuera ahora t key A.length n c).espacioLibre
      = t.espacioLibre - ocupa c n := by
  have hleer : (lruGet ahora (t.modificar A.length fun s =>
      { s with item := { s.item with key := key, ndata := n }, ocupado := true })
      A.length).leer fuera A.length
      = { x with item := { x.item with key := key, ndata := n }, ocupado := true
                 ultimaVezUsada := ahora } := by
    simp only [lruGet, TableInfo.modificar, TableInfo.leer, hes, modify_mitad, getD_mitad]
  unfold micacheCreateElement
  simp only [hleer]
  rw [if_pos hn]
  unfold repartirSobra
  dsimp only
  split <;> split <;> rfl

/-- The end of a SET on a placed slot. -/
theorem alta_cuenta {t₀ : TableInfo} {fuera : Nat → Particion} {ahora i : Nat} {key : Clave}
    {valor : List UInt8} {A B D : List Particion} {a : Nat} {F : Int} (hc : 0 < cfg.chunkSize)
    (h : LugarDin cfg True t₀ t valor.length i A a F B D) (hcta : Cuenta cfg t)
    (hr : itemRelease (storeInfo (copiarValor
      (micacheCreateElement fuera ahora t key i valor.length cfg.chunkSize) i valor) i) i
      = some t') : Cuenta cfg t' := by
  obtain ⟨-, X, Y, hcon, hXY⟩ := alta_din hc h hr
  obtain ⟨A₀, x, R, hes, rfl, -, -, -, hxF, -, hel⟩ := h.elements fuera ahora key hc
  have hesp := micacheCreateElement_espacio fuera ahora key (c := cfg.chunkSize) hes
    (n := valor.length) (by rw [hxF]; exact h.cabe)
  unfold Cuenta usado at hcta ⊢
  rw [hcon, guardar_eq hel hr, hesp]
  rw [← hXY] at hcta
  simp only [List.map_append, List.map_cons, List.sum_append, List.sum_cons] at hcta ⊢
  omega

/-! ## The operations -/

theorem opSet_cuenta {e : Entorno} {key : Clave} {valor : List UInt8} {r : Respuesta}
    (hcfg : ConfigDin cfg) (h : Din cfg True t) (hcta : Cuenta cfg t)
    (hpis : SinPisar cfg (.set key valor) e t) (hper : SinPerder cfg (.set key valor) e t)
    (hfug : SinFuga cfg (.set key valor) e t) (hr : opSet cfg e t key valor = some (t', r)) :
    Cuenta cfg t' := by
  unfold opSet at hr
  by_cases hmax : cfg.blockSizeMax < valor.length
  · rw [if_pos hmax] at hr
    obtain ⟨rfl, -⟩ := Prod.mk.inj (Option.some.inj hr)
    exact hcta
  · rw [if_neg hmax] at hr
    obtain ⟨⟨t₂, pos⟩, h1, hr⟩ := Option.bind_eq_some_iff.mp hr
    obtain ⟨t₃, h2, heq⟩ := Option.map_eq_some_iff.mp hr
    obtain ⟨rfl, -⟩ := Prod.mk.inj heq
    unfold colocar at h1
    obtain ⟨t₁, hprev, hbs⟩ := Option.bind_eq_some_iff.mp h1
    simp only [hcfg.esquema] at hbs
    simp only [crear, hcfg.esquema] at h2
    have hd₁ : Din cfg True t₁ ∧ Cuenta cfg t₁ := by
      rcases quitarPrevio_casos hprev with ⟨rfl, -⟩ | hrem
      · exact ⟨h, hcta⟩
      · exact ⟨micacheRemove_din' h (fun _ => hper.1) hrem,
          micacheRemove_cuenta h.chunk_eq hfug.1 hcta hrem⟩
    have hcta₂ := compactacion_cuenta hcfg.chunk hd₁.1 hd₁.2 (hpis t₁ hprev) (hper.2 t₁ hprev)
      (hfug.2 t₁ hprev) hbs
    obtain ⟨A, a, F, B, D, hl⟩ := compactacion_din hcfg.chunk hd₁.1 (hpis t₁ hprev)
      (fun _ => hper.2 t₁ hprev) hbs
    exact alta_cuenta hcfg.chunk hl hcta₂ h2

theorem opGet_cuenta {e : Entorno} {key : Clave} {r : Respuesta} (h : Cuenta cfg t)
    (hr : opGet cfg e t key = some (t', r)) : Cuenta cfg t' := by
  rcases opGet_casos hr with ⟨rfl, -, -⟩ | ⟨A, s, B, hes, hoc, -, -, -, ⟨-, rfl⟩ | ⟨-, rfl⟩⟩
  · exact h
  · exact h
  · obtain ⟨hc, hc'⟩ := contenido_modificar hes hoc (usar e.relojGet) hoc
    exact h.of_eq rfl (hc'.trans hc.symm)

/-- The mark of a slot is no part of the sum. -/
theorem Cuenta.marcar {A B : List Particion} {s : Particion} (h : Cuenta cfg t)
    (hes : t.elements = A ++ s :: B) (hoc : s.ocupado = true) (b : Bool) :
    Cuenta cfg (t.modificar A.length (Rc.marcar b)) := by
  obtain ⟨hc, hc'⟩ := contenido_modificar hes hoc (Rc.marcar b) hoc
  unfold Cuenta usado at h ⊢
  rw [hc] at h
  rw [hc']
  simpa [entrada, Rc.marcar, TableInfo.modificar] using h

theorem deleteOne_cuenta {key : Clave} {b : Bool} (hch : t.sizeChunk = cfg.chunkSize)
    (hj : bajaJusta t key) (h : Cuenta cfg t) (hr : deleteOne t key = some (t', b)) :
    Cuenta cfg t' := by
  rcases deleteOne_casos hr with ⟨rfl, -⟩ | ⟨A, s, B, hes, hoc, hkey, h1⟩
  · exact h
  · have hcta := h.marcar hes hoc false
    have hch' : (t.modificar A.length (Rc.marcar false)).sizeChunk = cfg.chunkSize := hch
    refine micacheRemove_cuenta hch' ?_ hcta h1
    intro u hu ho hk
    simp only [TableInfo.modificar, hes, modify_mitad] at hu
    have hmem : u ∈ A ++ s :: B ∨ u = Rc.marcar false s := by
      simp only [List.mem_append, List.mem_cons] at hu ⊢
      tauto
    rcases hmem with hmem | rfl
    · exact hj u (by rw [hes]; exact hmem) ho hk
    · exact hj s (by rw [hes]; simp) hoc hkey

/-- `flush_all` counts every byte of the table, when no slot forgets some. -/
theorem micacheClean_cuenta (h : Din cfg True t)
    (hseg : ∀ s ∈ t.elements, s.ocupado = true → bajaSegura t.sizeChunk s) :
    Cuenta cfg (micacheClean t) := by
  obtain ⟨L, D, h⟩ := h
  have hL : (L.map (aporteClean cfg.chunkSize)).sum = (L.map (largoDin cfg.chunkSize)).sum := by
    congr 1
    refine List.map_congr_left ?_
    intro u hu
    refine aporteClean_eq (h.bien u hu) fun ho => ?_
    have hmem : u ∈ ocupadas t.elements := by
      rw [h.ocupadas_eq]
      exact mem_ocupadas.mpr ⟨hu, ho⟩
    rw [← h.chunk]
    exact hseg u (mem_ocupadas.mp hmem).1 ho
  have hD : (D.map (aporteClean cfg.chunkSize)).sum = 0 := by
    refine List.sum_eq_zero ?_
    intro x hx
    obtain ⟨d, hd, rfl⟩ := List.mem_map.mp hx
    obtain ⟨h1, h2, h3⟩ := h.muertas d hd
    simp [aporteClean, h1, h2, h3]
  have hesp : (micacheClean t).espacioLibre = cfg.blockSizeMax := by
    show (t.elements.map (aporteClean t.sizeChunk)).sum = _
    rw [← map_aporteClean_vista, h.tabla, h.chunk, List.map_append, List.sum_append, hL, hD,
      h.suma trivial, add_zero]
  unfold Cuenta usado
  rw [micacheClean_contenido, hesp]
  simp

/-- One complete operation keeps the sum. -/
theorem ejecutar_cuenta {op : Op} {e : Entorno} {r : Respuesta} (hcfg : ConfigDin cfg)
    (h : Din cfg True t) (hcta : Cuenta cfg t) (hpis : SinPisar cfg op e t)
    (hper : SinPerder cfg op e t) (hfug : SinFuga cfg op e t)
    (hr : ejecutar cfg op e t = some (t', r)) : Cuenta cfg t' := by
  cases op with
  | set key valor => exact opSet_cuenta hcfg h hcta hpis hper hfug hr
  | get key => exact opGet_cuenta hcta hr
  | delete key =>
      obtain ⟨⟨t₁, b⟩, h1, heq⟩ := Option.map_eq_some_iff.mp hr
      obtain ⟨rfl, -⟩ := Prod.mk.inj heq
      exact deleteOne_cuenta h.chunk_eq hfug hcta h1
  | flushAll =>
      obtain ⟨rfl, -⟩ := Prod.mk.inj (Option.some.inj hr)
      exact micacheClean_cuenta h hper

/-! ## Whole runs -/

theorem cacheInitialize_cuenta (cfg : Config) : Cuenta cfg (cacheInitialize cfg) := by
  have hno : contenido (cacheInitialize cfg) = [] := by
    rw [List.eq_nil_iff_forall_not_mem]
    intro x hx
    exact nomatch ((cacheInitialize_representa cfg).guardadas x hx).2
  unfold Cuenta usado
  rw [hno]
  simp [cacheInitialize]

/-- The sum bounds the counter: the entries lie apart inside the data area. -/
theorem Cuenta.cotas (h : Cuenta cfg t) (hd : Din cfg True t) :
    0 ≤ t.espacioLibre ∧ t.espacioLibre ≤ cfg.blockSizeMax := by
  obtain ⟨L, D, hd⟩ := hd
  have hle : ∀ l : List Particion, (∀ s ∈ l, BienDin cfg.chunkSize s) →
      ((ocupadas l).map fun s => (ocupa cfg.chunkSize s.item.ndata : Int)).sum
        ≤ (l.map (largoDin cfg.chunkSize)).sum := by
    intro l
    induction l with
    | nil => intro _; exact le_refl _
    | cons s l ih =>
        intro hl
        have hl' := ih fun u hu => hl u (by simp [hu])
        have hs := hl s (by simp)
        cases ho : s.ocupado with
        | true =>
            have := (hs.ocupada ho).2
            simp only [ocupadas_cons_of_true ho, List.map_cons, List.sum_cons,
              largoDin_of_ocupado ho]
            omega
        | false =>
            have := hs.chunk_le
            simp only [ocupadas_cons_of_false ho, List.map_cons, List.sum_cons]
            omega
  have hus := hle L hd.bien
  rw [← hd.ocupadas_eq, ← usado_ocupadas, hd.suma trivial] at hus
  have hpos := usado_nonneg cfg.chunkSize t
  unfold Cuenta at h
  omega

/-! ## A SET of a fresh key and its DELETE -/

/-- A DELETE of a stored key gives its bytes back, when every slot under the
    key has the same ones. -/
theorem deleteOne_espacio {key : Clave} {s : Particion} {b : Int} (hs : s ∈ t.elements)
    (hsto : coincideStored key s = true)
    (hb : ∀ u ∈ t.elements, u.ocupado = true → u.item.key = key →
      bytesLiberados t.sizeChunk u = b) :
    ∃ t', deleteOne t key = some (t', true) ∧ t'.espacioLibre = t.espacioLibre + b := by
  obtain ⟨pos, hpos⟩ : ∃ pos, micacheSearchElement t key = some pos := by
    cases h : micacheSearchElement t key with
    | none =>
        have := List.findIdx?_eq_none_iff.mp h s hs
        rw [hsto] at this
        cases this
    | some pos => exact ⟨pos, rfl⟩
  obtain ⟨A, x, B, hes, rfl, hoc, -, hkey⟩ := micacheSearchElement_parte hpos
  have hx : x ∈ t.elements := by rw [hes]; simp
  have hel : (t.modificar A.length (Rc.marcar false)).elements = A ++ Rc.marcar false x :: B := by
    simp only [TableInfo.modificar, hes, modify_mitad]
  obtain ⟨t', ht'⟩ : ∃ t', micacheRemove (t.modificar A.length (Rc.marcar false)) key = some t' :=
    micacheRemove_vuelve (s := Rc.marcar false x) (by rw [hel]; simp) hoc hkey
  have hdel : deleteOne t key = some (t', true) := by
    have hrel : itemRelease (t.modificar A.length (Rc.marcar false)) A.length = some t' := by
      simp only [itemRelease, getD_modificar hes (Rc.marcar false)]
      rw [if_neg (by simp [Rc.marcar]), show (Rc.marcar false x).item.key = key from hkey]
      exact ht'
    unfold deleteOne
    rw [hpos]
    show (itemRelease (t.modificar A.length (Rc.marcar false)) A.length).map (·, true) = _
    rw [hrel]
    rfl
  refine ⟨t', hdel, ?_⟩
  obtain ⟨A', u, B', hv, huoc, hukey, -, -, hesp, -⟩ := micacheRemove_vista ht'
  have hu : u ∈ ocupadas (A ++ Rc.marcar false x :: B) := by
    rw [← hel, ← ocupadas_vista, hv]
    exact mem_ocupadas.mpr ⟨by simp, huoc⟩
  have hub : bytesLiberados t.sizeChunk u = b := by
    have hcase : u ∈ t.elements ∨ u = Rc.marcar false x := by
      have := (mem_ocupadas.mp hu).1
      simp only [hes, List.mem_append, List.mem_cons] at this ⊢
      tauto
    rcases hcase with hmem | rfl
    · exact hb u hmem huoc hukey
    · exact hb x hx hoc hkey
  rw [hesp, ← hub]
  rfl

theorem claves_unicas {A R : List Particion} {o : Particion} (hes : t.elements = A ++ o :: R)
    (ho : o.ocupado = true) (hu : (contenido t).Pairwise fun x y => x.1 ≠ y.1) :
    ∀ s ∈ ocupadas A ++ ocupadas R, s.item.key ≠ o.item.key := by
  rw [contenido, hes, ocupadas_append, ocupadas_cons_of_true ho, List.map_append, List.map_cons,
    List.pairwise_append, List.pairwise_cons] at hu
  intro s hs
  rcases List.mem_append.mp hs with hA | hR
  · exact hu.2.2 _ (List.mem_map_of_mem hA) _ List.mem_cons_self
  · exact (hu.2.1.1 _ (List.mem_map_of_mem hR)).symm

/-- A SET of a fresh key whose first search finds a hole: the slot it makes,
    the only one under the key, and what it takes from the counter. -/
theorem opSet_directo {σ : Clave → Option (List UInt8)} {e : Entorno} {key : Clave}
    {valor : List UInt8} {p k : Nat} {total : Int} (hcfg : ConfigDin cfg) (h : Din cfg True t)
    (hrep : Representa σ t) (hmax : valor.length ≤ cfg.blockSizeMax) (hv : 0 < e.vueltas)
    (hfresca : micacheSearchElement t key = none)
    (hh : hueco cfg.algBusqueda t valor.length = some (p, k, total))
    (hpis : SinPisar cfg (.set key valor) e t) :
    ∃ t₁ A o R, ejecutar cfg (.set key valor) e t = some (t₁, .success)
      ∧ t₁.elements = A ++ o :: R ∧ coincideStored key o = true
      ∧ o.item.ndata = valor.length
      ∧ o.bytesInutilizados = (if (cfg.chunkSize : Int) ≤ total - ocupa cfg.chunkSize valor.length
          then 0 else total - ocupa cfg.chunkSize valor.length)
      ∧ (∀ s ∈ ocupadas A ++ ocupadas R, s.item.key ≠ key)
      ∧ t₁.sizeChunk = cfg.chunkSize
      ∧ t₁.espacioLibre = t.espacioLibre - ocupa cfg.chunkSize valor.length := by
  have hprev : quitarPrevio t key = some t := by
    unfold quitarPrevio
    rw [hfresca]
  obtain ⟨v, hvu⟩ : ∃ v, e.vueltas = v + 1 := ⟨e.vueltas - 1, by omega⟩
  have hpis' := hpis t hprev
  rw [hvu] at hpis'
  obtain ⟨hseg, halta⟩ := hpis'.halla hh
  obtain ⟨hcon, -, A, a, B, D, hl⟩ := unirHueco_lugar hcfg.chunk h hh hseg halta
  obtain ⟨A₀, x, R, hes, hlen, -, -, -, hxF, -, hel⟩ :=
    hl.elements e.fuera e.relojGet key hcfg.chunk
  have hcol : colocar cfg e t key valor.length = some (unirHueco t p k total, p) := by
    simp only [colocar, hprev, hcfg.esquema, hvu, Option.bind_some, compactacion,
      buscarLugar_hueco, hh, Option.map_some]
  have hesp := micacheCreateElement_espacio e.fuera e.relojGet key (n := valor.length)
    (c := cfg.chunkSize) hes (by rw [hxF]; exact hl.cabe)
  rw [← hlen] at hel
  have hgua := guardar_some valor hel
  rw [hlen] at hel hgua hesp
  generalize ht₁ : ({ micacheCreateElement e.fuera e.relojGet (unirHueco t p k total) key p
    valor.length cfg.chunkSize with elements := _, memoria := _ } : TableInfo) = t₁ at hgua
  refine ⟨t₁, A₀, _, _, ?_, by rw [← ht₁], ?_, rfl, rfl, ?_, ?_, ?_⟩
  · show opSet cfg e t key valor = _
    unfold opSet
    rw [if_neg (by omega), hcol]
    simp only [Option.bind_some, crear, hcfg.esquema, hgua, Option.map_some]
  · simp [coincideStored, Rc.marcar, creadaDin]
  · -- no entry of the table was under the key
    obtain ⟨-, X, Y, hcon₁, hXY⟩ := alta_din hcfg.chunk hl hgua
    have hu := (representa_alta hrep (micacheSearchElement_none hrep hfresca) hcon₁
      (by rw [hXY, hcon])).unicas
    exact claves_unicas (by rw [← ht₁]) rfl hu
  · rw [← ht₁]
    exact ((micacheCreateElement_resto _ _ _ _ _ _ _).2.trans hl.inv.chunk)
  · rw [← ht₁]
    show (micacheCreateElement e.fuera e.relojGet _ key p _ _).espacioLibre = _
    rw [hesp, unirHueco_espacio]

/-- **SET AND DELETE**: the pair leaves the counter as it was, but for an item
    of a chunk or more whose hole is neither exact nor leaves a chunk. -/
theorem set_delete_espacio {σ : Clave → Option (List UInt8)} {e : Entorno} (e' : Entorno)
    {key : Clave} {valor : List UInt8} {p k : Nat} {total : Int} (hcfg : ConfigDin cfg)
    (h : Din cfg True t) (hrep : Representa σ t) (hmax : valor.length ≤ cfg.blockSizeMax)
    (hv : 0 < e.vueltas) (hfresca : micacheSearchElement t key = none)
    (hh : hueco cfg.algBusqueda t valor.length = some (p, k, total))
    (hpis : SinPisar cfg (.set key valor) e t) :
    ∃ t₁ t₂, ejecutar cfg (.set key valor) e t = some (t₁, .success)
      ∧ ejecutar cfg (.delete key) e' t₁ = some (t₂, .success)
      ∧ (t₂.espacioLibre = t.espacioLibre ↔ valor.length < cfg.chunkSize
        ∨ total = ocupa cfg.chunkSize valor.length
        ∨ (cfg.chunkSize : Int) ≤ total - ocupa cfg.chunkSize valor.length) := by
  obtain ⟨t₁, A, o, R, hset, hes, hsto, hnd, hin, huni, hch, hesp⟩ :=
    opSet_directo hcfg h hrep hmax hv hfresca hh hpis
  have hmem : o ∈ t₁.elements := by rw [hes]; simp
  obtain ⟨t₂, hdel, hesp₂⟩ := deleteOne_espacio (b := bytesLiberados cfg.chunkSize o) hmem hsto (by
    -- the new slot is the only one under the key
    intro u hu huoc hukey
    rw [hch]
    have hcase : u = o ∨ u ∈ ocupadas A ++ ocupadas R := by
      simp only [hes, List.mem_append, List.mem_cons, mem_ocupadas] at hu ⊢
      tauto
    rcases hcase with rfl | hu'
    · rfl
    · exact absurd hukey (huni u hu'))
  refine ⟨t₁, t₂, hset, ?_, ?_⟩
  · simp only [ejecutar, hdel, Option.map_some, if_true]
  · rw [hesp₂, hesp]
    unfold bytesLiberados
    rw [hin, hnd]
    unfold ocupa
    by_cases hn : valor.length < cfg.chunkSize
    · simp only [if_pos hn]
      omega
    · simp only [if_neg hn]
      split <;> omega

/-- One complete operation leaves a table that represents some map. -/
theorem ejecutar_representada {op : Op} {e : Entorno} {r : Respuesta} (hcfg : ConfigDin cfg)
    (h : Din cfg True t) (hrep : ∃ σ, Representa σ t) (hpis : SinPisar cfg op e t)
    (hper : SinPerder cfg op e t) (hr : ejecutar cfg op e t = some (t', r)) :
    ∃ σ, Representa σ t' := by
  obtain ⟨σ, hrep⟩ := hrep
  cases op with
  | set key valor =>
      by_cases hmax : valor.length ≤ cfg.blockSizeMax
      · exact ⟨_, (opSet_din hcfg.esquema hcfg.chunk h hpis (fun _ => hper) hr).2 hmax σ hrep⟩
      · have hr' : opSet cfg e t key valor = some (t', r) := hr
        unfold opSet at hr'
        rw [if_pos (by omega)] at hr'
        obtain ⟨rfl, -⟩ := Prod.mk.inj (Option.some.inj hr')
        exact ⟨σ, hrep⟩
  | get key => exact ⟨σ, (opGet_representa hrep hr).1⟩
  | delete key =>
      obtain ⟨⟨t₁, b⟩, h1, heq⟩ := Option.map_eq_some_iff.mp hr
      obtain ⟨rfl, -⟩ := Prod.mk.inj heq
      exact ⟨σ, hrep.sublist (deleteOne_contenido hrep h1).1⟩
  | flushAll =>
      obtain ⟨rfl, -⟩ := Prod.mk.inj (Option.some.inj hr)
      exact ⟨σ, hrep.sublist (by rw [micacheClean_contenido]; exact List.nil_sublist _)⟩

end Cuentas

/-- **THE COUNTER** stays within the cache after every run none of whose
    operations overlaps partitions, forgets bytes or gives unusable bytes
    back; and there, a SET of a fresh key followed by its DELETE leaves it
    unchanged exactly when the item has no unusable bytes to give back. -/
theorem espacio_libre {cfg : Config} {ops : List (Op × Entorno)} {t : TableInfo}
    (hcfg : ConfigDin cfg)
    (hops : Cumple cfg (fun op e t => ClaveCorta op ∧ SinPisar cfg op e t ∧ SinPerder cfg op e t
      ∧ SinFuga cfg op e t) ops (cacheInitialize cfg))
    (hr : correr cfg ops (cacheInitialize cfg) = some t) :
    (0 ≤ t.espacioLibre ∧ t.espacioLibre ≤ cfg.blockSizeMax) ∧
    ∀ key valor e e' p k total, key.length ≤ 60 → valor.length ≤ cfg.blockSizeMax →
      0 < e.vueltas → micacheSearchElement t key = none →
      hueco cfg.algBusqueda t valor.length = some (p, k, total) →
      SinPisar cfg (.set key valor) e t →
      ∃ t₁ t₂, ejecutar cfg (.set key valor) e t = some (t₁, .success)
        ∧ ejecutar cfg (.delete key) e' t₁ = some (t₂, .success)
        ∧ (t₂.espacioLibre = t.espacioLibre ↔ valor.length < cfg.chunkSize
          ∨ total = ocupa cfg.chunkSize valor.length
          ∨ (cfg.chunkSize : Int) ≤ total - ocupa cfg.chunkSize valor.length) := by
  have hinv := correr_regla
    (P := fun _ t => Din cfg True t ∧ Cuenta cfg t ∧ ∃ σ, Representa σ t)
    (fun {hist op e t t' r} hop h hr => by
      obtain ⟨hd, hcta, hrep⟩ := h
      obtain ⟨-, hpis, hper, hfug⟩ := hop
      exact ⟨ejecutar_din hcfg hd hpis (fun _ => hper) hr,
        ejecutar_cuenta hcfg hd hcta hpis hper hfug hr,
        ejecutar_representada hcfg hd hrep hpis hper hr⟩)
    ops [] ⟨cacheInitialize_din hcfg, cacheInitialize_cuenta cfg, _, cacheInitialize_representa cfg⟩
    hops hr
  obtain ⟨hd, hcta, σ, hrep⟩ := hinv
  refine ⟨hcta.cotas hd, ?_⟩
  intro key valor e e' p k total _ hmax hv hfresca hh hpis
  exact set_delete_espacio e' hcfg hd hrep hmax hv hfresca hh hpis

theorem espacio_libre_barridos :
    (∃ t, correr (cacheDiez 1) pedidosBarridos (cacheInitialize (cacheDiez 1)) = some t
      ∧ 0 ≤ t.espacioLibre ∧ t.espacioLibre ≤ 10)
    ∧ ∃ t₁ t₂, ejecutar (cacheDiez 1) (.set [1] [1, 1, 1, 1]) entornoDiez
          (cacheInitialize (cacheDiez 1)) = some (t₁, .success)
        ∧ ejecutar (cacheDiez 1) (.delete [1]) entornoDiez t₁ = some (t₂, .success)
        ∧ t₂.espacioLibre = 10 := by
  constructor
  · have hsome : (correr (cacheDiez 1) pedidosBarridos
        (cacheInitialize (cacheDiez 1))).isSome = true := by decide
    obtain ⟨t, ht⟩ := Option.isSome_iff_exists.mp hsome
    exact ⟨t, ht, (espacio_libre (cacheDiez_config 1) (by decide) ht).1⟩
  · obtain ⟨t₁, t₂, h1, h2, hiff⟩ := (@espacio_libre (cacheDiez 1) [] _
      (cacheDiez_config 1) trivial rfl).2
      [1] [1, 1, 1, 1] entornoDiez entornoDiez 0 1 10 (by decide) (by decide) (by decide)
      (by decide) (by decide) (by decide)
    exact ⟨t₁, t₂, h1, h2, hiff.mpr (by decide)⟩

/-- Two chunks of two bytes and a byte over. -/
def cacheCinco : Config :=
  { esquema := .particionesDinamicas, algBusqueda := .firstFit, algReemplazo := .lru
    frecuenciaCompactacion := -1, blockSizeMax := 5, chunkSize := 2, ptrdata := 100 }

/-- **THE COUNTER FAILS**: an item of four bytes leaves one byte unusable, and
    its removal gives back five, so the counter passes the cache size. -/
theorem espacio_libre_falla :
    (correr cacheCinco [(.set [1] [1, 1, 1, 1], entornoDiez), (.delete [1], entornoDiez)]
      (cacheInitialize cacheCinco)).map (·.espacioLibre) = some 6
    ∧ (cacheInitialize cacheCinco).espacioLibre = 5 ∧ cacheCinco.blockSizeMax = 5 := by
  decide

end Rc
