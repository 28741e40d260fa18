import Yanero.RcClaves
import Yanero.RcParticionesRunProofs

/-! # Keys stay in their cells

    While no key is longer than a cell, every write of key bytes falls inside
    the cell of its slot.  So the area holds, for each slot, the key the table
    has there (`AreaBien`), no write touches the key of another slot, and the
    engine over the area runs as the one over the table: the second refines
    the first step by step. -/

namespace Rc

open Bucles Bytes

/-! ## The invariant -/

/-- The write leaves the key bytes of every other occupied slot unchanged. -/
def EscrituraClave.Intacta (w : EscrituraClave) : Prop :=
  ∀ j s, w.elements[j]? = some s → s.ocupado = true → j ≠ w.slot →
    leer (Bytes.escribir w.claves (celda w.slot) w.bytes) (celda j) s.item.key.length
      = leer w.claves (celda j) s.item.key.length

/-- The keys fit their cells, the area holds them, and every write so far
    touched its own cell only. -/
structure AreaBien (es : List Particion) (a : AreaClaves) : Prop where
  corta : ∀ s ∈ es, s.item.key.length ≤ 60
  fiel : ∀ i s, es[i]? = some s → leer a.claves (celda i) s.item.key.length = s.item.key
  intactas : ∀ w ∈ a.escrituras, w.Intacta

variable {es es' : List Particion} {a : AreaClaves}

/-- Cells do not overlap. -/
theorem celda_ajena {i j n m : Nat} (h : i ≠ j) (hn : n ≤ 60) (hm : m ≤ 60) :
    celda j + m ≤ celda i ∨ celda i + n ≤ celda j := by
  unfold celda
  omega

/-- The invariant reads only the keys. -/
theorem AreaBien.of_claves (h : AreaBien es a)
    (hk : es'.map (·.item.key) = es.map (·.item.key)) : AreaBien es' a := by
  have hget : ∀ (i : Nat) (s : Particion), es'[i]? = some s →
      ∃ s', es[i]? = some s' ∧ s'.item.key = s.item.key := by
    intro i s hs
    have hi := congrArg (·[i]?) hk
    simp only [List.getElem?_map, hs, Option.map_some] at hi
    obtain ⟨s', hs', heq⟩ := Option.map_eq_some_iff.mp hi.symm
    exact ⟨s', hs', heq⟩
  refine ⟨?_, ?_, h.intactas⟩
  · intro s hs
    obtain ⟨i, hi⟩ := List.mem_iff_getElem?.mp hs
    obtain ⟨s', hs', heq⟩ := hget i s hi
    rw [← heq]
    exact h.corta s' (List.mem_of_getElem? hs')
  · intro i s hs
    obtain ⟨s', hs', heq⟩ := hget i s hs
    rw [← heq]
    exact h.fiel i s' hs'

/-- A rewrite that keeps the key. -/
theorem AreaBien.conserva (h : AreaBien es a) (i : Nat) {f : Particion → Particion}
    (hf : ∀ s, (f s).item.key = s.item.key) : AreaBien (es.modify i f) a :=
  h.of_claves (map_modify_of hf es i)

/-- A loop of rewrites that keep the key. -/
theorem AreaBien.conservaTodas (h : AreaBien es a) {g : Nat → Nat} {f : Particion → Particion}
    (hf : ∀ s, (f s).item.key = s.item.key) (n : Nat) :
    AreaBien (iterar (fun i es => es.modify (g i) f) n es) a :=
  iterar_invariante (f := fun i es => es.modify (g i) f) (fun _ es => AreaBien es a) h
    fun i _ _ h => h.conserva (g i) hf

/-- **A WRITE OF A SHORT KEY** keeps the invariant. -/
theorem AreaBien.escribe (h : AreaBien es a) {slot : Nat} {f : Particion → Particion}
    {bytes : List UInt8} (hb : bytes.length ≤ 60) (hf : ∀ s, (f s).item.key = bytes) :
    AreaBien (es.modify slot f) (a.escribir es slot bytes) := by
  refine ⟨?_, ?_, ?_⟩
  · intro s hs
    obtain ⟨i, hi⟩ := List.mem_iff_getElem?.mp hs
    by_cases his : slot = i
    · subst his
      rw [List.getElem?_modify_eq] at hi
      obtain ⟨s', -, rfl⟩ := Option.map_eq_some_iff.mp hi
      rw [hf]
      exact hb
    · rw [getElem?_modify_otra _ _ his] at hi
      exact h.corta s (List.mem_of_getElem? hi)
  · intro i s hi
    by_cases his : slot = i
    · subst his
      rw [List.getElem?_modify_eq] at hi
      obtain ⟨s', -, rfl⟩ := Option.map_eq_some_iff.mp hi
      rw [hf]
      exact leer_escribir _ _ _
    · rw [getElem?_modify_otra _ _ his] at hi
      have hcor := h.corta s (List.mem_of_getElem? hi)
      show leer (Bytes.escribir a.claves (celda slot) bytes) (celda i) _ = _
      rw [leer_escribir_ajeno (celda_ajena his hb hcor)]
      exact h.fiel i s hi
  · intro w hw
    rcases List.mem_append.mp hw with hw | hw
    · exact h.intactas w hw
    · obtain rfl := List.mem_singleton.mp hw
      intro j s hj _ hne
      exact leer_escribir_ajeno
        (celda_ajena (Ne.symm hne) hb (h.corta s (List.mem_of_getElem? hj)))

/-- What a copy reads from the cell of its source. -/
theorem AreaBien.leer_clave (h : AreaBien es a) (src : Nat) :
    leer a.claves (celda src) (es.getD src Particion.vacia).item.key.length
      = (es.getD src Particion.vacia).item.key := by
  rw [List.getD_eq_getElem?_getD]
  cases hs : es[src]? with
  | none => rfl
  | some s => exact h.fiel src s hs

/-- Every key of the table fits its cell. -/
theorem AreaBien.getD_corta (h : AreaBien es a) (src : Nat) :
    (es.getD src Particion.vacia).item.key.length ≤ 60 := by
  rw [List.getD_eq_getElem?_getD]
  cases hs : es[src]? with
  | none => exact Nat.zero_le _
  | some s => exact h.corta s (List.mem_of_getElem? hs)

/-- **A COPY OF A KEY** with its descriptor keeps the invariant. -/
theorem AreaBien.copia (h : AreaBien es a) {dst src : Nat} {f : Particion → Particion}
    (hf : ∀ s, (f s).item.key = (es.getD src Particion.vacia).item.key) :
    AreaBien (es.modify dst f) (a.copiar es dst src) := by
  unfold AreaClaves.copiar
  rw [h.leer_clave src]
  exact h.escribe (h.getD_corta src) hf

/-- A free source leaves the key of the destination. -/
theorem copiarDescriptor_clave_libre {src : Particion} (dst : Particion)
    (h : src.ocupado = false) : (copiarDescriptor src dst).item.key = dst.item.key := by
  simp [copiarDescriptor, h]

/-- The copy of a descriptor and the copy of its cell keep table and area together. -/
theorem AreaBien.copiaOcupada (h : AreaBien es a) (dst src : Nat) :
    AreaBien (es.modify dst (copiarDescriptor (es.getD src Particion.vacia)))
      (a.copiarOcupada es dst src) := by
  unfold AreaClaves.copiarOcupada
  cases ho : (es.getD src Particion.vacia).ocupado with
  | true =>
      rw [if_pos rfl]
      refine h.copia fun s => ?_
      rw [copiarDescriptor_ocupado s ho]
  | false =>
      rw [if_neg (by simp)]
      exact h.conserva dst fun s => copiarDescriptor_clave_libre s ho

/-! ## The dynamic scheme -/

section Dinamicas

variable {t t' : TableInfo}

/-- So does the shift of `desplazarAbajo`. -/
theorem desplazarAbajo_area (h : AreaBien t.elements a) (pos : Nat) (d : Int) :
    AreaBien (desplazarAbajo t pos d).elements (clavesDesplazarAbajo t pos a) := by
  unfold desplazarAbajo clavesDesplazarAbajo
  refine AreaBien.conserva ?_ pos (by intro s; rfl)
  exact seguir_invariante (fun _ es a => AreaBien es a) h
    fun i es a _ h => h.copia (by intro s; rfl)

/-- So does a new element with a key that fits. -/
theorem micacheCreateElement_area (h : AreaBien t.elements a) {key : Clave}
    (hk : key.length ≤ 60) (fuera : Nat → Particion) (ahora pos n c : Nat) :
    AreaBien (micacheCreateElement fuera ahora t key pos n c).elements
      (clavesMicacheCreate fuera ahora t key pos n c a) := by
  unfold micacheCreateElement clavesMicacheCreate
  dsimp only
  have h₁ : AreaBien (lruGet ahora (t.modificar pos fun s =>
      { s with item := { s.item with key := key, ndata := n }, ocupado := true }) pos).elements
      (a.escribir t.elements pos key) :=
    (h.escribe hk (by intro s; rfl)).conserva pos (by intro s; rfl)
  generalize (lruGet ahora (t.modificar pos fun s =>
      { s with item := { s.item with key := key, ndata := n }, ocupado := true }) pos) = t₁ at h₁ ⊢
  refine AreaBien.conserva ?_ pos (by intro s; rfl)
  by_cases hn : (n : Int) ≤ (t₁.leer fuera pos).bytesDisponibles
  · rw [if_pos hn, if_pos hn]
    unfold repartirSobra
    dsimp only
    have hleer : ∀ q, ({ t₁ with espacioLibre := t₁.espacioLibre - ocupa c n } : TableInfo).leer
        fuera q = t₁.leer fuera q := fun q => rfl
    rw [hleer]
    by_cases ho : (t₁.leer fuera (pos + 1)).ocupado = true
    · rw [if_pos ho]
      by_cases hd : (c : Int) ≤ (t₁.leer fuera pos).bytesDisponibles - ocupa c n
      · rw [if_pos hd, if_pos (And.intro ho hd)]
        exact desplazarAbajo_area (t := { t₁ with espacioLibre := t₁.espacioLibre - ocupa c n })
          h₁ (pos + 1) _
      · have hno : ¬ ((t₁.leer fuera (pos + 1)).ocupado = true
            ∧ (c : Int) ≤ (t₁.leer fuera pos).bytesDisponibles - ocupa c n) := fun hc => hd hc.2
        rw [if_neg hd, if_neg hno]
        exact h₁.conserva pos (by intro s; rfl)
    · have hno : ¬ ((t₁.leer fuera (pos + 1)).ocupado = true
          ∧ (c : Int) ≤ (t₁.leer fuera pos).bytesDisponibles - ocupa c n) := fun hc => ho hc.1
      rw [if_neg ho, if_neg hno]
      split
      · exact (h₁.conserva (pos + 1) (by intro s; rfl)).conserva (pos + 1) (by intro s; rfl)
      · exact (h₁.conserva (pos + 1) (by intro s; rfl)).conserva pos (by intro s; rfl)
  · rw [if_neg hn, if_neg hn]
    exact h₁

/-- So does a merge of free slots. -/
theorem unirHueco_area (h : AreaBien t.elements a) (p k : Nat) (total : Int) :
    AreaBien (unirHueco t p k total).elements (clavesUnirHueco t p k total a) := by
  unfold unirHueco clavesUnirHueco
  dsimp only
  have h₁ : AreaBien (t.elements.modify p fun s => { s with bytesDisponibles := total }) a :=
    h.conserva p (by intro s; rfl)
  split
  · exact seguir_invariante (fun _ es a => AreaBien es a)
      (h₁.conservaTodas (g := fun i => p + 1 + i)
        (f := fun s => { s with ocupado := false, bytesDisponibles := 0 }) (by intro s; rfl) _)
      fun i es a _ h => h.copiaOcupada _ _
  · exact h₁

/-- So does the shift of a sweep. -/
theorem desplazarArriba_area (h : AreaBien t.elements a) (topos cantVacios : Nat) :
    AreaBien (desplazarArriba t topos cantVacios).elements
      (a.copiar t.elements topos (topos + cantVacios)) := by
  unfold desplazarArriba
  dsimp only
  exact (h.copia (by intro s; rfl)).conserva (topos + cantVacios) (by intro s; rfl)

/-- So does one turn of the sweep. -/
theorem compactar_area (h : AreaBien t.elements a) (pos : Nat) :
    AreaBien (compactar t pos).1.elements (clavesCompactar t pos a) := by
  unfold compactar clavesCompactar
  dsimp only
  have h₁ : ∀ n, AreaBien (iterar (fun i es => es.modify (pos + i) fun s =>
      { s with bytesDisponibles := 0 }) n t.elements) a :=
    fun n => h.conservaTodas (g := fun i => pos + i)
      (f := fun s => { s with bytesDisponibles := 0 }) (by intro s; rfl) n
  have h₂ : ∀ k n es, AreaBien es a → AreaBien (iterar (fun i es => es.modify (pos + k + i) fun s =>
      { s with bytesInutilizados := 0 }) n es) a :=
    fun k n es hes => hes.conservaTodas (g := fun i => pos + k + i)
      (f := fun s => { s with bytesInutilizados := 0 }) (by intro s; rfl) n
  have h₃ : ∀ k n es, AreaBien es a →
      AreaBien (iterar (fun i u => desplazarArriba u (pos + i) k)
        n { t with elements := es }).elements
        (seguir (fun i u => desplazarArriba u (pos + i) k)
          (fun i u a => a.copiar u.elements (pos + i) (pos + i + k)) n
          { t with elements := es } a) :=
    fun k n es hes => seguir_invariante (fun _ (u : TableInfo) a => AreaBien u.elements a) hes
      fun i u a _ hu => desplazarArriba_area hu (pos + i) k
  split
  · exact (h₁ _).conserva pos (by intro s; rfl)
  · split
    · exact h₂ _ _ _ (h₁ _)
    · split
      · exact (h₃ _ _ _ (h₂ _ _ _ (h₁ _))).conserva _ (by intro s; rfl)
      · exact (h₃ _ _ _ (h₂ _ _ _ (h₁ _))).conserva _ (by intro s; rfl)

/-- So does the whole sweep. -/
theorem barrer_area {fuera : Nat → Particion} :
    ∀ (vueltas i : Nat) {t t' : TableInfo} {a : AreaClaves}, AreaBien t.elements a →
      barrer fuera vueltas i t = some t' →
      AreaBien t'.elements (clavesBarrer fuera vueltas i t a) := by
  intro vueltas
  induction vueltas with
  | zero => intro i t t' a _ h; cases h
  | succ v ih =>
      intro i t t' a h hr
      simp only [barrer] at hr
      simp only [clavesBarrer]
      cases ho : (t.leer fuera i).ocupado with
      | true =>
          rw [ho, if_pos rfl] at hr
          rw [if_pos rfl]
          exact ih (i + 1) h hr
      | false =>
          rw [ho, if_neg (by simp)] at hr
          rw [if_neg (by simp)]
          have hc := compactar_area h i
          rcases hcomp : compactar t i with ⟨t₁, sigue⟩
          rw [hcomp] at hr hc
          cases sigue with
          | true => exact ih (i + 1) hc hr
          | false =>
              obtain rfl := Option.some.inj hr
              exact hc

end Dinamicas

/-! ## The buddy scheme -/

section Buddy

variable {t t' : TableInfo} {e : Entorno}

/-- So does the shift of a merge with the buddy. -/
theorem desplazarUnoArriba_area (h : AreaBien t.elements a) (posHna : Nat) :
    AreaBien (desplazarUnoArriba t posHna).elements (clavesDesplazarUnoArriba t posHna a) := by
  unfold desplazarUnoArriba clavesDesplazarUnoArriba
  refine seguir_invariante (fun _ es a => AreaBien es a) h ?_
  intro i es a _ h
  exact (h.copiaOcupada (posHna + i) (posHna + i + 1)).conserva _ (by intro s; rfl)

/-- What is read as `elements[-1]` has no long key. -/
def AntesCorta (e : Entorno) : Prop :=
  ∀ n, (e.antes n).ocupado = true → (e.antes n).item.key.length ≤ 60

/-- The shift of a split keeps table and area together, its extra turn included. -/
theorem desplazarUnoAbajo_area (he : AntesCorta e) (h : AreaBien t.elements a) (posAct : Nat)
    (part : Int) : AreaBien (desplazarUnoAbajo e t posAct part).elements
      (clavesDesplazarUnoAbajo e t posAct part a) := by
  have h₁ := seguir_invariante (n := t.tableMaxSize - 1 - posAct) (s := t.elements) (a := a)
    (f := fun i es => es.modify (t.tableMaxSize - 1 - i)
      (copiarDescriptor (es.getD (t.tableMaxSize - 1 - i - 1) Particion.vacia)))
    (g := fun i es a => a.copiarOcupada es (t.tableMaxSize - 1 - i) (t.tableMaxSize - 1 - i - 1))
    (fun _ es a => AreaBien es a) h (fun i es a _ h => h.copiaOcupada _ _)
  unfold desplazarUnoAbajo clavesDesplazarUnoAbajo
  dsimp only
  generalize iterar (fun i es => es.modify (t.tableMaxSize - 1 - i)
    (copiarDescriptor (es.getD (t.tableMaxSize - 1 - i - 1) Particion.vacia)))
    (t.tableMaxSize - 1 - posAct) t.elements = es at h₁ ⊢
  generalize seguir (fun i es => es.modify (t.tableMaxSize - 1 - i)
      (copiarDescriptor (es.getD (t.tableMaxSize - 1 - i - 1) Particion.vacia)))
    (fun i es a => a.copiarOcupada es (t.tableMaxSize - 1 - i) (t.tableMaxSize - 1 - i - 1))
    (t.tableMaxSize - 1 - posAct) t.elements a = a₁ at h₁ ⊢
  -- the turn that copies the slot before `posAct`
  have h₂ : AreaBien (es.modify posAct (copiarDescriptor
      (if posAct = 0 then e.antes part else es.getD (posAct - 1) Particion.vacia)))
      (if posAct = 0 then
        if (e.antes part).ocupado = true then a₁.escribir es posAct (e.antes part).item.key else a₁
      else a₁.copiarOcupada es posAct (posAct - 1)) := by
    by_cases h0 : posAct = 0
    · rw [if_pos h0, if_pos h0]
      cases ho : (e.antes part).ocupado with
      | true =>
          rw [if_pos rfl]
          refine h₁.escribe (he part ho) fun s => ?_
          rw [copiarDescriptor_ocupado s ho]
      | false =>
          rw [if_neg (by simp)]
          exact h₁.conserva posAct fun s => copiarDescriptor_clave_libre s ho
    · rw [if_neg h0, if_neg h0]
      exact h₁.copiaOcupada _ _
  split
  · exact ((h₂.conserva posAct (by intro s; rfl)).conserva (posAct + 1)
      (by intro s; rfl)).conserva (posAct + 1) (by intro s; rfl)
  · exact (h₂.conserva posAct (by intro s; rfl)).conserva (posAct + 1) (by intro s; rfl)

/-- So do all splits of a search. -/
theorem partir_area (he : AntesCorta e) {m i : Nat} :
    ∀ (vueltas : Nat) {part : Int} {t t' : TableInfo} {a : AreaClaves}, AreaBien t.elements a →
      partir e m i vueltas part t = some t' →
      AreaBien t'.elements (clavesPartir e m i vueltas part t a) := by
  intro vueltas
  induction vueltas with
  | zero => intro part t t' a _ h; cases h
  | succ v ih =>
      intro part t t' a h hr
      rw [partir] at hr
      rw [clavesPartir]
      split at hr
      · rename_i hm
        rw [if_pos hm]
        split at hr
        · rename_i hc
          rw [if_pos hc]
          exact ih (desplazarUnoAbajo_area he h i part) hr
        · rename_i hc
          rw [if_neg hc]
          exact ih h hr
      · rename_i hm
        rw [if_neg hm]
        obtain rfl := Option.some.inj hr
        exact h

/-- So does a search of the buddy scheme. -/
theorem buscarHueco_area (he : AntesCorta e) {m i : Nat} (h : AreaBien t.elements a)
    (hr : buscarHueco e t m = some (some (t', i))) :
    AreaBien t'.elements (clavesBuscarHueco e t m a) := by
  obtain ⟨hh, hp⟩ := buscarHueco_casos hr
  unfold clavesBuscarHueco
  rw [hh]
  exact partir_area he e.vueltas h hp

/-- So does a merge with the buddy. -/
theorem unirHermana_area (h : AreaBien t.elements a) (arriba : Nat) (s : Particion) :
    AreaBien (unirHermana t arriba s).elements (clavesUnirHermana t arriba s a) := by
  unfold unirHermana clavesUnirHermana
  exact desplazarUnoArriba_area (h.conserva (arriba + 1) (by intro s; rfl)) arriba

/-- So does one turn of a pass of merges. -/
theorem unirTurno_area {fuera : Nat → Particion} {p : Pasada} (h : AreaBien p.self.elements a)
    (i : Nat) : AreaBien (unirTurno fuera i p).self.elements (clavesUnirTurno fuera i p a) := by
  unfold unirTurno clavesUnirTurno
  dsimp only
  split
  · split
    · split
      · exact unirHermana_area h i _
      · exact h
    · split
      · exact unirHermana_area h (i - 1) _
      · exact h
  · split
    · exact h
    · exact h

/-- So do all passes. -/
theorem unirTodasLasHermanas_area {fuera : Nat → Particion} :
    ∀ (vueltas : Nat) {t t' : TableInfo} {a : AreaClaves}, AreaBien t.elements a →
      unirTodasLasHermanas fuera vueltas t = some t' →
      AreaBien t'.elements (clavesUnirTodas fuera vueltas t a) := by
  intro vueltas
  induction vueltas with
  | zero => intro t t' a _ h; cases h
  | succ v ih =>
      intro t t' a h hr
      have hp : AreaBien (unirPasada fuera t).self.elements
          (seguir (unirTurno fuera) (clavesUnirTurno fuera) t.tableMaxSize
            (⟨t, 0, false⟩ : Pasada) a) :=
        seguir_invariante (fun _ (p : Pasada) a => AreaBien p.self.elements a) h
          fun i p a _ hp => unirTurno_area hp i
      simp only [unirTodasLasHermanas] at hr
      simp only [clavesUnirTodas]
      split at hr
      · rename_i hs
        rw [if_pos hs]
        exact ih hp hr
      · rename_i hs
        rw [if_neg hs]
        obtain rfl := Option.some.inj hr
        exact hp

end Buddy

/-! ## Calls that copy no key -/

section SinCopias

variable {t t' : TableInfo}

/-- The keys of the table, slot by slot. -/
def TableInfo.claves (t : TableInfo) : List Clave := t.elements.map (·.item.key)

/-- A change of a slot that keeps its key keeps all keys. -/
theorem modificar_mismasClaves (t : TableInfo) (i : Nat) {f : Particion → Particion}
    (hf : ∀ s, (f s).item.key = s.item.key) : (t.modificar i f).claves = t.claves :=
  map_modify_of hf t.elements i

/-- A removal keeps the keys. -/
theorem micacheRemove_mismasClaves {key : Clave} (h : micacheRemove t key = some t') :
    t'.claves = t.claves := by
  unfold micacheRemove micacheRemoveElement at h
  obtain ⟨⟨t₁, data⟩, h1, rfl⟩ := Option.map_eq_some_iff.mp h
  obtain ⟨pos, -, h2⟩ := Option.map_eq_some_iff.mp h1
  obtain ⟨rfl, rfl⟩ := Prod.mk.inj h2
  have hmod : (t.modificar pos (liberada t.sizeChunk)).claves = t.claves :=
    modificar_mismasClaves t pos (by intro s; rfl)
  dsimp only
  split
  · exact hmod
  · exact hmod

/-- So does an eviction. -/
theorem reemplazar_mismasClaves {ahora : Nat} (h : reemplazar ahora t = some t') :
    t'.claves = t.claves := by
  obtain ⟨key, t₁, -, h1, rfl⟩ := reemplazar_remove h
  have hk : t₁.claves = t.claves := micacheRemove_mismasClaves h1
  exact hk

/-- So does the removal before a SET. -/
theorem quitarPrevio_mismasClaves {key : Clave} (h : quitarPrevio t key = some t') :
    t'.claves = t.claves := by
  rcases quitarPrevio_casos h with ⟨rfl, -⟩ | h1
  · rfl
  · exact micacheRemove_mismasClaves h1

/-- So does a release. -/
theorem itemRelease_mismasClaves {pos : Nat} (h : itemRelease t pos = some t') :
    t'.claves = t.claves := by
  unfold itemRelease at h
  dsimp only at h
  split at h
  · obtain rfl := Option.some.inj h
    rfl
  · exact micacheRemove_mismasClaves h

/-- So does a GET. -/
theorem opGet_mismasClaves {cfg : Config} {e : Entorno} {key : Clave} {r : Respuesta}
    (h : opGet cfg e t key = some (t', r)) : t'.claves = t.claves := by
  rcases opGet_casos h with ⟨rfl, -, -⟩ | ⟨A, s, B, -, -, -, -, -, ⟨-, rfl⟩ | ⟨-, rfl⟩⟩
  · rfl
  · rfl
  · exact modificar_mismasClaves t A.length (by intro s; rfl)

/-- So does a DELETE. -/
theorem deleteOne_mismasClaves {key : Clave} {b : Bool} (h : deleteOne t key = some (t', b)) :
    t'.claves = t.claves := by
  rcases deleteOne_casos h with ⟨rfl, -⟩ | ⟨A, s, B, -, -, -, h1⟩
  · rfl
  · exact (micacheRemove_mismasClaves h1).trans (modificar_mismasClaves t A.length
      (by intro s; rfl))

/-- So does a flush. -/
theorem micacheClean_mismasClaves (t : TableInfo) : (micacheClean t).claves = t.claves := by
  have hlim : ∀ s, (limpiada s).item.key = s.item.key := by
    intro s
    cases ho : s.ocupado <;> simp [limpiada, ho]
  have h1 := modificar_mismasClaves { t with elements := t.elements.map limpiada } 0
    (f := fun s => { s with
      bytesDisponibles := (t.elements.map (aporteClean t.sizeChunk)).sum, bytesInutilizados := 0 })
    (by intro s; rfl)
  refine h1.trans ?_
  simp only [TableInfo.claves, List.map_map]
  exact List.map_congr_left fun s _ => hlim s

end SinCopias

/-! ## The engine over the area refines the engine over the table -/

/-- The area of the state holds the keys of its table. -/
def Plana.Bien (p : Plana) : Prop := AreaBien p.tabla.elements p.area

/-- A comparison sees the keys of the table. -/
theorem Plana.Bien.actual {p : Plana} (h : p.Bien) : p.actual = p.tabla := by
  have hes : p.tabla.elements.mapIdx (fun i s => ({ s with item := { s.item with
      key := leer p.area.claves (celda i) s.item.key.length } } : Particion))
        = p.tabla.elements := by
    refine List.ext_getElem? fun i => ?_
    rw [List.getElem?_mapIdx]
    cases hs : p.tabla.elements[i]? with
    | none => rfl
    | some s => rw [Option.map_some, h.fiel i s hs]
  unfold Plana.actual
  rw [hes]

/-- A table as read from an area in which no key is longer than its cell. -/
theorem sobreArea_area {t : TableInfo} (h : ∀ s ∈ t.elements, s.item.key.length ≤ 60)
    (claves : Nat → UInt8) :
    AreaBien (sobreArea t claves).actual.elements (sobreArea t claves).area := by
  have hget : ∀ i s, (sobreArea t claves).actual.elements[i]? = some s → ∃ u ∈ t.elements,
      s = { u with item := { u.item with key := leer claves (celda i) u.item.key.length } } := by
    intro i s hs
    simp only [sobreArea, Plana.actual, List.getElem?_mapIdx] at hs
    obtain ⟨u, hu, rfl⟩ := Option.map_eq_some_iff.mp hs
    exact ⟨u, List.mem_of_getElem? hu, rfl⟩
  refine ⟨fun s hs => ?_, fun i s hs => ?_, nofun⟩
  · obtain ⟨i, hi⟩ := List.mem_iff_getElem?.mp hs
    obtain ⟨u, hu, rfl⟩ := hget i s hi
    rw [length_leer]
    exact h u hu
  · obtain ⟨u, -, rfl⟩ := hget i s hs
    rw [length_leer]
    rfl

/-- A step that keeps the keys writes nothing in the area. -/
theorem Plana.Bien.con {p : Plana} {t : TableInfo} (h : p.Bien) (hk : t.claves = p.tabla.claves) :
    (p.con t).Bien := h.of_claves hk

/-- A result of the engine over the area stands for one over the table, and
    the invariant holds of it. -/
structure Refina {α : Type} (x : Option (Plana × α)) (y : Option (TableInfo × α)) : Prop where
  igual : x.map (fun r => (r.1.tabla, r.2)) = y
  bien : ∀ r, x = some r → r.1.Bien

section Refinamiento

variable {α β : Type} {cfg : Config} {e : Entorno} {p : Plana}

/-- An answer over a good area refines the one of its table. -/
theorem Refina.some {p : Plana} {r : α} (h : p.Bien) :
    Refina (Option.some (p, r)) (Option.some (p.tabla, r)) :=
  ⟨rfl, fun _ hr => by obtain rfl := Option.some.inj hr; exact h⟩

/-- No answer refines no answer. -/
theorem Refina.none : Refina (Option.none : Option (Plana × α)) Option.none :=
  ⟨rfl, fun _ hr => nomatch hr⟩

/-- Refinements compose. -/
theorem Refina.bind {x : Option (Plana × α)} {y : Option (TableInfo × α)}
    {f : Plana × α → Option (Plana × β)} {g : TableInfo × α → Option (TableInfo × β)}
    (h : Refina x y) (hf : ∀ p r, p.Bien → Refina (f (p, r)) (g (p.tabla, r))) :
    Refina (x.bind f) (y.bind g) := by
  obtain ⟨rfl, hb⟩ := h
  cases x with
  | none => exact Refina.none
  | some r => exact hf r.1 r.2 (hb r rfl)

/-- A call of the table engine between two states of the area. -/
theorem refina_llamada {x : Option TableInfo} {f : TableInfo → Option (Plana × α)}
    {g : TableInfo → Option (TableInfo × α)}
    (hf : ∀ t, x = some t → Refina (f t) (g t)) : Refina (x.bind f) (x.bind g) := by
  cases x with
  | none => exact Refina.none
  | some t => exact hf t rfl

/-- The placement of the dynamic partitions over the area refines the one over the
    table. -/
theorem compactacion_refina {n : Nat} : ∀ (vueltas fallidas : Nat) {p : Plana}, p.Bien →
    Refina (compactacionPlana cfg e n vueltas fallidas p)
      (compactacion cfg e n vueltas fallidas p.tabla) := by
  intro vueltas
  induction vueltas with
  | zero => intro fallidas p _; exact Refina.none
  | succ v ih =>
      intro fallidas p h
      simp only [compactacionPlana, compactacion, buscarLugarPlano, barrerPlano, buscarLugar_hueco,
        h.actual]
      cases hh : hueco cfg.algBusqueda p.tabla n with
      | some r =>
          obtain ⟨pos, k, total⟩ := r
          exact Refina.some (p := ⟨unirHueco p.tabla pos k total, _⟩) (unirHueco_area h pos k total)
      | none =>
          simp only [Option.map_none]
          have hbarre : Refina
              (((barrer e.fuera e.vueltas 0 p.tabla).map fun t =>
                  (⟨t, clavesBarrer e.fuera e.vueltas 0 p.tabla p.area⟩ : Plana)).bind
                (compactacionPlana cfg e n v (fallidas + 1)))
              ((barrer e.fuera e.vueltas 0 p.tabla).bind
                (compactacion cfg e n v (fallidas + 1))) := by
            rw [Option.bind_map]
            exact refina_llamada fun t ht =>
              ih (fallidas + 1) (p := ⟨t, _⟩) (barrer_area _ _ h ht)
          by_cases hf : ((fallidas + 1 : Nat) : Int) = cfg.frecuenciaCompactacion
          · rw [if_pos (Or.inl hf), if_pos hf]
            exact hbarre
          · rw [if_neg hf]
            by_cases hz : p.tabla.elementsAmount ≠ 0
            · rw [if_pos hz, if_neg (by tauto)]
              exact refina_llamada fun t ht =>
                ih (fallidas + 1) (h.con (reemplazar_mismasClaves ht))
            · rw [if_neg hz, if_pos (Or.inr (by simpa using hz))]
              exact hbarre

/-- So does the buddy placement. -/
theorem buddysystem_refina (he : AntesCorta e) {m : Nat} : ∀ (vueltas n : Nat) {p : Plana}, p.Bien →
    Refina (buddysystemPlano e m vueltas n p) (buddysystem e m vueltas n p.tabla) := by
  intro vueltas
  induction vueltas with
  | zero => intro n p _; exact Refina.none
  | succ v ih =>
      intro n p h
      simp only [buddysystemPlano, buddysystem, buscarHuecoPlano, unirTodasPlano, h.actual]
      cases h1 : buscarHueco e p.tabla m with
      | none => exact Refina.none
      | some r =>
          cases r with
          | some r =>
              obtain ⟨t, i⟩ := r
              exact Refina.some (p := ⟨t, _⟩) (buscarHueco_area he h h1)
          | none =>
              simp only [Option.map_some, Option.map_none, Option.bind_some, Option.bind_map]
              refine refina_llamada fun t₁ ht₁ => ?_
              have h₁ : Plana.Bien ⟨t₁, clavesUnirTodas e.fuera e.vueltas p.tabla p.area⟩ :=
                unirTodasLasHermanas_area _ h ht₁
              simp only [Function.comp_apply, h₁.actual]
              cases h2 : buscarHueco e t₁ m with
              | none => exact Refina.none
              | some r =>
                  cases r with
                  | some r =>
                      obtain ⟨t, i⟩ := r
                      exact Refina.some (p := ⟨t, _⟩) (buscarHueco_area he h₁ h2)
                  | none =>
                      simp only [Option.map_none, Option.bind_some]
                      by_cases hz : t₁.elementsAmount ≠ 0
                      · rw [if_pos hz, if_pos hz]
                        exact refina_llamada fun t ht =>
                          ih (n + 1) (h₁.con (reemplazar_mismasClaves ht))
                      · rw [if_neg hz, if_neg hz]
                        exact ih (n + 1) h₁

/-- So does the placement of either scheme. -/
theorem colocar_refina (he : AntesCorta e) (h : p.Bien) (key : Clave) (n : Nat) :
    Refina (colocarPlano cfg e p key n) (colocar cfg e p.tabla key n) := by
  unfold colocarPlano colocar
  rw [h.actual]
  refine refina_llamada fun t ht => ?_
  have ht' : (p.con t).Bien := h.con (quitarPrevio_mismasClaves ht)
  cases cfg.esquema with
  | particionesDinamicas => exact compactacion_refina _ _ ht'
  | buddySystem => exact buddysystem_refina he _ _ ht'

/-- A new element keeps the area good and its table is the new one. -/
theorem crear_bien (h : p.Bien) {key : Clave} (hk : key.length ≤ 60) (pos n : Nat) :
    (crearPlano cfg e p key pos n).Bien
      ∧ (crearPlano cfg e p key pos n).tabla = crear cfg e p.tabla key pos n := by
  unfold crearPlano
  rw [h.actual]
  refine ⟨?_, rfl⟩
  unfold Plana.Bien crear
  cases cfg.esquema with
  | particionesDinamicas => exact micacheCreateElement_area h hk _ _ _ _ _
  | buddySystem =>
      have h₁ : AreaBien (p.tabla.elements.modify pos fun s => { s with
          item := { s.item with key := key, ndata := n }, ocupado := true })
          (p.area.escribir p.tabla.elements pos key) := AreaBien.escribe h hk (by intro s; rfl)
      exact ((h₁.conserva pos (by intro s; rfl)).conserva pos (by intro s; rfl)).conserva pos
        (by intro s; rfl)

/-- A SET over the area refines the one over the table. -/
theorem opSet_refina (he : AntesCorta e) (h : p.Bien) {key : Clave} (hk : key.length ≤ 60)
    (valor : List UInt8) :
    Refina (opSetPlano cfg e p key valor) (opSet cfg e p.tabla key valor) := by
  unfold opSetPlano opSet
  split
  · exact Refina.some h
  · refine (colocar_refina he h key valor.length).bind fun p₁ pos h₁ => ?_
    obtain ⟨h₂, htab⟩ : (crearPlano cfg e p₁ key pos valor.length).Bien
        ∧ (crearPlano cfg e p₁ key pos valor.length).tabla
          = crear cfg e p₁.tabla key pos valor.length := crear_bien h₁ hk pos valor.length
    dsimp only
    rw [h₂.actual, htab]
    cases hrel : itemRelease (storeInfo (copiarValor (crear cfg e p₁.tabla key pos valor.length)
        pos valor) pos) pos with
    | none => exact Refina.none
    | some t =>
        refine Refina.some (h₂.con ?_)
        rw [htab]
        refine (itemRelease_mismasClaves hrel).trans ?_
        exact modificar_mismasClaves (copiarValor _ pos valor) pos (by intro s; rfl)

/-- So does a SET that is given up. -/
theorem opAbandonada_refina (he : AntesCorta e) (h : p.Bien) {key : Clave} (hk : key.length ≤ 60)
    (n : Nat) : Refina ((opAbandonadaPlana cfg e p key n).map (·, ()))
      ((opAbandonada cfg e p.tabla key n).map (·, ())) := by
  unfold opAbandonadaPlana opAbandonada
  split
  · exact Refina.some h
  · rw [Option.map_bind, Option.map_bind]
    refine (colocar_refina he h key n).bind fun p₁ pos h₁ => ?_
    obtain ⟨h₂, htab⟩ : (crearPlano cfg e p₁ key pos n).Bien
        ∧ (crearPlano cfg e p₁ key pos n).tabla = crear cfg e p₁.tabla key pos n :=
      crear_bien h₁ hk pos n
    simp only [Function.comp_apply]
    rw [h₂.actual, htab]
    cases hrel : itemRelease (crear cfg e p₁.tabla key pos n) pos with
    | none => exact Refina.none
    | some t =>
        refine Refina.some (h₂.con ?_)
        rw [htab]
        exact itemRelease_mismasClaves hrel

theorem antesCorta_diez : AntesCorta entornoDiez := fun _ h => nomatch h

/-- The key of a SET fits its cell. -/
def SetCorta : Op → Prop
  | .set key _ => key.length ≤ 60
  | .get _ | .delete _ | .flushAll => True

instance : DecidablePred SetCorta
  | .set key _ => inferInstanceAs (Decidable (key.length ≤ 60))
  | .get _ | .delete _ | .flushAll => inferInstanceAs (Decidable True)

/-- Every operation whose key fits its cell refines. -/
theorem ejecutar_refina {op : Op} (hop : SetCorta op) (he : AntesCorta e) (h : p.Bien) :
    Refina (ejecutarPlano cfg op e p) (ejecutar cfg op e p.tabla) := by
  cases op with
  | set key valor => exact opSet_refina he h hop valor
  | get key =>
      simp only [ejecutarPlano, ejecutar, h.actual]
      cases hr : opGet cfg e p.tabla key with
      | none => exact Refina.none
      | some r => exact Refina.some (h.con (opGet_mismasClaves hr))
  | delete key =>
      simp only [ejecutarPlano, ejecutar, h.actual]
      cases hr : deleteOne p.tabla key with
      | none => exact Refina.none
      | some r => exact Refina.some (h.con (deleteOne_mismasClaves hr))
  | flushAll =>
      simp only [ejecutarPlano, ejecutar, h.actual]
      exact Refina.some (h.con (micacheClean_mismasClaves p.tabla))

end Refinamiento

/-! ## Runs -/

/-- The area of a new cache is good, whatever its bytes are. -/
theorem cacheInitialize_area (cfg : Config) (claves : Nat → UInt8) :
    (planaInicial cfg claves).Bien := by
  have hkey : ∀ s ∈ (cacheInitialize cfg).elements, s.item.key = [] := by
    intro s hs
    have hs' : s.item.key ∈ (cacheInitialize cfg).claves := List.mem_map_of_mem hs
    rw [cacheInitialize, TableInfo.claves, map_modify_of (by intro s; rfl),
      List.map_replicate] at hs'
    exact List.eq_of_mem_replicate hs'
  refine ⟨?_, ?_, ?_⟩
  · intro s hs
    rw [hkey s hs]
    exact Nat.zero_le _
  · intro i s hs
    rw [hkey s (List.mem_of_getElem? hs)]
    rfl
  · intro w hw
    cases hw

/-- **THE AREA REFINES THE TABLE** along every run whose keys fit their cells. -/
theorem correr_refina {cfg : Config} : ∀ (ops : List (Op × Entorno)) {p : Plana}, p.Bien →
    (∀ x ∈ ops, SetCorta x.1 ∧ AntesCorta x.2) →
    (correrPlano cfg ops p).map (·.tabla) = correr cfg ops p.tabla
      ∧ ∀ p', correrPlano cfg ops p = some p' → p'.Bien := by
  intro ops
  induction ops with
  | nil => exact fun h _ => ⟨rfl, fun p' hp' => by obtain rfl := Option.some.inj hp'; exact h⟩
  | cons x ops ih =>
      intro p h hops
      obtain ⟨op, e⟩ := x
      obtain ⟨hop, he⟩ := hops (op, e) (by simp)
      obtain ⟨hig, hb⟩ : Refina (ejecutarPlano cfg op e p) (ejecutar cfg op e p.tabla) :=
        ejecutar_refina hop he h
      simp only [correrPlano, correr, ← hig]
      cases hx : ejecutarPlano cfg op e p with
      | none => exact ⟨rfl, fun p' hp' => nomatch hp'⟩
      | some r =>
          exact ih (hb r hx) fun y hy => hops y (by simp [hy])

/-- **A RUN** over the key area with short keys is the run over the table. -/
theorem correrPlano_refina {cfg : Config} {ops : List (Op × Entorno)} (claves : Nat → UInt8)
    (hops : ∀ x ∈ ops, SetCorta x.1 ∧ AntesCorta x.2) :
    (correrPlano cfg ops (planaInicial cfg claves)).map (·.tabla)
      = correr cfg ops (cacheInitialize cfg) :=
  (correr_refina ops (cacheInitialize_area cfg claves) hops).1

/-- Every run over the table with short keys is one over the key area. -/
theorem correrPlano_de {cfg : Config} {ops : List (Op × Entorno)} (claves : Nat → UInt8)
    (hops : ∀ x ∈ ops, SetCorta x.1 ∧ AntesCorta x.2)
    (hr : (correr cfg ops (cacheInitialize cfg)).isSome = true) :
    ∃ p, correrPlano cfg ops (planaInicial cfg claves) = some p
      ∧ correr cfg ops (cacheInitialize cfg) = some p.tabla := by
  obtain ⟨t, ht⟩ := Option.isSome_iff_exists.mp hr
  obtain ⟨p, hp, rfl⟩ := Option.map_eq_some_iff.mp ((correrPlano_refina claves hops).trans ht)
  exact ⟨p, hp, ht⟩

/-- **KEYS DO NOT INTERFERE** in a run whose SETs have keys of at most a cell:
    every write of key bytes left those of the other occupied slots alone,
    each slot reads back its own key, and a search over the area finds a key
    exactly when some slot was stored under it. -/
theorem claves_no_interfieren {cfg : Config} {ops : List (Op × Entorno)} {claves : Nat → UInt8}
    {p : Plana} (hops : ∀ x ∈ ops, SetCorta x.1 ∧ AntesCorta x.2)
    (hr : correrPlano cfg ops (planaInicial cfg claves) = some p) :
    correr cfg ops (cacheInitialize cfg) = some p.tabla
    ∧ (∀ w ∈ p.area.escrituras, w.Intacta)
    ∧ (∀ i s, p.tabla.elements[i]? = some s → s.ocupado = true →
        leer p.area.claves (celda i) s.item.key.length = s.item.key)
    ∧ ∀ key, micacheSearchElement p.actual key = micacheSearchElement p.tabla key
      ∧ ((micacheSearchElement p.actual key).isSome ↔
        ∃ s ∈ p.tabla.elements, s.ocupado = true ∧ s.item.stored = true ∧ s.item.key = key) := by
  obtain ⟨hig, hb⟩ : (correrPlano cfg ops (planaInicial cfg claves)).map (·.tabla)
      = correr cfg ops (cacheInitialize cfg)
      ∧ ∀ p', correrPlano cfg ops (planaInicial cfg claves) = some p' → p'.Bien :=
    correr_refina ops (cacheInitialize_area cfg claves) hops
  have h := hb p hr
  rw [hr] at hig
  refine ⟨hig.symm, h.intactas, fun i s hs _ => h.fiel i s hs, fun key => ?_⟩
  rw [h.actual]
  refine ⟨rfl, ?_⟩
  rw [micacheSearchElement, List.findIdx?_isSome, List.any_eq_true]
  simp only [coincideStored, Bool.and_eq_true, beq_iff_eq, and_assoc]

/-- A key of the longest cell, and a second one beside it. -/
def pedidosCelda : List (Op × Entorno) :=
  [(.set (List.replicate 60 7) [1], entornoDiez), (.set (List.replicate 60 8) [2], entornoDiez)]

theorem claves_no_interfieren_celda : ∃ p,
    correrPlano (cacheDiez 1) pedidosCelda (planaInicial (cacheDiez 1) fun _ => 0) = some p
      ∧ (∀ w ∈ p.area.escrituras, w.Intacta)
      ∧ (micacheSearchElement p.actual (List.replicate 60 7)).isSome := by
  have hcor : ∀ x ∈ pedidosCelda, SetCorta x.1 ∧ AntesCorta x.2 := by
    intro x hx
    simp only [pedidosCelda, List.mem_cons, List.not_mem_nil, or_false] at hx
    rcases hx with rfl | rfl
    · exact ⟨by decide, fun n hn => nomatch hn⟩
    · exact ⟨by decide, fun n hn => nomatch hn⟩
  have hsome : ((correrPlano (cacheDiez 1) pedidosCelda (planaInicial (cacheDiez 1) fun _ => 0)).map
      fun p => p.tabla.elements.any (coincideStored (List.replicate 60 7))) = some true := by
    decide
  obtain ⟨p, hp, hany⟩ := Option.map_eq_some_iff.mp hsome
  obtain ⟨-, hint, -, hbus⟩ := claves_no_interfieren hcor hp
  refine ⟨p, hp, hint, (hbus _).2.mpr ?_⟩
  obtain ⟨s, hs, hc⟩ := List.any_eq_true.mp hany
  simp only [coincideStored, Bool.and_eq_true, beq_iff_eq, and_assoc] at hc
  exact ⟨s, hs, hc⟩

/-- A key of seventy bytes, and then a second SET. -/
def pedidosLargos : List (Op × Entorno) :=
  [(.set (List.replicate 70 7) [1], entornoDiez), (.set [8] [2], entornoDiez)]

/-- **KEYS INTERFERE**: the key of the second slot falls on the sixtieth byte of
    the first one, which is stored and no longer found. -/
theorem claves_no_interfieren_falla : ∃ p,
    correrPlano (cacheDiez 1) pedidosLargos (planaInicial (cacheDiez 1) fun _ => 0) = some p
      ∧ p.tabla.elements[0]?.map (fun s => (s.ocupado, s.item.stored)) = some (true, true)
      ∧ micacheSearchElement p.actual (List.replicate 70 7) = none
      ∧ ∃ w ∈ p.area.escrituras, ¬ w.Intacta := by
  have hrun : (correrPlano (cacheDiez 1) pedidosLargos (planaInicial (cacheDiez 1) fun _ => 0)).map
      (fun p => (p.tabla.elements[0]?.map (fun s => (s.ocupado, s.item.stored)),
        micacheSearchElement p.actual (List.replicate 70 7),
        p.area.escrituras.any fun w => w.slot == 1 && w.bytes == [8]
          && w.elements[0]?.map (fun s => (s.ocupado, s.item.key.length)) == some (true, 70)
          && w.claves 60 == 7)) = some (some (true, true), none, true) := by
    decide
  obtain ⟨p, hp, heq⟩ := Option.map_eq_some_iff.mp hrun
  obtain ⟨h1, hr⟩ := Prod.mk.inj heq
  obtain ⟨h2, h3⟩ := Prod.mk.inj hr
  refine ⟨p, hp, h1, h2, ?_⟩
  obtain ⟨w, hw, hc⟩ := List.any_eq_true.mp h3
  simp only [Bool.and_eq_true, beq_iff_eq] at hc
  obtain ⟨⟨⟨hslot, hbytes⟩, hel⟩, hbyte⟩ := hc
  refine ⟨w, hw, fun hint => ?_⟩
  obtain ⟨s, hs, hso⟩ := Option.map_eq_some_iff.mp hel
  obtain ⟨hoc, hlen⟩ := Prod.mk.inj hso
  -- byte `60` of the first key
  have h60 := congrArg (·[60]?) (hint 0 s hs hoc (by rw [hslot]; decide))
  rw [hlen, hslot, hbytes] at h60
  simp [leer, celda, Bytes.escribir, hbyte] at h60

end Rc
