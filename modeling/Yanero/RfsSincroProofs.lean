import Yanero.RfsSincro

/-! # The registry is sound

    Every reachable list has one node for each inode with workers inside, the
    count of the node is the number of those workers, and its lock holds what
    the workers have.  So a node goes only with its last worker, and a writer
    is alone. -/

namespace Rfs

open Corridas

/-! ## Counting workers -/

section Contar

variable {T : Type} [Fintype T]

/-- One more thread. -/
theorem card_mas_uno {p p' : T → Bool} {t : T} (ht : p t = false) (ht' : p' t = true)
    (h : ∀ u, u ≠ t → p' u = p u) :
    (Finset.univ.filter fun u => p' u = true).card
      = (Finset.univ.filter fun u => p u = true).card + 1 := by
  classical
  have hno : t ∉ Finset.univ.filter fun u => p u = true := by simp [ht]
  have hset : (Finset.univ.filter fun u => p' u = true)
      = insert t (Finset.univ.filter fun u => p u = true) := by
    ext u
    by_cases hu : u = t
    · subst hu
      simp [ht']
    · simp [hu, h u hu]
  rw [hset, Finset.card_insert_of_notMem hno]

/-- The same threads. -/
theorem card_igual {p p' : T → Bool} (h : ∀ u, p' u = p u) :
    (Finset.univ.filter fun u => p' u = true).card
      = (Finset.univ.filter fun u => p u = true).card := by
  refine congrArg Finset.card ?_
  ext u
  simp [h u]

end Contar

/-! ## The list of nodes -/

/-- The nodes after a change of one. -/
theorem mem_enDir {lista : List NodoInodo} {dir : Nat} {f : NodoInodo → NodoInodo}
    {nodo : NodoInodo} :
    nodo ∈ enDir lista dir f
      ↔ ∃ viejo ∈ lista, nodo = if viejo.dir = dir then f viejo else viejo := by
  simp [enDir, eq_comm]

/-- What the change does not touch stays, node by node. -/
theorem map_enDir {lista : List NodoInodo} {dir : Nat} {f : NodoInodo → NodoInodo}
    {α : Type} {g : NodoInodo → α} (h : ∀ nodo, g (f nodo) = g nodo) :
    (enDir lista dir f).map g = lista.map g := by
  rw [enDir, List.map_map]
  refine List.map_congr_left fun nodo _ => ?_
  by_cases hd : nodo.dir = dir
  · simp [hd, h]
  · simp [hd]

/-- Two nodes of a list whose keys do not repeat are the same when their keys are. -/
theorem nodo_unico {α : Type} {lista : List NodoInodo} {g : NodoInodo → α}
    (hnd : (lista.map g).Nodup) {a b : NodoInodo} (ha : a ∈ lista) (hb : b ∈ lista)
    (h : g a = g b) : a = b := List.inj_on_of_nodup_map hnd ha hb h

section Invariante

variable {T : Type} [DecidableEq T] [Fintype T]

/-- The workers inside the lock of an inode. -/
def Registro.adentro (s : Registro T) (n : Nat) : Nat :=
  (Finset.univ.filter fun t => (s.hilos t).dentro n = true).card

/-- The workers that have an inode to read. -/
def Registro.leyendo (s : Registro T) (n : Nat) : Nat :=
  (Finset.univ.filter fun t => decide ((s.hilos t).tiene n = some .tipoRead) = true).card

/-- What the list says about the workers. -/
structure RegistroInv (s : Registro T) : Prop where
  numeros : (s.listaInodos.map NodoInodo.nroInodo).Nodup
  dirs : (s.listaInodos.map NodoInodo.dir).Nodup
  cuenta : ∀ nodo ∈ s.listaInodos, nodo.cantHilos = s.adentro nodo.nroInodo
  lectores : ∀ nodo ∈ s.listaInodos, nodo.mtInodo.lectores = s.leyendo nodo.nroInodo
  escritor : ∀ nodo ∈ s.listaInodos, (nodo.mtInodo.escritor = true
    ↔ ∃ t, (s.hilos t).tiene nodo.nroInodo = some .tipoWrite)
  exclusivo : ∀ t n, (s.hilos t).tiene n = some .tipoWrite →
    ∀ t', (s.hilos t').tiene n ≠ none → t' = t
  presente : ∀ t n, (s.hilos t).dentro n = true → ∃ nodo ∈ s.listaInodos, nodo.nroInodo = n
  espera : ∀ t n op dir, (s.hilos t).espera = some (n, op, dir) →
    (s.hilos t).tiene n = none ∧ ∃ nodo ∈ s.listaInodos, nodo.dir = dir ∧ nodo.nroInodo = n

omit [DecidableEq T] in
/-- Nobody is in an empty registry. -/
theorem RegistroInv.inicial : RegistroInv (T := T) {} where
  numeros := List.nodup_nil
  dirs := List.nodup_nil
  cuenta := by intro nodo h; cases h
  lectores := by intro nodo h; cases h
  escritor := by intro nodo h; cases h
  exclusivo := by intro t n h; cases h
  presente := by intro t n h; cases h
  espera := by intro t n op dir h; cases h

variable {s s' : Registro T}

/-- A node says what the workers of its inode do. -/
structure Registro.AlDia (s : Registro T) (nodo : NodoInodo) : Prop where
  cuenta : nodo.cantHilos = s.adentro nodo.nroInodo
  lectores : nodo.mtInodo.lectores = s.leyendo nodo.nroInodo
  escritor : nodo.mtInodo.escritor = true
    ↔ ∃ t, (s.hilos t).tiene nodo.nroInodo = some .tipoWrite

omit [DecidableEq T] in
/-- In a sound registry every node does. -/
theorem RegistroInv.alDia (h : RegistroInv s) {nodo : NodoInodo} (hmem : nodo ∈ s.listaInodos) :
    s.AlDia nodo := ⟨h.cuenta nodo hmem, h.lectores nodo hmem, h.escritor nodo hmem⟩

omit [DecidableEq T] in
/-- A node stays right while nobody does anything to its inode. -/
theorem Registro.AlDia.congr {nodo : NodoInodo} (h : s.AlDia nodo)
    (higual : ∀ u, (s'.hilos u).dentro nodo.nroInodo = (s.hilos u).dentro nodo.nroInodo
      ∧ (s'.hilos u).tiene nodo.nroInodo = (s.hilos u).tiene nodo.nroInodo) : s'.AlDia nodo where
  cuenta := h.cuenta.trans (card_igual fun u => (higual u).1).symm
  lectores := h.lectores.trans (card_igual fun u => by rw [(higual u).2]).symm
  escritor := by
    simp only [(higual _).2]
    exact h.escritor

omit [DecidableEq T] in
/-- A step at one inode that changes the node of the inode in place keeps the
    registry right, when the changed node says what the workers now do. -/
theorem RegistroInv.cambiar (h : RegistroInv s) {nodo : NodoInodo} (hmem : nodo ∈ s.listaInodos)
    {f : NodoInodo → NodoInodo}
    (hf : ∀ nodo, (f nodo).dir = nodo.dir ∧ (f nodo).nroInodo = nodo.nroInodo)
    (hlista : s'.listaInodos = enDir s.listaInodos nodo.dir f) (hnodo : s'.AlDia (f nodo))
    (hotro : ∀ m, m ≠ nodo.nroInodo → ∀ u, (s'.hilos u).dentro m = (s.hilos u).dentro m
      ∧ (s'.hilos u).tiene m = (s.hilos u).tiene m)
    (hex : ∀ t, (s'.hilos t).tiene nodo.nroInodo = some .tipoWrite →
      ∀ t', (s'.hilos t').tiene nodo.nroInodo ≠ none → t' = t)
    (hespera : ∀ u m op d, (s'.hilos u).espera = some (m, op, d) →
      (s'.hilos u).tiene m = none
        ∧ ((s.hilos u).espera = some (m, op, d) ∨ (m = nodo.nroInodo ∧ d = nodo.dir))) :
    RegistroInv s' := by
  have hal : ∀ nuevo ∈ s'.listaInodos, s'.AlDia nuevo := by
    intro nuevo hnuevo
    rw [hlista] at hnuevo
    obtain ⟨viejo, hv, rfl⟩ := mem_enDir.mp hnuevo
    by_cases hd : viejo.dir = nodo.dir
    · obtain rfl := nodo_unico h.dirs hv hmem hd
      rwa [if_pos rfl]
    · have hne : viejo.nroInodo ≠ nodo.nroInodo := by
        intro hn
        exact hd (congrArg _ (nodo_unico h.numeros hv hmem hn))
      rw [if_neg hd]
      exact (h.alDia hv).congr (hotro _ hne)
  have hquedan : ∀ viejo ∈ s.listaInodos,
      ∃ nuevo ∈ s'.listaInodos, nuevo.dir = viejo.dir ∧ nuevo.nroInodo = viejo.nroInodo := by
    intro viejo hv
    rw [hlista]
    refine ⟨_, mem_enDir.mpr ⟨viejo, hv, rfl⟩, ?_⟩
    split
    · exact hf viejo
    · exact ⟨rfl, rfl⟩
  refine ⟨?_, ?_, fun nuevo hn => (hal nuevo hn).cuenta, fun nuevo hn => (hal nuevo hn).lectores,
    fun nuevo hn => (hal nuevo hn).escritor, ?_, ?_, ?_⟩
  · rw [hlista, map_enDir fun nodo => (hf nodo).2]
    exact h.numeros
  · rw [hlista, map_enDir fun nodo => (hf nodo).1]
    exact h.dirs
  · intro u m hu u' hu'
    by_cases hm : m = nodo.nroInodo
    · subst hm
      exact hex u hu u' hu'
    · rw [(hotro m hm _).2] at hu hu'
      exact h.exclusivo u m hu u' hu'
  · intro u m hu
    by_cases hm : m = nodo.nroInodo
    · obtain ⟨nuevo, hn, -, hnro⟩ := hquedan nodo hmem
      exact ⟨nuevo, hn, hnro.trans hm.symm⟩
    · rw [(hotro m hm u).1] at hu
      obtain ⟨viejo, hv, rfl⟩ := h.presente u m hu
      obtain ⟨nuevo, hn, -, hnro⟩ := hquedan viejo hv
      exact ⟨nuevo, hn, hnro⟩
  · intro u m op d hu
    obtain ⟨hten, hvieja | ⟨rfl, rfl⟩⟩ := hespera u m op d hu
    · obtain ⟨-, viejo, hv, rfl, rfl⟩ := h.espera u m op d hvieja
      exact ⟨hten, hquedan viejo hv⟩
    · exact ⟨hten, hquedan nodo hmem⟩

/-- The node the search finds is the node of its inode. -/
theorem find_nro {lista : List NodoInodo} {n : Nat} {nodo : NodoInodo}
    (h : (lista.find? fun nodo => nodo.nroInodo == n) = some nodo) :
    nodo ∈ lista ∧ nodo.nroInodo = n :=
  ⟨List.mem_of_find?_eq_some h, by simpa using List.find?_some h⟩

/-- One more worker on a node. -/
def NodoInodo.masUno (nodo : NodoInodo) : NodoInodo :=
  { nodo with cantHilos := nodo.cantHilos + 1 }

/-- The monitor finds the node and counts one more. -/
theorem monitorLock_some {lista : List NodoInodo} {n dir : Nat} {nodo : NodoInodo}
    (h : (lista.find? fun nodo => nodo.nroInodo == n) = some nodo) :
    monitorLock lista n dir = (enDir lista nodo.dir NodoInodo.masUno, nodo.dir) := by
  unfold monitorLock
  rw [h]
  rfl

/-- It finds none and adds one. -/
theorem monitorLock_none {lista : List NodoInodo} {n dir : Nat}
    (h : (lista.find? fun nodo => nodo.nroInodo == n) = none) :
    monitorLock lista n dir
      = (lista ++ [{ dir := dir, nroInodo := n, cantHilos := 1 }], dir) := by
  unfold monitorLock
  rw [h]

/-! ## Entering -/

section Entrar

variable {t u : T} {n m dir d : Nat} {op op' : Operacion}

omit [Fintype T] in
/-- Who holds what after a thread entered. -/
theorem tiene_entrar (u : T) : (Function.update s.hilos t
    { s.hilos t with espera := some (n, op, dir) } u).tiene = (s.hilos u).tiene := by
  by_cases hu : u = t
  · subst hu
    rw [Function.update_self]
  · rw [Function.update_of_ne hu]

omit [Fintype T] in
/-- Who is counted after a thread entered. -/
theorem dentro_entrar (he : (s.hilos t).espera = none) (u : T) (m : Nat) :
    (Function.update s.hilos t { s.hilos t with espera := some (n, op, dir) } u).dentro m
      = if u = t ∧ m = n then true else (s.hilos u).dentro m := by
  by_cases hu : u = t
  · subst hu
    rw [Function.update_self]
    by_cases hm : m = n
    · subst hm
      simp [Hilo.dentro]
    · have hnm : n ≠ m := fun h => hm h.symm
      simp [Hilo.dentro, he, hm, hnm]
  · rw [Function.update_of_ne hu, if_neg fun h => hu h.1]

/-- The worker that enters is one more inside its inode, and inside no other. -/
theorem adentro_entrar {lista : List NodoInodo} (he : (s.hilos t).espera = none)
    (ht : (s.hilos t).tiene n = none) (m : Nat) :
    Registro.adentro ⟨lista, Function.update s.hilos t
        { s.hilos t with espera := some (n, op, dir) }⟩ m
      = if m = n then s.adentro m + 1 else s.adentro m := by
  by_cases hm : m = n
  · subst hm
    rw [if_pos rfl]
    refine card_mas_uno (t := t) (by simp [Hilo.dentro, he, ht]) ?_ ?_
    · rw [dentro_entrar he, if_pos ⟨rfl, rfl⟩]
    · intro u hu
      rw [dentro_entrar he, if_neg fun h => hu h.1]
  · rw [if_neg hm]
    refine card_igual fun u => ?_
    rw [dentro_entrar he, if_neg fun h => hm h.2]

omit [Fintype T] in
/-- Who waits after a thread entered. -/
theorem espera_entrar (h : (Function.update s.hilos t
      { s.hilos t with espera := some (n, op, dir) } u).espera = some (m, op', d)) :
    (s.hilos u).espera = some (m, op', d) ∨ (u = t ∧ m = n ∧ d = dir) := by
  by_cases hu : u = t
  · subst hu
    simp only [Function.update_self, Option.some.injEq, Prod.mk.injEq] at h
    exact .inr ⟨rfl, h.1.symm, h.2.2.symm⟩
  · rw [Function.update_of_ne hu] at h
    exact .inl h

/-- Entering an inode that has a node. -/
theorem RegistroInv.entrar_vieja (h : RegistroInv s) (he : (s.hilos t).espera = none)
    (ht : (s.hilos t).tiene n = none) {nodo : NodoInodo} (hmem : nodo ∈ s.listaInodos)
    (hnro : nodo.nroInodo = n) :
    RegistroInv ⟨enDir s.listaInodos nodo.dir NodoInodo.masUno, Function.update s.hilos t
      { s.hilos t with espera := some (n, op, nodo.dir) }⟩ := by
  subst hnro
  have hal := h.alDia hmem
  refine h.cambiar (f := NodoInodo.masUno) hmem (fun _ => ⟨rfl, rfl⟩) rfl ⟨?_, ?_, ?_⟩ ?_ ?_ ?_
  · show nodo.cantHilos + 1 = Registro.adentro _ nodo.nroInodo
    rw [adentro_entrar he ht, if_pos rfl, hal.cuenta]
  · refine hal.lectores.trans (card_igual fun u => ?_).symm
    simp only [tiene_entrar]
    rfl
  · simp only [tiene_entrar]
    exact hal.escritor
  · intro m hm u
    rw [dentro_entrar he, if_neg fun hc => hm hc.2, tiene_entrar]
    exact ⟨rfl, rfl⟩
  · simp only [tiene_entrar]
    exact fun u => h.exclusivo u _
  · intro u m op' d hu
    rw [tiene_entrar]
    rcases espera_entrar hu with hu | ⟨rfl, rfl, rfl⟩
    · exact ⟨(h.espera u m op' d hu).1, .inl hu⟩
    · exact ⟨ht, .inr ⟨rfl, rfl⟩⟩

omit [DecidableEq T] in
/-- Nobody is inside an inode that has no node. -/
theorem RegistroInv.sin_nodo (h : RegistroInv s)
    (hnadie : ∀ nodo ∈ s.listaInodos, nodo.nroInodo ≠ n) (u : T) :
    (s.hilos u).dentro n = false := by
  cases hu : (s.hilos u).dentro n with
  | false => rfl
  | true =>
      obtain ⟨nodo, hmem, hnro⟩ := h.presente u n hu
      exact absurd hnro (hnadie nodo hmem)

/-- Entering an inode that has none: its node is new. -/
theorem RegistroInv.entrar_nueva (h : RegistroInv s) (he : (s.hilos t).espera = none)
    (hnadie : ∀ nodo ∈ s.listaInodos, nodo.nroInodo ≠ n)
    (hfresca : ∀ nodo ∈ s.listaInodos, nodo.dir ≠ dir) :
    RegistroInv ⟨s.listaInodos ++ [{ dir := dir, nroInodo := n, cantHilos := 1 }],
      Function.update s.hilos t { s.hilos t with espera := some (n, op, dir) }⟩ := by
  have hfuera := h.sin_nodo hnadie
  have hsin : ∀ u, (s.hilos u).tiene n = none := by
    intro u
    have := hfuera u
    simp [Hilo.dentro] at this
    exact this.2
  have hal : ∀ nodo ∈ s.listaInodos ++ [{ dir := dir, nroInodo := n, cantHilos := 1 }],
      Registro.AlDia ⟨s.listaInodos ++ [{ dir := dir, nroInodo := n, cantHilos := 1 }],
        Function.update s.hilos t { s.hilos t with espera := some (n, op, dir) }⟩ nodo := by
    intro nodo hmem
    rcases List.mem_append.mp hmem with hold | hnew
    · refine (h.alDia hold).congr fun u => ?_
      rw [dentro_entrar he, if_neg fun hc => hnadie nodo hold hc.2, tiene_entrar]
      exact ⟨rfl, rfl⟩
    · obtain rfl := List.mem_singleton.mp hnew
      refine ⟨?_, ?_, ?_⟩
      · rw [adentro_entrar he (hsin t), if_pos rfl]
        simp [Registro.adentro, hfuera]
      · simp [Registro.leyendo, tiene_entrar, hsin]
      · simp [tiene_entrar, hsin]
  refine ⟨?_, ?_, fun nodo hm => (hal nodo hm).cuenta, fun nodo hm => (hal nodo hm).lectores,
    fun nodo hm => (hal nodo hm).escritor, ?_, ?_, ?_⟩
  · rw [List.map_append, List.map_singleton]
    refine List.nodup_append.mpr ⟨h.numeros, by simp, ?_⟩
    intro a ha b hb
    obtain ⟨nodo, hmem, rfl⟩ := List.mem_map.mp ha
    rw [List.mem_singleton.mp hb]
    exact hnadie nodo hmem
  · rw [List.map_append, List.map_singleton]
    refine List.nodup_append.mpr ⟨h.dirs, by simp, ?_⟩
    intro a ha b hb
    obtain ⟨nodo, hmem, rfl⟩ := List.mem_map.mp ha
    rw [List.mem_singleton.mp hb]
    exact hfresca nodo hmem
  · simp only [tiene_entrar]
    exact h.exclusivo
  · intro u m hu
    rw [dentro_entrar he] at hu
    by_cases hc : u = t ∧ m = n
    · exact ⟨_, List.mem_append_right _ (List.mem_singleton.mpr rfl), hc.2.symm⟩
    · rw [if_neg hc] at hu
      obtain ⟨nodo, hmem, hnro⟩ := h.presente u m hu
      exact ⟨nodo, List.mem_append_left _ hmem, hnro⟩
  · intro u m op' d hu
    rw [tiene_entrar]
    rcases espera_entrar hu with hu | ⟨rfl, rfl, rfl⟩
    · obtain ⟨hten, nodo, hmem, hd⟩ := h.espera u m op' d hu
      exact ⟨hten, nodo, List.mem_append_left _ hmem, hd⟩
    · exact ⟨hsin u, _, List.mem_append_right _ (List.mem_singleton.mpr rfl), rfl, rfl⟩

/-- `Sincro_monitorLock`: the section under the mutex. -/
theorem RegistroInv.entrar (h : RegistroInv s) (he : (s.hilos t).espera = none)
    (ht : (s.hilos t).tiene n = none) (hfresca : ∀ nodo ∈ s.listaInodos, nodo.dir ≠ dir) :
    RegistroInv ⟨(monitorLock s.listaInodos n dir).1, Function.update s.hilos t
      { s.hilos t with espera := some (n, op, (monitorLock s.listaInodos n dir).2) }⟩ := by
  cases hf : s.listaInodos.find? fun nodo => nodo.nroInodo == n with
  | some nodo =>
      rw [monitorLock_some hf]
      obtain ⟨hmem, hnro⟩ := find_nro hf
      exact h.entrar_vieja he ht hmem hnro
  | none =>
      rw [monitorLock_none hf]
      refine h.entrar_nueva he (fun nodo hmem hn => ?_) hfresca
      have := List.find?_eq_none.mp hf nodo hmem
      simp [hn] at this

end Entrar

/-! ## Getting the lock -/

section Tomar

variable {t : T} {n dir : Nat} {op : Operacion}

omit [Fintype T] in
/-- The worker that gets the lock of `n`. -/
theorem tiene_tomar (u : T) (m : Nat) : (Function.update s.hilos t
    { espera := none, tiene := Function.update (s.hilos t).tiene n (some op) } u).tiene m
      = if u = t ∧ m = n then some op else (s.hilos u).tiene m := by
  by_cases hu : u = t
  · subst hu
    rw [Function.update_self]
    by_cases hm : m = n
    · subst hm
      simp
    · simp [hm]
  · rw [Function.update_of_ne hu, if_neg fun h => hu h.1]

omit [Fintype T] in
/-- Getting the lock moves nobody in or out. -/
theorem dentro_tomar (he : (s.hilos t).espera = some (n, op, dir)) (u : T) (m : Nat) :
    (Function.update s.hilos t
      { espera := none, tiene := Function.update (s.hilos t).tiene n (some op) } u).dentro m
      = (s.hilos u).dentro m := by
  by_cases hu : u = t
  · subst hu
    rw [Function.update_self]
    by_cases hm : m = n
    · subst hm
      simp [Hilo.dentro, he]
    · have hnm : n ≠ m := fun h => hm h.symm
      simp [Hilo.dentro, he, hm, hnm]
  · rw [Function.update_of_ne hu]

/-- A node whose lock is taken. -/
def NodoInodo.conLock (op : Operacion) (nodo : NodoInodo) : NodoInodo :=
  { nodo with mtInodo := nodo.mtInodo.lock op }

omit [DecidableEq T] in
/-- With a free lock nobody writes, and nobody reads if it is taken to write. -/
theorem RegistroInv.nadie (h : RegistroInv s) {nodo : NodoInodo} (hmem : nodo ∈ s.listaInodos)
    (hlibre : nodo.mtInodo.libre op = true) :
    (∀ u, (s.hilos u).tiene nodo.nroInodo ≠ some .tipoWrite)
      ∧ (op = .tipoWrite → ∀ u, (s.hilos u).tiene nodo.nroInodo = none) := by
  have hesc : nodo.mtInodo.escritor = false := by
    cases op <;> simp_all [RwLock.libre]
  have hnow : ∀ u, (s.hilos u).tiene nodo.nroInodo ≠ some .tipoWrite := by
    intro u hu
    have := (h.escritor nodo hmem).mpr ⟨u, hu⟩
    rw [hesc] at this
    exact Bool.noConfusion this
  refine ⟨hnow, ?_⟩
  rintro rfl u
  have hlect : nodo.mtInodo.lectores = 0 := by simp_all [RwLock.libre]
  rw [h.lectores nodo hmem, Registro.leyendo, Finset.card_eq_zero,
    Finset.filter_eq_empty_iff] at hlect
  have hnor := hlect (Finset.mem_univ u)
  cases hu : (s.hilos u).tiene nodo.nroInodo with
  | none => rfl
  | some op =>
      cases op with
      | tipoRead => simp [hu] at hnor
      | tipoWrite => exact absurd hu (hnow u)

/-- The readers after a thread got the lock. -/
theorem leyendo_tomar (lista : List NodoInodo) (hsin : (s.hilos t).tiene n = none) :
    Registro.leyendo ⟨lista, Function.update s.hilos t
        { espera := none, tiene := Function.update (s.hilos t).tiene n (some op) }⟩ n
      = if op = .tipoRead then s.leyendo n + 1 else s.leyendo n := by
  cases op with
  | tipoRead =>
      rw [if_pos rfl]
      refine card_mas_uno (t := t) (by simp [hsin]) ?_ ?_
      · simp only [tiene_tomar, and_self, if_true, decide_true]
      · intro u hu
        simp only [tiene_tomar, hu, false_and, if_false]
  | tipoWrite =>
      rw [if_neg (by decide)]
      refine card_igual fun u => ?_
      simp only [tiene_tomar]
      by_cases hu : u = t
      · subst hu
        simp [hsin]
      · simp [hu]

/-- The node whose lock a thread got says so. -/
theorem Registro.AlDia.conLock {nodo : NodoInodo} (h : s.AlDia nodo) (lista : List NodoInodo)
    (he : (s.hilos t).espera = some (nodo.nroInodo, op, dir))
    (hsin : (s.hilos t).tiene nodo.nroInodo = none)
    (hnow : ∀ u, (s.hilos u).tiene nodo.nroInodo ≠ some .tipoWrite) :
    Registro.AlDia ⟨lista, Function.update s.hilos t
        { espera := none
          tiene := Function.update (s.hilos t).tiene nodo.nroInodo (some op) }⟩
      (nodo.conLock op) where
  cuenta := h.cuenta.trans (card_igual fun u => dentro_tomar he u _).symm
  lectores := by
    refine Eq.trans ?_ (leyendo_tomar lista hsin).symm
    rw [← h.lectores]
    cases op <;> rfl
  escritor := by
    simp only [tiene_tomar]
    cases op with
    | tipoRead =>
        refine h.escritor.trans ⟨fun ⟨u, hu⟩ => absurd hu (hnow u), ?_⟩
        rintro ⟨u, hu⟩
        by_cases hut : u = t
        · subst hut
          rw [if_pos ⟨rfl, rfl⟩] at hu
          cases hu
        · rw [if_neg fun hc => hut hc.1] at hu
          exact ⟨u, hu⟩
    | tipoWrite => exact ⟨fun _ => ⟨t, by rw [if_pos ⟨rfl, rfl⟩]⟩, fun _ => rfl⟩

/-- `pthread_rwlock_rdlock` or `pthread_rwlock_wrlock` returns. -/
theorem RegistroInv.tomar (h : RegistroInv s) (he : (s.hilos t).espera = some (n, op, dir))
    {nodo : NodoInodo} (hf : (s.listaInodos.find? fun nodo => nodo.dir == dir) = some nodo)
    (hlibre : nodo.mtInodo.libre op = true) :
    RegistroInv ⟨enDir s.listaInodos dir (NodoInodo.conLock op), Function.update s.hilos t
      { espera := none, tiene := Function.update (s.hilos t).tiene n (some op) }⟩ := by
  obtain ⟨hsin, esperado, hmem', hdir', rfl⟩ := h.espera t n op dir he
  have hmem : nodo ∈ s.listaInodos := List.mem_of_find?_eq_some hf
  have hdir : nodo.dir = dir := by simpa using List.find?_some hf
  obtain rfl : esperado = nodo := nodo_unico h.dirs hmem' hmem (hdir'.trans hdir.symm)
  subst hdir
  obtain ⟨hnow, hnor⟩ := h.nadie hmem hlibre
  refine h.cambiar (f := NodoInodo.conLock op) hmem (fun _ => ⟨rfl, rfl⟩) rfl
    ((h.alDia hmem).conLock _ he hsin hnow) ?_ ?_ ?_
  · intro m hm u
    exact ⟨dentro_tomar he u m, by rw [tiene_tomar, if_neg fun hc => hm hc.2]⟩
  · -- a writer is alone
    intro u hu u' hu'
    rw [tiene_tomar] at hu hu'
    by_cases hut : u = t
    · subst hut
      rw [if_pos ⟨rfl, rfl⟩] at hu
      by_contra hne
      rw [if_neg fun hc => hne hc.1] at hu'
      exact hu' (hnor (Option.some.inj hu) u')
    · rw [if_neg fun hc => hut hc.1] at hu
      exact absurd hu (hnow u)
  · intro u m op' d hu
    by_cases hut : u = t
    · subst hut
      simp only [Function.update_self] at hu
      cases hu
    · simp only [Function.update_of_ne hut] at hu ⊢
      exact ⟨(h.espera u m op' d hu).1, .inl hu⟩

end Tomar

/-! ## Leaving -/

section Salir

variable {t : T} {n : Nat} {op : Operacion}

omit [Fintype T] in
/-- Who holds what after a thread left. -/
theorem tiene_salir (u : T) (m : Nat) : (Function.update s.hilos t
    { s.hilos t with tiene := Function.update (s.hilos t).tiene n none } u).tiene m
      = if u = t ∧ m = n then none else (s.hilos u).tiene m := by
  by_cases hu : u = t
  · subst hu
    rw [Function.update_self]
    by_cases hm : m = n
    · subst hm
      simp
    · simp [hm]
  · rw [Function.update_of_ne hu, if_neg fun h => hu h.1]

omit [Fintype T] in
/-- Who is counted after a thread left. -/
theorem dentro_salir (he : (s.hilos t).espera = none) (u : T) (m : Nat) :
    (Function.update s.hilos t
      { s.hilos t with tiene := Function.update (s.hilos t).tiene n none } u).dentro m
      = if u = t ∧ m = n then false else (s.hilos u).dentro m := by
  by_cases hu : u = t
  · subst hu
    rw [Function.update_self]
    by_cases hm : m = n
    · subst hm
      simp [Hilo.dentro, he]
    · simp [Hilo.dentro, he, hm]
  · rw [Function.update_of_ne hu, if_neg fun h => hu h.1]

/-- The worker that leaves is one less inside its inode. -/
theorem adentro_salir (lista : List NodoInodo) (he : (s.hilos t).espera = none)
    (ht : (s.hilos t).tiene n = some op) (m : Nat) :
    Registro.adentro ⟨lista, Function.update s.hilos t
        { s.hilos t with tiene := Function.update (s.hilos t).tiene n none }⟩ m
      + (if m = n then 1 else 0) = s.adentro m := by
  by_cases hm : m = n
  · subst hm
    rw [if_pos rfl]
    refine (card_mas_uno (t := t) ?_ (by simp [Hilo.dentro, ht]) ?_).symm
    · rw [dentro_salir he, if_pos ⟨rfl, rfl⟩]
    · intro u hu
      rw [dentro_salir he, if_neg fun h => hu h.1]
  · rw [if_neg hm, Nat.add_zero]
    refine card_igual fun u => ?_
    rw [dentro_salir he, if_neg fun h => hm h.2]

/-- The readers after a thread left. -/
theorem leyendo_salir (lista : List NodoInodo) (ht : (s.hilos t).tiene n = some op) (m : Nat) :
    Registro.leyendo ⟨lista, Function.update s.hilos t
        { s.hilos t with tiene := Function.update (s.hilos t).tiene n none }⟩ m
      + (if m = n ∧ op = .tipoRead then 1 else 0) = s.leyendo m := by
  by_cases hm : m = n ∧ op = .tipoRead
  · obtain ⟨rfl, rfl⟩ := hm
    rw [if_pos ⟨rfl, rfl⟩]
    refine (card_mas_uno (t := t) ?_ (by simp [ht]) ?_).symm
    · simp only [tiene_salir, and_self, if_true]
      rfl
    · intro u hu
      simp only [tiene_salir, hu, false_and, if_false]
  · rw [if_neg hm, Nat.add_zero]
    refine card_igual fun u => ?_
    simp only [tiene_salir]
    by_cases hu : u = t ∧ m = n
    · obtain ⟨rfl, rfl⟩ := hu
      have hop : op ≠ .tipoRead := fun h => hm ⟨rfl, h⟩
      simp [ht, hop]
    · rw [if_neg hu]

/-- A node that a worker other than the last leaves. -/
def NodoInodo.menosUno (nodo : NodoInodo) : NodoInodo :=
  { nodo with cantHilos := nodo.cantHilos - 1, mtInodo := nodo.mtInodo.unlock }

/-- The monitor counts one less, and the last one takes the node away. -/
theorem monitorUnlock_eq {lista : List NodoInodo} {nodo : NodoInodo}
    (h : (lista.find? fun nodo => nodo.nroInodo == n) = some nodo) :
    monitorUnlock lista n
      = if nodo.cantHilos - 1 = 0 then lista.eraseP fun nodo => nodo.nroInodo == n
        else enDir lista nodo.dir NodoInodo.menosUno := by
  unfold monitorUnlock
  rw [h]
  rfl

/-- The list without the node of an inode. -/
theorem mem_eraseP {lista : List NodoInodo} (hnd : (lista.map NodoInodo.nroInodo).Nodup)
    {nodo : NodoInodo} :
    (nodo ∈ lista.eraseP fun nodo => nodo.nroInodo == n)
      ↔ nodo ∈ lista ∧ nodo.nroInodo ≠ n := by
  induction lista with
  | nil => simp
  | cons a resto ih =>
      rw [List.map_cons, List.nodup_cons] at hnd
      by_cases ha : a.nroInodo = n
      · rw [List.eraseP_cons_of_pos (by simpa using ha)]
        constructor
        · intro hmem
          refine ⟨List.mem_cons_of_mem _ hmem, fun hn => hnd.1 ?_⟩
          exact List.mem_map.mpr ⟨nodo, hmem, hn.trans ha.symm⟩
        · rintro ⟨hmem, hn⟩
          rcases List.mem_cons.mp hmem with rfl | hresto
          · exact absurd ha hn
          · exact hresto
      · rw [List.eraseP_cons_of_neg (by simpa using ha), List.mem_cons, List.mem_cons, ih hnd.2]
        constructor
        · rintro (rfl | ⟨hmem, hn⟩)
          · exact ⟨.inl rfl, ha⟩
          · exact ⟨.inr hmem, hn⟩
        · rintro ⟨rfl | hmem, hn⟩
          · exact .inl rfl
          · exact .inr ⟨hmem, hn⟩

/-- The part of the registry that concerns the workers only. -/
theorem RegistroInv.exclusivo_salir (h : RegistroInv s) (u : T) (m : Nat)
    (hu : (Function.update s.hilos t
      { s.hilos t with tiene := Function.update (s.hilos t).tiene n none } u).tiene m
      = some .tipoWrite) (u' : T)
    (hu' : (Function.update s.hilos t
      { s.hilos t with tiene := Function.update (s.hilos t).tiene n none } u').tiene m ≠ none) :
    u' = u := by
  rw [tiene_salir] at hu hu'
  by_cases h1 : u = t ∧ m = n
  · rw [if_pos h1] at hu
    cases hu
  · rw [if_neg h1] at hu
    by_cases h2 : u' = t ∧ m = n
    · rw [if_pos h2] at hu'
      exact absurd rfl hu'
    · rw [if_neg h2] at hu'
      exact h.exclusivo u m hu u' hu'

omit [DecidableEq T] in
/-- The worker with the node of its inode, and the count that goes with it. -/
theorem RegistroInv.su_nodo (h : RegistroInv s) (ht : (s.hilos t).tiene n = some op) :
    ∃ nodo, (s.listaInodos.find? fun nodo => nodo.nroInodo == n) = some nodo
      ∧ nodo ∈ s.listaInodos ∧ nodo.nroInodo = n := by
  obtain ⟨nodo, hmem, hnro⟩ := h.presente t n (by simp [Hilo.dentro, ht])
  cases hf : s.listaInodos.find? fun nodo => nodo.nroInodo == n with
  | none =>
      have := List.find?_eq_none.mp hf nodo hmem
      simp [hnro] at this
  | some nodo => exact ⟨nodo, rfl, find_nro hf⟩

omit [Fintype T] in
/-- Who waits after a thread left. -/
theorem espera_salir (he : (s.hilos t).espera = none) {u : T} {e : Nat × Operacion × Nat}
    (hu : (Function.update s.hilos t
      { s.hilos t with tiene := Function.update (s.hilos t).tiene n none } u).espera = some e) :
    u ≠ t ∧ (s.hilos u).espera = some e := by
  by_cases hut : u = t
  · subst hut
    rw [Function.update_self, he] at hu
    cases hu
  · rw [Function.update_of_ne hut] at hu
    exact ⟨hut, hu⟩

omit [DecidableEq T] in
/-- With one worker inside, nobody else is. -/
theorem RegistroInv.ultimo (h : RegistroInv s) (ht : (s.hilos t).tiene n = some op)
    {nodo : NodoInodo} (hmem : nodo ∈ s.listaInodos) (hnro : nodo.nroInodo = n)
    (huno : nodo.cantHilos - 1 = 0) (u : T) (hu : u ≠ t) : (s.hilos u).dentro n = false := by
  have hcard : s.adentro n ≤ 1 := by
    rw [← hnro, ← h.cuenta nodo hmem]
    omega
  cases hin : (s.hilos u).dentro n with
  | false => rfl
  | true =>
      have hone := Finset.card_le_one.mp hcard u (by simp [hin]) t (by simp [Hilo.dentro, ht])
      exact absurd hone hu

omit [DecidableEq T] in
/-- Releasing the lock of a node takes one reader off it, or its writer. -/
theorem RegistroInv.unlock_nodo (h : RegistroInv s) (ht : (s.hilos t).tiene n = some op)
    {nodo : NodoInodo} (hmem : nodo ∈ s.listaInodos) (hnro : nodo.nroInodo = n) :
    nodo.mtInodo.unlock.lectores + (if op = .tipoRead then 1 else 0) = s.leyendo n
      ∧ nodo.mtInodo.unlock.escritor = false
      ∧ ∀ u, (s.hilos u).tiene n = some .tipoWrite → u = t := by
  have hlect := h.lectores nodo hmem
  have hesc := h.escritor nodo hmem
  rw [hnro] at hlect hesc
  have hsolo : ∀ u, (s.hilos u).tiene n = some .tipoWrite → u = t := by
    intro u hu
    exact (h.exclusivo u n hu t (by rw [ht]; exact Option.some_ne_none _)).symm
  cases op with
  | tipoRead =>
      have hno : nodo.mtInodo.escritor = false := by
        cases hw : nodo.mtInodo.escritor with
        | false => rfl
        | true =>
            obtain ⟨u, hu⟩ := hesc.mp hw
            rw [hsolo u hu, ht] at hu
            cases hu
      have hpos : 0 < s.leyendo n := Finset.card_pos.mpr ⟨t, by simp [ht]⟩
      refine ⟨?_, by simp [RwLock.unlock, hno], hsolo⟩
      simp only [RwLock.unlock, hno, Bool.false_eq_true, if_false, if_true]
      omega
  | tipoWrite =>
      have hsi : nodo.mtInodo.escritor = true := hesc.mpr ⟨t, ht⟩
      refine ⟨?_, by simp [RwLock.unlock, hsi], hsolo⟩
      simp only [RwLock.unlock, hsi, if_true]
      simpa using hlect

/-- The last worker leaves: its node goes. -/
theorem RegistroInv.salir_ultimo (h : RegistroInv s) (he : (s.hilos t).espera = none)
    (hsolo : ∀ u, u ≠ t → (s.hilos u).dentro n = false) :
    RegistroInv ⟨s.listaInodos.eraseP fun nodo => nodo.nroInodo == n, Function.update s.hilos t
      { s.hilos t with tiene := Function.update (s.hilos t).tiene n none }⟩ := by
  have hquedan : ∀ viejo ∈ s.listaInodos,
      (∃ u, u ≠ t ∧ (s.hilos u).dentro viejo.nroInodo = true) →
      viejo ∈ s.listaInodos.eraseP fun nodo => nodo.nroInodo == n := by
    rintro viejo hv ⟨u, hu, hin⟩
    refine (mem_eraseP h.numeros).mpr ⟨hv, fun hn => ?_⟩
    rw [hn, hsolo u hu] at hin
    exact Bool.noConfusion hin
  have hal : ∀ nodo ∈ s.listaInodos.eraseP fun nodo => nodo.nroInodo == n,
      Registro.AlDia ⟨s.listaInodos.eraseP fun nodo => nodo.nroInodo == n,
        Function.update s.hilos t
          { s.hilos t with tiene := Function.update (s.hilos t).tiene n none }⟩ nodo := by
    intro nodo hmem
    obtain ⟨hv, hn⟩ := (mem_eraseP h.numeros).mp hmem
    refine (h.alDia hv).congr fun u => ?_
    rw [dentro_salir he, if_neg fun hc => hn hc.2, tiene_salir, if_neg fun hc => hn hc.2]
    exact ⟨rfl, rfl⟩
  have hsub : (s.listaInodos.eraseP fun nodo => nodo.nroInodo == n).Sublist s.listaInodos :=
    List.eraseP_sublist
  refine ⟨h.numeros.sublist (hsub.map _), h.dirs.sublist (hsub.map _),
    fun nodo hm => (hal nodo hm).cuenta, fun nodo hm => (hal nodo hm).lectores,
    fun nodo hm => (hal nodo hm).escritor, h.exclusivo_salir, ?_, ?_⟩
  · intro u m hu
    rw [dentro_salir he] at hu
    by_cases hc : u = t ∧ m = n
    · rw [if_pos hc] at hu
      exact Bool.noConfusion hu
    · rw [if_neg hc] at hu
      obtain ⟨viejo, hv, rfl⟩ := h.presente u m hu
      refine ⟨viejo, (mem_eraseP h.numeros).mpr ⟨hv, fun hn => ?_⟩, rfl⟩
      rw [hn, hsolo u fun hut => hc ⟨hut, hn⟩] at hu
      exact Bool.noConfusion hu
  · intro u m op' d hu
    obtain ⟨hut, hu⟩ := espera_salir he hu
    obtain ⟨hten, viejo, hv, hd, rfl⟩ := h.espera u m op' d hu
    rw [tiene_salir, if_neg fun hc => hut hc.1]
    exact ⟨hten, viejo, hquedan viejo hv ⟨u, hut, by simp [Hilo.dentro, hu]⟩, hd, rfl⟩

/-- The node of an inode that a worker left says so. -/
theorem RegistroInv.menosUno (h : RegistroInv s) (lista : List NodoInodo)
    (he : (s.hilos t).espera = none) (ht : (s.hilos t).tiene n = some op) {nodo : NodoInodo}
    (hmem : nodo ∈ s.listaInodos) (hnro : nodo.nroInodo = n) :
    Registro.AlDia ⟨lista, Function.update s.hilos t
      { s.hilos t with tiene := Function.update (s.hilos t).tiene n none }⟩ nodo.menosUno := by
  obtain ⟨hlect, hesc, hsolo⟩ := h.unlock_nodo ht hmem hnro
  subst hnro
  refine ⟨?_, ?_, ?_⟩
  · show nodo.cantHilos - 1 = Registro.adentro _ nodo.nroInodo
    have hcard := adentro_salir lista he ht nodo.nroInodo
    have hcuenta := h.cuenta nodo hmem
    rw [if_pos rfl] at hcard
    omega
  · show nodo.mtInodo.unlock.lectores = Registro.leyendo _ nodo.nroInodo
    have hcard := leyendo_salir lista ht nodo.nroInodo
    simp only [true_and] at hcard
    exact Nat.add_right_cancel (hlect.trans hcard.symm)
  · show nodo.mtInodo.unlock.escritor = true ↔ _
    simp only [tiene_salir, hesc]
    refine ⟨fun hfalse => Bool.noConfusion hfalse, ?_⟩
    rintro ⟨u, hu⟩
    by_cases hut : u = t
    · rw [if_pos ⟨hut, rfl⟩] at hu
      cases hu
    · rw [if_neg fun hc => hut hc.1] at hu
      exact absurd (hsolo u hu) hut

/-- `Sincro_monitorUnlock`. -/
theorem RegistroInv.salir (h : RegistroInv s) (he : (s.hilos t).espera = none)
    (ht : (s.hilos t).tiene n = some op) :
    RegistroInv ⟨monitorUnlock s.listaInodos n, Function.update s.hilos t
      { s.hilos t with tiene := Function.update (s.hilos t).tiene n none }⟩ := by
  obtain ⟨nodo, hf, hmem, hnro⟩ := h.su_nodo ht
  rw [monitorUnlock_eq hf]
  by_cases huno : nodo.cantHilos - 1 = 0
  · -- the last one: its node goes
    rw [if_pos huno]
    exact h.salir_ultimo he (h.ultimo ht hmem hnro huno)
  · -- others stay: the count goes down and the lock is released
    rw [if_neg huno]
    refine h.cambiar (f := NodoInodo.menosUno) hmem (fun _ => ⟨rfl, rfl⟩) rfl
      (h.menosUno _ he ht hmem hnro) ?_ (fun u hu => h.exclusivo_salir u _ hu) ?_
    · intro m hm u
      have hmn : m ≠ n := fun hc => hm (hc.trans hnro.symm)
      exact ⟨by rw [dentro_salir he, if_neg fun hc => hmn hc.2],
        by rw [tiene_salir, if_neg fun hc => hmn hc.2]⟩
    · intro u m op' d hu
      obtain ⟨hut, hu⟩ := espera_salir he hu
      rw [tiene_salir, if_neg fun hc => hut hc.1]
      exact ⟨(h.espera u m op' d hu).1, .inl hu⟩

end Salir

/-! ## Whole runs -/

omit [Fintype T] in
/-- What an action that a worker can take does. -/
theorem paso_casos {a : Turno T} (h : Registro.paso a s = some s') :
    (∃ t n op dir, a = .entrar t n op dir ∧ (s.hilos t).espera = none
        ∧ (s.hilos t).tiene n = none ∧ (∀ nodo ∈ s.listaInodos, nodo.dir ≠ dir)
        ∧ s' = ⟨(monitorLock s.listaInodos n dir).1, Function.update s.hilos t
          { s.hilos t with espera := some (n, op, (monitorLock s.listaInodos n dir).2) }⟩) ∨
    (∃ t n op dir nodo, a = .tomar t ∧ (s.hilos t).espera = some (n, op, dir)
        ∧ (s.listaInodos.find? fun nodo => nodo.dir == dir) = some nodo
        ∧ nodo.mtInodo.libre op = true
        ∧ s' = ⟨enDir s.listaInodos dir (NodoInodo.conLock op), Function.update s.hilos t
          { espera := none, tiene := Function.update (s.hilos t).tiene n (some op) }⟩) ∨
    (∃ t n op, a = .salir t n ∧ (s.hilos t).espera = none ∧ (s.hilos t).tiene n = some op
        ∧ s' = ⟨monitorUnlock s.listaInodos n, Function.update s.hilos t
          { s.hilos t with tiene := Function.update (s.hilos t).tiene n none }⟩) := by
  cases a with
  | entrar t n op dir =>
      refine .inl ⟨t, n, op, dir, rfl, ?_⟩
      simp only [Registro.paso] at h
      split at h
      · next hg => exact ⟨hg.1, hg.2.1, hg.2.2, (Option.some.inj h).symm⟩
      · cases h
  | tomar t =>
      refine .inr (.inl ?_)
      simp only [Registro.paso] at h
      split at h
      · next n op dir he =>
          split at h
          · next nodo hf =>
              split at h
              · next hl => exact ⟨t, n, op, dir, nodo, rfl, he, hf, hl, (Option.some.inj h).symm⟩
              · cases h
          · cases h
      · cases h
  | salir t n =>
      refine .inr (.inr ?_)
      simp only [Registro.paso] at h
      split at h
      · next hg =>
          obtain ⟨op, hop⟩ := Option.ne_none_iff_exists'.mp hg.2
          exact ⟨t, n, op, rfl, hg.1, hop, (Option.some.inj h).symm⟩
      · cases h

/-- One action keeps the registry right. -/
theorem RegistroInv.paso {a : Turno T} (h : RegistroInv s) (hp : Registro.paso a s = some s') :
    RegistroInv s' := by
  obtain ⟨t, n, op, dir, -, he, ht, hfresca, rfl⟩ | ⟨t, n, op, dir, nodo, -, he, hf, hl, rfl⟩ |
    ⟨t, n, op, -, he, ht, rfl⟩ := paso_casos hp
  · exact h.entrar he ht hfresca
  · exact h.tomar he hf hl
  · exact h.salir he ht

/-- The invariant along every run. -/
theorem RegistroInv.corrida {l : List (Turno T)} (h : corrida Registro.paso l {} = some s) :
    RegistroInv s :=
  corrida_preserva (fun _ _ _ hs hp => hs.paso hp) l RegistroInv.inicial h

/-- A node leaves the list only by the unlock of its last worker. -/
theorem RegistroInv.quita {a : Turno T} (h : RegistroInv s) (hp : Registro.paso a s = some s')
    {nodo : NodoInodo} (hmem : nodo ∈ s.listaInodos)
    (hno : ∀ otro ∈ s'.listaInodos, otro.dir ≠ nodo.dir) :
    ∃ t, a = .salir t nodo.nroInodo
      ∧ ∀ u, u ≠ t → (s.hilos u).dentro nodo.nroInodo = false := by
  have hqueda : ∀ (dir : Nat) (f : NodoInodo → NodoInodo), (∀ nodo, (f nodo).dir = nodo.dir) →
      ∃ otro ∈ enDir s.listaInodos dir f, otro.dir = nodo.dir := by
    intro dir f hf
    refine ⟨_, mem_enDir.mpr ⟨nodo, hmem, rfl⟩, ?_⟩
    split
    · exact hf nodo
    · rfl
  obtain ⟨t, n, op, dir, -, he, ht, hfresca, rfl⟩ | ⟨t, n, op, dir, _, -, he, hf, hl, rfl⟩ |
    ⟨t, n, op, rfl, he, ht, rfl⟩ := paso_casos hp
  · exfalso
    cases hf : s.listaInodos.find? fun nodo => nodo.nroInodo == n with
    | some viejo =>
        rw [monitorLock_some hf] at hno
        obtain ⟨otro, hotro, hd⟩ := hqueda viejo.dir NodoInodo.masUno fun _ => rfl
        exact hno otro hotro hd
    | none =>
        rw [monitorLock_none hf] at hno
        exact hno nodo (List.mem_append_left _ hmem) rfl
  · exfalso
    obtain ⟨otro, hotro, hd⟩ := hqueda dir (NodoInodo.conLock op) fun _ => rfl
    exact hno otro hotro hd
  · obtain ⟨suyo, hf, hmem', hnro⟩ := h.su_nodo ht
    rw [monitorUnlock_eq hf] at hno
    by_cases huno : suyo.cantHilos - 1 = 0
    · rw [if_pos huno] at hno
      have hn : nodo.nroInodo = n := by
        by_contra hne
        exact hno nodo ((mem_eraseP h.numeros).mpr ⟨hmem, hne⟩) rfl
      rw [hn]
      exact ⟨t, rfl, h.ultimo ht hmem' hnro huno⟩
    · rw [if_neg huno] at hno
      obtain ⟨otro, hotro, hd⟩ := hqueda suyo.dir NodoInodo.menosUno fun _ => rfl
      exact absurd hd (hno otro hotro)

/-- **THE REGISTRY IS SOUND**: in every reachable state an inode has at most one
    node, the count of a node is the number of workers inside its lock, every
    worker inside finds its node, a node is removed only by the last worker
    inside, and a writer is alone. -/
theorem registro_sano (l : List (Turno T)) (hrun : corrida Registro.paso l {} = some s) :
    (∀ n, (s.listaInodos.filter fun nodo => nodo.nroInodo == n).length ≤ 1)
    ∧ (∀ nodo ∈ s.listaInodos, nodo.cantHilos
        = (Finset.univ.filter fun t => (s.hilos t).dentro nodo.nroInodo = true).card)
    ∧ (∀ t n, (s.hilos t).dentro n = true → ∃ nodo ∈ s.listaInodos, nodo.nroInodo = n)
    ∧ (∀ t n op dir, (s.hilos t).espera = some (n, op, dir) →
        ∃ nodo ∈ s.listaInodos, nodo.dir = dir ∧ nodo.nroInodo = n)
    ∧ (∀ a s', Registro.paso a s = some s' → ∀ nodo ∈ s.listaInodos,
        (∀ otro ∈ s'.listaInodos, otro.dir ≠ nodo.dir) →
        ∃ t, a = .salir t nodo.nroInodo
          ∧ ∀ u, u ≠ t → (s.hilos u).dentro nodo.nroInodo = false)
    ∧ (∀ t n, (s.hilos t).tiene n = some .tipoWrite →
        ∀ u, u ≠ t → (s.hilos u).tiene n = none) := by
  have h := RegistroInv.corrida hrun
  refine ⟨?_, h.cuenta, h.presente, fun t n op dir he => (h.espera t n op dir he).2,
    fun a s' hp nodo hmem hno => h.quita hp hmem hno, ?_⟩
  · intro n
    have hnd : ((s.listaInodos.filter fun nodo => nodo.nroInodo == n).map
        NodoInodo.nroInodo).Nodup := h.numeros.sublist (List.filter_sublist.map _)
    have hall : ∀ m ∈ (s.listaInodos.filter fun nodo => nodo.nroInodo == n).map
        NodoInodo.nroInodo, m = n := by
      intro m hm
      obtain ⟨nodo, hmem, rfl⟩ := List.mem_map.mp hm
      simpa using (List.mem_filter.mp hmem).2
    rw [List.eq_replicate_of_mem hall, List.nodup_replicate, List.length_map] at hnd
    exact hnd
  · intro t n ht u hu
    by_contra hne
    exact hu (h.exclusivo t n ht u hne)

end Invariante

/-- A reader and a writer on inode 5: the writer waits at the reader's node and
    gets it when the reader leaves. -/
def lectorYEscritor : List (Turno (Fin 2)) :=
  [.entrar 0 5 .tipoRead 100, .entrar 1 5 .tipoWrite 200, .tomar 0, .salir 0 5, .tomar 1]

theorem registro_sano_lectorYEscritor :
    ∃ s, corrida Registro.paso lectorYEscritor {} = some s
      ∧ (s.hilos 1).tiene 5 = some .tipoWrite
      ∧ ∀ u, u ≠ 1 → (s.hilos u).tiene 5 = none :=
  ⟨_, rfl, rfl, (registro_sano lectorYEscritor rfl).2.2.2.2.2 1 5 rfl⟩

end Rfs
