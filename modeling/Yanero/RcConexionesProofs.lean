import Yanero.RcConexiones
import Yanero.RcClavesProofs

/-! # Steps of the connections

    The step relation of the connections, inverted once (`Paso`), and the
    refinement of the machine over the table by the one over the key area:
    while no key is longer than its cell, the second goes through the same
    states, so what is proved of the first holds of the second. -/

namespace Rc

open Corridas

/-! ## What one step can do -/

/-- Connection `c` takes `s` to `s'` by an action. -/
inductive Paso (cfg : Config) (c : Nat) (e : Entorno) (s : Sistema) : Accion → Sistema → Prop
  | nada {accion : Accion} (hf : s.fases[c]? = some .libre) : Paso cfg c e s accion s
  | colocar {key : Clave} {n pos : Nat} {t : TableInfo} (hf : s.fases[c]? = some .libre)
      (hn : n ≤ cfg.blockSizeMax) (ht : colocar cfg e s.tabla key n = some (t, pos)) :
      Paso cfg c e s (.colocar key n)
        { tabla := t, fases := s.fases.set c (.colocada key pos n)
          vigentes := sinClaves (desalojadas s.tabla t key) s.vigentes }
  | crear {key : Clave} {n pos : Nat} (hf : s.fases[c]? = some (.colocada key pos n)) :
      Paso cfg c e s .crear
        { tabla := crear cfg e s.tabla key pos n
          fases := s.fases.set c (.asignada key pos n
            ((crear cfg e s.tabla key pos n).elements.getD pos Particion.vacia).item.data)
          vigentes := s.vigentes ++ [(key, n)] }
  | copiar {key : Clave} {n pos a : Nat} {valor : List UInt8}
      (hf : s.fases[c]? = some (.asignada key pos n a)) (hv : valor.length = n) :
      Paso cfg c e s (.copiar valor) { s with tabla := copiarValor s.tabla pos valor }
  | guardar {key : Clave} {n pos a : Nat} (hf : s.fases[c]? = some (.asignada key pos n a)) :
      Paso cfg c e s .guardar
        { s with tabla := storeInfo s.tabla pos, fases := s.fases.set c (.guardada pos) }
  | soltar {f : Fase} {pos : Nat} {t : TableInfo} (hf : s.fases[c]? = some f)
      (hp : f.asa = some pos) (ht : itemRelease s.tabla pos = some t) :
      Paso cfg c e s .soltar
        { tabla := t, fases := s.fases.set c .libre
          vigentes := if (s.tabla.elements.getD pos Particion.vacia).item.stored then s.vigentes
            else sinClaves [(s.tabla.elements.getD pos Particion.vacia).item.key] s.vigentes }
  | buscar {key : Clave} {pos : Nat} (hf : s.fases[c]? = some .libre)
      (hs : micacheSearchElement s.tabla key = some pos) :
      Paso cfg c e s (.buscar key) { s with fases := s.fases.set c (.hallada pos) }
  | usar {pos : Nat} {t : TableInfo} (hf : s.fases[c]? = some (.hallada pos))
      (ht : t = lruGet e.relojGet s.tabla pos ∨ t = s.tabla) :
      Paso cfg c e s .usar { s with tabla := t, fases := s.fases.set c (.leida pos) }
  | borrar {key : Clave} {pos : Nat} (hf : s.fases[c]? = some .libre)
      (hs : micacheSearchElement s.tabla key = some pos) :
      Paso cfg c e s (.borrar key) { s with fases := s.fases.set c (.borrando pos) }
  | marcar {pos : Nat} (hf : s.fases[c]? = some (.borrando pos)) :
      Paso cfg c e s .marcar
        { s with tabla := s.tabla.modificar pos (marcar false)
                 fases := s.fases.set c (.marcada pos) }
  | limpiar (hf : s.fases[c]? = some .libre) :
      Paso cfg c e s .limpiar { s with tabla := micacheClean s.tabla, vigentes := [] }

/-- **INVERSION** of a step. -/
theorem paso_casos {cfg : Config} {c : Nat} {accion : Accion} {e : Entorno} {s s' : Sistema}
    (h : paso cfg (c, accion, e) s = some s') : Paso cfg c e s accion s' := by
  unfold paso at h
  dsimp only at h
  split at h
  · rename_i key n hf
    split at h
    · rw [← Option.some.inj h]
      exact .nada hf
    · obtain ⟨⟨t, pos⟩, ht, rfl⟩ := Option.map_eq_some_iff.mp h
      exact .colocar hf (by omega) ht
  · rename_i key pos n hf
    rw [← Option.some.inj h]
    exact .crear hf
  · rename_i hf
    split at h
    · rw [← Option.some.inj h]
      exact .copiar hf (by assumption)
    · exact nomatch h
  · rename_i hf
    rw [← Option.some.inj h]
    exact .guardar hf
  · rename_i f hf
    obtain ⟨pos, hp, h⟩ := Option.bind_eq_some_iff.mp h
    obtain ⟨t, ht, rfl⟩ := Option.map_eq_some_iff.mp h
    exact .soltar hf hp ht
  · rename_i hf
    split at h
    · rw [← Option.some.inj h]
      exact .nada hf
    · rename_i hs
      rw [← Option.some.inj h]
      exact .buscar hf hs
  · rename_i pos hf
    rw [← Option.some.inj h]
    refine .usar hf ?_
    cases cfg.algReemplazo with
    | lru => exact Or.inl rfl
    | fifo => exact Or.inr rfl
  · rename_i hf
    split at h
    · rw [← Option.some.inj h]
      exact .nada hf
    · rename_i hs
      rw [← Option.some.inj h]
      exact .borrar hf hs
  · rename_i hf
    rw [← Option.some.inj h]
    exact .marcar hf
  · rename_i hf
    rw [← Option.some.inj h]
    exact .limpiar hf
  · exact nomatch h

/-- A phase after connection `c` has moved to `f` is `f` or one of the
    others. -/
theorem mem_set_fase {l : List Fase} {c : Nat} {f f' : Fase} (h : f' ∈ l.set c f) :
    f' = f ∨ f' ∈ l.eraseIdx c := by
  rw [List.eraseIdx_eq_take_drop_succ]
  by_cases hc : c < l.length
  · rw [List.set_eq_take_append_cons_drop, if_pos hc] at h
    simp only [List.mem_append, List.mem_cons] at h ⊢
    tauto
  · rw [List.set_eq_of_length_le (by omega)] at h
    right
    rw [List.take_of_length_le (by omega)]
    exact List.mem_append_left _ h

theorem mem_fases {l : List Fase} {c : Nat} {f f' : Fase} (hf : l[c]? = some f) (h : f' ∈ l) :
    f' = f ∨ f' ∈ l.eraseIdx c := by
  refine mem_set_fase (?_ : f' ∈ l.set c f)
  obtain ⟨hc, rfl⟩ := List.getElem?_eq_some_iff.mp hf
  rw [List.set_getElem_self]
  exact h

/-! ## Over the key area -/

/-- The key of an `item_allocate` fits its cell. -/
def Accion.Corta : Accion → Prop
  | .colocar key _ => key.length ≤ 60
  | _ => True

instance : DecidablePred Accion.Corta
  | .colocar key _ => inferInstanceAs (Decidable (key.length ≤ 60))
  | .crear | .copiar _ | .guardar | .soltar | .buscar _ | .usar | .borrar _ | .marcar | .limpiar =>
      inferInstanceAs (Decidable True)

/-- The keys of a step fit their cells, that of `elements[-1]` included. -/
def PasoCorto (x : Nat × Accion × Entorno) : Prop := x.2.1.Corta ∧ AntesCorta x.2.2

/-- The area holds the keys of the table, and a key that is placed and not yet
    created fits its cell. -/
structure SistemaPlano.Bien (s : SistemaPlano) : Prop where
  plana : s.plana.Bien
  colocadas : ∀ key pos n, Fase.colocada key pos n ∈ s.fases → key.length ≤ 60

section Refinamiento

variable {cfg : Config} {s : SistemaPlano}

theorem SistemaPlano.Bien.actual (h : s.Bien) :
    s.actual = { tabla := s.plana.tabla, fases := s.fases, vigentes := s.vigentes } := by
  rw [SistemaPlano.actual, h.plana.actual]

/-- A phase that is set in place of another leaves the placed keys short. -/
theorem SistemaPlano.Bien.pone (h : s.Bien) {c : Nat} {f : Fase}
    (hf : ∀ key pos n, f = .colocada key pos n → key.length ≤ 60) :
    ∀ key pos n, Fase.colocada key pos n ∈ s.fases.set c f → key.length ≤ 60 := by
  intro key pos n hm
  rcases List.mem_or_eq_of_mem_set hm with hm | heq
  · exact h.colocadas key pos n hm
  · exact hf key pos n heq.symm

/-- The steps that copy no key leave the keys of the table and place none. -/
theorem Paso.sinClaves {c : Nat} {accion : Accion} {e : Entorno} {s s' : Sistema}
    (h : Paso cfg c e s accion s')
    (hcol : ∀ key n, accion = .colocar key n → s.fases[c]? = some .libre → False)
    (hcre : ∀ key pos n, accion = .crear → s.fases[c]? = some (.colocada key pos n) → False) :
    s'.tabla.claves = s.tabla.claves
      ∧ ∀ key pos n, Fase.colocada key pos n ∈ s'.fases → Fase.colocada key pos n ∈ s.fases := by
  have hset : ∀ {f : Fase} {l : List Fase} {c : Nat}, (∀ key pos n, f ≠ .colocada key pos n) →
      ∀ key pos n, Fase.colocada key pos n ∈ l.set c f → Fase.colocada key pos n ∈ l := by
    intro f l c hf key pos n hm
    rcases List.mem_or_eq_of_mem_set hm with hm | heq
    · exact hm
    · exact absurd heq.symm (hf key pos n)
  cases h with
  | nada => exact ⟨rfl, fun _ _ _ h => h⟩
  | colocar hf => exact (hcol _ _ rfl hf).elim
  | crear hf => exact (hcre _ _ _ rfl hf).elim
  | copiar => exact ⟨rfl, fun _ _ _ h => h⟩
  | guardar => exact ⟨modificar_mismasClaves _ _ (by intro s; rfl), hset nofun⟩
  | soltar _ _ ht => exact ⟨itemRelease_mismasClaves ht, hset nofun⟩
  | buscar | borrar => exact ⟨rfl, hset nofun⟩
  | usar _ ht =>
      refine ⟨?_, hset nofun⟩
      rcases ht with rfl | rfl
      · exact modificar_mismasClaves _ _ (by intro s; rfl)
      · rfl
  | marcar => exact ⟨modificar_mismasClaves _ _ (by intro s; rfl), hset nofun⟩
  | limpiar => exact ⟨micacheClean_mismasClaves _, fun _ _ _ h => h⟩

/-- **ONE STEP** over the key area is the step over the table. -/
theorem pasoPlano_refina (cfg : Config) (x : Nat × Accion × Entorno) (s : SistemaPlano)
    (h : s.Bien) (hx : PasoCorto x) :
    (pasoPlano cfg x s).map SistemaPlano.actual = paso cfg x s.actual
      ∧ ∀ s' ∈ pasoPlano cfg x s, s'.Bien := by
  obtain ⟨c, accion, e⟩ := x
  obtain ⟨hk, he⟩ := hx
  unfold pasoPlano
  dsimp only
  split
  · rename_i key n hf
    rw [h.actual]
    unfold paso
    simp only [hf]
    split
    · exact ⟨by rw [Option.map_some, h.actual], fun s' hs' => Option.some.inj hs' ▸ h⟩
    · obtain ⟨hig, hb⟩ : Refina (colocarPlano cfg e s.plana key n)
        (colocar cfg e s.plana.tabla key n) :=
        colocar_refina he h.plana key n
      rw [← hig]
      cases hr : colocarPlano cfg e s.plana key n with
      | none => exact ⟨rfl, fun s' hs' => nomatch hs'⟩
      | some r =>
          have hr' := hb r hr
          refine ⟨?_, fun s' hs' => ?_⟩
          · simp only [Option.map_some, SistemaPlano.actual, hr'.actual, h.plana.actual]
          · obtain rfl := Option.some.inj hs'
            refine ⟨hr', h.pone ?_⟩
            rintro _ _ _ ⟨⟩
            exact hk
  · rename_i key pos n hf
    rw [h.actual]
    unfold paso
    simp only [hf]
    obtain ⟨hb, htab⟩ : (crearPlano cfg e s.plana key pos n).Bien
        ∧ (crearPlano cfg e s.plana key pos n).tabla = crear cfg e s.plana.tabla key pos n :=
      crear_bien h.plana (h.colocadas key pos n (List.mem_of_getElem? hf)) pos n
    refine ⟨?_, fun s' hs' => ?_⟩
    · simp only [Option.map_some, SistemaPlano.actual, hb.actual, htab]
    · obtain rfl := Option.some.inj hs'
      exact ⟨hb, h.pone nofun⟩
  · rename_i accion _ _ hcol hcre
    cases hp : paso cfg (c, accion, e) s.actual with
    | none => exact ⟨rfl, fun s' hs' => nomatch hs'⟩
    | some s₁ =>
        obtain ⟨hk₁, hf₁⟩ := (paso_casos hp).sinClaves hcol hcre
        have hb : (s.plana.con s₁.tabla).Bien := by
          refine h.plana.con ?_
          rw [hk₁, SistemaPlano.actual, h.plana.actual]
        refine ⟨?_, fun s' hs' => ?_⟩
        · show some (s.con s₁).actual = some s₁
          rw [SistemaPlano.con, SistemaPlano.actual, hb.actual]
          rfl
        · obtain rfl := Option.some.inj hs'
          exact ⟨hb, fun key pos n hm => h.colocadas key pos n (hf₁ key pos n hm)⟩

theorem sistemaPlanoInicial_bien (cfg : Config) (m : Nat) (claves : Nat → UInt8) :
    (sistemaPlanoInicial cfg m claves).Bien :=
  ⟨cacheInitialize_area cfg claves, fun _ _ _ h => nomatch List.eq_of_mem_replicate h⟩

theorem sistemaPlanoInicial_actual (cfg : Config) (m : Nat) (claves : Nat → UInt8) :
    (sistemaPlanoInicial cfg m claves).actual = sistemaInicial cfg m :=
  (sistemaPlanoInicial_bien cfg m claves).actual

end Refinamiento

section Corridas

variable {cfg : Config} {m : Nat} {acciones : List (Nat × Accion × Entorno)}

/-- **A RUN** over the key area is the run over the table. -/
theorem corridaPlana_refina (claves : Nat → UInt8) (hx : ∀ x ∈ acciones, PasoCorto x) :
    (corrida (pasoPlano cfg) acciones (sistemaPlanoInicial cfg m claves)).map SistemaPlano.actual
      = corrida (paso cfg) acciones (sistemaInicial cfg m) := by
  rw [← sistemaPlanoInicial_actual cfg m claves]
  exact (corrida_proyecta (pasoPlano_refina cfg) acciones
    (sistemaPlanoInicial_bien cfg m claves) hx).1

/-- Every run over the table with short keys is one over the key area. -/
theorem corridaPlana_de {s : Sistema} (claves : Nat → UInt8) (hx : ∀ x ∈ acciones, PasoCorto x)
    (hr : corrida (paso cfg) acciones (sistemaInicial cfg m) = some s) :
    ∃ p, corrida (pasoPlano cfg) acciones (sistemaPlanoInicial cfg m claves) = some p
      ∧ p.actual = s := by
  rw [← corridaPlana_refina claves hx] at hr
  exact Option.map_eq_some_iff.mp hr

/-- A condition of every step of a run over the key area. -/
theorem enCadaPasoPlano_iff {D : Nat × Accion × Entorno → Sistema → Prop} (claves : Nat → UInt8)
    (hx : ∀ x ∈ acciones, PasoCorto x) :
    EnCadaPaso (pasoPlano cfg) (fun x s => D x s.actual) acciones
        (sistemaPlanoInicial cfg m claves)
      ↔ EnCadaPaso (paso cfg) D acciones (sistemaInicial cfg m) := by
  rw [← sistemaPlanoInicial_actual cfg m claves]
  exact EnCadaPaso.proyecta (pasoPlano_refina cfg) acciones
    (sistemaPlanoInicial_bien cfg m claves) hx

end Corridas

end Rc
