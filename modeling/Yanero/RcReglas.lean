import Yanero.RcParticionesProofs
import Yanero.RcBuddyProofs

/-! # Rules for the loops of the engine

    One induction rule for each loop whose turns rewrite the table: the
    halving loop, the merging passes, and the two placement loops.  What every
    turn keeps holds of the result; the rules of the placement loops also pass
    on how many turns are left and how many searches have failed, so that a
    condition on every turn can ride along. -/

namespace Rc

open Bucles

variable {cfg : Config} {e : Entorno} {m : Nat}

/-- The halving loop; `P` also sees the length the next half would have, which
    in the end does not hold the request. -/
theorem partir_regla {i : Nat} {P : Int → TableInfo → Prop}
    (parte : ∀ t part, P part t → (m : Int) ≤ part → (t.sizeChunk : Int) ≤ part →
      P (part.tdiv 2) (desplazarUnoAbajo e t i part))
    (chica : ∀ t part, P part t → part < t.sizeChunk → P (-1) t) :
    ∀ (vueltas : Nat) {part : Int} {t t' : TableInfo}, P part t →
      partir e m i vueltas part t = some t' → ∃ part', P part' t' ∧ part' < m := by
  intro vueltas
  induction vueltas with
  | zero => intro part t t' _ h; cases h
  | succ v ih =>
      intro part t t' hP hr
      rw [partir] at hr
      split at hr
      · rename_i hm
        split at hr
        · rename_i hc
          exact ih (parte t part hP hm hc) hr
        · exact ih (chica t part hP (by omega)) hr
      · rename_i hm
        rw [← Option.some.inj hr]
        exact ⟨part, hP, by omega⟩

/-- A search that finds a block, and what the halving loop did to it. -/
theorem buscarHueco_casos {t t' : TableInfo} {i : Nat}
    (h : buscarHueco e t m = some (some (t', i))) :
    huecoBuddy t m = some i ∧ partir e m i e.vueltas
      ((t.elements.getD i Particion.vacia).bytesDisponibles.tdiv 2) t = some t' := by
  unfold buscarHueco at h
  cases hh : huecoBuddy t m with
  | none => rw [hh] at h; cases h
  | some j =>
      rw [hh] at h
      obtain ⟨t₁, hp, heq⟩ := Option.map_eq_some_iff.mp h
      obtain ⟨rfl, rfl⟩ := Prod.mk.inj (Option.some.inj heq)
      exact ⟨rfl, hp⟩

/-- The merging passes. -/
theorem unirTodasLasHermanas_regla {fuera : Nat → Particion} {P : TableInfo → Prop}
    (turno : ∀ i p, P p.self → P (unirTurno fuera i p).self) :
    ∀ (vueltas : Nat) {t t' : TableInfo}, P t →
      unirTodasLasHermanas fuera vueltas t = some t' → P t' := by
  intro vueltas
  induction vueltas with
  | zero => intro t t' _ h; cases h
  | succ v ih =>
      intro t t' hP hr
      have hp : P (unirPasada fuera t).self :=
        iterar_invariante (f := unirTurno fuera) (s := (⟨t, 0, false⟩ : Pasada))
          (fun _ p => P p.self) hP (fun i p _ hp => turno i p hp)
      simp only [unirTodasLasHermanas] at hr
      split at hr
      · exact ih hp hr
      · rw [← Option.some.inj hr]
        exact hp

/-- The placement loop of the buddy scheme: `P` before a turn, `U` after its
    merging passes, `Q` of the block it returns. -/
theorem buddysystem_regla {P U : Nat → Nat → TableInfo → Prop} {Q : TableInfo → Nat → Prop}
    (hallaP : ∀ v j t t' i, P (v + 1) j t → buscarHueco e t m = some (some (t', i)) → Q t' i)
    (une : ∀ v j t t', P (v + 1) j t → buscarHueco e t m = some none →
      unirTodasLasHermanas e.fuera e.vueltas t = some t' → U (v + 1) j t')
    (hallaU : ∀ v j t t' i, U (v + 1) j t → buscarHueco e t m = some (some (t', i)) → Q t' i)
    (quita : ∀ v j t t', U (v + 1) j t → buscarHueco e t m = some none →
      t.elementsAmount ≠ 0 → reemplazar (e.relojLru j) t = some t' → P v (j + 1) t')
    (vuelve : ∀ v j t, U (v + 1) j t → buscarHueco e t m = some none →
      t.elementsAmount = 0 → P v (j + 1) t) :
    ∀ (vueltas j : Nat) {t t' : TableInfo} {i : Nat}, P vueltas j t →
      buddysystem e m vueltas j t = some (t', i) → Q t' i := by
  intro vueltas
  induction vueltas with
  | zero => intro j t t' i _ h; cases h
  | succ v ih =>
      intro j t t' i hP hr
      obtain ⟨r₁, h1, hr₁⟩ := Option.bind_eq_some_iff.mp hr
      cases r₁ with
      | some r =>
          obtain rfl := Option.some.inj hr₁
          exact hallaP v j t t' i hP h1
      | none =>
          obtain ⟨t₁, h2, hr₂⟩ := Option.bind_eq_some_iff.mp hr₁
          have hU := une v j t t₁ hP h1 h2
          obtain ⟨r₃, h3, hr₃⟩ := Option.bind_eq_some_iff.mp hr₂
          cases r₃ with
          | some r =>
              obtain rfl := Option.some.inj hr₃
              exact hallaU v j t₁ t' i hU h3
          | none =>
              by_cases he : t₁.elementsAmount ≠ 0
              · simp only [if_pos he] at hr₃
                obtain ⟨t₂, h4, hr₄⟩ := Option.bind_eq_some_iff.mp hr₃
                exact ih _ (quita v j t₁ t₂ hU h3 he h4) hr₄
              · simp only [if_neg he] at hr₃
                exact ih _ (vuelve v j t₁ hU h3 (by simpa using he)) hr₃

/-- The placement loop of the buddy scheme ends when `P` and `U`, which bound
    the turns left, carry each of its steps. -/
theorem buddysystem_total {P U : Nat → Nat → TableInfo → Prop} {Q : TableInfo → Nat → Prop}
    (resta : ∀ j t, ¬ P 0 j t)
    (busca : ∀ v j t, P v j t ∨ U v j t → ∃ r, buscarHueco e t m = some r)
    (halla : ∀ v j t t' i, P (v + 1) j t ∨ U (v + 1) j t →
      buscarHueco e t m = some (some (t', i)) → Q t' i)
    (une : ∀ v j t, P (v + 1) j t → buscarHueco e t m = some none →
      ∃ t', unirTodasLasHermanas e.fuera e.vueltas t = some t' ∧ U (v + 1) j t')
    (quita : ∀ v j t, U (v + 1) j t → buscarHueco e t m = some none →
      t.elementsAmount ≠ 0 ∧ ∃ t', reemplazar (e.relojLru j) t = some t' ∧ P v (j + 1) t') :
    ∀ (vueltas j : Nat) {t : TableInfo}, P vueltas j t →
      ∃ t' i, buddysystem e m vueltas j t = some (t', i) ∧ Q t' i := by
  intro vueltas
  induction vueltas with
  | zero => intro j t hP; exact absurd hP (resta j t)
  | succ v ih =>
      intro j t hP
      obtain ⟨r₁, h1⟩ := busca (v + 1) j t (Or.inl hP)
      cases r₁ with
      | some r => exact ⟨r.1, r.2, by simp [buddysystem, h1], halla v j t _ _ (Or.inl hP) h1⟩
      | none =>
          obtain ⟨t₁, h2, hU⟩ := une v j t hP h1
          obtain ⟨r₃, h3⟩ := busca (v + 1) j t₁ (Or.inr hU)
          cases r₃ with
          | some r =>
              exact ⟨r.1, r.2, by simp [buddysystem, h1, h2, h3],
                halla v j t₁ _ _ (Or.inr hU) h3⟩
          | none =>
              obtain ⟨hcant, t₂, h4, hP'⟩ := quita v j t₁ hU h3
              obtain ⟨t', i, h5, hQ⟩ := ih (j + 1) hP'
              exact ⟨t', i, by simp [buddysystem, h1, h2, h3, hcant, h4, h5], hQ⟩

/-- The placement loop of the dynamic scheme: `P` before a turn, `Q` of the
    hole it returns. -/
theorem compactacion_regla {P : Nat → Nat → TableInfo → Prop} {Q : TableInfo → Nat → Prop}
    (halla : ∀ v j t p k total, P (v + 1) j t →
      hueco cfg.algBusqueda t m = some (p, k, total) → Q (unirHueco t p k total) p)
    (barre : ∀ v j t t', P (v + 1) j t → hueco cfg.algBusqueda t m = none →
      (((j + 1 : Nat) : Int) = cfg.frecuenciaCompactacion ∨ t.elementsAmount = 0) →
      barrer e.fuera e.vueltas 0 t = some t' → P v (j + 1) t')
    (quita : ∀ v j t t', P (v + 1) j t → hueco cfg.algBusqueda t m = none →
      ¬ (((j + 1 : Nat) : Int) = cfg.frecuenciaCompactacion ∨ t.elementsAmount = 0) →
      reemplazar (e.relojLru (j + 1)) t = some t' → P v (j + 1) t') :
    ∀ (vueltas j : Nat) {t t' : TableInfo} {i : Nat}, P vueltas j t →
      compactacion cfg e m vueltas j t = some (t', i) → Q t' i := by
  intro vueltas
  induction vueltas with
  | zero => intro j t t' i _ h; cases h
  | succ v ih =>
      intro j t t' i hP hr
      simp only [compactacion, buscarLugar_hueco] at hr
      cases hh : hueco cfg.algBusqueda t m with
      | some r =>
          obtain ⟨p, k, total⟩ := r
          rw [hh] at hr
          obtain ⟨rfl, rfl⟩ := Prod.mk.inj (Option.some.inj hr)
          exact halla v j t p k total hP hh
      | none =>
          simp only [hh, Option.map_none] at hr
          by_cases hfrec : ((j + 1 : Nat) : Int) = cfg.frecuenciaCompactacion
          · rw [if_pos hfrec] at hr
            obtain ⟨t₁, h1, h2⟩ := Option.bind_eq_some_iff.mp hr
            exact ih _ (barre v j t t₁ hP hh (Or.inl hfrec) h1) h2
          · rw [if_neg hfrec] at hr
            by_cases hcant : t.elementsAmount ≠ 0
            · rw [if_pos hcant] at hr
              obtain ⟨t₁, h1, h2⟩ := Option.bind_eq_some_iff.mp hr
              exact ih _ (quita v j t t₁ hP hh (by tauto) h1) h2
            · rw [if_neg hcant] at hr
              obtain ⟨t₁, h1, h2⟩ := Option.bind_eq_some_iff.mp hr
              exact ih _ (barre v j t t₁ hP hh (Or.inr (by simpa using hcant)) h1) h2

/-- The placement loop of the dynamic scheme ends when `P`, which bounds the
    turns left, carries each of its steps. -/
theorem compactacion_total {P : Nat → Nat → TableInfo → Prop} {Q : TableInfo → Nat → Prop}
    (resta : ∀ j t, ¬ P 0 j t)
    (halla : ∀ v j t p k total, P (v + 1) j t →
      hueco cfg.algBusqueda t m = some (p, k, total) → Q (unirHueco t p k total) p)
    (barre : ∀ v j t, P (v + 1) j t → hueco cfg.algBusqueda t m = none →
      (((j + 1 : Nat) : Int) = cfg.frecuenciaCompactacion ∨ t.elementsAmount = 0) →
      ∃ t', barrer e.fuera e.vueltas 0 t = some t' ∧ P v (j + 1) t')
    (quita : ∀ v j t, P (v + 1) j t → hueco cfg.algBusqueda t m = none →
      ¬ (((j + 1 : Nat) : Int) = cfg.frecuenciaCompactacion ∨ t.elementsAmount = 0) →
      ∃ t', reemplazar (e.relojLru (j + 1)) t = some t' ∧ P v (j + 1) t') :
    ∀ (vueltas j : Nat) {t : TableInfo}, P vueltas j t →
      ∃ t' i, compactacion cfg e m vueltas j t = some (t', i) ∧ Q t' i := by
  intro vueltas
  induction vueltas with
  | zero => intro j t hP; exact absurd hP (resta j t)
  | succ v ih =>
      intro j t hP
      cases hh : hueco cfg.algBusqueda t m with
      | some r =>
          obtain ⟨p, k, total⟩ := r
          refine ⟨unirHueco t p k total, p, ?_, halla v j t p k total hP hh⟩
          simp only [compactacion, buscarLugar_hueco, hh, Option.map_some]
      | none =>
          by_cases hcond : ((j + 1 : Nat) : Int) = cfg.frecuenciaCompactacion ∨ t.elementsAmount = 0
          · obtain ⟨t₁, hb, hP'⟩ := barre v j t hP hh hcond
            obtain ⟨t', i, hr, hQ⟩ := ih (j + 1) hP'
            refine ⟨t', i, ?_, hQ⟩
            simp only [compactacion, buscarLugar_hueco, hh, Option.map_none, hb, Option.bind_some]
            split
            · exact hr
            · rename_i hfrec
              rw [if_neg (by simpa using hcond.resolve_left hfrec)]
              exact hr
          · obtain ⟨t₁, hq, hP'⟩ := quita v j t hP hh hcond
            obtain ⟨t', i, hr, hQ⟩ := ih (j + 1) hP'
            obtain ⟨hfrec, hcant⟩ := not_or.mp hcond
            refine ⟨t', i, ?_, hQ⟩
            simp only [compactacion, buscarLugar_hueco, hh, Option.map_none]
            rw [if_neg hfrec, if_pos hcant, hq]
            exact hr

end Rc
