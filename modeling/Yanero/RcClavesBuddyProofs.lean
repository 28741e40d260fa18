import Yanero.RcClavesProofs
import Yanero.RcBuddyRunProofs

/-! # Buddy blocks under any keys

    The blocks of the buddy table do not depend on the keys: two tables whose
    slots differ in their keys only have the same blocks.  So every operation
    over the key area keeps them, whatever the comparisons read there and
    however far a long key reaches into the cells of the other slots. -/

namespace Rc

open Bucles Bytes Teselado

/-- The slot without its key. -/
def sinClave (s : Particion) : Particion := { s with item := { s.item with key := [] } }

theorem limpia_sinClave (s : Particion) : limpia (sinClave s) = sinClave (limpia s) := by
  cases h : s.ocupado with
  | true => simp [limpia, sinClave, h]
  | false => simp [limpia, sinClave, h, libre]

/-- Two tables whose slots differ in their keys only. -/
structure MismosBloques (t t' : TableInfo) : Prop where
  slots : t'.elements.map sinClave = t.elements.map sinClave
  chunk : t'.sizeChunk = t.sizeChunk
  espacio : t'.espacioLibre = t.espacioLibre
  cantidad : t'.elementsAmount = t.elementsAmount

section Claves

variable {cfg : Config} {exacto : Prop} {t t' : TableInfo}

theorem MismosBloques.vista (h : MismosBloques t t') :
    (vista t').map sinClave = (vista t).map sinClave := by
  have hv : ∀ u : TableInfo, (Rc.vista u).map sinClave = (u.elements.map sinClave).map limpia := by
    intro u
    simp only [Rc.vista, List.map_map]
    exact List.map_congr_left fun s _ => (limpia_sinClave s).symm
  rw [hv, hv, h.slots]

/-- What does not look at the key holds of the slots of both tables. -/
theorem de_sinClave {P : Particion → Prop} {L L' : List Particion}
    (hP : ∀ s, P (sinClave s) ↔ P s) (hL : L'.map sinClave = L.map sinClave)
    (h : ∀ s ∈ L, P s) : ∀ s ∈ L', P s := by
  intro s hs
  have hm : sinClave s ∈ L.map sinClave := hL ▸ List.mem_map_of_mem hs
  obtain ⟨u, hu, heq⟩ := List.mem_map.mp hm
  exact (hP s).mp (heq ▸ (hP u).mpr (h u hu))

theorem map_sinClave {α : Type} {f : Particion → α} {L L' : List Particion}
    (hf : ∀ s, f (sinClave s) = f s) (hL : L'.map sinClave = L.map sinClave) :
    L'.map f = L.map f := by
  have hm : ∀ M : List Particion, M.map f = (M.map sinClave).map f := by
    intro M
    rw [List.map_map]
    exact List.map_congr_left fun s _ => (hf s).symm
  rw [hm L', hL, ← hm L]

theorem ocupadas_sinClave {L L' : List Particion} (hL : L'.map sinClave = L.map sinClave) :
    (ocupadas L').length = (ocupadas L).length := by
  have ho := map_sinClave (f := fun s => s.ocupado) (by intro s; rfl) hL
  have hc : ∀ M : List Particion, (ocupadas M).length = (M.map (·.ocupado)).countP id := by
    intro M
    rw [List.countP_map, ocupadas, List.countP_eq_length_filter]
    rfl
  rw [hc, hc, ho]

/-- **THE BLOCKS DO NOT DEPEND ON THE KEYS.** -/
theorem BuddyInv.reclava {L D : List Particion} (h : BuddyInv cfg exacto t L D)
    (ht : MismosBloques t t') : ∃ L' D', L'.map sinClave = L.map sinClave
      ∧ D'.map sinClave = D.map sinClave ∧ BuddyInv cfg exacto t' L' D' := by
  have hv := ht.vista
  rw [h.tabla, List.map_append] at hv
  obtain ⟨L', D', htab, hL, hD⟩ := List.map_eq_append_iff.mp hv
  have hlargo := map_sinClave (f := largoBuddy cfg.chunkSize) (by intro s; rfl) hL
  have hlen : L'.length = L.length := by simpa using congrArg List.length hL
  have hlenD : D'.length = D.length := by simpa using congrArg List.length hD
  refine ⟨L', D', hL, hD, ht.chunk.trans h.chunk, htab, ?_, ?_, ?_, ?_, ?_, ?_, fun hx => ?_,
    fun hx => ?_⟩
  · exact de_sinClave (fun s => Iff.rfl) hD h.muertas
  · rintro rfl
    exact h.hay (List.length_eq_zero_iff.mp hlen.symm)
  · exact de_sinClave (fun s => ⟨fun hb => ⟨hb.chunk_le, hb.potencia, hb.libre, hb.ocupada⟩,
      fun hb => ⟨hb.chunk_le, hb.potencia, hb.libre, hb.ocupada⟩⟩) hL h.bien
  · have hsin : ∀ (M : List Particion) (a b : Int),
        Cabe inicio (largoBuddy cfg.chunkSize) a (M.map sinClave) b
          ↔ Cabe inicio (largoBuddy cfg.chunkSize) a M b :=
      fun M a b => cabe_map (fun s => rfl) (fun s => rfl)
    rw [← hsin, hL, hsin]
    exact h.cabe
  · rw [hlen, hlenD]
    exact h.lleno
  · rw [ht.cantidad, ocupadas_sinClave hL]
    exact h.cantidad
  · rw [hlargo]
    exact h.suma hx
  · rw [ht.espacio, map_sinClave (f := fun s => s.bytesDisponibles) (by intro s; rfl) hL]
    exact h.espacio hx

theorem Buddy.reclava (h : Buddy cfg exacto t) (ht : MismosBloques t t') : Buddy cfg exacto t' := by
  obtain ⟨L, D, hinv⟩ := h
  obtain ⟨L', D', -, -, hinv'⟩ := hinv.reclava ht
  exact ⟨L', D', hinv'⟩

/-- Reading the keys from the area changes nothing else. -/
theorem Plana.mismosBloques (p : Plana) : MismosBloques p.tabla p.actual := by
  refine ⟨List.ext_getElem? fun i => ?_, rfl, rfl, rfl⟩
  simp only [Plana.actual, List.getElem?_map, List.getElem?_mapIdx, Option.map_map]
  rfl

/-- Resetting the flags of a slot, in both tables. -/
theorem MismosBloques.soltar (h : MismosBloques t t') (i : Nat) :
    MismosBloques (soltar i t) (soltar i t') := by
  refine ⟨List.ext_getElem? fun j => ?_, h.chunk, h.espacio, h.cantidad⟩
  have hj := congrArg (·[j]?) h.slots
  simp only [List.getElem?_map] at hj
  simp only [Rc.soltar, TableInfo.modificar, List.getElem?_map, List.getElem?_modify]
  cases hs : t.elements[j]? with
  | none =>
      rw [hs, Option.map_none, Option.map_eq_none_iff] at hj
      rw [hj]
  | some s =>
      rw [hs, Option.map_some] at hj
      obtain ⟨s', hs', heq⟩ := Option.map_eq_some_iff.mp hj
      rw [hs']
      split
      · simp only [Option.map_eq_map, Option.map_some, Option.some.injEq]
        obtain ⟨item, oc, dis, inu, usada⟩ := s
        obtain ⟨item', oc', dis', inu', usada'⟩ := s'
        simp only [sinClave, Particion.mk.injEq] at heq ⊢
        exact ⟨heq.1, trivial, heq.2.2.1, trivial, heq.2.2.2.2⟩
      · simpa using heq

/-- A placed slot stays one when the keys are read anew. -/
theorem Lugar.reclava {t₀ : TableInfo} {n i : Nat} {A B D : List Particion} {a : Nat} {F : Int}
    (h : Lugar cfg exacto t₀ t n i A a F B D) (ht : MismosBloques t t') :
    ∃ A' B' D', Lugar cfg exacto (soltar i t') t' n i A' a F B' D' := by
  obtain ⟨L', D', hL, -, hinv⟩ := h.inv.reclava (ht.soltar i)
  rw [List.map_append, List.map_cons] at hL
  obtain ⟨A', R', rfl, hA, hR⟩ := List.map_eq_append_iff.mp hL
  obtain ⟨x, B', rfl, hx, -⟩ := List.map_eq_cons_iff.mp hR
  -- a free slot of the view has no key, so `x` is the free block itself
  have hxv : x ∈ vista (soltar i t') := by rw [hinv.tabla]; simp
  obtain ⟨y, -, rfl⟩ := List.mem_map.mp hxv
  have hlibre : limpia y = libre a F := by
    have ho : y.ocupado = false := by
      have := congrArg (·.ocupado) hx
      simpa [sinClave] using this
    have hsin : sinClave (limpia y) = limpia y := by
      simp [limpia, ho, sinClave, libre]
    rw [← hsin, hx]
    rfl
  rw [hlibre] at hinv
  have hoc : Rc.ocupadas (Rc.soltar i t').elements = Rc.ocupadas A' ++ Rc.ocupadas B' := by
    rw [hinv.ocupadas_eq, ocupadas_append, ocupadas_libre]
  have hlen : A'.length = A.length := by simpa using congrArg List.length hA
  refine ⟨A', B', D', hinv, hlen.trans h.pos, h.cabe, h.justo, ?_, rfl, ?_⟩
  · rw [hoc]
  · exact Registra.of_subset rfl (by rw [hoc]; exact fun _ hx => hx)

end Claves

/-! ## Operations over the key area -/

section Operaciones

variable {cfg : Config} {exacto : Prop} {t t' : TableInfo} {p p' : Plana} {e : Entorno}

theorem Plana.actual_buddy (h : Buddy cfg exacto p.tabla) : Buddy cfg exacto p.actual :=
  h.reclava p.mismosBloques

theorem buscarHuecoPlano_buddy {n i : Nat} (hc : 0 < cfg.chunkSize) (hn : 0 < n)
    (h : Buddy cfg exacto p.tabla) (hr : buscarHuecoPlano e p n = some (some (p', i))) :
    ∃ t₀ A a F B D, Lugar cfg exacto t₀ p'.tabla n i A a F B D := by
  obtain ⟨r, h1, h2⟩ := Option.map_eq_some_iff.mp hr
  obtain ⟨⟨t, j⟩, rfl, heq⟩ := Option.map_eq_some_iff.mp h2
  obtain ⟨rfl, rfl⟩ := Prod.mk.inj heq
  exact ⟨_, buscarHueco_buddy hc hn (Plana.actual_buddy h) h1⟩

/-- **PLACEMENT** over the key area: the loop returns a block that fits. -/
theorem buddysystemPlano_buddy {nbytes : Nat} (hp : 0 < cfg.ptrdata) (hc : 0 < cfg.chunkSize)
    (hn : 0 < nbytes) : ∀ (vueltas n : Nat) {p p' : Plana} {i : Nat}, Buddy cfg exacto p.tabla →
      buddysystemPlano e nbytes vueltas n p = some (p', i) →
      ∃ t₀ A a F B D, Lugar cfg exacto t₀ p'.tabla nbytes i A a F B D := by
  intro vueltas
  induction vueltas with
  | zero => intro n p p' i _ h; exact nomatch h
  | succ v ih =>
      intro n p p' i h hr
      obtain ⟨r₁, h1, hr₁⟩ := Option.bind_eq_some_iff.mp hr
      cases r₁ with
      | some r =>
          obtain rfl := Option.some.inj hr₁
          exact buscarHuecoPlano_buddy hc hn h h1
      | none =>
          obtain ⟨p₁, h2, hr₂⟩ := Option.bind_eq_some_iff.mp hr₁
          have hb₁ : Buddy cfg exacto p₁.tabla := by
            obtain ⟨t₁, hun, rfl⟩ := Option.map_eq_some_iff.mp h2
            exact (unirTodasLasHermanas_buddy e.vueltas (Plana.actual_buddy h) hun).1
          obtain ⟨r₃, h3, hr₃⟩ := Option.bind_eq_some_iff.mp hr₂
          cases r₃ with
          | some r =>
              obtain rfl := Option.some.inj hr₃
              exact buscarHuecoPlano_buddy hc hn hb₁ h3
          | none =>
              by_cases he : p₁.tabla.elementsAmount ≠ 0
              · simp only [if_pos he] at hr₃
                obtain ⟨t₂, h4, hr₄⟩ := Option.bind_eq_some_iff.mp hr₃
                exact ih (n + 1) (reemplazar_buddy hp (Plana.actual_buddy hb₁) h4) hr₄
              · simp only [if_neg he] at hr₃
                exact ih (n + 1) hb₁ hr₃

/-- The copy, `store_info` and `item_release` on an occupied slot. -/
theorem guardar_buddy {pos : Nat} {valor : List UInt8} {s : Particion} (h : Buddy cfg exacto t)
    (hs : t.elements[pos]? = some s) (ho : s.ocupado = true)
    (hr : itemRelease (storeInfo (copiarValor t pos valor) pos) pos = some t') :
    Buddy cfg exacto t' := by
  obtain ⟨A, R, hes, rfl⟩ : ∃ A R, t.elements = A ++ s :: R ∧ A.length = pos := by
    obtain ⟨hlt, rfl⟩ := List.getElem?_eq_some_iff.mp hs
    exact ⟨t.elements.take pos, t.elements.drop (pos + 1), by simp, by simp; omega⟩
  rw [guardar_eq hes hr]
  obtain ⟨L, D, hinv⟩ := h.retoque hes ho (mismaForma_marcar true s)
  exact ⟨L, D, by simpa [TableInfo.modificar, hes, modify_mitad] using hinv.memoria _⟩

/-- **CREATION** over the key area. -/
theorem crearPlano_buddy (e : Entorno) (key : Clave) (hesq : cfg.esquema = .buddySystem)
    {t₀ : TableInfo} {n i : Nat} {A B D : List Particion} {a : Nat} {F : Int}
    (h : Lugar cfg exacto t₀ p.tabla n i A a F B D) :
    Buddy cfg exacto (crearPlano cfg e p key i n).actual
      ∧ ∃ s, (crearPlano cfg e p key i n).actual.elements[i]? = some s ∧ s.ocupado = true := by
  obtain ⟨A', B', D', hl⟩ := h.reclava p.mismosBloques
  obtain ⟨A₀, x, R₀, hes, rfl, -, -, -, -, hinv⟩ := buddyCreateElement_buddy e.relojGet key hl
  have htab : (crearPlano cfg e p key A₀.length n).tabla
      = buddyCreateElement e.relojGet p.actual key A₀.length n := by
    simp only [crearPlano, crear, hesq]
  refine ⟨Plana.actual_buddy (htab ▸ ⟨_, _, hinv⟩), ?_⟩
  have hs : (crearPlano cfg e p key A₀.length n).tabla.elements[A₀.length]?
      = some (creadaBuddy e.relojGet key n x) := by
    rw [htab, buddyCreateElement_eq e.relojGet key n hes]
    simp
  rw [Plana.actual, List.getElem?_mapIdx, hs]
  exact ⟨_, rfl, rfl⟩

theorem opSetPlano_buddy {key : Clave} {valor : List UInt8} {r : Respuesta}
    (hesq : cfg.esquema = .buddySystem) (hp : 0 < cfg.ptrdata) (hc : 0 < cfg.chunkSize)
    (hv : 0 < valor.length) (h : Buddy cfg exacto p.tabla)
    (hr : opSetPlano cfg e p key valor = some (p', r)) : Buddy cfg exacto p'.tabla := by
  unfold opSetPlano at hr
  split at hr
  · obtain ⟨rfl, -⟩ := Prod.mk.inj (Option.some.inj hr)
    exact h
  · obtain ⟨⟨p₂, pos⟩, h1, hr⟩ := Option.bind_eq_some_iff.mp hr
    obtain ⟨t₃, h2, heq⟩ := Option.map_eq_some_iff.mp hr
    obtain ⟨rfl, -⟩ := Prod.mk.inj heq
    unfold colocarPlano at h1
    obtain ⟨t₁, hprev, hbs⟩ := Option.bind_eq_some_iff.mp h1
    simp only [hesq] at hbs
    have hb₁ : Buddy cfg exacto (p.con t₁).tabla :=
      quitarPrevio_buddy hp (Plana.actual_buddy h) hprev
    obtain ⟨t₀, A, a, F, B, D, hl⟩ := buddysystemPlano_buddy hp hc hv e.vueltas 0 hb₁ hbs
    obtain ⟨hb₂, s, hs, ho⟩ := crearPlano_buddy e key hesq hl
    exact guardar_buddy hb₂ hs ho h2

/-- **ONE OPERATION** over the key area keeps the blocks. -/
theorem ejecutarPlano_buddy {k : Nat} {op : Op} {r : Respuesta} (hcfg : ConfigBuddy cfg k)
    (hop : ValorEntra cfg 1 op) (h : Buddy cfg True p.tabla)
    (hr : ejecutarPlano cfg op e p = some (p', r)) : Buddy cfg True p'.tabla := by
  have ha : Buddy cfg True p.actual := Plana.actual_buddy h
  cases op with
  | set key valor => exact opSetPlano_buddy hcfg.esquema hcfg.area hcfg.chunk hop.1 h hr
  | get key =>
      obtain ⟨⟨t₁, r₁⟩, h1, heq⟩ := Option.map_eq_some_iff.mp hr
      obtain ⟨rfl, -⟩ := Prod.mk.inj heq
      exact opGet_buddy ha h1
  | delete key =>
      obtain ⟨⟨t₁, b⟩, h1, heq⟩ := Option.map_eq_some_iff.mp hr
      obtain ⟨rfl, -⟩ := Prod.mk.inj heq
      exact deleteOne_buddy hcfg.area ha h1
  | flushAll =>
      obtain ⟨rfl, -⟩ := Prod.mk.inj (Option.some.inj hr)
      exact micacheClean_buddy (fun _ => ⟨k, hcfg.tam⟩) ha

theorem correrPlano_buddy {k : Nat} (hcfg : ConfigBuddy cfg k) :
    ∀ (ops : List (Op × Entorno)) {p p' : Plana}, (∀ x ∈ ops, ValorEntra cfg 1 x.1) →
      Buddy cfg True p.tabla → correrPlano cfg ops p = some p' → Buddy cfg True p'.tabla := by
  intro ops
  induction ops with
  | nil =>
      intro p p' _ h hr
      obtain rfl := Option.some.inj hr
      exact h
  | cons x ops ih =>
      intro p p' hops h hr
      obtain ⟨op, e⟩ := x
      obtain ⟨⟨p₁, r⟩, h1, h2⟩ := Option.bind_eq_some_iff.mp hr
      exact ih (fun y hy => hops y (List.mem_cons_of_mem _ hy))
        (ejecutarPlano_buddy hcfg (hops (op, e) List.mem_cons_self) h h1) h2

end Operaciones

/-- An item under a key of seventy bytes, a second one, which falls on the
    sixtieth of them, and a third one in its place. -/
def pedidosChicosLargos : List (Op × Entorno) :=
  [(.set (List.replicate 70 7) [1, 2, 3, 4, 5], entornoChico), (.set [2] [9], entornoChico),
   (.delete [2], entornoChico), (.set [3] [1, 2, 3], entornoChico)]

end Rc
