import Yanero.RcReglas
import Yanero.RcBuddyRunProofs
import Yanero.RcAsasProofs
import Mathlib.Data.List.Pairwise

/-! # Who is evicted

    The replacement algorithm goes by one clock reading for each slot: the
    creation of an item sets it and, under `"lru"`, so does every GET that
    hits.  The history of a run records, for each key, the reading of its last
    touch.  This file shows that the readings of the table are those of the
    history through every shift of the table, so that each replacement of the
    buddy scheme takes the key touched longest ago, and no other. -/

namespace Rc

open Bucles Corridas

/-- What a GET of the key would answer. -/
def valorDe (t : TableInfo) (key : Clave) : Option (List UInt8) :=
  (micacheSearchElement t key).map (getItemInfo t)

/-- The replacements `buddysystem` makes, from its `n`-th turn on: the table
    before each of them and what `lru` leaves of it. -/
def desalojos (e : Entorno) (nbytesData : Nat) :
    Nat → Nat → TableInfo → List (TableInfo × Option TableInfo)
  | 0, _, _ => []
  | vueltas + 1, n, self =>
      match buscarHueco e self nbytesData, unirTodasLasHermanas e.fuera e.vueltas self with
      | some none, some self =>
          match buscarHueco e self nbytesData with
          | some none =>
              if self.elementsAmount ≠ 0 then
                (self, reemplazar (e.relojLru n) self) ::
                  match reemplazar (e.relojLru n) self with
                  | some self => desalojos e nbytesData vueltas (n + 1) self
                  | none => []
              else desalojos e nbytesData vueltas (n + 1) self
          | _ => []
      | _, _ => []

/-- A replacement takes one stored key, the one touched before all others, and
    leaves what a GET of any other key answers. -/
def QuitaElMasViejo (toque : Clave → Nat) (t : TableInfo) (t' : Option TableInfo) : Prop :=
  ∃ key u, t' = some u ∧ valorDe t key ≠ none ∧ valorDe u key = none
    ∧ ∀ k, k ≠ key → valorDe u k = valorDe t k ∧ (valorDe t k ≠ none → toque key < toque k)

/-! ## The victim -/

/-- The loop of `lru` keeps a least reading and the key of a slot that has
    it. -/
theorem foldl_masViejo (l : List Particion) :
    ∀ (a : Nat) (o : Option Clave),
      (l.foldl masViejo (a, o)).1 ≤ a
      ∧ (∀ s ∈ l, s.ocupado = true → s.item.stored = true →
          (l.foldl masViejo (a, o)).1 ≤ s.ultimaVezUsada)
      ∧ (l.foldl masViejo (a, o) = (a, o) ∨ ∃ s ∈ l, s.ocupado = true ∧ s.item.stored = true
          ∧ l.foldl masViejo (a, o) = (s.ultimaVezUsada, some s.item.key)) := by
  induction l with
  | nil => intro a o; simp
  | cons x l ih =>
      intro a o
      rw [List.foldl_cons]
      by_cases hx : (x.ocupado && x.item.stored && decide (x.ultimaVezUsada < a)) = true
      · -- slot `x` is the best so far
        have hm : masViejo (a, o) x = (x.ultimaVezUsada, some x.item.key) := by
          rw [masViejo, if_pos hx]
        simp only [Bool.and_eq_true, decide_eq_true_eq] at hx
        obtain ⟨hle, hmin, hcase⟩ := ih x.ultimaVezUsada (some x.item.key)
        rw [hm]
        refine ⟨by omega, fun s hs ho hst => ?_, Or.inr ?_⟩
        · rcases List.mem_cons.mp hs with rfl | hs
          · exact hle
          · exact hmin s hs ho hst
        · rcases hcase with hcase | ⟨s, hs, ho, hst, heq⟩
          · exact ⟨x, by simp, hx.1.1, hx.1.2, hcase⟩
          · exact ⟨s, by simp [hs], ho, hst, heq⟩
      · have hm : masViejo (a, o) x = (a, o) := by rw [masViejo, if_neg hx]
        obtain ⟨hle, hmin, hcase⟩ := ih a o
        rw [hm]
        refine ⟨hle, fun s hs ho hst => ?_, ?_⟩
        · rcases List.mem_cons.mp hs with rfl | hs
          · simp only [ho, hst, Bool.and_self, Bool.true_and, decide_eq_true_eq] at hx
            omega
          · exact hmin s hs ho hst
        · rcases hcase with hcase | ⟨s, hs, hr⟩
          · exact Or.inl hcase
          · exact Or.inr ⟨s, by simp [hs], hr⟩

section Victima

variable {t t' : TableInfo} {σ : Clave → Option (List UInt8)}

/-- With every item stored and used before the clock reading, the victim is
    an item used no later than the others. -/
theorem victima_minima {ahora : Nat} (hst : ∀ s ∈ ocupadas t.elements, s.item.stored = true)
    (hlt : ∀ s ∈ ocupadas t.elements, s.ultimaVezUsada < ahora)
    (hay : ocupadas t.elements ≠ []) :
    ∃ s ∈ ocupadas t.elements, victima ahora t = some s.item.key
      ∧ ∀ u ∈ ocupadas t.elements, s.ultimaVezUsada ≤ u.ultimaVezUsada := by
  obtain ⟨-, hmin, hcase⟩ := foldl_masViejo t.elements ahora none
  have hmin' : ∀ u ∈ ocupadas t.elements,
      (t.elements.foldl masViejo (ahora, none)).1 ≤ u.ultimaVezUsada := fun u hu =>
    hmin u (mem_ocupadas.mp hu).1 (mem_ocupadas.mp hu).2 (hst u hu)
  rcases hcase with hno | ⟨s, hs, ho, -, heq⟩
  · obtain ⟨u, R, hu⟩ := List.exists_cons_of_ne_nil hay
    have hmem : u ∈ ocupadas t.elements := by rw [hu]; simp
    have h1 := hmin' u hmem
    have h2 := hlt u hmem
    rw [hno] at h1
    exact absurd h2 (Nat.not_lt.mpr h1)
  · refine ⟨s, mem_ocupadas.mpr ⟨hs, ho⟩, by rw [victima, heq], fun u hu => ?_⟩
    have := hmin' u hu
    rw [heq] at this
    exact this

/-- A GET answers what the table holds under the key. -/
theorem valorDe_iff (h : Representa σ t) {key : Clave} {v : List UInt8} :
    valorDe t key = some v ↔ (key, true, v) ∈ contenido t := by
  have hpos : ∀ {w}, valorDe t key = some w → (key, true, w) ∈ contenido t := by
    intro w hw
    obtain ⟨pos, hs, hv⟩ := Option.map_eq_some_iff.mp hw
    obtain ⟨A, s, B, hes, rfl, ho, hst, hk⟩ := micacheSearchElement_parte hs
    refine List.mem_map.mpr ⟨s, mem_ocupadas.mpr ⟨by rw [hes]; simp, ho⟩, ?_⟩
    simp only [getItemInfo, hes, getD_mitad] at hv
    simp only [entrada, hk, hst, hv]
  refine ⟨hpos, fun hmem => ?_⟩
  cases hw : valorDe t key with
  | none =>
      have hno := Option.map_eq_none_iff.mp hw
      exact absurd rfl (micacheSearchElement_none h hno _ hmem)
  | some w =>
      have h1 := (h.guardadas _ (hpos hw)).2
      have h2 := (h.guardadas _ hmem).2
      simp only at h1 h2
      rw [h1] at h2
      exact h2

theorem valorDe_ne_none (h : Representa σ t) {key : Clave} :
    valorDe t key ≠ none ↔ ∃ s ∈ ocupadas t.elements, s.item.key = key := by
  rw [Option.ne_none_iff_exists']
  constructor
  · rintro ⟨v, hv⟩
    obtain ⟨s, hs, heq⟩ := List.mem_map.mp ((valorDe_iff h).mp hv)
    exact ⟨s, hs, congrArg Prod.fst heq⟩
  · rintro ⟨s, hs, rfl⟩
    have hmem : entrada t.memoria s ∈ contenido t := List.mem_map_of_mem hs
    have hst : s.item.stored = true := (h.guardadas _ hmem).1
    refine ⟨Bytes.leer t.memoria s.item.data s.item.ndata, (valorDe_iff h).mpr ?_⟩
    rw [← hst]
    exact hmem

/-- **A REMOVAL**, as GETs see it. -/
theorem micacheRemove_valorDe (h : Representa σ t) {key : Clave}
    (hr : micacheRemove t key = some t') :
    valorDe t' key = none ∧ ∀ k, k ≠ key → valorDe t' k = valorDe t k := by
  obtain ⟨hsub, hno⟩ := micacheRemove_contenido h.unicas hr
  have h' : Representa σ t' := h.sublist hsub
  constructor
  · by_contra hne
    obtain ⟨v, hv⟩ := Option.ne_none_iff_exists'.mp hne
    exact hno _ ((valorDe_iff h').mp hv) rfl
  · intro k hk
    refine Option.ext fun v => ?_
    rw [valorDe_iff h', valorDe_iff h]
    refine ⟨fun hv => hsub.subset hv, fun hv => ?_⟩
    obtain ⟨s, hs, heq⟩ := List.mem_map.mp hv
    rcases micacheRemove_quedan hr s hs with hsk | hs'
    · exact absurd (hsk ▸ (congrArg Prod.fst heq).symm) hk
    · rw [← heq, ← (micacheRemove_soloQuita hr).2]
      exact List.mem_map_of_mem hs'

end Victima

/-! ## The history of touches -/

/-- A run so far: the table, the clock reading of the last touch of each key,
    and the last reading of a touch. -/
structure Historia where
  tabla : TableInfo
  toque : Clave → Nat
  ahora : Nat

/-- The key an operation touches: that of a SET, and under `"lru"` that of a
    GET that hits. -/
def toca (cfg : Config) (op : Op) (r : Respuesta) : Option Clave :=
  match op, r with
  | .set key _, .success => some key
  | .get key, .valor _ => if cfg.algReemplazo = .lru then some key else none
  | _, _ => none

/-- The record after a touch of `key`. -/
def conToque (toque : Clave → Nat) (key : Clave) (ahora : Nat) : Clave → Nat :=
  fun k => if k = key then ahora else toque k

/-- One complete operation, with its touch. -/
def avanzar (cfg : Config) (x : Op × Entorno) (h : Historia) : Option Historia :=
  (ejecutar cfg x.1 x.2 h.tabla).map fun r =>
    match toca cfg x.1 r.2 with
    | some key => ⟨r.1, conToque h.toque key x.2.relojGet, x.2.relojGet⟩
    | none => { h with tabla := r.1 }

def historiaInicial (cfg : Config) : Historia := ⟨cacheInitialize cfg, fun _ => 0, 0⟩

/-- Every reading the operation may make comes after the last touch. -/
def RelojSube (x : Op × Entorno) (h : Historia) : Prop :=
  (∀ j < x.2.vueltas, h.ahora < x.2.relojLru j) ∧ h.ahora < x.2.relojGet

instance (x : Op × Entorno) (h : Historia) : Decidable (RelojSube x h) :=
  inferInstanceAs (Decidable (_ ∧ _))

/-- The key and the clock reading of an occupied slot. -/
def sello (s : Particion) : Clave × Nat := (s.item.key, s.ultimaVezUsada)

def sellos (t : TableInfo) : List (Clave × Nat) := (ocupadas t.elements).map sello

/-- The readings of a table are those of the last touches, none is later than
    `ahora`, and no two are the same. -/
structure Fechas (toque : Clave → Nat) (ahora : Nat) (l : List (Clave × Nat)) : Prop where
  fecha : ∀ x ∈ l, x.2 = toque x.1
  pasada : ∀ x ∈ l, x.2 ≤ ahora
  distintas : l.Pairwise fun x y => x.2 ≠ y.2

section Historias

variable {toque : Clave → Nat} {ahora : Nat} {l l' : List (Clave × Nat)}

theorem Fechas.sublist (h : Fechas toque ahora l) (hs : l'.Sublist l) : Fechas toque ahora l' :=
  ⟨fun x hx => h.fecha x (hs.subset hx), fun x hx => h.pasada x (hs.subset hx),
    h.distintas.sublist hs⟩

/-- A touch of a key that the other slots do not have. -/
theorem Fechas.toca {X Y : List (Clave × Nat)} {key : Clave} {a : Nat}
    (h : Fechas toque ahora (X ++ Y)) (hk : ∀ x ∈ X ++ Y, x.1 ≠ key) (ha : ahora < a) :
    Fechas (conToque toque key a) a (X ++ (key, a) :: Y) := by
  have hmem : ∀ x ∈ X ++ (key, a) :: Y, x = (key, a) ∨ x ∈ X ++ Y := by
    intro x hx
    simp only [List.mem_append, List.mem_cons] at hx ⊢
    tauto
  have hne : ∀ x ∈ X ++ Y, x.2 ≠ a := fun x hx => by have := h.pasada x hx; omega
  refine ⟨fun x hx => ?_, fun x hx => ?_, ?_⟩
  · rcases hmem x hx with rfl | hx
    · simp [conToque]
    · rw [conToque, if_neg (hk x hx)]
      exact h.fecha x hx
  · rcases hmem x hx with rfl | hx
    · exact Nat.le_refl _
    · have := h.pasada x hx
      omega
  · have hd := h.distintas
    rw [List.pairwise_append] at hd ⊢
    refine ⟨hd.1, List.pairwise_cons.mpr ⟨fun y hy => ?_, hd.2.1⟩, fun x hx y hy => ?_⟩
    · exact (hne y (by simp [hy])).symm
    · rcases List.mem_cons.mp hy with rfl | hy
      · exact hne x (by simp [hx])
      · exact hd.2.2 x hx y hy

variable {cfg : Config} {k : Nat} {t t' : TableInfo} {e : Entorno}
  {σ : Clave → Option (List UInt8)}

theorem SoloQuita.sellos (h : SoloQuita t t') : (sellos t').Sublist (Rc.sellos t) := h.1.map _

theorem sellos_claves {key : Clave} (h : ∀ x ∈ contenido t, x.1 ≠ key) :
    ∀ x ∈ sellos t, x.1 ≠ key := by
  intro x hx
  obtain ⟨s, hs, rfl⟩ := List.mem_map.mp hx
  exact h (entrada t.memoria s) (List.mem_map_of_mem hs)

/-- **SET** stamps its item with the reading of its creation. -/
theorem opSet_fechas {key : Clave} {valor : List UInt8} {r : Respuesta}
    (hcfg : ConfigBuddy cfg k) (hop : OpValida cfg (.set key valor)) (hb : Buddy cfg True t)
    (hrep : Representa σ t) (h : Fechas toque ahora (sellos t)) (ha : ahora < e.relojGet)
    (hr : opSet cfg e t key valor = some (t', r)) :
    r = .success ∧ Fechas (conToque toque key e.relojGet) e.relojGet (sellos t') := by
  have hmax : valor.length ≤ cfg.blockSizeMax := hop.2.2
  unfold opSet at hr
  rw [if_neg (by omega)] at hr
  obtain ⟨⟨t₂, pos⟩, h1, hr⟩ := Option.bind_eq_some_iff.mp hr
  obtain ⟨t₃, h2, heq⟩ := Option.map_eq_some_iff.mp hr
  obtain ⟨rfl, rfl⟩ := Prod.mk.inj heq
  refine ⟨rfl, ?_⟩
  unfold colocar at h1
  obtain ⟨t₁, hprev, hbs⟩ := Option.bind_eq_some_iff.mp h1
  simp only [hcfg.esquema] at hbs
  simp only [crear, hcfg.esquema] at h2
  obtain ⟨hrep₁, hno⟩ := quitarPrevio_representa hrep hprev
  have h₁ : Fechas toque ahora (sellos t₁) := by
    rcases quitarPrevio_casos hprev with ⟨rfl, -⟩ | hrem
    · exact h
    · exact h.sublist (micacheRemove_soloQuita hrem).sellos
  obtain ⟨A, a, F, B, D, hl⟩ := buddysystem_buddy hcfg.area hcfg.chunk hop.2.1 e.vueltas 0
    (quitarPrevio_buddy hcfg.area hb hprev) hbs
  obtain ⟨A₀, x, R₀, hes, rfl, hA, hR, -⟩ := buddyCreateElement_buddy e.relojGet key hl
  have hcre := buddyCreateElement_eq e.relojGet key valor.length hes
  have hes₁ : (buddyCreateElement e.relojGet t₂ key A₀.length valor.length).elements
      = A₀ ++ creadaBuddy e.relojGet key valor.length x :: R₀ := by rw [hcre]
  have hoA : ocupadas A₀ = ocupadas A := by rw [← hA, ocupadas_map_limpia]
  have hoR : ocupadas R₀ = ocupadas B := by
    rw [← ocupadas_map_limpia, hR, ocupadas_append, ocupadas_muertas hl.inv.muertas,
      List.append_nil]
  have hsel : sellos t₃ = (ocupadas A).map sello
      ++ (key, e.relojGet) :: (ocupadas B).map sello := by
    rw [sellos, guardar_eq hes₁ h2]
    rw [ocupadas_append, ocupadas_cons_of_true rfl, hoA, hoR, List.map_append, List.map_cons]
    rfl
  have hsub : ((ocupadas A).map sello ++ (ocupadas B).map sello).Sublist (sellos t₁) := by
    rw [← List.map_append]
    exact hl.ocupadas.map _
  rw [hsel]
  exact (h₁.sublist hsub).toca (fun x hx => sellos_claves hno x (hsub.subset hx)) ha

/-- **GET** stamps the item it hits under `"lru"`, and nothing otherwise. -/
theorem opGet_fechas {key : Clave} {r : Respuesta} (hrep : Representa σ t)
    (h : Fechas toque ahora (sellos t)) (ha : ahora < e.relojGet)
    (hr : opGet cfg e t key = some (t', r)) :
    (toca cfg (.get key) r = none ∧ Fechas toque ahora (sellos t')) ∨
    (toca cfg (.get key) r = some key
      ∧ Fechas (conToque toque key e.relojGet) e.relojGet (sellos t')) := by
  rcases opGet_casos hr with
    ⟨rfl, rfl, -⟩ | ⟨A, s, B, hes, hoc, -, hkey, rfl, ⟨ha', rfl⟩ | ⟨ha', rfl⟩⟩
  · exact Or.inl ⟨rfl, h⟩
  · exact Or.inl ⟨by simp [toca, ha'], h⟩
  · refine Or.inr ⟨by simp [toca, ha'], ?_⟩
    -- the key is in no other slot
    have hold : sellos t = (ocupadas A).map sello ++ sello s :: (ocupadas B).map sello := by
      rw [sellos, hes, ocupadas_append, ocupadas_cons_of_true hoc, List.map_append,
        List.map_cons]
    have hnew : sellos (t.modificar A.length (usar e.relojGet))
        = (ocupadas A).map sello ++ (key, e.relojGet) :: (ocupadas B).map sello := by
      have hoc' : (usar e.relojGet s).ocupado = true := hoc
      rw [sellos, TableInfo.modificar]
      simp only [hes, modify_mitad]
      rw [ocupadas_append, ocupadas_cons_of_true hoc', List.map_append, List.map_cons,
        ← hkey]
      rfl
    have hsub : ((ocupadas A).map sello ++ (ocupadas B).map sello).Sublist (sellos t) := by
      rw [hold]
      exact (List.Sublist.refl _).append (List.sublist_cons_self _ _)
    have hu := hrep.unicas
    rw [contenido, hes, ocupadas_append, ocupadas_cons_of_true hoc, List.map_append,
      List.map_cons, List.pairwise_append, List.pairwise_cons] at hu
    obtain ⟨-, ⟨hB, -⟩, hA⟩ := hu
    rw [hnew]
    refine (h.sublist hsub).toca (fun x hx => ?_) ha
    rcases List.mem_append.mp hx with hx | hx
    · obtain ⟨u, hu, rfl⟩ := List.mem_map.mp hx
      rw [← hkey]
      exact hA (entrada t.memoria u) (List.mem_map_of_mem hu) (entrada t.memoria s) (by simp)
    · obtain ⟨u, hu, rfl⟩ := List.mem_map.mp hx
      rw [← hkey]
      exact (hB (entrada t.memoria u) (List.mem_map_of_mem hu)).symm

theorem deleteOne_sellos {key : Clave} {b : Bool} (hr : deleteOne t key = some (t', b)) :
    (sellos t').Sublist (sellos t) := by
  rcases deleteOne_casos hr with ⟨rfl, -⟩ | ⟨A, s, B, hes, hoc, -, h1⟩
  · exact List.Sublist.refl _
  · have hsame : sellos (t.modificar A.length (marcar false)) = sellos t := by
      have hoc' : (marcar false s).ocupado = true := hoc
      simp only [sellos, TableInfo.modificar, hes, modify_mitad, ocupadas_append,
        ocupadas_cons_of_true hoc, ocupadas_cons_of_true hoc', List.map_append, List.map_cons]
      rfl
    rw [← hsame]
    exact (micacheRemove_soloQuita h1).sellos

/-- What a run keeps: the blocks, the map, and the readings. -/
structure Datada (cfg : Config) (h : Historia) : Prop where
  buddy : Buddy cfg True h.tabla
  mapa : ∃ hist, Representa (fun k => ultimoSet k hist) h.tabla
  fechas : Fechas h.toque h.ahora (sellos h.tabla)

theorem Datada.avanza {x : Op × Entorno} {h h' : Historia} (hcfg : ConfigBuddy cfg k)
    (hd : Datada cfg h) (hop : OpValida cfg x.1) (hrel : RelojSube x h)
    (hr : avanzar cfg x h = some h') : Datada cfg h' := by
  obtain ⟨op, e⟩ := x
  obtain ⟨⟨t', r⟩, h1, rfl⟩ := Option.map_eq_some_iff.mp hr
  obtain ⟨hist, hrep⟩ := hd.mapa
  obtain ⟨hb', hrep'⟩ := ejecutar_buddy hcfg hop ⟨hd.buddy, hrep⟩ h1
  have hf := hd.fechas
  cases op with
  | set key valor =>
      obtain ⟨rfl, hf'⟩ := opSet_fechas hcfg hop hd.buddy hrep hf hrel.2 h1
      exact ⟨hb', ⟨_, hrep'⟩, hf'⟩
  | get key =>
      rcases opGet_fechas hrep hf hrel.2 h1 with ⟨htoca, hf'⟩ | ⟨htoca, hf'⟩
      · simp only [htoca]
        exact ⟨hb', ⟨_, hrep'⟩, hf'⟩
      · simp only [htoca]
        exact ⟨hb', ⟨_, hrep'⟩, hf'⟩
  | delete key =>
      obtain ⟨⟨t₁, b⟩, h2, heq⟩ := Option.map_eq_some_iff.mp h1
      obtain ⟨rfl, -⟩ := Prod.mk.inj heq
      exact ⟨hb', ⟨_, hrep'⟩, hf.sublist (deleteOne_sellos h2)⟩
  | flushAll =>
      obtain ⟨rfl, -⟩ := Prod.mk.inj (Option.some.inj h1)
      refine ⟨hb', ⟨_, hrep'⟩, ?_⟩
      have hno := micacheClean_contenido h.tabla
      rw [contenido, List.map_eq_nil_iff] at hno
      show Fechas h.toque h.ahora (sellos (micacheClean h.tabla))
      rw [sellos, hno]
      exact ⟨by simp, by simp, List.Pairwise.nil⟩

theorem historiaInicial_datada (hcfg : ConfigBuddy cfg k) : Datada cfg (historiaInicial cfg) := by
  have hrep := cacheInitialize_representa cfg
  refine ⟨cacheInitialize_buddy hcfg.chunk hcfg.entra fun _ => ⟨k, hcfg.tam⟩, ⟨[], hrep⟩, ?_⟩
  have hno : ocupadas (cacheInitialize cfg).elements = [] := by
    refine List.eq_nil_iff_forall_not_mem.mpr fun s hs => ?_
    have := (hrep.guardadas _ (List.mem_map_of_mem hs)).2
    simp [ultimoSet] at this
  show Fechas _ _ (sellos (cacheInitialize cfg))
  rw [sellos, hno]
  exact ⟨by simp, by simp, List.Pairwise.nil⟩

/-- A replacement over stored items used before the reading takes one used no
    later than the others. -/
theorem reemplazar_vuelve {a : Nat} (hst : ∀ s ∈ ocupadas t.elements, s.item.stored = true)
    (hlt : ∀ s ∈ ocupadas t.elements, s.ultimaVezUsada < a) (hay : ocupadas t.elements ≠ []) :
    ∃ s ∈ ocupadas t.elements, (∀ u ∈ ocupadas t.elements, s.ultimaVezUsada ≤ u.ultimaVezUsada)
      ∧ ∃ t₁, micacheRemove t s.item.key = some t₁
        ∧ reemplazar a t = some { t₁ with bitacora := t₁.bitacora ++ [s.item.key] } := by
  obtain ⟨s, hs, hvic, hmin⟩ := victima_minima hst hlt hay
  -- the victim has a slot, so its removal returns
  obtain ⟨t₁, hrem⟩ := micacheRemove_vuelve (mem_ocupadas.mp hs).1 (mem_ocupadas.mp hs).2 rfl
  exact ⟨s, hs, hmin, t₁, hrem, by simp [reemplazar, lru, hvic, hrem]⟩

/-- **ONE REPLACEMENT** at a later reading takes the oldest key. -/
theorem reemplazar_masViejo {a : Nat} (hb : Buddy cfg True t) (hrep : Representa σ t)
    (hf : Fechas toque ahora (sellos t)) (ha : ahora < a) (hay : t.elementsAmount ≠ 0) :
    QuitaElMasViejo toque t (reemplazar a t) := by
  have hst : ∀ s ∈ ocupadas t.elements, s.item.stored = true := fun s hs =>
    (hrep.guardadas (entrada t.memoria s) (List.mem_map_of_mem hs)).1
  have hlt : ∀ s ∈ ocupadas t.elements, s.ultimaVezUsada < a := fun s hs => by
    have := hf.pasada (sello s) (List.mem_map_of_mem hs)
    simp only [sello] at this
    omega
  have hno : ocupadas t.elements ≠ [] := by
    obtain ⟨L, D, hinv⟩ := hb
    intro hnil
    rw [hinv.cantidad, ← hinv.ocupadas_eq, hnil] at hay
    exact hay rfl
  obtain ⟨s, hs, hmin, t₁, hrem, hree⟩ := reemplazar_vuelve hst hlt hno
  obtain ⟨hnone, hotras⟩ := micacheRemove_valorDe hrep hrem
  refine ⟨s.item.key, _, hree, (valorDe_ne_none hrep).mpr ⟨s, hs, rfl⟩, hnone, fun k hk => ?_⟩
  refine ⟨hotras k hk, fun hval => ?_⟩
  obtain ⟨u, hu, rfl⟩ := (valorDe_ne_none hrep).mp hval
  have h1 := hf.fecha (sello s) (List.mem_map_of_mem hs)
  have h2 := hf.fecha (sello u) (List.mem_map_of_mem hu)
  simp only [sello] at h1 h2
  rw [← h1, ← h2]
  refine lt_of_le_of_ne (hmin u hu) fun heq => ?_
  -- equal readings would be of one slot
  have hd : (ocupadas t.elements).Pairwise fun s u => s.ultimaVezUsada ≠ u.ultimaVezUsada := by
    have := hf.distintas
    rwa [sellos, List.pairwise_map] at this
  have : Std.Symm fun s u : Particion => s.ultimaVezUsada ≠ u.ultimaVezUsada :=
    ⟨fun _ _ h => h.symm⟩
  by_cases hsu : s = u
  · exact hk (by rw [hsu])
  · exact hd.forall hs hu hsu heq

/-- **THE REPLACEMENTS** of one placement, from the table it starts from. -/
theorem desalojos_masViejo {m : Nat} (hp : 0 < cfg.ptrdata) (hrel : ∀ j < e.vueltas,
      ahora < e.relojLru j) :
    ∀ (vueltas n : Nat) {t : TableInfo}, vueltas + n ≤ e.vueltas → Buddy cfg True t →
      Representa σ t → Fechas toque ahora (sellos t) →
      ∀ x ∈ desalojos e m vueltas n t, QuitaElMasViejo toque x.1 x.2 := by
  intro vueltas
  induction vueltas with
  | zero => intro n t _ _ _ _ x hx; cases hx
  | succ v ih =>
      intro n t hn hb hrep hf x hx
      rw [desalojos] at hx
      split at hx
      · rename_i t₁ hb1 hun
        obtain ⟨hb₁, hq₁⟩ := unirTodasLasHermanas_buddy e.vueltas hb hun
        have hrep₁ : Representa σ t₁ := hrep.sublist hq₁.quita.contenido
        have hf₁ : Fechas toque ahora (sellos t₁) := hf.sublist hq₁.quita.sellos
        split at hx
        · split at hx
          · rename_i hay
            have hquita := reemplazar_masViejo hb₁ hrep₁ hf₁ (hrel n (by omega)) hay
            rcases List.mem_cons.mp hx with rfl | hx
            · exact hquita
            · split at hx
              · rename_i t₂ hree
                have hq₂ := (reemplazar_desaloja hree).quita
                exact ih (n + 1) (by omega) (reemplazar_buddy hp hb₁ hree)
                  (hrep₁.sublist hq₂.contenido) (hf₁.sublist hq₂.sellos) x hx
              · cases hx
          · exact ih (n + 1) (by omega) hb₁ hrep₁ hf₁ x hx
        · cases hx
      · cases hx

theorem buscarHueco_bitacora {m i : Nat} (hr : buscarHueco e t m = some (some (t', i))) :
    t'.bitacora = t.bitacora := by
  obtain ⟨-, hp⟩ := buscarHueco_casos hr
  obtain ⟨-, hu, -⟩ := partir_regla (P := fun _ u => u.bitacora = t.bitacora)
    (fun u part hu _ _ => hu) (fun u part hu _ => hu) e.vueltas rfl hp
  exact hu

theorem unirTodasLasHermanas_bitacora {fuera : Nat → Particion} {v : Nat}
    (hr : unirTodasLasHermanas fuera v t = some t') : t'.bitacora = t.bitacora := by
  refine unirTodasLasHermanas_regla (P := fun u => u.bitacora = t.bitacora) ?_ v rfl hr
  intro i p hp
  unfold unirTurno
  dsimp only
  split
  · split <;> split <;> exact hp
  · split <;> exact hp

/-- The replacements are those the log has. -/
theorem buddysystem_bitacora {m : Nat} :
    ∀ (vueltas n : Nat) {t t' : TableInfo} {i : Nat},
      buddysystem e m vueltas n t = some (t', i) →
      t'.bitacora.length = t.bitacora.length + (desalojos e m vueltas n t).length := by
  intro vueltas
  induction vueltas with
  | zero => intro n t t' i h; cases h
  | succ v ih =>
      intro n t t' i hr
      rw [desalojos]
      obtain ⟨r₁, h1, hr₁⟩ := Option.bind_eq_some_iff.mp hr
      cases r₁ with
      | some r =>
          obtain rfl := Option.some.inj hr₁
          simp [h1, buscarHueco_bitacora h1]
      | none =>
          obtain ⟨t₁, h2, hr₂⟩ := Option.bind_eq_some_iff.mp hr₁
          obtain ⟨r₃, h3, hr₃⟩ := Option.bind_eq_some_iff.mp hr₂
          have hbit := unirTodasLasHermanas_bitacora h2
          cases r₃ with
          | some r =>
              obtain rfl := Option.some.inj hr₃
              simp [h1, h2, h3, buscarHueco_bitacora h3, hbit]
          | none =>
              by_cases he : t₁.elementsAmount ≠ 0
              · simp only [if_pos he] at hr₃
                obtain ⟨t₂, h4, hr₄⟩ := Option.bind_eq_some_iff.mp hr₃
                obtain ⟨key, t₃, -, hrem, rfl⟩ := reemplazar_remove h4
                obtain ⟨-, -, -, -, -, -, -, -, -, -, -, -, hb⟩ := micacheRemove_vista hrem
                have := ih _ hr₄
                simp only [h1, h2, h3, if_pos he, h4, List.length_cons, List.length_append,
                  List.length_nil, hb, hbit] at this ⊢
                omega
              · simp only [if_neg he] at hr₃
                have := ih _ hr₃
                simp only [h1, h2, h3, if_neg he]
                rw [this, hbit]

end Historias

/-- Surroundings at time `a`. -/
def entornoHora (a : Nat) : Entorno :=
  { entornoChico with relojLru := fun n => a + n, relojGet := a + 20 }

/-- Four items that fill the cache, and a GET of the first. -/
def pedidosLlenos : List (Op × Entorno) :=
  [(.set [1] [1], entornoHora 100), (.set [2] [2], entornoHora 200),
   (.set [3] [3], entornoHora 300), (.set [4] [4], entornoHora 400), (.get [1], entornoHora 500)]

end Rc
