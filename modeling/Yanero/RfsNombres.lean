import Mathlib.Data.List.TakeWhile
import Yanero.Arborescencia
import Yanero.RfsUnlinkProofs

/-! # The names of a volume

    What the directories of a volume say, without the bytes: which inodes are
    directories, which are regular files, and the pairs each directory lists.
    `Nombres.Bien` is what makes it a tree that is seen through the names other
    than `.` and `..`: names are unique in a directory, the entries lead to
    inodes in use, each inode has one entry, `.` leads to the directory and `..`
    to the one that holds it.

    The four changes that requests make to it (a new file, a new directory, one
    of them removed) keep it a tree and put or cut one of its edges. -/

namespace Rfs

open Arborescencia

/-! ## Lookup in a list of pairs -/

section Pares

variable {l l' : List (List UInt8 × Nat)} {p q : List UInt8 × Nat} {c c' : List UInt8} {x : Nat}

/-- With unique names, lookup finds each pair. -/
theorem buscarPar_de_mem (h : (l.map nombreDe).Nodup) (hp : p ∈ l) :
    buscarPar l (nombreDe p) = p.2 := by
  induction l with
  | nil => cases hp
  | cons q l ih =>
      obtain ⟨hq, hl⟩ := List.nodup_cons.mp h
      rcases List.mem_cons.mp hp with rfl | hp
      · rw [buscarPar, List.find?_cons_of_pos (by simp)]
        rfl
      · have hne : nombreDe q ≠ nombreDe p := fun heq =>
          hq (heq ▸ List.mem_map_of_mem hp)
        rw [buscarPar, List.find?_cons_of_neg (by simpa using hne)]
        exact ih hl hp

/-- What lookup finds is a pair of the list. -/
theorem mem_de_buscarPar (h : buscarPar l c ≠ 0) :
    ∃ p ∈ l, nombreDe p = c ∧ p.2 = buscarPar l c := by
  rw [buscarPar] at h ⊢
  cases hf : l.find? (fun p => nombreDe p == c) with
  | none =>
      rw [hf] at h
      exact absurd rfl h
  | some p => exact ⟨p, List.mem_of_find?_eq_some hf, by simpa using List.find?_some hf, rfl⟩

/-- A name that is not found has no pair, when no pair has inode zero. -/
theorem ausente_de_buscarPar (hn : (l.map nombreDe).Nodup) (h0 : ∀ p ∈ l, p.2 ≠ 0)
    (h : buscarPar l c = 0) : ∀ p ∈ l, nombreDe p ≠ c := by
  rintro p hp rfl
  exact h0 p hp ((buscarPar_de_mem hn hp).symm.trans h)

/-- The entries with one more. -/
theorem Gana.mem (h : Gana l l' p) : q ∈ l' ↔ q = p ∨ q ∈ l := by
  obtain ⟨a, b, rfl, rfl⟩ := h
  simp only [List.mem_append, List.mem_cons]
  tauto

/-- A pair with a name of its own keeps the names unique. -/
theorem Gana.nombres (h : Gana l l' p) (hn : (l.map nombreDe).Nodup)
    (hno : ∀ q ∈ l, nombreDe q ≠ nombreDe p) : (l'.map nombreDe).Nodup := by
  obtain ⟨a, b, rfl, rfl⟩ := h
  rw [List.map_append, List.map_cons, List.nodup_middle, List.nodup_cons, ← List.map_append]
  refine ⟨fun hmem => ?_, hn⟩
  obtain ⟨q, hq, heq⟩ := List.mem_map.mp hmem
  exact hno q hq heq

/-- The new name is found. -/
theorem Gana.buscar (h : Gana l l' p) (hn : (l.map nombreDe).Nodup)
    (hno : ∀ q ∈ l, nombreDe q ≠ nombreDe p) : buscarPar l' (nombreDe p) = p.2 :=
  buscarPar_de_mem (h.nombres hn hno) (h.mem.mpr (.inl rfl))

/-- The other names are found where they were. -/
theorem Gana.buscar_otro (h : Gana l l' p) (hne : c ≠ nombreDe p) :
    buscarPar l' c = buscarPar l c := by
  obtain ⟨a, b, rfl, rfl⟩ := h
  have hpasa : (p :: b).find? (fun q => nombreDe q == c) = b.find? fun q => nombreDe q == c :=
    List.find?_cons_of_neg (by simpa using hne.symm)
  rw [buscarPar, buscarPar, List.find?_append, List.find?_append, hpasa]

/-- No pair of the inode is left. -/
theorem UnPar.sin (h : UnPar l c x) : ∀ p ∈ l.eraseP (fun p => p.2 == x), p.2 ≠ x := by
  obtain ⟨p, hp, -, hpx⟩ := h.par
  obtain ⟨a, l₁, l₂, -, hax, hl, herase⟩ :=
    List.exists_of_eraseP (p := fun p : List UInt8 × Nat => p.2 == x) hp (by simp [hpx])
  have hveces := h.veces
  rw [hl, List.countP_append, List.countP_cons, if_pos hax] at hveces
  have hcero : (l₁ ++ l₂).countP (fun p => p.2 == x) = 0 := by
    rw [List.countP_append]
    omega
  rw [herase]
  exact fun q hq hqx => List.countP_eq_zero.mp hcero q hq (by simp [hqx])

end Pares

/-! ## The names of a volume -/

/-- `.` or `..`. -/
def Punto (c : List UInt8) : Prop := c = [46] ∨ c = [46, 46]

instance : DecidablePred Punto := fun _ => inferInstanceAs (Decidable (_ ∨ _))

/-- The inodes in use that are directories and those that are regular files,
    and the pairs that each directory lists. -/
structure Nombres where
  dir : Nat → Bool
  reg : Nat → Bool
  ent : Nat → List (List UInt8 × Nat)

/-- Where a name other than the dots leads. -/
def Nombres.hijo (N : Nombres) (d : Nat) (c : List UInt8) : Option Nat :=
  if N.dir d ∧ ¬ Punto c ∧ buscarPar (N.ent d) c ≠ 0 then some (buscarPar (N.ent d) c) else none

/-- The names make a tree. -/
structure Nombres.Bien (N : Nombres) : Prop where
  raiz : N.dir inodoRaiz
  clases : ∀ y, N.dir y → N.reg y = false
  cero : N.dir 0 = false ∧ N.reg 0 = false
  nombres : ∀ y, N.dir y → ((N.ent y).map nombreDe).Nodup
  destinos : ∀ y, N.dir y → ∀ p ∈ N.ent y, N.dir p.2 ∨ N.reg p.2
  arbol : EsArbol N.hijo inodoRaiz
  punto : ∀ y, N.dir y → buscarPar (N.ent y) [46] = y
  padre : ∀ y, N.dir y → ∃ d, buscarPar (N.ent y) [46, 46] = d
    ∧ (y = inodoRaiz ∧ d = inodoRaiz ∨ ∃ c, N.hijo d c = some y)

/-- A name that a request can give an entry: a C string that is not empty, is
    not one of the dots and fits `d_name_len`. -/
structure NombreBien (c : List UInt8) : Prop where
  noVacio : c ≠ []
  cadena : ∀ b ∈ c, b ≠ 0
  noPunto : ¬ Punto c
  largo : c.length ≤ 255

section Nombres

variable {N N' : Nombres} {d x y z : Nat} {c : List UInt8}

/-- A child is an entry of a directory that is not a dot and not erased. -/
theorem Nombres.hijo_iff : N.hijo d c = some z ↔
    N.dir d ∧ ¬ Punto c ∧ buscarPar (N.ent d) c = z ∧ z ≠ 0 := by
  unfold Nombres.hijo
  split
  · next h =>
    constructor
    · rintro hz
      obtain rfl := Option.some.inj hz
      exact ⟨h.1, h.2.1, rfl, h.2.2⟩
    · rintro ⟨-, -, rfl, -⟩
      rfl
  · next h =>
    constructor
    · intro hz
      cases hz
    · rintro ⟨h1, h2, rfl, h3⟩
      exact absurd ⟨h1, h2, h3⟩ h

/-- A name that leads nowhere. -/
theorem Nombres.hijo_none (h : ∀ z, N.hijo d c ≠ some z) : N.hijo d c = none :=
  Option.eq_none_iff_forall_ne_some.mpr h

/-- A change of the tree is a change of what lookup finds. -/
theorem Nombres.hijo_igual (hdir : N'.dir d = N.dir d)
    (hbus : N.dir d → buscarPar (N'.ent d) c = buscarPar (N.ent d) c) :
    N'.hijo d c = N.hijo d c := by
  ext z
  rw [Nombres.hijo_iff, Nombres.hijo_iff, hdir]
  refine and_congr_right fun hd => ?_
  rw [hbus hd]

/-- A name that fits is stored as it is. -/
theorem NombreBien.nombreDe (h : NombreBien c) (x : Nat) : Rfs.nombreDe (c, x) = c :=
  List.takeWhile_eq_self_iff.mpr fun b hb => by simpa using h.cadena b hb

/-- An entry of a directory is found by its name. -/
theorem Nombres.Bien.mem (h : N.Bien) (hd : N.dir d) {p : List UInt8 × Nat} (hp : p ∈ N.ent d) :
    p.2 ≠ 0 ∧ buscarPar (N.ent d) (nombreDe p) = p.2 := by
  refine ⟨fun h0 => ?_, buscarPar_de_mem (h.nombres d hd) hp⟩
  have hdest := h.destinos d hd p hp
  rw [h0, h.cero.1, h.cero.2] at hdest
  simp at hdest

/-- The entries that are not dots are edges of the tree. -/
theorem Nombres.Bien.hijo_mem (h : N.Bien) (hd : N.dir d) {p : List UInt8 × Nat} (hp : p ∈ N.ent d)
    (hno : ¬ Punto (nombreDe p)) : N.hijo d (nombreDe p) = some p.2 :=
  Nombres.hijo_iff.mpr ⟨hd, hno, (h.mem hd hp).2, (h.mem hd hp).1⟩

/-- A directory without edges other than the dots. -/
theorem Nombres.sinHijos (h : ∀ p ∈ N.ent x, Punto (nombreDe p)) (c : List UInt8) :
    N.hijo x c = none := by
  refine Nombres.hijo_none fun z hz => ?_
  obtain ⟨-, hno, rfl, hne⟩ := Nombres.hijo_iff.mp hz
  obtain ⟨p, hp, rfl, -⟩ := mem_de_buscarPar hne
  exact hno (h p hp)

/-- What is not a directory has no edges. -/
theorem Nombres.hijo_hoja (h : N.dir x = false) (c : List UInt8) : N.hijo x c = none := by
  refine Nombres.hijo_none fun z hz => ?_
  have hd := (Nombres.hijo_iff.mp hz).1
  rw [h] at hd
  cases hd

/-- A child is a directory or a regular file. -/
theorem Nombres.Bien.destino (h : N.Bien) (hz : N.hijo d c = some z) : N.dir z ∨ N.reg z := by
  obtain ⟨hd, -, rfl, hne⟩ := Nombres.hijo_iff.mp hz
  obtain ⟨p, hp, -, heq⟩ := mem_de_buscarPar hne
  exact heq ▸ h.destinos d hd p hp

/-- **ONE ENTRY** for each file: the directory that has it. -/
theorem Nombres.Bien.unPar (h : N.Bien) (hz : N.hijo d c = some z) (hdz : z ≠ d)
    (hpadre : buscarPar (N.ent d) [46, 46] ≠ z) : UnPar (N.ent d) c z := by
  obtain ⟨hd, hno, hbus, hne⟩ := Nombres.hijo_iff.mp hz
  obtain ⟨p, hp, hpc, hpz⟩ := mem_de_buscarPar (hbus.symm ▸ hne)
  rw [hbus] at hpz
  refine ⟨h.nombres d hd, ?_, p, hp, hpc, hpz⟩
  -- every pair of the inode has the name
  have hnombre : ∀ q ∈ N.ent d, q.2 = z → nombreDe q = c := by
    intro q hq hqz
    by_cases hqp : Punto (nombreDe q)
    · have hbq := (h.mem hd hq).2
      rcases hqp with hqp | hqp
      · rw [hqp, h.punto d hd, hqz] at hbq
        exact absurd hbq.symm hdz
      · rw [hqp, hqz] at hbq
        exact absurd hbq hpadre
    · exact (h.arbol.unico (hqz ▸ h.hijo_mem hd hq hqp) hz).2
  have hcuenta : (N.ent d).countP (fun q => q.2 == z)
      ≤ ((N.ent d).map nombreDe).countP (fun e => e == c) := by
    rw [List.countP_map]
    refine List.countP_mono_left fun q hq hqz => ?_
    simpa using hnombre q hq (by simpa using hqz)
  exact Nat.le_trans hcuenta (List.nodup_iff_count_le_one.mp (h.nombres d hd) c)

end Nombres

/-! ## Something new -/

/-- Inode `x`, a directory or a regular file, gets the entry `c` in directory
    `d`; a new directory lists the two dots. -/
structure Alta (N N' : Nombres) (esDir : Bool) (d : Nat) (c : List UInt8) (x : Nat) : Prop where
  dir : ∀ y, N'.dir y = if y = x then esDir else N.dir y
  reg : ∀ y, N'.reg y = if y = x then !esDir else N.reg y
  otros : ∀ y, N.dir y → y ≠ d → N'.ent y = N.ent y
  gana : Gana (N.ent d) (N'.ent d) (c, x)
  puntos : esDir = true → ∀ p, p ∈ N'.ent x ↔ p = ([46], x) ∨ p = ([46, 46], d)
  distintos : esDir = true → ((N'.ent x).map nombreDe).Nodup

/-- The inode is new and the name is not there. -/
structure Libre (N : Nombres) (d : Nat) (c : List UInt8) (x : Nat) : Prop where
  dir : N.dir d
  nombre : NombreBien c
  ausente : N.hijo d c = none
  noDir : N.dir x = false
  noReg : N.reg x = false
  noCero : x ≠ 0

section Alta

variable {N N' : Nombres} {esDir : Bool} {d x y : Nat} {c : List UInt8}

/-- A free inode is nobody's child. -/
theorem Libre.noEs (hl : Libre N d c x) (hb : N.Bien) (y : Nat) (e : List UInt8) :
    N.hijo y e ≠ some x := by
  intro h
  have hdest := hb.destino h
  rw [hl.noDir, hl.noReg] at hdest
  simp at hdest

/-- It is no directory. -/
theorem Libre.ne (hl : Libre N d c x) (hy : N.dir y) : y ≠ x := by
  rintro rfl
  rw [hl.noDir] at hy
  cases hy

/-- The name is not taken. -/
theorem Libre.sinNombre (hl : Libre N d c x) (hb : N.Bien) :
    ∀ p ∈ N.ent d, nombreDe p ≠ nombreDe (c, x) := by
  have hcero : buscarPar (N.ent d) c = 0 := by
    by_contra hne
    have h := Nombres.hijo_iff.mpr ⟨hl.dir, hl.nombre.noPunto, rfl, hne⟩
    rw [hl.ausente] at h
    cases h
  rw [hl.nombre.nombreDe x]
  exact ausente_de_buscarPar (hb.nombres d hl.dir) (fun p hp => (hb.mem hl.dir hp).1) hcero

/-- The name of the entry to itself. -/
theorem Punto.nombreDe_uno (x : Nat) : nombreDe ([46], x) = [46] := rfl

/-- The name of the entry to the parent. -/
theorem Punto.nombreDe_dos (x : Nat) : nombreDe ([46, 46], x) = [46, 46] := rfl

/-- **ONE EDGE MORE**. -/
theorem Alta.pone (h : Alta N N' esDir d c x) (hl : Libre N d c x) (hb : N.Bien) :
    Pone N.hijo N'.hijo d c x := by
  have hne := hl.ne hl.dir
  constructor
  · refine Nombres.hijo_iff.mpr ⟨?_, hl.nombre.noPunto, ?_, hl.noCero⟩
    · rw [h.dir, if_neg hne]
      exact hl.dir
    · have hbus := h.gana.buscar (hb.nombres d hl.dir) (hl.sinNombre hb)
      rwa [hl.nombre.nombreDe x] at hbus
  · intro y e hye
    by_cases hyx : y = x
    · subst hyx
      rw [Nombres.hijo_hoja hl.noDir]
      cases hes : esDir with
      | false => exact Nombres.hijo_hoja (by rw [h.dir, if_pos rfl, hes]) e
      | true =>
          refine Nombres.sinHijos (fun p hp => ?_) e
          rcases (h.puntos hes p).mp hp with rfl | rfl
          · exact .inl rfl
          · exact .inr rfl
    · refine Nombres.hijo_igual (by rw [h.dir, if_neg hyx]) fun hy => ?_
      by_cases hyd : y = d
      · subst hyd
        refine h.gana.buscar_otro ?_
        rw [hl.nombre.nombreDe x]
        exact fun he => hye ⟨rfl, he⟩
      · rw [h.otros y hy hyd]

/-- The dots of a directory that was there. -/
theorem Alta.puntoViejo (h : Alta N N' esDir d c x) (hl : Libre N d c x) (hy : N.dir y)
    {e : List UInt8} (he : Punto e) : buscarPar (N'.ent y) e = buscarPar (N.ent y) e := by
  by_cases hyd : y = d
  · subst hyd
    refine h.gana.buscar_otro ?_
    rw [hl.nombre.nombreDe x]
    rintro rfl
    exact hl.nombre.noPunto he
  · rw [h.otros y hy hyd]

/-- **A NEW NAME** keeps the names in order. -/
theorem Alta.bien (h : Alta N N' esDir d c x) (hl : Libre N d c x) (hb : N.Bien) : N'.Bien := by
  have hpone := h.pone hl hb
  have hraiz := hl.ne hb.raiz
  -- what is a directory afterwards is the new one or was one
  have hcasos : ∀ y, N'.dir y → y = x ∧ esDir = true ∨ y ≠ x ∧ N.dir y := by
    intro y hy
    rw [h.dir] at hy
    by_cases hyx : y = x
    · rw [if_pos hyx] at hy
      exact .inl ⟨hyx, hy⟩
    · rw [if_neg hyx] at hy
      exact .inr ⟨hyx, hy⟩
  have hclase : ∀ z, N.dir z ∨ N.reg z → N'.dir z ∨ N'.reg z := by
    intro z hz
    have hzx : z ≠ x := by
      rintro rfl
      rw [hl.noDir, hl.noReg] at hz
      simp at hz
    rwa [h.dir, h.reg, if_neg hzx, if_neg hzx]
  have hnuevo : N'.dir x ∨ N'.reg x := by
    rw [h.dir, h.reg, if_pos rfl, if_pos rfl]
    cases esDir <;> simp
  refine ⟨?_, fun y hy => ?_, ⟨?_, ?_⟩, fun y hy => ?_, fun y hy p hp => ?_,
    hpone.arbol hb.arbol (hl.noEs hb) hraiz.symm, fun y hy => ?_, fun y hy => ?_⟩
  · rw [h.dir, if_neg hraiz]
    exact hb.raiz
  · rcases hcasos y hy with ⟨rfl, hes⟩ | ⟨hyx, hy⟩
    · rw [h.reg, if_pos rfl, hes]
      rfl
    · rw [h.reg, if_neg hyx]
      exact hb.clases y hy
  · rw [h.dir, if_neg hl.noCero.symm]
    exact hb.cero.1
  · rw [h.reg, if_neg hl.noCero.symm]
    exact hb.cero.2
  · rcases hcasos y hy with ⟨rfl, hes⟩ | ⟨hyx, hy⟩
    · exact h.distintos hes
    · by_cases hyd : y = d
      · subst hyd
        exact h.gana.nombres (hb.nombres y hy) (hl.sinNombre hb)
      · rw [h.otros y hy hyd]
        exact hb.nombres y hy
  · rcases hcasos y hy with ⟨rfl, hes⟩ | ⟨hyx, hy⟩
    · rcases (h.puntos hes p).mp hp with rfl | rfl
      · exact hnuevo
      · exact hclase d (.inl hl.dir)
    · by_cases hyd : y = d
      · subst hyd
        rcases h.gana.mem.mp hp with rfl | hp
        · exact hnuevo
        · exact hclase _ (hb.destinos y hy p hp)
      · rw [h.otros y hy hyd] at hp
        exact hclase _ (hb.destinos y hy p hp)
  · rcases hcasos y hy with ⟨rfl, hes⟩ | ⟨hyx, hy⟩
    · exact buscarPar_de_mem (h.distintos hes) ((h.puntos hes _).mpr (.inl rfl))
    · rw [h.puntoViejo hl hy (.inl rfl)]
      exact hb.punto y hy
  · rcases hcasos y hy with ⟨rfl, hes⟩ | ⟨hyx, hy⟩
    · exact ⟨d, buscarPar_de_mem (h.distintos hes) ((h.puntos hes _).mpr (.inr rfl)),
        .inr ⟨c, hpone.arista⟩⟩
    · obtain ⟨d', hd', hpadre⟩ := hb.padre y hy
      refine ⟨d', (h.puntoViejo hl hy (.inr rfl)).trans hd', hpadre.imp_right ?_⟩
      rintro ⟨e, he⟩
      refine ⟨e, (hpone.resto d' e fun hc => ?_).trans he⟩
      rw [hc.1, hc.2, hl.ausente] at he
      cases he

end Alta

/-! ## Something gone -/

/-- Inode `x` is let go and its entry leaves directory `d`. -/
structure Baja (N N' : Nombres) (d x : Nat) : Prop where
  dir : ∀ y, N'.dir y = if y = x then false else N.dir y
  reg : ∀ y, N'.reg y = if y = x then false else N.reg y
  otros : ∀ y, N.dir y → y ≠ d → y ≠ x → N'.ent y = N.ent y
  quita : N'.ent d = (N.ent d).eraseP fun p => p.2 == x

/-- The entry leads to the inode, which lists nothing but the dots. -/
structure Hoja (N : Nombres) (d : Nat) (c : List UInt8) (x : Nat) : Prop where
  entrada : N.hijo d c = some x
  ne : x ≠ d
  vacio : N.dir x → ∀ p ∈ N.ent x, Punto (nombreDe p)

section Baja

variable {N N' : Nombres} {d x y : Nat} {c : List UInt8}

/-- A leaf has no child. -/
theorem Hoja.sinHijos (hh : Hoja N d c x) (e : List UInt8) : N.hijo x e = none := by
  cases hx : N.dir x with
  | false => exact Nombres.hijo_hoja hx e
  | true => exact Nombres.sinHijos (hh.vacio hx) e

/-- No directory has it as its parent. -/
theorem Hoja.noPadre (hh : Hoja N d c x) (hb : N.Bien) (hy : N.dir y) :
    buscarPar (N.ent y) [46, 46] ≠ x := by
  intro heq
  obtain ⟨d', hd', hpadre⟩ := hb.padre y hy
  obtain rfl : d' = x := hd'.symm.trans heq
  rcases hpadre with ⟨-, rfl⟩ | ⟨e, he⟩
  · exact hb.arbol.raiz d c hh.entrada
  · rw [hh.sinHijos e] at he
    cases he

/-- It has one entry. -/
theorem Hoja.unPar (hh : Hoja N d c x) (hb : N.Bien) : UnPar (N.ent d) c x :=
  hb.unPar hh.entrada hh.ne (hh.noPadre hb (Nombres.hijo_iff.mp hh.entrada).1)

/-- **ONE EDGE LESS**. -/
theorem Baja.corta (h : Baja N N' d x) (hh : Hoja N d c x) (hb : N.Bien) :
    Corta N.hijo N'.hijo d c := by
  have hpar := hh.unPar hb
  constructor
  · refine Nombres.hijo_none fun z hz => ?_
    obtain ⟨-, -, hbus, hne⟩ := Nombres.hijo_iff.mp hz
    rw [h.quita, hpar.buscar] at hbus
    exact hne hbus.symm
  · intro y e hye
    by_cases hyx : y = x
    · subst hyx
      rw [hh.sinHijos e]
      exact Nombres.hijo_hoja (by rw [h.dir, if_pos rfl]) e
    · refine Nombres.hijo_igual (by rw [h.dir, if_neg hyx]) fun hy => ?_
      by_cases hyd : y = d
      · subst hyd
        rw [h.quita]
        exact hpar.buscar_otro fun he => hye ⟨rfl, he⟩
      · rw [h.otros y hy hyd hyx]

/-- The dots of the directories that stay. -/
theorem Baja.puntoViejo (h : Baja N N' d x) (hh : Hoja N d c x) (hb : N.Bien) (hy : N.dir y)
    (hyx : y ≠ x) {e : List UInt8} (he : Punto e) :
    buscarPar (N'.ent y) e = buscarPar (N.ent y) e := by
  by_cases hyd : y = d
  · subst hyd
    rw [h.quita]
    refine (hh.unPar hb).buscar_otro ?_
    rintro rfl
    exact (Nombres.hijo_iff.mp hh.entrada).2.1 he
  · rw [h.otros y hy hyd hyx]

/-- The entries that stay do not lead to the inode. -/
theorem Baja.mem (h : Baja N N' d x) (hh : Hoja N d c x) (hb : N.Bien) (hy : N.dir y)
    (hyx : y ≠ x) {p : List UInt8 × Nat} (hp : p ∈ N'.ent y) : p ∈ N.ent y ∧ p.2 ≠ x := by
  by_cases hyd : y = d
  · subst hyd
    rw [h.quita] at hp
    exact ⟨List.mem_of_mem_eraseP hp, (hh.unPar hb).sin p hp⟩
  · rw [h.otros y hy hyd hyx] at hp
    refine ⟨hp, fun hpx => ?_⟩
    have hbus := (hb.mem hy hp).2
    by_cases hpunto : Punto (nombreDe p)
    · rcases hpunto with hpp | hpp
      · rw [hpp, hb.punto y hy, hpx] at hbus
        exact hyx hbus
      · rw [hpp, hpx] at hbus
        exact hh.noPadre hb hy hbus
    · exact hyd (hb.arbol.unico (hpx ▸ hb.hijo_mem hy hp hpunto) hh.entrada).1

/-- **A NAME LESS** keeps the names in order. -/
theorem Baja.bien (h : Baja N N' d x) (hh : Hoja N d c x) (hb : N.Bien) : N'.Bien := by
  have hcorta := h.corta hh hb
  have hraiz : inodoRaiz ≠ x := by
    rintro rfl
    exact hb.arbol.raiz d c hh.entrada
  have hcasos : ∀ y, N'.dir y → y ≠ x ∧ N.dir y := by
    intro y hy
    rw [h.dir] at hy
    by_cases hyx : y = x
    · rw [if_pos hyx] at hy
      cases hy
    · rw [if_neg hyx] at hy
      exact ⟨hyx, hy⟩
  have hx0 : 0 ≠ x := (Nombres.hijo_iff.mp hh.entrada).2.2.2.symm
  refine ⟨?_, fun y hy => ?_, ⟨?_, ?_⟩, fun y hy => ?_, fun y hy p hp => ?_,
    hcorta.arbol hb.arbol, fun y hy => ?_, fun y hy => ?_⟩
  · rw [h.dir, if_neg hraiz]
    exact hb.raiz
  · obtain ⟨hyx, hy⟩ := hcasos y hy
    rw [h.reg, if_neg hyx]
    exact hb.clases y hy
  · rw [h.dir, if_neg hx0]
    exact hb.cero.1
  · rw [h.reg, if_neg hx0]
    exact hb.cero.2
  · obtain ⟨hyx, hy⟩ := hcasos y hy
    by_cases hyd : y = d
    · subst hyd
      rw [h.quita]
      exact (hb.nombres y hy).sublist (List.eraseP_sublist.map nombreDe)
    · rw [h.otros y hy hyd hyx]
      exact hb.nombres y hy
  · obtain ⟨hyx, hy⟩ := hcasos y hy
    obtain ⟨hp, hpx⟩ := h.mem hh hb hy hyx hp
    rw [h.dir, h.reg, if_neg hpx, if_neg hpx]
    exact hb.destinos y hy p hp
  · obtain ⟨hyx, hy⟩ := hcasos y hy
    rw [h.puntoViejo hh hb hy hyx (.inl rfl)]
    exact hb.punto y hy
  · obtain ⟨hyx, hy⟩ := hcasos y hy
    obtain ⟨d', hd', hpadre⟩ := hb.padre y hy
    refine ⟨d', (h.puntoViejo hh hb hy hyx (.inr rfl)).trans hd', hpadre.imp_right ?_⟩
    rintro ⟨e, he⟩
    refine ⟨e, (hcorta.resto d' e fun hc => hyx ?_).trans he⟩
    rw [hc.1, hc.2, hh.entrada] at he
    exact (Option.some.inj he).symm

end Baja

end Rfs
