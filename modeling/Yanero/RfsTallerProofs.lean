import Yanero.RfsTaller
import Yanero.RfsMarcoProofs

/-! # Who takes the last block

    The test of `s_free_blocks_count` and the takes it allows are not one step.
    What keeps a take from finding the disk full is that the workers between
    their test and their last take never owe more blocks than are free
    (`Sano.reserva`); that is asked of every test that passes.

    The rest of the invariant says that no write of a worker reaches the
    bitmaps: the pointer blocks carry labels (`Rotulado`: block and number of
    levels below it), a labelled block points to labelled blocks, and the
    pending writes of a worker are well labelled (`Escribible`), whatever
    blocks it will be given. -/

namespace Rfs

open Corridas

/-! ## Labels -/

/-- `P L b`: block `b` is a pointer block with `L` levels from it to the data. -/
def conRotulo (P : Nat → Nat → Prop) (L b : Nat) : Nat → Nat → Prop :=
  fun L' c => P L' c ∨ (L' = L ∧ c = b)

/-- Labels for a row of pointer blocks, one under another. -/
def conRotulos (P : Nat → Nat → Prop) : Nat → List Nat → Nat → Nat → Prop
  | _, [] => P
  | L, b :: bs => conRotulos (conRotulo P L b) (L - 1) bs

/-- The labels are those of pointer blocks: each is on a marked data block, one
    for each block, and the pointers lead one level down. -/
structure Rotulado (fijo : Nat → Prop) (fs : Ext2) (P : Nat → Nat → Prop) : Prop where
  dato : ∀ L b, P L b → Dato fijo fs b ∧ fs.bitBloque b = true
  unico : ∀ L L' b, P L b → P L' b → L = L'
  hijo : ∀ L b pos, P (L + 1) b → 1 ≤ L → pos < fs.sb.cantPunteros →
    buscarBloque fs b pos ≠ 0 → P L (buscarBloque fs b pos)

/-- The three roots of an inode are labelled. -/
def Raices (P : Nat → Nat → Prop) (inodo : Inode) : Prop :=
  ∀ L, 1 ≤ L → L ≤ 3 → inodo.iBlock (11 + L) ≠ 0 → P L (inodo.iBlock (11 + L))

/-- Pending writes keep the labels: clearing a block labels it, a pointer goes
    from a labelled block one level down, and the inode ends with its roots
    labelled. -/
def Escribible (cant : Nat) (inodo : Inode) : (Nat → Nat → Prop) → List Acceso → Prop
  | P, [] => Raices P inodo
  | P, .inicializar b :: resto => ∃ L, 1 ≤ L ∧ Escribible cant inodo (conRotulo P L b) resto
  | P, .puntero b pos v :: resto =>
      (∃ L, P (L + 1) b ∧ (1 ≤ L → P L v)) ∧ pos < cant ∧ v < 2 ^ 32 ∧
        Escribible cant inodo P resto
  | _, .liberar _ :: _ => False

/-- The old pointer blocks of a path, labelled from level `L` down. -/
def ViejosBien (P : Nat → Nat → Prop) : Nat → List Nat → Prop
  | _, [] => True
  | L, v :: vs => P L v ∧ ViejosBien P (L - 1) vs

/-- A path from its first pointer block to its data block. -/
def Cadena (P : Nat → Nat → Prop) : List Nat → Prop
  | [] => True
  | [_] => True
  | b :: b' :: resto => P (resto.length + 1) b ∧ Cadena P (b' :: resto)

section Rotulos

variable {P Q : Nat → Nat → Prop} {cant : Nat} {inodo : Inode}

/-- More labels before, more labels after. -/
theorem conRotulo_mono {L b : Nat} (h : ∀ L' c, P L' c → Q L' c) :
    ∀ L' c, conRotulo P L b L' c → conRotulo Q L b L' c := by
  intro L' c hc
  exact hc.imp (h L' c) id

/-- Roots under more labels. -/
theorem Raices.mono (hr : Raices P inodo) (h : ∀ L c, P L c → Q L c) : Raices Q inodo := by
  intro L h1 h3 hne
  exact h _ _ (hr L h1 h3 hne)

/-- Writes that may be done under more labels. -/
theorem Escribible.mono : ∀ (l : List Acceso) {P Q : Nat → Nat → Prop},
    Escribible cant inodo P l → (∀ L c, P L c → Q L c) → Escribible cant inodo Q l := by
  intro l
  induction l with
  | nil =>
      intro P Q hr h
      exact Raices.mono hr h
  | cons a resto ih =>
      intro P Q he h
      cases a with
      | liberar b => exact he.elim
      | inicializar b =>
          obtain ⟨L, hL, he⟩ := he
          exact ⟨L, hL, ih he (conRotulo_mono h)⟩
      | puntero b pos v =>
          obtain ⟨⟨L, hb, hv⟩, hpos, hlt, he⟩ := he
          exact ⟨⟨L, h _ _ hb, fun hL => h _ _ (hv hL)⟩, hpos, hlt, ih he h⟩

/-- Labels are added, never taken. -/
theorem le_conRotulos : ∀ (bs : List Nat) (L : Nat) (P : Nat → Nat → Prop) (L' c : Nat),
    P L' c → conRotulos P L bs L' c := by
  intro bs
  induction bs with
  | nil =>
      intro L P L' c h
      exact h
  | cons b bs ih =>
      intro L P L' c h
      exact ih (L - 1) (conRotulo P L b) L' c (.inl h)

/-- Clearing a row of new pointer blocks labels them. -/
theorem escribible_inicializar {resto : List Acceso} :
    ∀ (bs : List Nat) (L : Nat) (P : Nat → Nat → Prop), bs.length ≤ L →
      Escribible cant inodo (conRotulos P L bs) resto →
      Escribible cant inodo P (bs.map .inicializar ++ resto) := by
  intro bs
  induction bs with
  | nil =>
      intro L P _ he
      exact he
  | cons b bs ih =>
      intro L P hL he
      rw [List.length_cons] at hL
      exact ⟨L, by omega, ih (L - 1) (conRotulo P L b) (by omega) he⟩

/-- The rest of a chain. -/
theorem Cadena.tail {b : Nat} {bs : List Nat} (h : Cadena P (b :: bs)) : Cadena P bs := by
  cases bs with
  | nil => trivial
  | cons b' bs => exact h.2

/-- Any rest of it. -/
theorem Cadena.drop : ∀ (n : Nat) {bs : List Nat}, Cadena P bs → Cadena P (bs.drop n) := by
  intro n
  induction n with
  | zero =>
      intro bs h
      exact h
  | succ n ih =>
      intro bs h
      cases bs with
      | nil => exact h
      | cons b bs => exact ih h.tail

/-- The links of a labelled path keep the labels. -/
theorem escribible_enlaces (hr : Raices P inodo) :
    ∀ (ps bs : List Nat), Cadena P bs → (∀ pos ∈ ps, pos < cant) → (∀ b ∈ bs, b < 2 ^ 32) →
      Escribible cant inodo P (enlaces bs ps) := by
  intro ps
  induction ps with
  | nil =>
      intro bs _ _ _
      have hnil : enlaces bs [] = [] := by
        cases bs with
        | nil => rfl
        | cons b bs => cases bs <;> rfl
      rw [hnil]
      exact hr
  | cons pos ps ih =>
      intro bs hc hps hbs
      match bs with
      | [] => exact hr
      | [_] => exact hr
      | b :: b' :: bs =>
          refine ⟨⟨bs.length, hc.1, ?_⟩, hps pos List.mem_cons_self,
            hbs b' (by simp), ih (b' :: bs) hc.2 (fun q hq => hps q (List.mem_cons_of_mem _ hq))
              fun c hcm => hbs c (List.mem_cons_of_mem _ hcm)⟩
          intro hL
          cases bs with
          | nil => exact absurd hL (by simp)
          | cons b'' bs => exact hc.2.1

/-- New blocks labelled from the top make a path. -/
theorem cadena_nuevos : ∀ (bs : List Nat) (P : Nat → Nat → Prop),
    Cadena (conRotulos P (bs.length - 1) bs.dropLast) bs := by
  intro bs
  induction bs with
  | nil =>
      intro P
      trivial
  | cons b bs ih =>
      intro P
      cases bs with
      | nil => trivial
      | cons b' bs =>
          refine ⟨?_, ih (conRotulo P ((b' :: bs).length) b)⟩
          exact le_conRotulos _ _ (conRotulo P ((b' :: bs).length) b) _ _ (Or.inr ⟨rfl, rfl⟩)

/-- The old blocks on top of a path make a longer one. -/
theorem cadena_viejos {nuevos : List Nat} (hn : nuevos ≠ []) (hc : Cadena Q nuevos)
    (h : ∀ L c, P L c → Q L c) :
    ∀ (viejos : List Nat) (L : Nat), viejos.length + nuevos.length = L + 1 →
      ViejosBien P L viejos → Cadena Q (viejos ++ nuevos) := by
  intro viejos
  induction viejos with
  | nil =>
      intro L _ _
      exact hc
  | cons v vs ih =>
      intro L hL hv
      rw [List.length_cons] at hL
      have hresto := ih (L - 1) (by have := List.length_pos_iff.mpr hn; omega) hv.2
      obtain ⟨b, bs, hb⟩ : ∃ b bs, vs ++ nuevos = b :: bs := by
        cases hvs : vs ++ nuevos with
        | nil => exact absurd (List.append_eq_nil_iff.mp hvs).2 hn
        | cons b bs => exact ⟨b, bs, rfl⟩
      have hlen : bs.length + 1 = L := by
        have := congrArg List.length hb
        rw [List.length_append, List.length_cons] at this
        omega
      rw [List.cons_append, hb]
      rw [hb] at hresto
      refine ⟨?_, hresto⟩
      rw [hlen]
      exact h _ _ hv.1

end Rotulos

/-! ## The path of an index -/

/-- A root with the positions below it. -/
structure CaminoBien (cant k : Nat) (ps : List Nat) : Prop where
  raiz : (ps = [] ∧ k < 12) ∨ (k = 11 + ps.length ∧ 1 ≤ ps.length ∧ ps.length ≤ 3)
  digito : ∀ pos ∈ ps, pos < cant

/-- The path of an index is one of the three levels. -/
theorem caminoBloque_bien {sb : Superblock} {n : Nat} {c : Nat × List Nat}
    (h : caminoBloque sb n = some c) : CaminoBien sb.cantPunteros c.1 c.2 := by
  have hp := cantPunteros_pos sb
  have hmod : ∀ x, x % sb.cantPunteros < sb.cantPunteros := fun x => Nat.mod_lt x hp
  have hle : ∀ x, u32 x ≤ x := fun x => Nat.mod_le x _
  rw [caminoBloque] at h
  by_cases h1 : n < 12
  · rw [if_pos h1] at h
    obtain rfl := Option.some.inj h
    exact ⟨.inl ⟨rfl, h1⟩, fun pos hpos => absurd hpos List.not_mem_nil⟩
  rw [if_neg h1] at h
  by_cases h2 : n - 12 < sb.cantPunteros
  · rw [if_pos h2] at h
    obtain rfl := Option.some.inj h
    refine ⟨.inr ⟨rfl, by simp, by simp⟩, ?_⟩
    intro pos hpos
    rw [List.mem_singleton.mp hpos]
    exact h2
  rw [if_neg h2] at h
  by_cases h3 : n - 12 - sb.cantPunteros < u32 (sb.cantPunteros * sb.cantPunteros)
  · rw [if_pos h3] at h
    obtain rfl := Option.some.inj h
    refine ⟨.inr ⟨rfl, by simp, by simp⟩, ?_⟩
    have hdiv : (n - 12 - sb.cantPunteros) / sb.cantPunteros < sb.cantPunteros :=
      Nat.div_lt_of_lt_mul (Nat.lt_of_lt_of_le h3 (hle _))
    intro pos hpos
    simp only [List.mem_cons, List.not_mem_nil, or_false] at hpos
    rcases hpos with rfl | rfl
    · exact hdiv
    · exact hmod _
  rw [if_neg h3] at h
  generalize hm : resta32 (n - 12 - sb.cantPunteros) (u32 (sb.cantPunteros * sb.cantPunteros)) = m
    at h
  by_cases h4 : m < u32 (sb.cantPunteros * sb.cantPunteros * sb.cantPunteros)
  · rw [if_pos h4] at h
    obtain rfl := Option.some.inj h
    refine ⟨.inr ⟨rfl, by simp, by simp⟩, ?_⟩
    have hdiv : m / sb.cantPunteros / sb.cantPunteros < sb.cantPunteros := by
      rw [Nat.div_div_eq_div_mul]
      exact Nat.div_lt_of_lt_mul (Nat.lt_of_lt_of_le h4 (hle _))
    intro pos hpos
    simp only [List.mem_cons, List.not_mem_nil, or_false] at hpos
    rcases hpos with rfl | rfl | rfl
    · exact hdiv
    · exact hmod _
    · exact hmod _
  · rw [if_neg h4] at h
    cases h

section Camino

variable {P : Nat → Nat → Prop} {fijo : Nat → Prop} {fs : Ext2} {inodo : Inode} {k : Nat}
  {ps viejos nuevos : List Nat}

/-- Below a labelled block the walk meets labelled blocks. -/
theorem Rotulado.punterosBajo (hP : Rotulado fijo fs P) :
    ∀ (ps : List Nat) (b : Nat), (∀ pos ∈ ps, pos < fs.sb.cantPunteros) → P ps.length b →
      ViejosBien P (ps.length - 1) (punterosBajo fs b ps) := by
  intro ps
  induction ps with
  | nil =>
      intro b _ _
      trivial
  | cons pos ps ih =>
      intro b hps hb
      cases ps with
      | nil => trivial
      | cons pos₂ ps =>
          by_cases hcero : buscarBloque fs b pos = 0
          · rw [punterosBajo_cero hcero]
            trivial
          · have hhijo : P (pos₂ :: ps).length (buscarBloque fs b pos) :=
              hP.hijo _ _ _ hb (by simp) (hps pos List.mem_cons_self) hcero
            rw [punterosBajo_cons hcero]
            exact ⟨hhijo, ih _ (fun q hq => hps q (List.mem_cons_of_mem _ hq)) hhijo⟩

/-- The pointer blocks that a path has carry the labels of their levels. -/
theorem Rotulado.punterosViejos (hP : Rotulado fijo fs P) (hr : Raices P inodo)
    (hc : CaminoBien fs.sb.cantPunteros k ps) :
    ViejosBien P ps.length (punterosViejos fs inodo k ps) := by
  unfold Rfs.punterosViejos
  split
  · trivial
  · rename_i hps
    split
    · trivial
    · rename_i hcero
      obtain ⟨hk, h1, h3⟩ : k = 11 + ps.length ∧ 1 ≤ ps.length ∧ ps.length ≤ 3 :=
        hc.raiz.resolve_left fun h => hps h.1
      have hraiz : P ps.length (inodo.iBlock k) := by
        subst hk
        exact hr _ h1 h3 hcero
      exact ⟨hraiz, hP.punterosBajo ps _ hc.digito hraiz⟩

/-- They are blocks that may be written. -/
theorem ViejosBien.dato (hP : Rotulado fijo fs P) : ∀ (viejos : List Nat) (L : Nat),
    ViejosBien P L viejos → ∀ b ∈ viejos, Dato fijo fs b := by
  intro viejos
  induction viejos with
  | nil =>
      intro L _ b hb
      exact absurd hb List.not_mem_nil
  | cons v vs ih =>
      intro L h b hb
      rcases List.mem_cons.mp hb with rfl | hb
      · exact (hP.dato _ _ h.1).1
      · exact ih (L - 1) h.2 b hb

/-- They stay so under more labels. -/
theorem ViejosBien.mono {Q : Nat → Nat → Prop} (hPQ : ∀ L c, P L c → Q L c) :
    ∀ (viejos : List Nat) (L : Nat), ViejosBien P L viejos → ViejosBien Q L viejos := by
  intro viejos
  induction viejos with
  | nil =>
      intro L _
      trivial
  | cons v vs ih =>
      intro L h
      exact ⟨hPQ _ _ h.1, ih (L - 1) h.2⟩

/-- The root of a path after its new blocks are in place. -/
theorem raices_conRaiz {Q : Nat → Nat → Prop} {cant : Nat} (hr : Raices P inodo)
    (hPQ : ∀ L c, P L c → Q L c) (hc : CaminoBien cant k ps) (hcad : Cadena Q nuevos)
    (hlen : viejos = [] → nuevos.length = ps.length + 1) :
    Raices Q (conRaiz inodo k viejos nuevos) := by
  by_cases hv : viejos = []
  · have hn := hlen hv
    rw [conRaiz, if_pos hv]
    intro L h1 h3 hne
    show Q L (if 11 + L = k then nuevos.headD 0 else inodo.iBlock (11 + L))
    by_cases hk : 11 + L = k
    · rw [if_pos hk]
      have hL : ps.length = L := by
        rcases hc.raiz with ⟨_, h⟩ | ⟨h, _, _⟩ <;> omega
      obtain ⟨b, b', bs, rfl⟩ : ∃ b b' bs, nuevos = b :: b' :: bs := by
        rcases nuevos with _ | ⟨b, _ | ⟨b', bs⟩⟩
        · rw [List.length_nil] at hn
          omega
        · rw [List.length_singleton] at hn
          omega
        · exact ⟨b, b', bs, rfl⟩
      have hbs : bs.length + 1 = L := by
        simp only [List.length_cons] at hn
        omega
      rw [List.headD_cons, ← hbs]
      exact hcad.1
    · rw [if_neg hk]
      have hne' : inodo.iBlock (11 + L) ≠ 0 := by
        have : (inodo.conBloque k (nuevos.headD 0)).iBlock (11 + L) = inodo.iBlock (11 + L) :=
          if_neg hk
        rwa [this] at hne
      exact hPQ _ _ (hr L h1 h3 hne')
  · rw [conRaiz, if_neg hv]
    exact hr.mono hPQ

/-- **THE WRITES OF AN ASSIGNMENT KEEP THE LABELS**, whatever blocks it is
    given. -/
theorem escribible_escrituras {cant : Nat} (hr : Raices P inodo) (hc : CaminoBien cant k ps)
    (hv : ViejosBien P ps.length viejos) (hvl : viejos.length ≤ ps.length)
    (hlen : nuevos.length = faltan ps viejos) (hlt : ∀ b ∈ viejos ++ nuevos, b < 2 ^ 32) :
    Escribible cant (conRaiz inodo k viejos nuevos) P (escrituras viejos nuevos ps) := by
  unfold faltan at hlen
  have hn : nuevos ≠ [] := by
    rw [← List.length_pos_iff]
    omega
  have hcad : Cadena (conRotulos P (nuevos.length - 1) nuevos.dropLast) nuevos :=
    cadena_nuevos nuevos P
  have hPQ := le_conRotulos nuevos.dropLast (nuevos.length - 1) P
  have htoda := cadena_viejos hn hcad hPQ viejos ps.length (by omega) hv
  rw [escrituras]
  refine escribible_inicializar nuevos.dropLast (nuevos.length - 1) P (by simp) ?_
  refine escribible_enlaces (raices_conRaiz hr hPQ hc hcad ?_) _ _ (htoda.drop _) ?_ ?_
  · intro hnil
    rw [hnil, List.length_nil] at hlen
    omega
  · intro pos hpos
    exact hc.digito pos (List.mem_of_mem_drop hpos)
  · intro b hb
    exact hlt b (List.mem_of_mem_drop hb)

end Camino

/-! ## The invariant -/

/-- Blocks a worker has taken and not yet labelled. -/
def frescos : FaseAsignar → List Nat
  | .fuera => []
  | .pidiendo _ _ _ nuevos => nuevos
  | .escribiendo l => l.filterMap fun a =>
      match a with
      | .inicializar b => some b
      | _ => none

/-- Blocks a worker has still to take after its test. -/
def debe : FaseAsignar → Nat
  | .pidiendo _ ps viejos nuevos => faltan ps viejos - nuevos.length
  | _ => 0

/-- What the workers past their test have still to take. -/
def Taller.pendiente (s : Taller) : Nat := ∑ t ∈ Finset.range s.cant, debe (s.hilos t).fase

/-- A worker that can go on: its pending writes keep the labels. -/
def ListoHilo (cant : Nat) (P : Nat → Nat → Prop) (h : HiloAsignar) : Prop :=
  match h.fase with
  | .fuera => Raices P h.inodo
  | .pidiendo k ps viejos nuevos =>
      CaminoBien cant k ps ∧ viejos.length ≤ ps.length ∧ nuevos.length < faltan ps viejos ∧
        ViejosBien P ps.length viejos ∧
        ∃ inodo, Raices P inodo ∧
          h.inodo = if nuevos = [] then inodo else conRaiz inodo k viejos nuevos
  | .escribiendo l => Escribible cant h.inodo P l

/-- The invariant of the workers, with the labels of the pointer blocks. -/
structure Sano (fijo : Nat → Prop) (P : Nat → Nat → Prop) (s : Taller) : Prop where
  geometria : Geometria fijo s.fs
  cuentas : Cuentas s.fs
  fijos : ∀ b, s.fs.sb.enVolumen b → fijo b → s.fs.bitBloque b = true
  rotulado : Rotulado fijo s.fs P
  listo : ∀ t, t < s.cant → ListoHilo s.fs.sb.cantPunteros P (s.hilos t)
  fresco : ∀ t, t < s.cant → ∀ b ∈ frescos (s.hilos t).fase,
    Dato fijo s.fs b ∧ s.fs.bitBloque b = true ∧ ∀ L, ¬ P L b
  unaVez : ∀ t, t < s.cant → (frescos (s.hilos t).fase).Nodup
  ajenos : ∀ t u, t < s.cant → u < s.cant → t ≠ u →
    ∀ b ∈ frescos (s.hilos t).fase, b ∉ frescos (s.hilos u).fase
  reserva : s.pendiente ≤ s.fs.sb.sFreeBlocksCount

/-- A change of the image under the workers: the tables stay, no mark goes, and
    the labels grow to `P'`. -/
structure Avance (fijo : Nat → Prop) (P P' : Nat → Nat → Prop) (fs fs' : Ext2) : Prop where
  mismo : Mismo fs fs'
  cuentas : Cuentas fs'
  marcas : ∀ b, fs.sb.enVolumen b → fs.bitBloque b = true → fs'.bitBloque b = true
  rotulado : Rotulado fijo fs' P'
  crece : ∀ L b, P L b → P' L b

/-- A worker that is ready stays so under more labels. -/
theorem ListoHilo.mono {cant : Nat} {P Q : Nat → Nat → Prop} {h : HiloAsignar}
    (hl : ListoHilo cant P h) (hPQ : ∀ L c, P L c → Q L c) : ListoHilo cant Q h := by
  unfold ListoHilo at hl ⊢
  cases hf : h.fase with
  | fuera =>
      rw [hf] at hl
      exact Raices.mono hl hPQ
  | pidiendo k ps viejos nuevos =>
      rw [hf] at hl
      obtain ⟨hc, h1, h2, hv, inodo, hr, hi⟩ := hl
      exact ⟨hc, h1, h2, hv.mono hPQ, inodo, hr.mono hPQ, hi⟩
  | escribiendo l =>
      rw [hf] at hl
      exact Escribible.mono l hl hPQ

section Pasos

variable {fijo : Nat → Prop} {P P' : Nat → Nat → Prop} {s : Taller} {fs' : Ext2} {t : Nat}
  {h' : HiloAsignar}

theorem Mismo.cantPunteros {fs fs' : Ext2} (h : Mismo fs fs') :
    fs'.sb.cantPunteros = fs.sb.cantPunteros := by
  unfold Superblock.cantPunteros
  rw [h.blockSize]

/-- Which blocks may be written depends on the layout. -/
theorem Mismo.dato {fs fs' : Ext2} (h : Mismo fs fs') (b : Nat) :
    Dato fijo fs' b ↔ Dato fijo fs b := by
  unfold Dato
  rw [h.enVolumen]

/-- What is owed after worker `t` moves. -/
theorem pendiente_con (fs' : Ext2) (h' : HiloAsignar) (ht : t < s.cant) :
    (s.con fs' t h').pendiente + debe (s.hilos t).fase = s.pendiente + debe h'.fase := by
  have hotros : ∀ u, u ≠ t → debe ((s.con fs' t h').hilos u).fase = debe (s.hilos u).fase := by
    intro u hu
    rw [con_otro s fs' h' hu]
  have hsum := sum_un_cambio ht hotros
  rw [con_mismo] at hsum
  exact hsum

/-- One worker moves, the others look on. -/
theorem Sano.con (hs : Sano fijo P s) (ht : t < s.cant) (hA : Avance fijo P P' s.fs fs')
    (hlisto : ListoHilo s.fs.sb.cantPunteros P' h')
    (hfresco : ∀ b ∈ frescos h'.fase, Dato fijo s.fs b ∧ fs'.bitBloque b = true ∧ ∀ L, ¬ P' L b)
    (hunaVez : (frescos h'.fase).Nodup)
    (hajeno : ∀ u, u < s.cant → u ≠ t → ∀ b ∈ frescos h'.fase, b ∉ frescos (s.hilos u).fase)
    (hotros : ∀ u, u < s.cant → u ≠ t → ∀ b ∈ frescos (s.hilos u).fase, ∀ L, ¬ P' L b)
    (hres : s.pendiente + debe h'.fase ≤ fs'.sb.sFreeBlocksCount + debe (s.hilos t).fase) :
    Sano fijo P' (s.con fs' t h') := by
  have hm := hA.mismo
  constructor
  · exact hm.geometria hs.geometria
  · exact hA.cuentas
  · intro b hb hf
    rw [con_fs, hm.enVolumen] at hb
    exact hA.marcas b hb (hs.fijos b hb hf)
  · exact hA.rotulado
  · intro u hu
    rw [con_fs, hm.cantPunteros]
    by_cases hut : u = t
    · rw [hut, con_mismo]
      exact hlisto
    · rw [con_otro s fs' h' hut]
      exact (hs.listo u hu).mono hA.crece
  · intro u hu b hb
    rw [con_fs, hm.dato]
    by_cases hut : u = t
    · rw [hut, con_mismo] at hb
      exact hfresco b hb
    · rw [con_otro s fs' h' hut] at hb
      obtain ⟨hd, hbit, -⟩ := hs.fresco u hu b hb
      exact ⟨hd, hA.marcas b hd.1 hbit, hotros u hu hut b hb⟩
  · intro u hu
    by_cases hut : u = t
    · rw [hut, con_mismo]
      exact hunaVez
    · rw [con_otro s fs' h' hut]
      exact hs.unaVez u hu
  · intro u v hu hv huv b hb
    by_cases hut : u = t
    · rw [hut, con_mismo] at hb
      rw [con_otro s fs' h' fun hvt => huv (hut.trans hvt.symm)]
      exact hajeno v hv (fun hvt => huv (hut.trans hvt.symm)) b hb
    · rw [con_otro s fs' h' hut] at hb
      by_cases hvt : v = t
      · rw [hvt, con_mismo]
        intro hb'
        exact hajeno u hu hut b hb' hb
      · rw [con_otro s fs' h' hvt]
        exact hs.ajenos u v hu hv huv b hb
  · have := pendiente_con fs' h' ht
    rw [con_fs]
    omega

/-- Nothing happens. -/
theorem Avance.igual (hs : Sano fijo P s) : Avance fijo P P s.fs s.fs :=
  ⟨Mismo.refl s.fs, hs.cuentas, fun _ _ h => h, hs.rotulado, fun _ _ h => h⟩

/-- The test of a call. -/
theorem Sano.probar {n : Nat} (hs : Sano fijo P s) (ht : t < s.cant)
    (hf : (s.hilos t).fase = .fuera)
    (hcabe : ∀ c, caminoBloque s.fs.sb n = some c →
      faltan c.2 (punterosViejos s.fs (s.hilos t).inodo c.1 c.2) ≤ s.fs.sb.sFreeBlocksCount →
      s.pendiente + faltan c.2 (punterosViejos s.fs (s.hilos t).inodo c.1 c.2)
        ≤ s.fs.sb.sFreeBlocksCount) :
    Sano fijo P (s.con s.fs t (probarHilo s.fs (s.hilos t) n)) := by
  cases hc : caminoBloque s.fs.sb n with
  | none =>
      rw [probarHilo, hc, Option.elim_none, con_igual]
      exact hs
  | some c =>
      rw [probarHilo, hc, Option.elim_some]
      by_cases hlleno : s.fs.sb.sFreeBlocksCount <
          faltan c.2 (punterosViejos s.fs (s.hilos t).inodo c.1 c.2)
      · rw [if_pos hlleno, con_igual]
        exact hs
      · rw [if_neg hlleno]
        have hraices : Raices P (s.hilos t).inodo := by
          have := hs.listo t ht
          rwa [ListoHilo, hf] at this
        have hcam := caminoBloque_bien hc
        have hvl := length_punterosViejos s.fs (s.hilos t).inodo c.1 c.2
        refine hs.con ht (Avance.igual hs) ?_ (fun b hb => absurd hb List.not_mem_nil)
          List.nodup_nil (fun u _ _ b hb => absurd hb List.not_mem_nil) ?_ ?_
        · exact ⟨hcam, hvl, faltan_pos hvl, hs.rotulado.punterosViejos hraices hcam,
            (s.hilos t).inodo, hraices, rfl⟩
        · intro u hu _ b hb
          exact (hs.fresco u hu b hb).2.2
        · have := hcabe c hc (by omega)
          rw [hf]
          exact this

/-- Taking a block keeps the labels. -/
theorem Avance.marca {b : Nat} (hs : Sano fijo P s) (hm : Marca s.fs fs' b true)
    (hC : Cuentas fs') : Avance fijo P P s.fs fs' := by
  refine ⟨hm.mismo, hC, ?_, ?_, fun _ _ h => h⟩
  · intro c hc hbit
    rw [hm.bit c hc]
    split
    · rfl
    · exact hbit
  · constructor
    · intro L c hP
      obtain ⟨hd, hbit⟩ := hs.rotulado.dato L c hP
      refine ⟨(hm.mismo.dato c).mpr hd, ?_⟩
      rw [hm.bit c hd.1, hbit, ite_self]
    · exact hs.rotulado.unico
    · intro L c pos hP hL hpos hne
      rw [hm.mismo.cantPunteros] at hpos
      rw [hm.buscarBloque hs.geometria (hs.rotulado.dato _ _ hP).1 hpos] at hne ⊢
      exact hs.rotulado.hijo L c pos hP hL hpos hne

/-- The inode of a worker after one block more. -/
theorem conRaiz_append {inodo : Inode} {k b : Nat} {viejos nuevos : List Nat} :
    (if viejos = [] ∧ nuevos = [] then
        (if nuevos = [] then inodo else conRaiz inodo k viejos nuevos).conBloque k b
      else if nuevos = [] then inodo else conRaiz inodo k viejos nuevos) =
      conRaiz inodo k viejos (nuevos ++ [b]) := by
  unfold conRaiz
  cases nuevos with
  | nil => by_cases hv : viejos = [] <;> simp [hv]
  | cons n ns => by_cases hv : viejos = [] <;> simp [hv]

/-- With something owed there is a free block. -/
theorem Sano.hay (hs : Sano fijo P s) (ht : t < s.cant) (hd : 0 < debe (s.hilos t).fase) :
    0 < s.fs.sb.sFreeBlocksCount := by
  have h1 : debe (s.hilos t).fase ≤ s.pendiente :=
    Finset.single_le_sum (f := fun u => debe (s.hilos u).fase) (fun _ _ => Nat.zero_le _)
      (Finset.mem_range.mpr ht)
  have h2 := hs.reserva
  omega

/-- A worker past its test has blocks to take. -/
theorem Sano.debe_pos {k : Nat} {ps viejos nuevos : List Nat} (hs : Sano fijo P s)
    (ht : t < s.cant) (hf : (s.hilos t).fase = .pidiendo k ps viejos nuevos) :
    0 < debe (s.hilos t).fase := by
  have hlisto := hs.listo t ht
  rw [ListoHilo, hf] at hlisto
  obtain ⟨-, -, hlt, -⟩ := hlisto
  rw [hf]
  exact Nat.sub_pos_of_lt hlt

/-- A worker that writes has linked all it took but the last one. -/
theorem frescos_escrituras (viejos nuevos ps : List Nat) :
    frescos (.escribiendo (escrituras viejos nuevos ps)) = nuevos.dropLast := by
  have henl : ∀ (ps bs : List Nat), (enlaces bs ps).filterMap (fun a =>
      match a with
      | .inicializar b => some b
      | _ => none) = [] := by
    intro ps
    induction ps with
    | nil =>
        intro bs
        match bs with
        | [] => rfl
        | [_] => rfl
        | _ :: _ :: _ => rfl
    | cons pos ps ih =>
        intro bs
        match bs with
        | [] => rfl
        | [_] => rfl
        | _ :: b' :: bs => exact ih (b' :: bs)
  rw [frescos, escrituras, List.filterMap_append, henl, List.append_nil, List.filterMap_map]
  exact List.filterMap_some

/-- A block with its bit clear is nobody's. -/
theorem Sano.libre {b : Nat} (hs : Sano fijo P s) (hvol : s.fs.sb.enVolumen b)
    (hlibre : s.fs.bitBloque b = false) :
    Dato fijo s.fs b ∧ (∀ L, ¬ P L b) ∧ ∀ u, u < s.cant → b ∉ frescos (s.hilos u).fase := by
  have hno : s.fs.bitBloque b ≠ true := by
    rw [hlibre]
    exact Bool.false_ne_true
  refine ⟨⟨hvol, fun hf => hno (hs.fijos b hvol hf)⟩, ?_, ?_⟩
  · intro L hP
    exact hno (hs.rotulado.dato L b hP).2
  · intro u hu hb
    exact hno (hs.fresco u hu b hb).2.1

/-- One block more for a worker past its test. -/
theorem Sano.pedir {k b : Nat} {ps viejos nuevos : List Nat} (hs : Sano fijo P s)
    (ht : t < s.cant) (hf : (s.hilos t).fase = .pidiendo k ps viejos nuevos)
    (hvol : s.fs.sb.enVolumen b) (hlibre : s.fs.bitBloque b = false)
    (hm : Marca s.fs fs' b true) (hC : Cuentas fs')
    (hn : fs'.sb.sFreeBlocksCount + 1 = s.fs.sb.sFreeBlocksCount) :
    Sano fijo P (s.con fs' t (pedirHilo (s.hilos t) k ps viejos nuevos b)) := by
  have hA := Avance.marca hs hm hC
  obtain ⟨hdato, hsin, hnadie⟩ := hs.libre hvol hlibre
  have hlisto := hs.listo t ht
  rw [ListoHilo, hf] at hlisto
  obtain ⟨hcam, hvl, hlt, hv, inodo, hr, hi⟩ := hlisto
  -- what the worker holds, with the new block
  have hfrescos : ∀ c ∈ nuevos ++ [b],
      Dato fijo s.fs c ∧ fs'.bitBloque c = true ∧ ∀ L, ¬ P L c := by
    intro c hc
    rcases List.mem_append.mp hc with hc | hc
    · obtain ⟨hd, hbit, hno⟩ := hs.fresco t ht c (by rw [hf]; exact hc)
      exact ⟨hd, hA.marcas c hd.1 hbit, hno⟩
    · obtain rfl := List.mem_singleton.mp hc
      refine ⟨hdato, ?_, hsin⟩
      rw [hm.bit c hvol, if_pos rfl]
  have hunaVez : (nuevos ++ [b]).Nodup := by
    have hnod := hs.unaVez t ht
    have hb := hnadie t ht
    rw [hf] at hnod hb
    rw [← List.concat_eq_append]
    exact hnod.concat hb
  have hajeno : ∀ u, u < s.cant → u ≠ t → ∀ c ∈ nuevos ++ [b],
      c ∉ frescos (s.hilos u).fase := by
    intro u hu hut c hc
    rcases List.mem_append.mp hc with hc | hc
    · exact hs.ajenos t u ht hu (fun h => hut h.symm) c (by rw [hf]; exact hc)
    · obtain rfl := List.mem_singleton.mp hc
      exact hnadie u hu
  have hotros : ∀ u, u < s.cant → u ≠ t → ∀ c ∈ frescos (s.hilos u).fase, ∀ L, ¬ P L c := by
    intro u hu _ c hc
    exact (hs.fresco u hu c hc).2.2
  have hres := hs.reserva
  have hlen : (nuevos ++ [b]).length = nuevos.length + 1 := by
    rw [List.length_append, List.length_singleton]
  by_cases hfin : nuevos.length + 1 = faltan ps viejos
  · rw [pedirHilo_ultimo hfin, hi, conRaiz_append]
    have hsub : nuevos ++ [b] |>.dropLast.Sublist (nuevos ++ [b]) := List.dropLast_sublist _
    refine hs.con ht hA ?_ ?_ ?_ ?_ hotros ?_
    · refine escribible_escrituras hr hcam hv hvl (hlen.trans hfin) ?_
      intro c hc
      have hd : Dato fijo s.fs c := by
        rcases List.mem_append.mp hc with hc | hc
        · exact hv.dato hs.rotulado _ _ c hc
        · exact (hfrescos c hc).1
      exact lt_trans hd.1.2 hs.geometria.bloques_lt
    · rw [frescos_escrituras]
      exact fun c hc => hfrescos c (hsub.subset hc)
    · rw [frescos_escrituras]
      exact hunaVez.sublist hsub
    · rw [frescos_escrituras]
      exact fun u hu hut c hc => hajeno u hu hut c (hsub.subset hc)
    · rw [hf]
      show s.pendiente + 0 ≤ fs'.sb.sFreeBlocksCount + (faltan ps viejos - nuevos.length)
      omega
  · rw [pedirHilo_sigue hfin, hi, conRaiz_append]
    refine hs.con ht hA ?_ hfrescos hunaVez hajeno hotros ?_
    · refine ⟨hcam, hvl, ?_, hv, inodo, hr, ?_⟩
      · rw [hlen]
        omega
      · exact (if_neg (List.append_ne_nil_of_right_ne_nil _ (List.cons_ne_nil _ _))).symm
    · rw [hf]
      show s.pendiente + (faltan ps viejos - (nuevos ++ [b]).length) ≤
        fs'.sb.sFreeBlocksCount + (faltan ps viejos - nuevos.length)
      rw [hlen]
      omega

/-- A pointer written from a labelled block one level down keeps the labels. -/
theorem Avance.puntero {b pos v L : Nat} (hs : Sano fijo P s) (hb : P (L + 1) b)
    (hv : 1 ≤ L → P L v) (hpos : pos < s.fs.sb.cantPunteros) (hlt : v < 2 ^ 32) :
    Avance fijo P P s.fs (escribirPtroBloq s.fs b pos v) := by
  have hG := hs.geometria
  have hdb := (hs.rotulado.dato _ _ hb).1
  have hsolo : SoloBloque s.fs (escribirPtroBloq s.fs b pos v) b :=
    soloBloque_escribirPtroBloq hG hdb.1 hpos
  refine ⟨hsolo.mismo, hsolo.cuentas hG (hG.noBitmap hdb.2) hs.cuentas, ?_, ?_, fun _ _ h => h⟩
  · intro c hc hbit
    rw [hsolo.bitBloque hG (hG.noBitmap hdb.2) hc]
    exact hbit
  · constructor
    · intro L' c hP
      obtain ⟨hd, hbit⟩ := hs.rotulado.dato L' c hP
      refine ⟨(hsolo.mismo.dato c).mpr hd, ?_⟩
      rw [hsolo.bitBloque hG (hG.noBitmap hdb.2) hd.1]
      exact hbit
    · exact hs.rotulado.unico
    · intro L' c q hP hL' hq hne
      rw [hsolo.mismo.cantPunteros] at hq
      have hdc := (hs.rotulado.dato _ _ hP).1
      rw [buscarBloque_escribirPtroBloq hG hdb.1 hpos hlt hdc.1 hq] at hne ⊢
      split
      · rename_i heq
        obtain ⟨rfl, rfl⟩ := heq
        have hLL : L' + 1 = L + 1 := hs.rotulado.unico _ _ _ hP hb
        obtain rfl : L' = L := by omega
        exact hv hL'
      · rename_i heq
        rw [if_neg heq] at hne
        exact hs.rotulado.hijo L' c q hP hL' hq hne

/-- A new pointer block gets its label when it is cleared. -/
theorem Avance.inicializar {b L : Nat} (hs : Sano fijo P s) (hd : Dato fijo s.fs b)
    (hbit : s.fs.bitBloque b = true) (hsin : ∀ L, ¬ P L b) :
    Avance fijo P (conRotulo P L b) s.fs (inicializarBloqdePtros s.fs b) := by
  have hG := hs.geometria
  have hsolo : SoloBloque s.fs (inicializarBloqdePtros s.fs b) b := soloBloque_inicializar hG hd.1
  refine ⟨hsolo.mismo, hsolo.cuentas hG (hG.noBitmap hd.2) hs.cuentas, ?_, ?_, fun _ _ h => .inl h⟩
  · intro c hc hbc
    rw [hsolo.bitBloque hG (hG.noBitmap hd.2) hc]
    exact hbc
  · constructor
    · intro L' c hP
      have hdc : Dato fijo s.fs c ∧ s.fs.bitBloque c = true := by
        rcases hP with hP | ⟨-, rfl⟩
        · exact hs.rotulado.dato L' c hP
        · exact ⟨hd, hbit⟩
      refine ⟨(hsolo.mismo.dato c).mpr hdc.1, ?_⟩
      rw [hsolo.bitBloque hG (hG.noBitmap hd.2) hdc.1.1]
      exact hdc.2
    · rintro L₁ L₂ c (h₁ | ⟨rfl, rfl⟩) (h₂ | ⟨rfl, h₂⟩)
      · exact hs.rotulado.unico _ _ _ h₁ h₂
      · rw [h₂] at h₁
        exact absurd h₁ (hsin _)
      · exact absurd h₂ (hsin _)
      · rfl
    · intro L' c q hP hL' hq hne
      rw [hsolo.mismo.cantPunteros] at hq
      rcases hP with hP | ⟨-, rfl⟩
      · have hdc := (hs.rotulado.dato _ _ hP).1
        have hcb : c ≠ b := by
          rintro rfl
          exact hsin _ hP
        rw [buscarBloque_inicializar hG hd.1 hdc.1 hq, if_neg hcb] at hne ⊢
        exact .inl (hs.rotulado.hijo L' c q hP hL' hq hne)
      · rw [buscarBloque_inicializar hG hd.1 hd.1 hq, if_pos rfl] at hne
        exact absurd rfl hne

/-- The last write done, the call returns. -/
theorem Sano.terminar (hs : Sano fijo P s) (ht : t < s.cant)
    (hf : (s.hilos t).fase = .escribiendo []) :
    Sano fijo P (s.con s.fs t ⟨(s.hilos t).inodo, .fuera⟩) := by
  have hlisto := hs.listo t ht
  rw [ListoHilo, hf] at hlisto
  refine hs.con ht (Avance.igual hs) hlisto (fun b hb => absurd hb List.not_mem_nil)
    List.nodup_nil (fun u _ _ b hb => absurd hb List.not_mem_nil) ?_ ?_
  · intro u hu _ b hb
    exact (hs.fresco u hu b hb).2.2
  · rw [hf]
    exact hs.reserva

/-- One pending write. -/
theorem Sano.escribir {a : Acceso} {resto : List Acceso} (hs : Sano fijo P s) (ht : t < s.cant)
    (hf : (s.hilos t).fase = .escribiendo (a :: resto)) :
    ∃ P', Sano fijo P' (s.con (a.aplicar s.fs) t ⟨(s.hilos t).inodo, .escribiendo resto⟩) := by
  have hlisto := hs.listo t ht
  have hfresco := hs.fresco t ht
  have hunaVez := hs.unaVez t ht
  have hajeno : ∀ u, u < s.cant → u ≠ t → _ := fun u hu hut =>
    hs.ajenos t u ht hu fun h => hut h.symm
  rw [hf] at hfresco hunaVez hajeno
  rw [ListoHilo, hf] at hlisto
  cases a with
  | liberar b => exact hlisto.elim
  | puntero b pos v =>
      obtain ⟨⟨L, hb, hv⟩, hpos, hlt, hresto⟩ := hlisto
      refine ⟨P, hs.con ht (Avance.puntero hs hb hv hpos hlt) hresto ?_ hunaVez hajeno ?_ ?_⟩
      · intro c hc
        obtain ⟨hd, hbit, hsin⟩ := hfresco c hc
        exact ⟨hd, (Avance.puntero hs hb hv hpos hlt).marcas c hd.1 hbit, hsin⟩
      · intro u hu _ c hc
        exact (hs.fresco u hu c hc).2.2
      · rw [hf]
        exact hs.reserva
  | inicializar b =>
      obtain ⟨L, hL, hresto⟩ := hlisto
      have hcons : frescos (.escribiendo (.inicializar b :: resto)) =
          b :: frescos (.escribiendo resto) := rfl
      rw [hcons] at hfresco hunaVez hajeno
      obtain ⟨hd, hbit, hsin⟩ := hfresco b List.mem_cons_self
      have hA : Avance fijo P (conRotulo P L b) s.fs (inicializarBloqdePtros s.fs b) :=
        Avance.inicializar hs hd hbit hsin
      obtain ⟨hb, hnod⟩ := List.nodup_cons.mp hunaVez
      refine ⟨conRotulo P L b, hs.con ht hA hresto ?_ hnod ?_ ?_ ?_⟩
      · intro c hc
        obtain ⟨hdc, hbc, hsinc⟩ := hfresco c (List.mem_cons_of_mem _ hc)
        refine ⟨hdc, hA.marcas c hdc.1 hbc, ?_⟩
        rintro L' (hP | ⟨-, rfl⟩)
        · exact hsinc L' hP
        · exact hb hc
      · intro u hu hut c hc
        exact hajeno u hu hut c (List.mem_cons_of_mem _ hc)
      · rintro u hu hut c hc L' (hP | ⟨-, rfl⟩)
        · exact (hs.fresco u hu c hc).2.2 L' hP
        · exact hajeno u hu hut c List.mem_cons_self hc
      · rw [hf]
        exact hs.reserva

end Pasos

end Rfs
