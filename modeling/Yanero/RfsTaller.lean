import Yanero.RfsCamino
import Yanero.Corridas
import Mathlib.Logic.Function.Basic

/-! # Several workers inside `Inode_asignarBloque`

    The workers of the server grow their files at the same time.  Inside one
    call the steps are: the walk down the path with the test of
    `s_free_blocks_count`, each `Grupos_pedirBloqueLibre` (one section under
    `mt_buscarBloque`), and each write to the image.  Between two of them any
    other worker may run.

    `pasoAsignar` is one such step.  A worker that runs alone does what
    `asignarBloque` says (`corrida_sola`), so the machine and the sequential
    function are the same code. -/

namespace Rfs

open Corridas

/-- Where a worker is inside a call: outside, taking the blocks its path
    lacks, or doing the writes that link them. -/
inductive FaseAsignar where
  | fuera
  | pidiendo (k : Nat) (ps viejos nuevos : List Nat)
  | escribiendo (pendientes : List Acceso)
  deriving DecidableEq, Repr

/-- A worker: its inode, in memory, and where it is. -/
structure HiloAsignar where
  inodo : Inode
  fase : FaseAsignar := .fuera

/-- The image and the workers on it. -/
structure Taller where
  fs : Ext2
  cant : Nat
  hilos : Nat → HiloAsignar

/-- The image and worker `t` after one of its steps. -/
def Taller.con (s : Taller) (fs : Ext2) (t : Nat) (h : HiloAsignar) : Taller :=
  ⟨fs, s.cant, Function.update s.hilos t h⟩

/-- The next step of worker `t`. -/
inductive AccionAsignar where
  | probar (t nroBloque : Nat)
  | pedir (t : Nat)
  | escribir (t : Nat)
  deriving DecidableEq, Repr

/-- The walk and the test of the free counter.  An index past the three levels
    and a full disk both return at once. -/
def probarHilo (fs : Ext2) (h : HiloAsignar) (nroBloque : Nat) : HiloAsignar :=
  (caminoBloque fs.sb nroBloque).elim h fun c =>
    let viejos := punterosViejos fs h.inodo c.1 c.2
    if fs.sb.sFreeBlocksCount < faltan c.2 viejos then h
    else { h with fase := .pidiendo c.1 c.2 viejos [] }

/-- One block more: the first one is the root when the path had none. -/
def pedirHilo (h : HiloAsignar) (k : Nat) (ps viejos nuevos : List Nat) (bloque : Nat) :
    HiloAsignar :=
  let nuevos' := nuevos ++ [bloque]
  { inodo := if viejos = [] ∧ nuevos = [] then h.inodo.conBloque k bloque else h.inodo
    fase :=
      if nuevos'.length = faltan ps viejos then .escribiendo (escrituras viejos nuevos' ps)
      else .pidiendo k ps viejos nuevos' }

/-- One step of one worker; `none` when it is not where the step starts. -/
def pasoAsignar : AccionAsignar → Taller → Option Taller
  | .probar t nroBloque, s =>
      if t < s.cant then
        match (s.hilos t).fase with
        | .fuera => some (s.con s.fs t (probarHilo s.fs (s.hilos t) nroBloque))
        | _ => none
      else none
  | .pedir t, s =>
      if t < s.cant then
        match (s.hilos t).fase with
        | .pidiendo k ps viejos nuevos =>
            let pedido := pedirBloqueLibre s.fs
            some (s.con pedido.1 t (pedirHilo (s.hilos t) k ps viejos nuevos pedido.2))
        | _ => none
      else none
  | .escribir t, s =>
      if t < s.cant then
        match (s.hilos t).fase with
        | .escribiendo [] => some (s.con s.fs t ⟨(s.hilos t).inodo, .fuera⟩)
        | .escribiendo (a :: resto) =>
            some (s.con (a.aplicar s.fs) t ⟨(s.hilos t).inodo, .escribiendo resto⟩)
        | _ => none
      else none

@[simp] theorem con_fs (s : Taller) (fs : Ext2) (t : Nat) (h : HiloAsignar) :
    (s.con fs t h).fs = fs := rfl

@[simp] theorem con_cant (s : Taller) (fs : Ext2) (t : Nat) (h : HiloAsignar) :
    (s.con fs t h).cant = s.cant := rfl

/-- The worker that moved. -/
theorem con_mismo (s : Taller) (fs : Ext2) (t : Nat) (h : HiloAsignar) :
    (s.con fs t h).hilos t = h := by
  show Function.update s.hilos t h t = h
  rw [Function.update_self]

/-- Every other worker is where it was. -/
theorem con_otro (s : Taller) (fs : Ext2) {t u : Nat} (h : HiloAsignar) (hu : u ≠ t) :
    (s.con fs t h).hilos u = s.hilos u := by
  show Function.update s.hilos t h u = s.hilos u
  rw [Function.update_of_ne hu]

/-- Of two moves of one worker the last one counts. -/
theorem con_con (s : Taller) (fs fs' : Ext2) (t : Nat) (h h' : HiloAsignar) :
    (s.con fs t h).con fs' t h' = s.con fs' t h' := by
  simp only [Taller.con, Function.update_idem]

/-- A worker that stays. -/
theorem con_igual (s : Taller) (t : Nat) : s.con s.fs t (s.hilos t) = s := by
  simp only [Taller.con, Function.update_eq_self]

/-- What each kind of step does, guards included. -/
theorem pasoAsignar_casos {a : AccionAsignar} {s s' : Taller} (h : pasoAsignar a s = some s') :
    (∃ t n, a = .probar t n ∧ t < s.cant ∧ (s.hilos t).fase = .fuera ∧
      s' = s.con s.fs t (probarHilo s.fs (s.hilos t) n)) ∨
    (∃ t k ps viejos nuevos, a = .pedir t ∧ t < s.cant ∧
      (s.hilos t).fase = .pidiendo k ps viejos nuevos ∧
      s' = s.con (pedirBloqueLibre s.fs).1 t
        (pedirHilo (s.hilos t) k ps viejos nuevos (pedirBloqueLibre s.fs).2)) ∨
    (∃ t, a = .escribir t ∧ t < s.cant ∧ (s.hilos t).fase = .escribiendo [] ∧
      s' = s.con s.fs t ⟨(s.hilos t).inodo, .fuera⟩) ∨
    (∃ t acc resto, a = .escribir t ∧ t < s.cant ∧
      (s.hilos t).fase = .escribiendo (acc :: resto) ∧
      s' = s.con (acc.aplicar s.fs) t ⟨(s.hilos t).inodo, .escribiendo resto⟩) := by
  cases a with
  | probar t n =>
      rw [pasoAsignar] at h
      split at h
      · rename_i ht
        split at h
        · rename_i hf
          exact .inl ⟨t, n, rfl, ht, hf, (Option.some.inj h).symm⟩
        · cases h
      · cases h
  | pedir t =>
      rw [pasoAsignar] at h
      split at h
      · rename_i ht
        split at h
        · rename_i k ps viejos nuevos hf
          exact .inr (.inl ⟨t, k, ps, viejos, nuevos, rfl, ht, hf, (Option.some.inj h).symm⟩)
        · cases h
      · cases h
  | escribir t =>
      rw [pasoAsignar] at h
      split at h
      · rename_i ht
        split at h
        · rename_i hf
          exact .inr (.inr (.inl ⟨t, rfl, ht, hf, (Option.some.inj h).symm⟩))
        · rename_i acc resto hf
          exact .inr (.inr (.inr ⟨t, acc, resto, rfl, ht, hf, (Option.some.inj h).symm⟩))
        · cases h
      · cases h

/-- A take that is not the last one. -/
theorem pedirHilo_sigue {h : HiloAsignar} {k b : Nat} {ps viejos nuevos : List Nat}
    (hno : nuevos.length + 1 ≠ faltan ps viejos) :
    pedirHilo h k ps viejos nuevos b =
      ⟨if viejos = [] ∧ nuevos = [] then h.inodo.conBloque k b else h.inodo,
        .pidiendo k ps viejos (nuevos ++ [b])⟩ := by
  have hno' : (nuevos ++ [b]).length ≠ faltan ps viejos := by
    rw [List.length_append, List.length_singleton]
    exact hno
  rw [pedirHilo, if_neg hno']

/-- The last take leads to the writes. -/
theorem pedirHilo_ultimo {h : HiloAsignar} {k b : Nat} {ps viejos nuevos : List Nat}
    (hfin : nuevos.length + 1 = faltan ps viejos) :
    pedirHilo h k ps viejos nuevos b =
      ⟨if viejos = [] ∧ nuevos = [] then h.inodo.conBloque k b else h.inodo,
        .escribiendo (escrituras viejos (nuevos ++ [b]) ps)⟩ := by
  have hfin' : (nuevos ++ [b]).length = faltan ps viejos := by
    rw [List.length_append, List.length_singleton]
    exact hfin
  rw [pedirHilo, if_pos hfin']

/-! ## A worker alone -/

section Solo

variable {s : Taller} {t : Nat} {k : Nat} {ps viejos nuevos : List Nat}

/-- The walk and the test, when the worker is outside. -/
theorem pasoAsignar_probar (nroBloque : Nat) (ht : t < s.cant) (hf : (s.hilos t).fase = .fuera) :
    pasoAsignar (.probar t nroBloque) s =
      some (s.con s.fs t (probarHilo s.fs (s.hilos t) nroBloque)) := by
  rw [pasoAsignar, if_pos ht, hf]

/-- A take, when the worker is past its test. -/
theorem pasoAsignar_pedir (ht : t < s.cant)
    (hf : (s.hilos t).fase = .pidiendo k ps viejos nuevos) :
    pasoAsignar (.pedir t) s = some (s.con (pedirBloqueLibre s.fs).1 t
      (pedirHilo (s.hilos t) k ps viejos nuevos (pedirBloqueLibre s.fs).2)) := by
  rw [pasoAsignar, if_pos ht, hf]

/-- A write, when the worker has one left. -/
theorem pasoAsignar_escribir {a : Acceso} {resto : List Acceso} (ht : t < s.cant)
    (hf : (s.hilos t).fase = .escribiendo (a :: resto)) :
    pasoAsignar (.escribir t) s =
      some (s.con (a.aplicar s.fs) t ⟨(s.hilos t).inodo, .escribiendo resto⟩) := by
  rw [pasoAsignar, if_pos ht, hf]

/-- The call returns when no write is left. -/
theorem pasoAsignar_terminar (ht : t < s.cant) (hf : (s.hilos t).fase = .escribiendo []) :
    pasoAsignar (.escribir t) s = some (s.con s.fs t ⟨(s.hilos t).inodo, .fuera⟩) := by
  rw [pasoAsignar, if_pos ht, hf]

/-- The takes of one call, run without interruption. -/
theorem corrida_pedir :
    ∀ (m : Nat) (s : Taller) (nuevos : List Nat), t < s.cant →
      (s.hilos t).fase = .pidiendo k ps viejos nuevos →
      nuevos.length + (m + 1) = faltan ps viejos →
      corrida pasoAsignar (List.replicate (m + 1) (.pedir t)) s =
        some (s.con (pedirBloques (m + 1) s.fs).1 t
          ⟨if viejos = [] ∧ nuevos = [] then
              (s.hilos t).inodo.conBloque k ((pedirBloques (m + 1) s.fs).2.headD 0)
            else (s.hilos t).inodo,
            .escribiendo (escrituras viejos (nuevos ++ (pedirBloques (m + 1) s.fs).2) ps)⟩) := by
  intro m
  induction m with
  | zero =>
      intro s nuevos ht hf hn
      rw [List.replicate_one, corrida, pasoAsignar_pedir ht hf, pedirHilo_ultimo hn,
        pedirBloques_uno, Option.bind_some, corrida, List.headD_cons]
  | succ m ih =>
      intro s nuevos ht hf hn
      have hno : nuevos.length + 1 ≠ faltan ps viejos := by omega
      have hne : ¬ (viejos = [] ∧ nuevos ++ [(pedirBloqueLibre s.fs).2] = []) := by
        rintro ⟨-, h⟩
        exact List.append_ne_nil_of_right_ne_nil _ (List.cons_ne_nil _ _) h
      have hresto := ih (s.con (pedirBloqueLibre s.fs).1 t
          ⟨if viejos = [] ∧ nuevos = [] then (s.hilos t).inodo.conBloque k (pedirBloqueLibre s.fs).2
            else (s.hilos t).inodo, .pidiendo k ps viejos (nuevos ++ [(pedirBloqueLibre s.fs).2])⟩)
        (nuevos ++ [(pedirBloqueLibre s.fs).2]) ht (by rw [con_mismo])
        (by rw [List.length_append, List.length_singleton]; omega)
      rw [List.replicate_succ, corrida, pasoAsignar_pedir ht hf, pedirHilo_sigue hno,
        Option.bind_some, hresto, if_neg hne, con_mismo, con_con, con_fs,
        pedirBloques_succ (m + 1), List.headD_cons, List.append_assoc, List.singleton_append]

/-- The writes of one call, run without interruption. -/
theorem corrida_escribir :
    ∀ (pendientes : List Acceso) (s : Taller), t < s.cant →
      (s.hilos t).fase = .escribiendo pendientes →
      corrida pasoAsignar (List.replicate (pendientes.length + 1) (.escribir t)) s =
        some (s.con (pendientes.foldl Acceso.aplicar s.fs) t
          ⟨(s.hilos t).inodo, .fuera⟩) := by
  intro pendientes
  induction pendientes with
  | nil =>
      intro s ht hf
      rw [List.length_nil, List.replicate_one, corrida, pasoAsignar_terminar ht hf,
        Option.bind_some, corrida, List.foldl_nil]
  | cons a resto ih =>
      intro s ht hf
      have hresto := ih (s.con (a.aplicar s.fs) t ⟨(s.hilos t).inodo, .escribiendo resto⟩) ht
        (by rw [con_mismo])
      rw [List.length_cons, List.replicate_succ, corrida, pasoAsignar_escribir ht hf,
        Option.bind_some, hresto, con_mismo, con_con, con_fs, List.foldl_cons]

/-- The same from the state the takes leave. -/
theorem corrida_escribir_desde (inodo : Inode) (fs : Ext2) (pendientes : List Acceso)
    (ht : t < s.cant) :
    corrida pasoAsignar (List.replicate (pendientes.length + 1) (.escribir t))
        (s.con fs t ⟨inodo, .escribiendo pendientes⟩) =
      some (s.con (pendientes.foldl Acceso.aplicar fs) t ⟨inodo, .fuera⟩) := by
  have h := corrida_escribir pendientes (s.con fs t ⟨inodo, .escribiendo pendientes⟩) ht
    (by rw [con_mismo])
  rwa [con_mismo, con_con, con_fs] at h

/-- The steps of a call that finds the blocks it needs. -/
def pasosSolos (fs : Ext2) (inodo : Inode) (t nroBloque : Nat) : List AccionAsignar :=
  .probar t nroBloque :: (caminoBloque fs.sb nroBloque).elim [] fun c =>
    let n := faltan c.2 (punterosViejos fs inodo c.1 c.2)
    if fs.sb.sFreeBlocksCount < n then []
    else
      List.replicate n (.pedir t) ++
        List.replicate ((escrituras (punterosViejos fs inodo c.1 c.2) (pedirBloques n fs).2
          c.2).length + 1) (.escribir t)

/-- A path always lacks at least its data block. -/
theorem faltan_pos {ps viejos : List Nat} (h : viejos.length ≤ ps.length) :
    0 < faltan ps viejos := by
  unfold faltan
  omega

/-- Below a pointer block there are fewer pointer blocks than indices. -/
theorem length_punterosBajo (fs : Ext2) :
    ∀ (ps : List Nat) (b : Nat), (punterosBajo fs b ps).length ≤ ps.length - 1 := by
  intro ps
  induction ps with
  | nil =>
      intro b
      exact Nat.le_refl 0
  | cons pos ps ih =>
      intro b
      cases ps with
      | nil => exact Nat.le_refl 0
      | cons pos₂ ps =>
          by_cases hb : buscarBloque fs b pos = 0
          · rw [punterosBajo_cero hb]
            exact Nat.zero_le _
          · rw [punterosBajo_cons hb]
            have := ih (buscarBloque fs b pos)
            simp only [List.length_cons] at this ⊢
            omega

/-- A path has no more pointer blocks than indices. -/
theorem length_punterosViejos (fs : Ext2) (inodo : Inode) (k : Nat) (ps : List Nat) :
    (punterosViejos fs inodo k ps).length ≤ ps.length := by
  unfold punterosViejos
  split
  · exact Nat.zero_le _
  · rename_i hps
    split
    · exact Nat.zero_le _
    · have := length_punterosBajo fs ps (inodo.iBlock k)
      have hpos : 0 < ps.length := List.length_pos_iff.mpr hps
      rw [List.length_cons]
      omega

/-- The sequential call on a disk that is too full. -/
theorem asignarCamino_lleno {fs : Ext2} {inodo : Inode}
    (h : fs.sb.sFreeBlocksCount < faltan ps (punterosViejos fs inodo k ps)) :
    asignarCamino fs inodo k ps = none := by
  rw [asignarCamino, if_pos h]

/-- The sequential call when the counter lets it through. -/
theorem asignarCamino_hay {fs : Ext2} {inodo : Inode}
    (h : ¬ fs.sb.sFreeBlocksCount < faltan ps (punterosViejos fs inodo k ps)) :
    asignarCamino fs inodo k ps =
      some ((escrituras (punterosViejos fs inodo k ps)
          (pedirBloques (faltan ps (punterosViejos fs inodo k ps)) fs).2 ps).foldl Acceso.aplicar
          (pedirBloques (faltan ps (punterosViejos fs inodo k ps)) fs).1,
        conRaiz inodo k (punterosViejos fs inodo k ps)
          (pedirBloques (faltan ps (punterosViejos fs inodo k ps)) fs).2) := by
  rw [asignarCamino, if_neg h]

/-- **A WORKER ALONE** does what `asignarBloque` says. -/
theorem corrida_sola (nroBloque : Nat) (ht : t < s.cant) (hf : (s.hilos t).fase = .fuera) :
    corrida pasoAsignar (pasosSolos s.fs (s.hilos t).inodo t nroBloque) s =
      some ((asignarBloque s.fs nroBloque (s.hilos t).inodo).elim s fun r =>
        s.con r.1 t ⟨r.2, .fuera⟩) := by
  have hyo : s.con s.fs t ⟨(s.hilos t).inodo, .fuera⟩ = s := by
    rw [← hf]
    exact con_igual s t
  rw [pasosSolos, corrida, pasoAsignar_probar nroBloque ht hf, Option.bind_some, asignarBloque_eq,
    probarHilo]
  cases hc : caminoBloque s.fs.sb nroBloque with
  | none => rw [Option.elim_none, Option.elim_none, Option.elim_none, Option.elim_some, corrida,
      con_igual, hyo]
  | some c =>
      rw [Option.elim_some, Option.elim_some, Option.elim_some]
      have hpos := faltan_pos (length_punterosViejos s.fs (s.hilos t).inodo c.1 c.2)
      obtain ⟨m, hm⟩ : ∃ m, faltan c.2 (punterosViejos s.fs (s.hilos t).inodo c.1 c.2) = m + 1 :=
        ⟨_, (Nat.succ_pred_eq_of_pos hpos).symm⟩
      by_cases hlleno : s.fs.sb.sFreeBlocksCount <
          faltan c.2 (punterosViejos s.fs (s.hilos t).inodo c.1 c.2)
      · rw [if_pos hlleno, if_pos hlleno, asignarCamino_lleno hlleno, Option.elim_none, corrida,
          con_igual]
      · have hp := @corrida_pedir t c.1 c.2 (punterosViejos s.fs (s.hilos t).inodo c.1 c.2) m
          (s.con s.fs t ⟨(s.hilos t).inodo,
            .pidiendo c.1 c.2 (punterosViejos s.fs (s.hilos t).inodo c.1 c.2) []⟩) [] ht
          (by rw [con_mismo]) (by rw [List.length_nil, Nat.zero_add]; exact hm.symm)
        rw [con_mismo, con_con, con_fs, List.nil_append, ← hm] at hp
        rw [if_neg hlleno, if_neg hlleno, asignarCamino_hay hlleno, Option.elim_some,
          corrida_append, hp, Option.bind_some]
        have hraiz : ∀ (i : Inode) (v n : List Nat),
            (if v = [] ∧ ([] : List Nat) = [] then i.conBloque c.1 (n.headD 0) else i) =
              conRaiz i c.1 v n := by
          intro i v n
          rw [conRaiz]
          by_cases hv : v = []
          · rw [if_pos ⟨hv, rfl⟩, if_pos hv]
          · rw [if_neg fun h => hv h.1, if_neg hv]
        rw [hraiz, corrida_escribir_desde _ _ _ ht]

end Solo

end Rfs
