import Yanero.Cadenas
import Yanero.RfsTablaProofs
import Yanero.RfsDir

/-! # Following a path

    `Dir_buscarPath` lists every inode on the way, whatever its type.  On the
    directories the walk is the one of the names; the first inode that is not a
    directory has its bytes taken as records, and the walk goes on from what
    they say, if they end.

    `Lista fs x ds` is the listing of an inode as a relation, `Sigue` and
    `Falta` are the two outcomes of one component, and the walk of the code is
    `Anda` or `Perdido` (`buscarDesde_iff`).  It goes right on the paths that look
    no name up in the bytes of anything but a directory (`SoloDirectorios`). -/

namespace Rfs

open Cadenas

/-- The records the loop visits in a block, when it ends. -/
def RegistrosBloque (fs : Ext2) (bloque : Nat) (ds : List Dir) : Prop :=
  ∃ os, Cadena (fun o => u32 (o + (leerDir fs (offsetBloque fs bloque o)).dRecLen))
      fs.sb.blockSize 0 os
    ∧ ds = os.map fun o => leerDir fs (offsetBloque fs bloque o)

/-- The entries that are not deleted, in the blocks of an inode. -/
def Lista (fs : Ext2) (x : Nat) (ds : List Dir) : Prop :=
  ∃ bloques, List.Forall₂ (fun i => RegistrosBloque fs (leerBloque fs i (leerInodo fs x)))
      (List.range (fs.bloquesDe x)) bloques
    ∧ ds = vigentes bloques.flatten

/-- The first entry of the inode with the name leads to `y`. -/
def Sigue (fs : Ext2) (x : Nat) (c : List UInt8) (y : Nat) : Prop :=
  ∃ ds dir, Lista fs x ds ∧ ds.find? (fun dir => dir.nombre == c) = some dir ∧ dir.dInode = y

/-- The inode has no entry with the name. -/
def Falta (fs : Ext2) (x : Nat) (c : List UInt8) : Prop :=
  ∃ ds, Lista fs x ds ∧ ∀ dir ∈ ds, dir.nombre ≠ c

/-- The walk along the names arrives at an inode. -/
inductive Anda (fs : Ext2) : Nat → List (List UInt8) → Nat → Prop
  | fin (x : Nat) : Anda fs x [] x
  | paso {x y z : Nat} {c : List UInt8} {cs : List (List UInt8)} :
      Sigue fs x c y → Anda fs y cs z → Anda fs x (c :: cs) z

/-- The walk along the names ends where one of them is missing. -/
inductive Perdido (fs : Ext2) : Nat → List (List UInt8) → Prop
  | falta {x : Nat} {c : List UInt8} {cs : List (List UInt8)} :
      Falta fs x c → Perdido fs x (c :: cs)
  | paso {x y : Nat} {c : List UInt8} {cs : List (List UInt8)} :
      Sigue fs x c y → Perdido fs y cs → Perdido fs x (c :: cs)

/-- A directory of the volume, by its mode (`S_ISDIR`). -/
def EsDirectorio (fs : Ext2) (x : Nat) : Prop :=
  fs.sb.esInodo x ∧ (leerInodo fs x).iMode / 2 ^ 12 = 4

instance (fs : Ext2) : DecidablePred (EsDirectorio fs) := fun _ =>
  inferInstanceAs (Decidable (_ ∧ _))

/-- The walk along the names goes through directories only. -/
inductive Recto (fs : Ext2) : Nat → List (List UInt8) → Nat → Prop
  | fin (x : Nat) : Recto fs x [] x
  | paso {x y z : Nat} {c : List UInt8} {cs : List (List UInt8)} :
      EsDirectorio fs x → Sigue fs x c y → Recto fs y cs z → Recto fs x (c :: cs) z

/-- From offset `o` of a block on, records of whole words with room for their
    names, up to the end of the block. -/
inductive Registros (fs : Ext2) (bloque : Nat) : Nat → List Dir → Prop
  | fin : Registros fs bloque fs.sb.blockSize []
  | paso {o : Nat} {ds : List Dir} :
      4 ∣ (leerDir fs (offsetBloque fs bloque o)).dRecLen →
      (leerDir fs (offsetBloque fs bloque o)).tamEntrada
        ≤ (leerDir fs (offsetBloque fs bloque o)).dRecLen →
      Registros fs bloque (o + (leerDir fs (offsetBloque fs bloque o)).dRecLen) ds →
      Registros fs bloque o (leerDir fs (offsetBloque fs bloque o) :: ds)

/-- A well-formed directory: whole blocks of well-formed records. -/
structure DirectorioSano (fs : Ext2) (x : Nat) : Prop where
  entero : fs.sb.blockSize ∣ (leerInodo fs x).iSize
  bloques : ∀ i, i < fs.bloquesDe x →
    ∃ ds, Registros fs (leerBloque fs i (leerInodo fs x)) 0 ds

/-- A file system whose directories are well formed, the root being one.  The
    other inodes hold anything. -/
structure Arbol (fs : Ext2) : Prop where
  tamBloque : fs.sb.blockSize < 2 ^ 32
  raiz : EsDirectorio fs inodoRaiz
  directorios : ∀ x, EsDirectorio fs x → DirectorioSano fs x

/-- The lookup ends, and an inode it finds is reached through directories. -/
def LlegaBien (fs : Ext2) (path : List UInt8) : Prop :=
  ∃ z, buscarPath fs path = some z ∧ (z ≠ 0 → Recto fs inodoRaiz (componentes path) z)

/-- Where the names lead through directories and some are left, there is a
    directory, or an inode without blocks. -/
def SoloDirectorios (fs : Ext2) (path : List UInt8) : Prop :=
  ∀ antes c resto x, componentes path = antes ++ c :: resto → Recto fs inodoRaiz antes x →
    EsDirectorio fs x ∨ fs.bloquesDe x = 0

/-- Where the names lead through directories to an inode that is not one, and
    some are left, its bytes read as records lead to a name that is missing. -/
def SinDesvio (fs : Ext2) (path : List UInt8) : Prop :=
  ∀ antes c resto x, componentes path = antes ++ c :: resto → Recto fs inodoRaiz antes x →
    ¬ EsDirectorio fs x → Perdido fs x (c :: resto)

section Path

variable {fs : Ext2} {x y z bloque o : Nat} {c : List UInt8} {cs : List (List UInt8)}
  {ds : List Dir}

/-! ## Listing as a relation -/

/-- The loop over the records of a block is a bounded walk over their offsets. -/
theorem entradasDesde_eq (turnos o : Nat) : entradasDesde fs bloque turnos o
    = (recorrer (fun o => u32 (o + (leerDir fs (offsetBloque fs bloque o)).dRecLen))
        fs.sb.blockSize turnos o).map
      (List.map fun o => leerDir fs (offsetBloque fs bloque o)) := by
  induction turnos generalizing o with
  | zero =>
      rw [entradasDesde, recorrer]
      split <;> rfl
  | succ turnos ih =>
      rw [entradasDesde, recorrer]
      split
      · simp only [ih, Option.map_map]
        rfl
      · rfl

/-- The loop over a block ends exactly when its records lead past the end. -/
theorem entradasBloque_iff : entradasBloque fs bloque = some ds ↔ RegistrosBloque fs bloque ds := by
  rw [entradasBloque, entradasDesde_eq, Option.map_eq_some_iff]
  simp only [recorrer_iff, RegistrosBloque]
  exact exists_congr fun os => and_congr_right fun _ => eq_comm

theorem mapM_iff {α β : Type} {f : α → Option β} {l : List α} {bs : List β} :
    l.mapM f = some bs ↔ List.Forall₂ (fun a b => f a = some b) l bs := by
  induction l generalizing bs with
  | nil => simp [eq_comm]
  | cons a l ih =>
      rw [List.mapM_cons, List.forall₂_cons_left_iff]
      cases ha : f a with
      | none => simp
      | some b =>
          cases hl : l.mapM f with
          | none =>
              simp only [Option.bind_eq_bind, Option.bind_some, Option.bind_none, reduceCtorEq,
                false_iff]
              rintro ⟨b', bs', -, hbs', -⟩
              rw [ih.mpr hbs'] at hl
              cases hl
          | some bs' =>
              simp only [Option.bind_eq_bind, Option.bind_some, Option.pure_def, Option.some.injEq]
              constructor
              · rintro rfl
                exact ⟨b, bs', rfl, ih.mp hl, rfl⟩
              · rintro ⟨b', bs'', rfl, hbs'', rfl⟩
                rw [ih.mpr hbs''] at hl
                rw [Option.some.inj hl]

/-- `listar` answers the records and only them. -/
theorem listar_iff : listar fs x = some ds ↔ Lista fs x ds := by
  simp only [listar, entradasDe, Option.map_map, Option.map_eq_some_iff, mapM_iff,
    entradasBloque_iff, Lista, Function.comp_apply]
  exact exists_congr fun bs => and_congr_right fun _ => eq_comm

/-- The listing never gets past a block that starts with a record of length
    zero. -/
theorem listar_quieta {i : Nat} (hi : i < fs.bloquesDe x)
    (h0 : (leerDir fs (offsetBloque fs (leerBloque fs i (leerInodo fs x)) 0)).dRecLen = 0) :
    listar fs x = none := by
  cases hl : listar fs x with
  | none => rfl
  | some ds =>
      obtain ⟨bloques, hbloques, -⟩ := listar_iff.mp hl
      have hlen := hbloques.length_eq
      rw [List.length_range] at hlen
      obtain ⟨os, hcad, -⟩ := hbloques.get (i := i) (by simpa using hi)
        (by rw [← hlen]; exact hi)
      simp only [List.get_eq_getElem, List.getElem_range] at hcad
      refine absurd hcad (cadena_quieta ?_ (blockSize_pos _))
      rw [h0]
      rfl

/-- A directory has one list of records. -/
theorem Lista.unica {ds' : List Dir} (h : Lista fs x ds) (h' : Lista fs x ds') : ds = ds' :=
  Option.some.inj ((listar_iff.mpr h).symm.trans (listar_iff.mpr h'))

/-- A deleted entry is not found. -/
theorem Sigue.ne_cero (h : Sigue fs x c y) : y ≠ 0 := by
  obtain ⟨ds, dir, ⟨bs, -, rfl⟩, hfind, rfl⟩ := h
  have hmem := (List.mem_filter.mp (List.mem_of_find?_eq_some hfind)).2
  simpa using hmem

/-- A component leads to one inode. -/
theorem Sigue.unico {y' : Nat} (h : Sigue fs x c y) (h' : Sigue fs x c y') : y = y' := by
  obtain ⟨ds, dir, hl, hfind, rfl⟩ := h
  obtain ⟨ds', dir', hl', hfind', rfl⟩ := h'
  rw [hl.unica hl', hfind'] at hfind
  rw [Option.some.inj hfind]

/-- A listing leads on or lacks the name. -/
theorem Lista.casos (h : Lista fs x ds) (c : List UInt8) :
    (∃ y, Sigue fs x c y ∧ buscarNombreEnLista ds c = y)
      ∨ Falta fs x c ∧ buscarNombreEnLista ds c = 0 := by
  unfold buscarNombreEnLista
  cases hf : ds.find? fun dir => dir.nombre == c with
  | some dir => exact .inl ⟨dir.dInode, ⟨ds, dir, h, hf, rfl⟩, rfl⟩
  | none =>
      refine .inr ⟨⟨ds, h, fun dir hdir heq => ?_⟩, rfl⟩
      have := List.find?_eq_none.mp hf dir hdir
      simp [heq] at this

/-! ## The walk -/

/-- A walk that failed stays failed. -/
theorem buscarDesde_cero (fs : Ext2) : buscarDesde fs 0 cs = some 0 := by
  cases cs with
  | nil => rfl
  | cons c cs => rw [buscarDesde, if_pos rfl]

/-- One component of the walk. -/
theorem buscarDesde_paso (hx : x ≠ 0) (hl : Lista fs x ds) :
    buscarDesde fs x (c :: cs) = buscarDesde fs (buscarNombreEnLista ds c) cs := by
  rw [buscarDesde, if_neg hx, listar_iff.mpr hl]
  rfl

/-- A component that is there. -/
theorem Sigue.buscarDesde (hx : x ≠ 0) (h : Sigue fs x c y) :
    Rfs.buscarDesde fs x (c :: cs) = Rfs.buscarDesde fs y cs := by
  obtain ⟨ds, dir, hl, hfind, rfl⟩ := h
  rw [buscarDesde_paso hx hl, buscarNombreEnLista, hfind]
  rfl

/-- A walk that is lost answers 0. -/
theorem Perdido.buscarDesde (h : Perdido fs x cs) (hx : x ≠ 0) :
    Rfs.buscarDesde fs x cs = some 0 := by
  induction h with
  | falta hf =>
      obtain ⟨ds, hl, hno⟩ := hf
      have hfind : ds.find? (fun dir => dir.nombre == _) = none :=
        List.find?_eq_none.mpr fun dir hdir => by simpa using hno dir hdir
      rw [buscarDesde_paso hx hl, buscarNombreEnLista, hfind]
      exact buscarDesde_cero fs
  | paso hs _ ih => rw [hs.buscarDesde hx, ih hs.ne_cero]

/-- What the loop answers: the inode at the end of the walk, or zero where a
    name is missing. -/
theorem buscarDesde_iff (hx : x ≠ 0) : buscarDesde fs x cs = some z
    ↔ z ≠ 0 ∧ Anda fs x cs z ∨ z = 0 ∧ Perdido fs x cs := by
  constructor
  · intro h
    induction cs generalizing x with
    | nil =>
        cases h
        exact .inl ⟨hx, .fin _⟩
    | cons c cs ih =>
        cases hl : listar fs x with
        | none =>
            rw [buscarDesde, if_neg hx, hl] at h
            cases h
        | some ds =>
            have hlista := listar_iff.mp hl
            rw [buscarDesde_paso hx hlista] at h
            rcases hlista.casos c with ⟨y, hs, hy⟩ | ⟨hf, hy⟩
            · rw [hy] at h
              rcases ih hs.ne_cero h with ⟨hz, ha⟩ | ⟨hz, hp⟩
              · exact .inl ⟨hz, .paso hs ha⟩
              · exact .inr ⟨hz, .paso hs hp⟩
            · rw [hy, buscarDesde_cero fs] at h
              exact .inr ⟨(Option.some.inj h).symm, .falta hf⟩
  · rintro (⟨hz, ha⟩ | ⟨rfl, hp⟩)
    · induction ha with
      | fin x => rfl
      | paso hs _ ih => rw [hs.buscarDesde hx, ih hs.ne_cero hz]
    · exact hp.buscarDesde hx

/-- A walk that follows entries goes on from where they lead. -/
theorem Recto.buscarDesde {antes : List (List UInt8)} (h : Recto fs x antes y) (hx : x ≠ 0) :
    y ≠ 0 ∧ ∀ cs, Rfs.buscarDesde fs x (antes ++ cs) = Rfs.buscarDesde fs y cs := by
  induction h with
  | fin x => exact ⟨hx, fun _ => rfl⟩
  | paso _ hs _ ih =>
      obtain ⟨hy, hr⟩ := ih hs.ne_cero
      exact ⟨hy, fun cs => (hs.buscarDesde hx).trans (hr cs)⟩

/-- A walk through directories leaves every inode but the last by a directory. -/
theorem Recto.directorio {antes resto : List (List UInt8)} (h : Recto fs x antes y)
    (h' : Recto fs x (antes ++ c :: resto) z) : EsDirectorio fs y := by
  induction h with
  | fin x =>
      cases h' with
      | paso hd _ _ => exact hd
  | paso _ hs _ ih =>
      cases h' with
      | paso _ hs' h' => exact ih (hs.unico hs' ▸ h')

/-! ## Directories -/

/-- A chain of records ends in its block. -/
theorem Registros.le_blockSize (h : Registros fs bloque o ds) : o ≤ fs.sb.blockSize := by
  induction h with
  | fin => exact Nat.le_refl _
  | paso _ _ _ ih => omega

/-- A chain without records is at the end. -/
theorem Registros.nil (h : Registros fs bloque o []) : o = fs.sb.blockSize := by
  cases h
  rfl

/-- A record takes some bytes. -/
theorem tamEntrada_pos (dir : Dir) : 0 < dir.tamEntrada := by
  unfold Dir.tamEntrada redondear offName
  split <;> omega

/-- Only the end of the block has no record. -/
theorem Registros.unico {ds' : List Dir} (h : Registros fs bloque o ds)
    (h' : Registros fs bloque o ds') : ds = ds' := by
  have hfin : ∀ {o : Nat} {ds : List Dir}, o = fs.sb.blockSize → Registros fs bloque o ds
    → ds = [] := by
    intro o ds ho h
    cases h with
    | fin => rfl
    | paso _ htam hresto =>
        have hle := hresto.le_blockSize
        have hpos := tamEntrada_pos (leerDir fs (offsetBloque fs bloque o))
        omega
  induction h generalizing ds' with
  | fin => exact (hfin rfl h').symm
  | @paso o ds h4 htam hresto ih =>
      cases h' with
      | fin => exact hfin rfl (.paso h4 htam hresto)
      | paso _ _ hresto' => rw [ih hresto']

/-- A record that reaches the end of the block. -/
theorem Registros.ultimo (h4 : 4 ∣ (leerDir fs (offsetBloque fs bloque o)).dRecLen)
    (htam : (leerDir fs (offsetBloque fs bloque o)).tamEntrada
      ≤ (leerDir fs (offsetBloque fs bloque o)).dRecLen)
    (hfin : o + (leerDir fs (offsetBloque fs bloque o)).dRecLen = fs.sb.blockSize) :
    Registros fs bloque o [leerDir fs (offsetBloque fs bloque o)] :=
  .paso h4 htam (by rw [hfin]; exact .fin)

/-- Well-formed records are the ones the loop visits. -/
theorem Registros.cadena (hbs : fs.sb.blockSize < 2 ^ 32) (h : Registros fs bloque o ds) :
    ∃ os, Cadena (fun o => u32 (o + (leerDir fs (offsetBloque fs bloque o)).dRecLen))
        fs.sb.blockSize o os
      ∧ ds = os.map fun o => leerDir fs (offsetBloque fs bloque o) := by
  induction h with
  | fin => exact ⟨[], .fin (Nat.le_refl _), rfl⟩
  | @paso o ds _ htam hresto ih =>
      obtain ⟨os, hc, hds⟩ := ih
      have hle := hresto.le_blockSize
      have hpos := tamEntrada_pos (leerDir fs (offsetBloque fs bloque o))
      refine ⟨o :: os, .paso (by omega) ?_, by rw [hds, List.map_cons]⟩
      rwa [u32_eq (lt_of_le_of_lt hle hbs)]

/-- A well-formed directory has a listing. -/
theorem DirectorioSano.lista (h : DirectorioSano fs x) (hbs : fs.sb.blockSize < 2 ^ 32) :
    ∃ ds, Lista fs x ds := by
  have hex : ∀ i ∈ List.range (fs.bloquesDe x),
      ∃ ds, entradasBloque fs (leerBloque fs i (leerInodo fs x)) = some ds := by
    intro i hi
    obtain ⟨ds, hr⟩ := h.bloques i (List.mem_range.mp hi)
    obtain ⟨os, hos⟩ := hr.cadena hbs
    exact ⟨ds, entradasBloque_iff.mpr ⟨os, hos⟩⟩
  have hm : ∀ l : List Nat, (∀ i ∈ l, ∃ ds,
      entradasBloque fs (leerBloque fs i (leerInodo fs x)) = some ds) →
      ∃ bs, List.Forall₂ (fun i => RegistrosBloque fs (leerBloque fs i (leerInodo fs x))) l bs := by
    intro l
    induction l with
    | nil => exact fun _ => ⟨[], .nil⟩
    | cons i l ih =>
        intro hl
        obtain ⟨ds, hds⟩ := hl i List.mem_cons_self
        obtain ⟨bs, hbs⟩ := ih fun j hj => hl j (List.mem_cons_of_mem i hj)
        exact ⟨ds :: bs, .cons (entradasBloque_iff.mp hds) hbs⟩
  obtain ⟨bs, hbs'⟩ := hm _ hex
  exact ⟨_, bs, hbs', rfl⟩

/-- From an inode on, when every departure from the directories gets lost. -/
theorem Arbol.llega (h : Arbol fs) : ∀ (cs : List (List UInt8)) (x : Nat), x ≠ 0 →
    (∀ antes c resto y, cs = antes ++ c :: resto → Recto fs x antes y → ¬ EsDirectorio fs y →
      Perdido fs y (c :: resto)) →
    ∃ z, buscarDesde fs x cs = some z ∧ (z ≠ 0 → Recto fs x cs z) := by
  intro cs
  induction cs with
  | nil => exact fun x _ _ => ⟨x, rfl, fun _ => .fin x⟩
  | cons c cs ih =>
      intro x hx hdes
      by_cases hd : EsDirectorio fs x
      · obtain ⟨ds, hl⟩ := (h.directorios x hd).lista h.tamBloque
        rcases hl.casos c with ⟨y, hs, -⟩ | ⟨hf, -⟩
        · obtain ⟨z, hz, hr⟩ := ih y hs.ne_cero fun antes c' resto y' heq hrec =>
            hdes (c :: antes) c' resto y' (by rw [heq, List.cons_append]) (.paso hd hs hrec)
          exact ⟨z, (hs.buscarDesde hx).trans hz, fun hne => .paso hd hs (hr hne)⟩
        · exact ⟨0, (Perdido.falta hf).buscarDesde hx, fun hne => absurd rfl hne⟩
      · have hp := hdes [] c cs x rfl (.fin x) hd
        exact ⟨0, hp.buscarDesde hx, fun hne => absurd rfl hne⟩

/-- **LOOKING UP A PATH**: the lookup ends and an inode it finds is reached
    through directories exactly when every departure from the directories ends
    in a missing name. -/
theorem llega_bien_iff (h : Arbol fs) (path : List UInt8) :
    LlegaBien fs path ↔ SinDesvio fs path := by
  have hraiz : inodoRaiz ≠ 0 := by decide
  constructor
  · rintro ⟨z, hz, hr⟩ antes c resto x heq hrec hno
    obtain ⟨hx, hresto⟩ := hrec.buscarDesde hraiz
    rw [buscarPath, heq, hresto] at hz
    rcases (buscarDesde_iff hx).mp hz with ⟨hne, -⟩ | ⟨-, hp⟩
    · exact absurd (hrec.directorio (heq ▸ hr hne)) hno
    · exact hp
  · exact h.llega (componentes path) inodoRaiz hraiz

/-- An inode without blocks has no entries. -/
theorem falta_sinBloques (h : fs.bloquesDe x = 0) (c : List UInt8) : Falta fs x c := by
  refine ⟨[], ⟨[], ?_, rfl⟩, fun dir hdir => by cases hdir⟩
  rw [h]
  exact .nil

end Path

/-! ## A file of zeros -/

/-- The root, inode 2, has one entry `f`, inode 3: a regular file of two blocks
    of zeros. -/
def imagenRaiz : Ext2 where
  disco := fun o => ((
    [(5248, 0xED), (5249, 0x41), (5253, 4), (5288, 6), (5376, 0xA4), (5377, 0x81), (5381, 8),
      (5416, 7), (5420, 8), (6144, 3), (6149, 4), (6150, 1), (6152, 102)].find? fun p =>
        p.1 == o).map Prod.snd).getD 0
  sb := ⟨8, 16, 0, 0, 1, 0, 8192, 8⟩
  bgdt := [⟨3, 4, 5, 0, 0, 1⟩]

/-- The root is the only directory. -/
theorem esDirectorio_imagenRaiz {x : Nat} (h : EsDirectorio imagenRaiz x) : x = inodoRaiz := by
  obtain ⟨⟨h1, h8⟩, hmodo⟩ := h
  have h8' : x ≤ 8 := h8
  revert hmodo
  interval_cases x <;> decide

/-- The image is a tree. -/
theorem arbol_imagenRaiz : Arbol imagenRaiz := by
  have hraiz : EsDirectorio imagenRaiz inodoRaiz := ⟨⟨by decide, by decide⟩, by decide⟩
  refine ⟨by decide, hraiz, fun x hx => ?_⟩
  obtain rfl := esDirectorio_imagenRaiz hx
  refine ⟨(by decide : (leerInodo imagenRaiz inodoRaiz).iSize
    % imagenRaiz.sb.blockSize = 0) |> Nat.dvd_of_mod_eq_zero, fun i hi => ?_⟩
  have hbloques : imagenRaiz.bloquesDe inodoRaiz = 1 := by decide
  obtain rfl : i = 0 := by omega
  have hfin : 0 + (leerDir imagenRaiz (offsetBloque imagenRaiz
      (leerBloque imagenRaiz 0 (leerInodo imagenRaiz inodoRaiz)) 0)).dRecLen
      = imagenRaiz.sb.blockSize := by decide
  exact ⟨_, .ultimo (by decide) (by decide) hfin⟩

end Rfs
