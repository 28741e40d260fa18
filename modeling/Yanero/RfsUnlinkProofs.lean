import Yanero.RfsEntradasProofs
import Yanero.RfsSepararProofs
import Yanero.RfsSoltarProofs

/-! # A file is unlinked

    `procesarUnlink` takes the entry out of the directory and gives back what
    the file had.  Every other file stays (`Intacto`), and the directory loses
    one pair of its listing, so a lookup through directories that does not use
    the entry goes the same way as before. -/

namespace Rfs

open Arboles Palabras Tramos

/-! ## Lookup in a listing -/

section Listado

variable {fs fs' : Ext2} {d n x : Nat} {c : List UInt8} {ds : List Dir}
  {l : List (List UInt8 × Nat)}

/-- The name that lookup compares, of a pair. -/
def nombreDe (p : List UInt8 × Nat) : List UInt8 := p.1.takeWhile (· != 0)

/-- `buscarNombreEnLista` looks at the names and the inodes. -/
def buscarPar (l : List (List UInt8 × Nat)) (c : List UInt8) : Nat :=
  ((l.find? fun p => nombreDe p == c).map Prod.snd).getD 0

/-- `buscarNombreEnLista` is the lookup in the pairs of the records. -/
theorem buscarNombreEnLista_eq (ds : List Dir) (c : List UInt8) :
    buscarNombreEnLista ds c = buscarPar (ds.map Dir.par) c := by
  rw [buscarNombreEnLista, buscarPar, List.find?_map, Option.map_map]
  rfl

/-- One pair has the inode, and its name is no other's. -/
structure UnPar (l : List (List UInt8 × Nat)) (c : List UInt8) (x : Nat) : Prop where
  nombres : (l.map nombreDe).Nodup
  veces : l.countP (fun p => p.2 == x) ≤ 1
  par : ∃ p ∈ l, nombreDe p = c ∧ p.2 = x

/-- What is left without the pair has not the name. -/
theorem UnPar.corte (h : UnPar l c x) : ∃ l₁ p l₂, l = l₁ ++ p :: l₂ ∧ nombreDe p = c
    ∧ l.eraseP (fun p => p.2 == x) = l₁ ++ l₂ ∧ ∀ q ∈ l₁ ++ l₂, nombreDe q ≠ c := by
  obtain ⟨p, hp, hpc, hpx⟩ := h.par
  obtain ⟨a, l₁, l₂, -, hax, hl, herase⟩ :=
    List.exists_of_eraseP (p := fun p : List UInt8 × Nat => p.2 == x) hp (by simp [hpx])
  have hveces := h.veces
  rw [hl, List.countP_append, List.countP_cons, if_pos hax] at hveces
  have hcero : (l₁ ++ l₂).countP (fun p => p.2 == x) = 0 := by
    rw [List.countP_append]
    omega
  have hpa : p = a := by
    rw [hl] at hp
    rcases List.mem_append.mp hp with hmem | hmem
    · exact absurd (by simp [hpx]) (List.countP_eq_zero.mp hcero p (List.mem_append_left l₂ hmem))
    · rcases List.mem_cons.mp hmem with rfl | hmem
      · rfl
      · exact absurd (by simp [hpx]) (List.countP_eq_zero.mp hcero p
          (List.mem_append_right l₁ hmem))
  subst hpa
  have hnombres := h.nombres
  rw [hl, List.map_append, List.map_cons] at hnombres
  have hno := (List.nodup_cons.mp (List.nodup_middle.mp hnombres)).1
  refine ⟨l₁, p, l₂, hl, hpc, herase, fun q hq heq => hno ?_⟩
  rw [hpc, ← heq, ← List.map_append]
  exact List.mem_map_of_mem hq

/-- **THE NAME GOES** with its pair. -/
theorem UnPar.buscar (h : UnPar l c x) : buscarPar (l.eraseP fun p => p.2 == x) c = 0 := by
  obtain ⟨l₁, p, l₂, -, -, herase, hno⟩ := h.corte
  have hnone : (l₁ ++ l₂).find? (fun p => nombreDe p == c) = none :=
    List.find?_eq_none.mpr fun q hq hqc => hno q hq (by simpa using hqc)
  rw [herase, buscarPar, hnone]
  rfl

/-- **THE OTHER NAMES STAY**. -/
theorem UnPar.buscar_otro (h : UnPar l c x) {c' : List UInt8} (hne : c' ≠ c) :
    buscarPar (l.eraseP fun p => p.2 == x) c' = buscarPar l c' := by
  obtain ⟨l₁, p, l₂, hl, hpc, herase, -⟩ := h.corte
  have hpasa : (p :: l₂).find? (fun p => nombreDe p == c')
    = l₂.find? fun p => nombreDe p == c' := by
    refine List.find?_cons_of_neg ?_
    rw [hpc]
    simpa using hne.symm
  rw [herase, hl, buscarPar, buscarPar, List.find?_append, List.find?_append, hpasa]

end Listado

/-! ## The walk to the entry -/

/-- The lookup of the names lists directories only. -/
def PorDirectorios (fs : Ext2) (x : Nat) (cs : List (List UInt8)) : Prop :=
  ∀ antes c resto y, cs = antes ++ c :: resto → Recto fs x antes y → EsDirectorio fs y

/-- The lookup of the names uses the entry of name `c` of a directory. -/
def Usa (fs : Ext2) (x : Nat) (cs : List (List UInt8)) (d : Nat) (c : List UInt8) : Prop :=
  ∃ antes resto, cs = antes ++ c :: resto ∧ Recto fs x antes d

/-- A path through directories to `d`, whose entry of name `c` has inode `x`.
    It does not end in a slash, as no path of a file does. -/
structure RutaDe (fs : Ext2) (path : List UInt8) (d : Nat) (c : List UInt8) (x : Nat) : Prop where
  absoluta : path.head? = some 47
  sinBarra : path.getLast? ≠ some 47
  recto : ∃ antes, componentes path = antes ++ [c] ∧ Recto fs inodoRaiz antes d
  directorio : EsDirectorio fs d
  entrada : Sigue fs d c x

section Camino

variable {fs fs' : Ext2} {x y z d : Nat} {c c' : List UInt8} {cs antes : List (List UInt8)}
  {path : List UInt8}

/-- One component: the inode that the listing gives the name. -/
def paso (fs : Ext2) (y : Nat) (c : List UInt8) : Option Nat :=
  (listar fs y).map (buscarNombreEnLista · c)

/-- The walk goes one component at a time. -/
theorem buscarDesde_cons (hy : y ≠ 0) :
    buscarDesde fs y (c :: cs) = (paso fs y c).bind (buscarDesde fs · cs) := by
  rw [buscarDesde, if_neg hy, paso]
  cases listar fs y <;> rfl

/-- A component that is there is what the step answers. -/
theorem Sigue.paso (h : Sigue fs y c z) : Rfs.paso fs y c = some z := by
  obtain ⟨ds, dir, hl, hfind, rfl⟩ := h
  rw [Rfs.paso, listar_iff.mpr hl, Option.map_some, buscarNombreEnLista, hfind]
  rfl

/-- A name that a step finds is an entry. -/
theorem sigue_de_paso (h : paso fs y c = some z) (hz : z ≠ 0) : Sigue fs y c z := by
  obtain ⟨ds, hl, rfl⟩ := Option.map_eq_some_iff.mp h
  rcases (listar_iff.mp hl).casos c with ⟨z', hs, hz'⟩ | ⟨-, h0⟩
  · rwa [hz']
  · exact absurd h0 hz

/-- A walk through directories begins in one. -/
theorem PorDirectorios.directorio (h : PorDirectorios fs y (c :: cs)) : EsDirectorio fs y :=
  h [] c cs y rfl (.fin y)

/-- The rest of such a walk is one. -/
theorem PorDirectorios.sigue (h : PorDirectorios fs y (c :: cs)) (hs : Sigue fs y c z) :
    PorDirectorios fs z cs := fun antes c' resto y' heq hr =>
  h (c :: antes) c' resto y' (by rw [heq, List.cons_append]) (.paso h.directorio hs hr)

/-- A walk whose rest uses the entry uses it. -/
theorem Usa.sigue (h : Usa fs z cs d c) (hd : EsDirectorio fs y) (hs : Sigue fs y c' z) :
    Usa fs y (c' :: cs) d c := by
  obtain ⟨antes, resto, heq, hr⟩ := h
  exact ⟨c' :: antes, resto, by rw [heq, List.cons_append], .paso hd hs hr⟩

/-- A walk that follows entries is through directories. -/
theorem Recto.porDirectorios (h : Recto fs x cs z) : PorDirectorios fs x cs :=
  fun _ _ _ _ heq hr => hr.directorio (heq ▸ h)

/-- A walk to a directory has not used the entry of an inode that is not one. -/
theorem Recto.no_usa (h : Recto fs x cs z) (hz : EsDirectorio fs z) (hs : Sigue fs d c y)
    (hy : ¬ EsDirectorio fs y) : ¬ Usa fs x cs d c := by
  rintro ⟨antes, resto, rfl, hr⟩
  induction hr with
  | fin x =>
      cases h with
      | paso _ hs' hresto =>
          obtain rfl := hs.unico hs'
          cases hresto with
          | fin _ => exact hy hz
          | paso hd _ _ => exact hy hd
  | paso _ hs₁ _ ih =>
      cases h with
      | paso _ hs' hresto =>
          obtain rfl := hs₁.unico hs'
          exact ih hs hresto

/-- What the request looks up. -/
theorem RutaDe.buscar (h : RutaDe fs path d c x) : ∃ pathDir, separarPath path = some (pathDir, c)
    ∧ buscarPath fs path = some x ∧ buscarPath fs pathDir = some d := by
  obtain ⟨antes, hcomp, hr⟩ := h.recto
  obtain ⟨corte, nombre, rfl, hno⟩ := cortar_ultima (List.mem_of_head? h.absoluta)
  have hne : nombre ≠ [] := by
    rintro rfl
    exact h.sinBarra (by simp)
  obtain ⟨hd, hbuscar⟩ := hr.buscarDesde (show inodoRaiz ≠ 0 by decide)
  have hx : buscarPath fs (corte ++ 47 :: nombre) = some x := by
    rw [buscarPath, hcomp, hbuscar, buscarDesde_cons hd, h.entrada.paso]
    rfl
  rw [componentes_barra, componentes_nombre hno hne] at hcomp
  obtain ⟨rfl, hnombre⟩ := List.append_inj' hcomp rfl
  obtain rfl := List.singleton_inj.mp hnombre
  refine ⟨dirDeCorte corte, separarPath_corte hno, hx, ?_⟩
  have hdir := hbuscar []
  rw [List.append_nil] at hdir
  rw [buscarPath, componentes_dirDeCorte, hdir]
  rfl

end Camino

/-! ## What unlinking is -/

/-- A regular file of the volume, by its mode (`S_ISREG`). -/
def EsRegular (fs : Ext2) (x : Nat) : Prop :=
  fs.sb.esInodo x ∧ (leerInodo fs x).iMode / 2 ^ 12 = 8

instance (fs : Ext2) : DecidablePred (EsRegular fs) := fun _ => inferInstanceAs (Decidable (_ ∧ _))

/-- A consistent volume and its tree: the directories in use are well formed,
    their names are unique and their entries lead to inodes in use. -/
structure VolumenSano (fijo : Nat → Prop) (fs : Ext2) : Prop where
  consistente : Consistente fijo fs
  inodos : Inodos fs
  contador : fs.sb.sInodesPerGroup < 2 ^ 16
  raiz : fs.EnUso inodoRaiz
  directorios : ∀ y, fs.EnUso y → EsDirectorio fs y → DirectorioSano fs y
  entradas : ∀ y z c, fs.EnUso y → EsDirectorio fs y → Sigue fs y c z → fs.EnUso z
  nombres : ∀ y ds, fs.EnUso y → EsDirectorio fs y → Lista fs y ds → (ds.map Dir.nombre).Nodup

/-- The directory has one entry for the inode. -/
def UnaEntrada (fs : Ext2) (d x : Nat) : Prop :=
  ∀ ds, Lista fs d ds → ds.countP (·.dInode == x) ≤ 1

/-- The file at the path is gone, and nothing else: the lookups that do not use
    its entry, the bits and counters of what it had, and the other files. -/
structure Desenlazado (fs : Ext2) (path : List UInt8) (d : Nat) (c : List UInt8) (x : Nat)
    (fs' : Ext2) : Prop where
  ausente : buscarPath fs' path = some 0
  caminos : ∀ q, PorDirectorios fs inodoRaiz (componentes q) →
    ¬ Usa fs inodoRaiz (componentes q) d c → buscarPath fs' q = buscarPath fs q
  bloques : ∀ b, fs.sb.enVolumen b →
    (fs.bitBloque b = true ∧ fs'.bitBloque b = false ↔ DelArchivo fs x b)
      ∧ (fs'.bitBloque b = true → fs.bitBloque b = true)
  sFreeBlocksCount : fs'.sb.sFreeBlocksCount
    = fs.sb.sFreeBlocksCount + bloquesTotales fs.sb (fs.bloquesDe x)
  bgFreeBlocksCount : ∀ g, g < fs.sb.cantGrupos → (fs'.grupo g).bgFreeBlocksCount
    = (fs.grupo g).bgFreeBlocksCount + ((Finset.range (fs.sb.tamGrupo g)).filter fun j =>
      fs.bitGrupo g j = true ∧ fs'.bitGrupo g j = false).card
  inodo : ∀ y, fs.sb.esInodo y → fs'.bitInodo y = if y = x then false else fs.bitInodo y
  sFreeInodesCount : fs'.sb.sFreeInodesCount = fs.sb.sFreeInodesCount + 1
  bgFreeInodesCount : ∀ g, (fs'.grupo g).bgFreeInodesCount = (fs.grupo g).bgFreeInodesCount
    + if g = fs.sb.grupoDeInodo x then 1 else 0
  archivos : ∀ y, fs.EnUso y → y ≠ x → y ≠ d → Intacto fs fs' y
  directorio : (leerInodo fs' d).Igual (leerInodo fs d) ∧ ∃ ds ds', listar fs d = some ds
    ∧ listar fs' d = some ds' ∧ ds'.map Dir.par = (ds.map Dir.par).eraseP fun p => p.2 == x

/-- The request answers success and leaves the file unlinked. -/
def UnlinkBien (fs : Ext2) (path : List UInt8) (d : Nat) (c : List UInt8) (x : Nat) : Prop :=
  ∃ fs', procesarUnlink fs path = some (fs', .result 0) ∧ Desenlazado fs path d c x fs'

section Unlink

variable {fijo : Nat → Prop} {fs fs₀ fs' : Ext2} {x y d : Nat} {c : List UInt8}
  {cs antes : List (List UInt8)} {path : List UInt8} {dss : Nat → List Dir}
  {l : List (List UInt8 × Nat)}

/-- The two kinds exclude each other. -/
theorem EsRegular.no_directorio (h : EsRegular fs x) : ¬ EsDirectorio fs x := by
  rintro ⟨-, hd⟩
  have hr := h.2
  omega

/-! ## The two halves of the request -/

/-- A walk ends on an inode in use. -/
theorem VolumenSano.recto (h : VolumenSano fijo fs) (hr : Recto fs y cs d) (hy : fs.EnUso y) :
    fs.EnUso d := by
  induction hr with
  | fin _ => exact hy
  | paso hd hs _ ih => exact ih (h.entradas _ _ _ hy hd hs)

/-- Every directory is a chain of records. -/
theorem VolumenSano.directorio (h : VolumenSano fijo fs) (hy : fs.EnUso y)
    (hd : EsDirectorio fs y) : ∃ dss, Directorio fs (leerInodo fs y) (fs.bloquesDe y) dss :=
  (h.directorios y hy hd).directorio ((h.consistente.enMano hy).enImagen (rango_bloquesDe fs y))

/-- A directory that was not touched answers as before. -/
theorem Intacto.paso (h : VolumenSano fijo fs) (hy : fs.EnUso y) (hd : EsDirectorio fs y)
    (hi : Intacto fs fs' y) (c : List UInt8) : Rfs.paso fs' y c = Rfs.paso fs y c := by
  obtain ⟨dss, hdss⟩ := h.directorio hy hd
  rw [Rfs.paso, Rfs.paso,
    hi.listar ((h.consistente.enMano hy).enImagen (rango_bloquesDe fs y)) hdss]

/-- **LOOKUPS STAY** where the steps they take do. -/
theorem VolumenSano.buscarDesde (h : VolumenSano fijo fs)
    (hpaso : ∀ y c', fs.EnUso y → EsDirectorio fs y → ¬ (y = d ∧ c' = c) →
      paso fs' y c' = paso fs y c') :
    ∀ cs y, fs.EnUso y → PorDirectorios fs y cs → ¬ Usa fs y cs d c →
      Rfs.buscarDesde fs' y cs = Rfs.buscarDesde fs y cs := by
  intro cs
  induction cs with
  | nil =>
      intro y _ _ _
      rw [Rfs.buscarDesde, Rfs.buscarDesde]
  | cons c' cs ih =>
      intro y hy hpor husa
      have hy0 : y ≠ 0 := by
        have := hy.1
        omega
      have hd := hpor.directorio
      have hdc : ¬ (y = d ∧ c' = c) := by
        rintro ⟨rfl, rfl⟩
        exact husa ⟨[], cs, rfl, .fin y⟩
      rw [buscarDesde_cons hy0, buscarDesde_cons hy0, hpaso y c' hy hd hdc]
      cases hp : paso fs y c' with
      | none => rw [Option.bind_none, Option.bind_none]
      | some z =>
          rw [Option.bind_some, Option.bind_some]
          by_cases hz : z = 0
          · rw [hz, buscarDesde_cero, buscarDesde_cero]
          · have hs := sigue_de_paso hp hz
            exact ih z (h.entradas y z c' hy hd hs) (hpor.sigue hs) fun hu => husa (hu.sigue hd hs)

/-- What the second half leaves, after the first one wrote in blocks of the
    directory. -/
structure Soltado (fijo : Nat → Prop) (fs : Ext2) (d x : Nat) (fs₀ fs' : Ext2) : Prop where
  suelto : Suelto fijo fs₀ x fs'
  igual : (leerInodo fs₀ d).Igual (leerInodo fs d)
  enUso : fs₀.EnUso = fs.EnUso
  intacto : ∀ y, fs.EnUso y → y ≠ d → Intacto fs fs₀ y
  guarda : Guarda fijo fs fs₀

/-- The inode is given back after the entry left, so two changes are one. -/
theorem VolumenSano.soltado (h : VolumenSano fijo fs) (hd : fs.EnUso d) (hx : fs.EnUso x)
    (hne : x ≠ d) (hs : SoloHojas fs (leerInodo fs d) (fs.bloquesDe d) fs₀) :
    Soltado fijo fs d x fs₀ (soltarInodo fs₀ x (leerInodo fs x)) := by
  have hmano := h.consistente.enMano hd
  have hn := rango_bloquesDe fs d
  have hg := hmano.guardaHojas hn hs
  obtain ⟨hcons, higual, huso, -⟩ := hmano.deHojas hn rfl hs
  have hintacto : ∀ y, fs.EnUso y → y ≠ d → Intacto fs fs₀ y := fun y hy hyd =>
    hs.intacto h.consistente hd hy hyd
  have hleido := (hintacto x hx hne).igual
  refine ⟨hcons.soltarInodo (hg.inodos h.consistente.geometria h.inodos) ?_ ?_ ?_, higual, huso,
    hintacto, hg⟩
  · rw [hs.sb]
    exact h.contador
  · rwa [huso]
  · exact ⟨hleido.iMode.symm, hleido.iSize.symm, hleido.iLinksCount.symm, fun k hk =>
      (hleido.iBlock k hk).symm⟩

/-- The blocks of a file that was not touched. -/
theorem Intacto.delArchivo (h : Intacto fs fs₀ x) (b : Nat) :
    DelArchivo fs₀ x b ↔ DelArchivo fs x b := by
  unfold DelArchivo
  rw [h.esquema, h.bloquesDe]
  refine exists_congr fun k => exists_congr fun ps => and_congr_right fun hv => ?_
  rw [h.sitios k ps hv]

/-- The bit of a block, by its group and position before. -/
theorem MismaForma.bitBloque (h : MismaForma fs fs') (b : Nat) :
    fs'.bitBloque b = fs'.bitGrupo (fs.sb.grupoDe b) (fs.sb.posDe b) := by
  rw [Ext2.bitBloque, h.sb]
  rfl

/-- A place in a group is the place of a block. -/
theorem Geometria.bloque_del_grupo (hG : Geometria fijo fs) {g j : Nat}
    (hj : j < fs.sb.tamGrupo g) :
    ∃ b, fs.sb.enVolumen b ∧ fs.sb.grupoDe b = g ∧ fs.sb.posDe b = j := by
  have hpor : j < fs.sb.sBlocksPerGroup := lt_of_lt_of_le hj (Nat.min_le_left _ _)
  have hresto : j < fs.sb.sBlocksCount - fs.sb.sFirstDataBlock - g * fs.sb.sBlocksPerGroup :=
    lt_of_lt_of_le hj (Nat.min_le_right _ _)
  have hvol := hG.volumen
  have hsub : fs.sb.sFirstDataBlock + (g * fs.sb.sBlocksPerGroup + j) - fs.sb.sFirstDataBlock
      = g * fs.sb.sBlocksPerGroup + j := by omega
  refine ⟨fs.sb.sFirstDataBlock + (g * fs.sb.sBlocksPerGroup + j), ⟨by omega, by omega⟩, ?_, ?_⟩
  · rw [Superblock.grupoDe, hsub, Nat.mul_comm, Nat.mul_add_div hG.porGrupo, Nat.div_eq_of_lt hpor,
      Nat.add_zero]
  · rw [Superblock.posDe, hsub, Nat.mul_comm, Nat.mul_add_mod, Nat.mod_eq_of_lt hpor]

/-- A group whose bits are only cleared gains them in its counter. -/
theorem Consistente.bgFreeBlocksCount_mas (h : Consistente fijo fs) (h' : Consistente fijo fs')
    (hm : MismaForma fs fs')
    (hmenos : ∀ b, fs.sb.enVolumen b → fs'.bitBloque b = true → fs.bitBloque b = true) {g : Nat}
    (hg : g < fs.sb.cantGrupos) : (fs'.grupo g).bgFreeBlocksCount
      = (fs.grupo g).bgFreeBlocksCount + ((Finset.range (fs.sb.tamGrupo g)).filter fun j =>
        fs.bitGrupo g j = true ∧ fs'.bitGrupo g j = false).card := by
  rw [h.cuentas.grupos g hg, h'.cuentas.grupos g (by rwa [hm.cantGrupos]), hm.tamGrupo,
    ← Finset.card_union_of_disjoint]
  · refine congrArg Finset.card (Finset.ext fun j => ?_)
    simp only [Finset.mem_filter, Finset.mem_union, Finset.mem_range]
    constructor
    · rintro ⟨hj, hlibre⟩
      cases hb : fs.bitGrupo g j with
      | false => exact .inl ⟨hj, rfl⟩
      | true => exact .inr ⟨hj, rfl, hlibre⟩
    · rintro (⟨hj, hlibre⟩ | ⟨hj, -, hlibre⟩)
      · refine ⟨hj, ?_⟩
        obtain ⟨b, hb, rfl, rfl⟩ := h.geometria.bloque_del_grupo hj
        cases hbit : fs'.bitGrupo (fs.sb.grupoDe b) (fs.sb.posDe b) with
        | false => rfl
        | true =>
            have hsi := hmenos b hb ((hm.bitBloque b).trans hbit)
            exact absurd (hlibre.symm.trans hsi) Bool.false_ne_true
      · exact ⟨hj, hlibre⟩
  · refine Finset.disjoint_filter.mpr fun j _ hlibre hsi => ?_
    rw [hlibre] at hsi
    exact absurd hsi.1 Bool.false_ne_true

/-! ## The directory -/

/-- The pair of the entry in the directory. -/
theorem VolumenSano.unPar (h : VolumenSano fijo fs) (hd : fs.EnUso d) (hdir : EsDirectorio fs d)
    (hdss : Directorio fs (leerInodo fs d) (fs.bloquesDe d) dss) (hs : Sigue fs d c x)
    (huna : UnaEntrada fs d x) : UnPar (pares (registrosDe (fs.bloquesDe d) dss)) c x := by
  have him := (h.consistente.enMano hd).enImagen (rango_bloquesDe fs d)
  have hl := listar_iff.mp (hdss.listar him)
  obtain ⟨ds, dir, hl', hfind, hx⟩ := hs
  obtain rfl := hl.unica hl'
  have hmem := List.mem_of_find?_eq_some hfind
  have hnombre := List.find?_some hfind
  refine ⟨?_, ?_, dir.par, List.mem_map_of_mem hmem, beq_iff_eq.mp hnombre, hx⟩
  · have hn := h.nombres d _ hd hdir hl
    rwa [pares, List.map_map]
  · have hc := huna _ hl
    rwa [pares, List.countP_map]

/-- The listings of the directory before and after: one pair less. -/
structure Listas (fs fs' : Ext2) (d : Nat) (c : List UInt8) (x : Nat) (ds ds' : List Dir) :
    Prop where
  antes : listar fs d = some ds
  tras : listar fs' d = some ds'
  unPar : UnPar (ds.map Dir.par) c x
  menos : ds'.map Dir.par = (ds.map Dir.par).eraseP fun p => p.2 == x

/-- The listing of the directory before and after. -/
theorem Soltado.listas (h : VolumenSano fijo fs) (hd : fs.EnUso d) (hdir : EsDirectorio fs d)
    (hdx : d ≠ x) (hent : Sigue fs d c x) (huna : UnaEntrada fs d x)
    (hdss : Directorio fs (leerInodo fs d) (fs.bloquesDe d) dss)
    (hb : Borrada fijo fs d (fs.bloquesDe d) dss x fs₀) (hs : Soltado fijo fs d x fs₀ fs') :
    ∃ ds ds', Listas fs fs' d c x ds ds' := by
  obtain ⟨dss', hdss', hpar⟩ := hb.directorio
  have hd₀ : fs₀.EnUso d := by rwa [hs.enUso]
  have hn₀ : fs₀.bloquesDe d = fs.bloquesDe d := by
    rw [Ext2.bloquesDe, Ext2.bloquesDe, hb.solo.sb, hs.igual.iSize]
  rw [← hn₀] at hdss'
  have him := (h.consistente.enMano hd).enImagen (rango_bloquesDe fs d)
  have him₀ := (hb.consistente.enMano hd₀).enImagen (rango_bloquesDe fs₀ d)
  have htras : listar fs' d = some (vigentes (registrosDe (fs₀.bloquesDe d) dss')) := by
    rw [(hs.suelto.intacto d hd₀ hdx).listar him₀ hdss', hdss'.listar him₀]
  have hun : UnPar ((vigentes (registrosDe (fs.bloquesDe d) dss)).map Dir.par) c x := by
    rw [← pares]
    exact h.unPar hd hdir hdss hent huna
  refine ⟨_, _, hdss.listar him, htras, hun, ?_⟩
  rw [hn₀]
  exact hpar

/-- **THE ENTRY REMOVED**: one step of the lookups is lost. -/
theorem Soltado.paso (h : VolumenSano fijo fs) (hx : ¬ EsDirectorio fs x)
    (hs : Soltado fijo fs d x fs₀ fs') {ds ds' : List Dir} (hl : Listas fs fs' d c x ds ds') :
    Rfs.paso fs' d c = some 0 ∧ ∀ y c', fs.EnUso y → EsDirectorio fs y → ¬ (y = d ∧ c' = c) →
      Rfs.paso fs' y c' = Rfs.paso fs y c' := by
  refine ⟨?_, fun y c' hy hdir hyc => ?_⟩
  · rw [Rfs.paso, hl.tras, Option.map_some, buscarNombreEnLista_eq, hl.menos, hl.unPar.buscar]
  · by_cases hyd : y = d
    · subst hyd
      have hc : c' ≠ c := fun heq => hyc ⟨rfl, heq⟩
      rw [Rfs.paso, Rfs.paso, hl.antes, hl.tras, Option.map_some, Option.map_some,
        buscarNombreEnLista_eq, buscarNombreEnLista_eq, hl.menos, hl.unPar.buscar_otro hc]
    · have hyx : y ≠ x := by
        rintro rfl
        exact hx hdir
      exact ((hs.intacto y hy hyd).trans (hs.suelto.intacto y (by rwa [hs.enUso]) hyx)).paso h hy
        hdir c'

/-- The bits of the blocks, over both halves. -/
theorem Soltado.bits (h : VolumenSano fijo fs) (hd : fs.EnUso d) (hx : fs.EnUso x) (hdx : x ≠ d)
    (hsolo : SoloHojas fs (leerInodo fs d) (fs.bloquesDe d) fs₀) (hs : Soltado fijo fs d x fs₀ fs')
    {b : Nat} (hb : fs.sb.enVolumen b) :
    fs'.bitBloque b = true ↔ fs.bitBloque b = true ∧ ¬ DelArchivo fs x b := by
  rw [hs.suelto.bits b (by rwa [hsolo.sb]),
    (h.consistente.enMano hd).bitBloque_hojas (rango_bloquesDe fs d) hsolo hb,
    (hs.intacto x hx hdx).delArchivo]

/-- The bits of the inodes, over both halves. -/
theorem Soltado.bitInodo (hm : MismaForma fs fs') (hs : Soltado fijo fs d x fs₀ fs')
    (hy : fs.sb.esInodo y) : fs'.bitInodo y = if y = x then false else fs.bitInodo y := by
  have huso : fs'.EnUso y ↔ fs.EnUso y ∧ y ≠ x := by
    rw [hs.suelto.enUso, hs.enUso]
  have hy' : y ≤ fs'.sb.sInodesCount := by
    rw [hm.sInodesCount]
    exact hy.2
  by_cases hyx : y = x
  · rw [if_pos hyx]
    exact Bool.eq_false_iff.mpr fun hsi => (huso.mp ⟨hy.1, hy', hsi⟩).2 hyx
  · rw [if_neg hyx]
    refine Bool.eq_iff_iff.mpr ⟨fun hsi => (huso.mp ⟨hy.1, hy', hsi⟩).1.2.2, fun hsi => ?_⟩
    exact (huso.mpr ⟨⟨hy.1, hy.2, hsi⟩, hyx⟩).2.2

/-! ## The whole request -/

theorem EsRegular.iMode (h : EsRegular fs x) : (leerInodo fs x).iMode ≠ 0 := by
  intro h0
  have hr := h.2
  rw [h0] at hr
  cases hr

/-- What the request does on the path of a file. -/
theorem RutaDe.procesar (h : RutaDe fs path d c x) (hd : fs.EnUso d) (hreg : EsRegular fs x)
    {b : Bool} (hb : borrarEntrada fs d x = some (fs₀, b)) :
    procesarUnlink fs path = some (soltarInodo fs₀ x (leerInodo fs x), .result 0) := by
  obtain ⟨pathDir, hsep, hbuscar, hdir⟩ := h.buscar
  have hd0 : d ≠ 0 := by
    have := hd.1
    omega
  rw [procesarUnlink, hsep]
  dsimp only [Option.bind_eq_bind, Option.bind_some]
  rw [hbuscar]
  dsimp only [Option.bind_some]
  rw [hdir]
  dsimp only [Option.bind_some]
  rw [if_pos ⟨h.entrada.ne_cero, hd0⟩, if_pos hreg.iMode, hb]
  rfl

theorem EsDirectorio.iMode (h : EsDirectorio fs d) : (leerInodo fs d).iMode ≠ 0 := by
  intro h0
  have hd := h.2
  rw [h0] at hd
  cases hd

/-- The file and its directory are in use, and are not the same inode. -/
theorem VolumenSano.ruta (h : VolumenSano fijo fs) (hr : RutaDe fs path d c x)
    (hreg : EsRegular fs x) : fs.EnUso d ∧ fs.EnUso x ∧ x ≠ d := by
  obtain ⟨antes, -, hrec⟩ := hr.recto
  have hd := h.recto hrec h.raiz
  refine ⟨hd, h.entradas d x c hd hr.directorio hr.entrada, ?_⟩
  rintro rfl
  exact hreg.no_directorio hr.directorio

/-- Both halves done, the file is unlinked. -/
theorem Soltado.desenlazado (h : VolumenSano fijo fs) (hr : RutaDe fs path d c x)
    (hreg : EsRegular fs x) (huna : UnaEntrada fs d x)
    (hdss : Directorio fs (leerInodo fs d) (fs.bloquesDe d) dss)
    (hb : Borrada fijo fs d (fs.bloquesDe d) dss x fs₀) (hs : Soltado fijo fs d x fs₀ fs') :
    Desenlazado fs path d c x fs' := by
  have hC := h.consistente
  obtain ⟨hd, hx, hxd⟩ := h.ruta hr hreg
  have hno := hreg.no_directorio
  have hm := hb.solo.mismo.forma.trans hs.suelto.forma
  obtain ⟨ds, ds', hl⟩ := hs.listas h hd hr.directorio hxd.symm hr.entrada huna hdss hb
  obtain ⟨hquita, hpasos⟩ := hs.paso h hno hl
  have hbits : ∀ b, fs.sb.enVolumen b →
      (fs'.bitBloque b = true ↔ fs.bitBloque b = true ∧ ¬ DelArchivo fs x b) :=
    fun b hv => hs.bits h hd hx hxd hb.solo hv
  have hmenos : ∀ b, fs.sb.enVolumen b → fs'.bitBloque b = true → fs.bitBloque b = true :=
    fun b hv hsi => ((hbits b hv).mp hsi).1
  have hbuscar := h.buscarDesde hpasos
  refine ⟨?_, fun q hpor husa => hbuscar _ _ h.raiz hpor husa, fun b hv => ⟨⟨?_, ?_⟩, hmenos b hv⟩,
    ?_, fun g hg => hC.bgFreeBlocksCount_mas hs.suelto.consistente hm hmenos hg,
    fun y hy => hs.bitInodo hm hy, ?_, fun g => ?_, fun y hy hyx hyd => ?_, ?_⟩
  · obtain ⟨antes, hcomp, hrec⟩ := hr.recto
    obtain ⟨hd0, hantes⟩ := hrec.buscarDesde (show inodoRaiz ≠ 0 by decide)
    have hllega := hantes []
    rw [List.append_nil] at hllega
    rw [buscarPath, hcomp, buscarDesde_append, hbuscar _ _ h.raiz hrec.porDirectorios
      (hrec.no_usa hr.directorio hr.entrada hno), hllega, Rfs.buscarDesde, Option.bind_some,
      buscarDesde_cons hd0, hquita, Option.bind_some, Rfs.buscarDesde]
  · rintro ⟨hsi, hfalso⟩
    by_contra hno'
    exact absurd (hfalso.symm.trans ((hbits b hv).mpr ⟨hsi, hno'⟩)) Bool.false_ne_true
  · intro hdel
    refine ⟨?_, Bool.eq_false_iff.mpr fun hsi => ((hbits b hv).mp hsi).2 hdel⟩
    obtain ⟨k, ps, hvivo, heq⟩ := hdel
    exact heq ▸ ((hC.enMano hx).dato hvivo).2
  · rw [hs.suelto.sFreeBlocksCount, hb.solo.sb, (hs.intacto x hx hxd).bloquesDe]
  · rw [hs.suelto.sFreeInodesCount, hb.solo.sb]
  · rw [hs.suelto.bgFreeInodesCount, hb.solo.sb, Ext2.grupo_congr hb.solo.bgdt]
  · exact (hs.intacto y hy hyd).trans (hs.suelto.intacto y (by rwa [hs.enUso]) hyx)
  · exact ⟨(hs.suelto.intacto d (by rwa [hs.enUso]) hxd.symm).igual.trans hs.igual, ds, ds',
      hl.antes, hl.tras, hl.menos⟩

/-- A walk to a directory whose listing never ends. -/
theorem Recto.buscarDesde_none (h : VolumenSano fijo fs) (hr : Recto fs y cs d) (hy : fs.EnUso y)
    (hnone : Rfs.paso fs' d = fun _ => none)
    (hpaso : ∀ y c', fs.EnUso y → EsDirectorio fs y → y ≠ d
      → Rfs.paso fs' y c' = Rfs.paso fs y c') :
    Rfs.buscarDesde fs' y (cs ++ [c]) = none := by
  induction hr with
  | fin d =>
      have hd0 := hy.1
      rw [List.nil_append, buscarDesde_cons (by omega), hnone, Option.bind_none]
  | @paso y z d c' cs hd hs _ ih =>
      have hy0 := hy.1
      rw [List.cons_append, buscarDesde_cons (by omega)]
      by_cases hyd : y = d
      · rw [hyd, hnone, Option.bind_none]
      · rw [hpaso y c' hy hd hyd, hs.paso, Option.bind_some]
        exact ih (h.entradas y z c' hy hd hs) hnone hpaso

/-- **64 KiB**: no lookup in the directory ends again. -/
theorem VolumenSano.unlink_desborda (h : VolumenSano fijo fs) (hr : RutaDe fs path d c x)
    (hreg : EsRegular fs x) (huna : UnaEntrada fs d x) (hbs : fs.sb.blockSize ≤ 2 ^ 16)
    (hu : ¬ UnionCabe fs d x) :
    ∃ fs', procesarUnlink fs path = some (fs', .result 0) ∧ listar fs' d = none
      ∧ buscarPath fs' path = none := by
  have hC := h.consistente
  obtain ⟨antes, hcomp, hrec⟩ := hr.recto
  obtain ⟨hd, hx, hxd⟩ := h.ruta hr hreg
  obtain ⟨dss, hdss⟩ := h.directorio hd hr.directorio
  have him := (hC.enMano hd).enImagen (rango_bloquesDe fs d)
  have huno : (registrosDe (fs.bloquesDe d) dss).countP (·.dInode == x) ≤ 1 := by
    have hveces := huna _ (listar_iff.mp (hdss.listar him))
    have hx0 := hr.entrada.ne_cero
    rw [vigentes, List.countP_filter] at hveces
    refine (List.countP_mono_left fun dir _ hdir => ?_).trans hveces
    have hdir' : dir.dInode = x := by simpa using hdir
    simp [hdir', hx0]
  obtain ⟨fs₀, hb, hsolo, hatasco⟩ := hC.borrarEntrada_desborda hd hdss hr.directorio.iMode hbs huno
    hu
  obtain ⟨fs', hfs'⟩ : ∃ w, soltarInodo fs₀ x (leerInodo fs x) = w := ⟨_, rfl⟩
  have hs := h.soltado hd hx hxd hsolo
  have hproc := hr.procesar hd hreg hb
  rw [hfs'] at hs hproc
  have hd₀ : fs₀.EnUso d := by rwa [hs.enUso]
  have hintacto := hs.suelto.intacto d hd₀ hxd.symm
  have hn₀ : fs₀.bloquesDe d = fs.bloquesDe d := by
    rw [Ext2.bloquesDe, Ext2.bloquesDe, hsolo.sb, hs.igual.iSize]
  have hcons₀ := ((hC.enMano hd).deHojas (rango_bloquesDe fs d) rfl hsolo).1
  have hlista : listar fs' d = none := by
    refine EnImagen.listar_atascado (hintacto.enImagen ((hcons₀.enMano hd₀).enImagen
      (rango_bloquesDe fs₀ d))) hintacto.bloquesDe (hintacto.atascado ?_)
    rw [hn₀]
    exact Atascado.igual hs.igual hatasco
  refine ⟨fs', hproc, hlista, ?_⟩
  rw [buscarPath, hcomp]
  refine hrec.buscarDesde_none h h.raiz (funext fun c' => ?_) fun y c' hy hdir hyd => ?_
  · rw [Rfs.paso, hlista, Option.map_none]
  · have hyx : y ≠ x := by
      rintro rfl
      exact hreg.no_directorio hdir
    exact ((hs.intacto y hy hyd).trans (hs.suelto.intacto y
      (by rwa [hs.enUso]) hyx)).paso h hy hdir c'

/-- **UNLINKING A FILE** with one entry releases what it owned and no more, as
    long as the record before the entry can take its bytes; in a block of
    64 KiB where it cannot, the directory is lost. -/
theorem procesarUnlink_suelta (h : VolumenSano fijo fs) (hr : RutaDe fs path d c x)
    (hreg : EsRegular fs x) (huna : UnaEntrada fs d x) :
    (UnionCabe fs d x → UnlinkBien fs path d c x)
      ∧ (fs.sb.blockSize ≤ 2 ^ 16 → (UnlinkBien fs path d c x ↔ UnionCabe fs d x)) := by
  have hsi : UnionCabe fs d x → UnlinkBien fs path d c x := by
    intro hu
    obtain ⟨hd, hx, hxd⟩ := h.ruta hr hreg
    obtain ⟨dss, hdss⟩ := h.directorio hd hr.directorio
    obtain ⟨fs₀, hb, hborrada⟩ := h.consistente.borrarEntrada hd hdss hr.directorio.iMode hu
    exact ⟨_, hr.procesar hd hreg hb,
      (h.soltado hd hx hxd hborrada.solo).desenlazado h hr hreg huna hdss hborrada⟩
  refine ⟨hsi, fun hbs => ⟨fun hbien => ?_, hsi⟩⟩
  by_contra hu
  obtain ⟨fs', hproc, -, hnone⟩ := h.unlink_desborda hr hreg huna hbs hu
  obtain ⟨fs'', hproc', hdes⟩ := hbien
  obtain ⟨rfl, -⟩ := Prod.mk.inj (Option.some.inj (hproc.symm.trans hproc'))
  cases hnone.symm.trans hdes.ausente

end Unlink

/-! ## Blocks of 64 KiB -/

/-- One group of eight blocks of 64 KiB.  The root has one block, 5, with two
    records of 32 KiB: `e`, inode 4, a file of three bytes in block 6, and `f`,
    inode 3, an empty one. -/
def imagenGrande : Ext2 where
  disco := fun o =>
    if o = 2 * 65536 then 0x7F else if o = 3 * 65536 then 0x0F else if o / 65536 = 3 then 0xFF
    else (([(262272, 0xED), (262273, 0x41), (262278, 1), (262312, 5), (262400, 0xA4),
      (262401, 0x81), (262528, 0xA4), (262529, 0x81), (262532, 3), (262568, 6), (327680, 4),
      (327685, 0x80), (327686, 1), (327688, 101), (360448, 3), (360453, 0x80), (360454, 1),
      (360456, 102), (393216, 65), (393217, 66), (393218, 67)].find? fun p =>
        p.1 == o).map Prod.snd).getD 0
  sb := ⟨8, 8, 1, 4, 0, 6, 16, 8⟩
  bgdt := [⟨2, 3, 4, 1, 4, 1⟩]

/-- The root has block 5. -/
theorem raiz_imagenGrande : imagenGrande.bloquesDe inodoRaiz = 1
    ∧ leerBloque imagenGrande 0 (leerInodo imagenGrande inodoRaiz) = 5 := by
  decide

theorem enUso_imagenGrande :
    imagenGrande.EnUso 2 ∧ imagenGrande.EnUso 3 ∧ imagenGrande.EnUso 4 := by
  decide

/-- Of the inodes in use only the root is a directory. -/
theorem clases_imagenGrande : EsDirectorio imagenGrande inodoRaiz
    ∧ (∀ x < 9, imagenGrande.EnUso x → EsDirectorio imagenGrande x → x = inodoRaiz)
    ∧ EsRegular imagenGrande 3 ∧ EsRegular imagenGrande 4 := by
  decide

theorem consistente_imagenGrande : Consistente (· ≤ 4) imagenGrande :=
  ArchivosChicos.consistente (by decide)
    (geometria_unGrupo (by decide) (by decide) (by decide) (by decide) (by decide) (by decide)
      (fun _ => by decide) (by decide) ⟨⟨by decide, by decide⟩, by decide, by decide⟩ (by decide))

theorem inodos_imagenGrande : Inodos imagenGrande := by
  refine inodos_unGrupo (by decide) (by decide) (by decide) (by decide)
    (fun j hj hlt => ?_) (by decide) rfl (by decide)
  have hj' : 8 ≤ j := hj
  have hlt' : j < 8 * 65536 := hlt
  have hbyte : imagenGrande.disco (3 * 65536 + j / 8) = 0xFF := by
    show (if 3 * 65536 + j / 8 = 2 * 65536 then (0x7F : UInt8)
      else if 3 * 65536 + j / 8 = 3 * 65536 then 0x0F
      else if (3 * 65536 + j / 8) / 65536 = 3 then 0xFF else _) = 0xFF
    rw [if_neg (by omega), if_neg (by omega), if_pos (by omega)]
  show bitDe (imagenGrande.disco (3 * 65536 + j / 8)) j = true
  rw [hbyte]
  exact bitDe_lleno j

/-- The two records in the block of the root. -/
theorem registros_imagenGrande : Registros imagenGrande 5 0
    [⟨4, 32768, 1, 0, [101]⟩, ⟨3, 32768, 1, 0, [102]⟩] := by
  have h1 : leerDir imagenGrande (offsetBloque imagenGrande 5 0) = ⟨4, 32768, 1, 0, [101]⟩ := by
    decide +kernel
  have h2 : leerDir imagenGrande (offsetBloque imagenGrande 5 32768) = ⟨3, 32768, 1, 0, [102]⟩ := by
    decide +kernel
  have hdos : Registros imagenGrande 5 32768 [⟨3, 32768, 1, 0, [102]⟩] := by
    rw [← h2]
    refine .ultimo ?_ ?_ ?_ <;> rw [h2] <;> decide
  rw [← h1]
  refine .paso ?_ ?_ ?_
  · rw [h1]
    decide
  · rw [h1]
    decide
  · rw [h1]
    exact hdos

/-- What the root lists. -/
theorem listar_imagenGrande : listar imagenGrande inodoRaiz
    = some [⟨4, 32768, 1, 0, [101]⟩, ⟨3, 32768, 1, 0, [102]⟩] := by
  obtain ⟨huno, hcinco⟩ := raiz_imagenGrande
  refine listar_iff.mpr ⟨[[⟨4, 32768, 1, 0, [101]⟩, ⟨3, 32768, 1, 0, [102]⟩]], ?_, by decide⟩
  rw [huno]
  refine .cons ?_ .nil
  rw [hcinco]
  exact registros_imagenGrande.cadena (by decide)

/-- The directory of the image, and where a merge of its records would not fit. -/
theorem unionCabe_imagenGrande (x : Nat) : UnionCabe imagenGrande inodoRaiz x ↔ x ≠ 3 := by
  obtain ⟨huno, hcinco⟩ := raiz_imagenGrande
  constructor
  · rintro hu rfl
    have hsuma := hu 0 (by rw [huno]; decide) [] _ _ [] (hcinco ▸ registros_imagenGrande) rfl
    exact absurd hsuma (by decide)
  · intro hne i hi pre ant dir post hregs hx
    obtain rfl : i = 0 := by omega
    rw [hcinco] at hregs
    have hlista := hregs.unico registros_imagenGrande
    cases pre with
    | nil =>
        obtain ⟨-, hcola⟩ := List.cons.inj hlista
        obtain ⟨rfl, -⟩ := List.cons.inj hcola
        exact absurd hx.symm hne
    | cons a pre =>
        have hlargo := congrArg List.length hlista
        simp only [List.cons_append, List.length_cons, List.length_append,
          List.length_nil] at hlargo
        omega

/-- Every listing of the root is that one. -/
theorem lista_imagenGrande {ds : List Dir} (h : Lista imagenGrande inodoRaiz ds) :
    ds = [⟨4, 32768, 1, 0, [101]⟩, ⟨3, 32768, 1, 0, [102]⟩] :=
  Option.some.inj ((listar_iff.mpr h).symm.trans listar_imagenGrande)

/-- The root is the only directory. -/
theorem esDirectorio_imagenGrande {x : Nat} (hx : imagenGrande.EnUso x)
    (h : EsDirectorio imagenGrande x) : x = inodoRaiz :=
  clases_imagenGrande.2.1 x (Nat.lt_succ_of_le hx.2.1) hx h

/-- The image is sound. -/
theorem volumenSano_imagenGrande : VolumenSano (· ≤ 4) imagenGrande := by
  obtain ⟨huno, hcinco⟩ := raiz_imagenGrande
  obtain ⟨hdos, htres, hcuatro⟩ := enUso_imagenGrande
  refine ⟨consistente_imagenGrande, inodos_imagenGrande, by decide, hdos, fun y hy hd => ?_,
    fun y z c hy hd hs => ?_, fun y ds hy hd hl => ?_⟩
  · obtain rfl := esDirectorio_imagenGrande hy hd
    refine ⟨by decide, fun i hi => ?_⟩
    obtain rfl : i = 0 := by omega
    exact ⟨_, hcinco ▸ registros_imagenGrande⟩
  · obtain rfl := esDirectorio_imagenGrande hy hd
    obtain ⟨ds, dir, hl, hfind, rfl⟩ := hs
    rw [lista_imagenGrande hl] at hfind
    have hmem := List.mem_of_find?_eq_some hfind
    rcases List.mem_cons.mp hmem with rfl | hmem
    · exact hcuatro
    · obtain rfl := List.mem_singleton.mp hmem
      exact htres
  · obtain rfl := esDirectorio_imagenGrande hy hd
    rw [lista_imagenGrande hl]
    decide

/-- The paths of the two files. -/
theorem ruta_imagenGrande {path c : List UInt8} {x : Nat} (habs : path.head? = some 47)
    (hfin : path.getLast? ≠ some 47) (hcomp : componentes path = [c])
    (hfind : ([⟨4, 32768, 1, 0, [101]⟩, ⟨3, 32768, 1, 0, [102]⟩] : List Dir).find?
      (fun dir => dir.nombre == c) = some ⟨x, 32768, 1, 0, c⟩) :
    RutaDe imagenGrande path inodoRaiz c x :=
  ⟨habs, hfin, ⟨[], hcomp, .fin _⟩, clases_imagenGrande.1,
    _, _, listar_iff.mp listar_imagenGrande, hfind, rfl⟩

/-- Each file has one entry. -/
theorem unaEntrada_imagenGrande {x : Nat} (hx : x = 3 ∨ x = 4) :
    UnaEntrada imagenGrande inodoRaiz x := by
  intro ds hl
  rw [lista_imagenGrande hl]
  rcases hx with rfl | rfl
  · decide
  · decide

/-- Block 6 is the one the first file has. -/
theorem delArchivo_imagenGrande : DelArchivo imagenGrande 4 6 :=
  ⟨0, [], ⟨Valido.nil (by decide), by decide⟩, by decide⟩

/-- The first file goes as it should, and its block is free. -/
theorem procesarUnlink_suelta_primera : UnlinkBien imagenGrande [47, 101] inodoRaiz [101] 4
    ∧ ∃ fs', procesarUnlink imagenGrande [47, 101] = some (fs', .result 0)
      ∧ imagenGrande.bitBloque 6 = true ∧ fs'.bitBloque 6 = false := by
  have hruta : RutaDe imagenGrande [47, 101] inodoRaiz [101] 4 :=
    ruta_imagenGrande rfl (by decide) (by decide) (by decide)
  have h := (procesarUnlink_suelta volumenSano_imagenGrande hruta clases_imagenGrande.2.2.2
    (unaEntrada_imagenGrande (.inr rfl))).1 ((unionCabe_imagenGrande 4).mpr (by decide))
  obtain ⟨fs', hr, hdes⟩ := h
  exact ⟨⟨fs', hr, hdes⟩, fs', hr,
    (hdes.bloques 6 (by decide)).1.mpr delArchivo_imagenGrande⟩

/-- **THE SECOND ONE** takes the directory with it: its 32 KiB and those of the
    record before make a length of zero, and the lookup of the first one, which
    was found, does not end any more. -/
theorem procesarUnlink_pierde : VolumenSano (· ≤ 4) imagenGrande
    ∧ RutaDe imagenGrande [47, 102] inodoRaiz [102] 3 ∧ EsRegular imagenGrande 3
    ∧ UnaEntrada imagenGrande inodoRaiz 3
    ∧ (∃ fs', procesarUnlink imagenGrande [47, 102] = some (fs', .result 0)
      ∧ buscarPath imagenGrande [47, 101] = some 4 ∧ buscarPath fs' [47, 101] = none)
    ∧ ¬ UnlinkBien imagenGrande [47, 102] inodoRaiz [102] 3 := by
  have hruta : RutaDe imagenGrande [47, 102] inodoRaiz [102] 3 :=
    ruta_imagenGrande rfl (by decide) (by decide) (by decide)
  have hreg : EsRegular imagenGrande 3 := clases_imagenGrande.2.2.1
  have huna := unaEntrada_imagenGrande (.inl rfl)
  obtain ⟨fs', hproc, hlista, hnone⟩ := volumenSano_imagenGrande.unlink_desborda hruta hreg huna
    (by decide) fun hu => absurd rfl ((unionCabe_imagenGrande 3).mp hu)
  have hcomp : componentes [47, 101] = [[101]] := by decide
  have hraiz : inodoRaiz ≠ 0 := by decide
  refine ⟨volumenSano_imagenGrande, hruta, hreg, huna, ⟨fs', hproc, ?_, ?_⟩, ?_⟩
  · rw [buscarPath, hcomp, buscarDesde_cons hraiz, paso, listar_imagenGrande]
    decide
  · rw [buscarPath, hcomp, buscarDesde_cons hraiz, paso, hlista, Option.map_none, Option.bind_none]
  · rintro ⟨fs'', hproc', hdes⟩
    obtain ⟨rfl, -⟩ := Prod.mk.inj (Option.some.inj (hproc.symm.trans hproc'))
    cases hnone.symm.trans hdes.ausente

end Rfs
