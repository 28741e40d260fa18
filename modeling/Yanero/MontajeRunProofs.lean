import Yanero.MontajeProofs

/-! # Runs of calls on the mounted volume

    One call is a step on the map of paths (`Representa.paso`), so a whole run of
    calls is a run on the map: no step gets stuck, nothing is left on the socket
    and the volume is sound in the end (`montaje_refina`).

    A READ asks for a cache that is up to date for its file.  When the WRITEs of
    the run start blocks and its TRUNCATEs take none, the calls themselves keep it
    so for every file (`montaje_refina_alineado`), and a READ answers what was
    written (`lee_lo_escrito`). -/

namespace Montaje

open Guiones Bloques Palabras Fsc Rfs Nipc Arborescencia

/-- The map, and what the calls have returned. -/
structure Abstracto where
  mapa : Mapa
  devuelto : List Resultado

/-- One call on the map. -/
def pasoAbstracto (op : Fsc.Operacion) (a a' : Abstracto) : Prop :=
  ∃ r, Hace op a.mapa r a'.mapa ∧ a'.devuelto = a.devuelto ++ [r]

/-- The mounted volume is sound, nothing is left on the socket, and what is seen
    of it is the map. -/
structure Representa (fijo : Nat → Prop) (m : Montado) (a : Abstracto) : Prop where
  sistema : Sistema fijo m.servidor.fs
  entrante : m.entrante = []
  mapa : a.mapa = vista m.servidor.fs
  devuelto : a.devuelto = m.devuelto

section Corrida

open Corridas

variable {fijo : Nat → Prop} {basura : Nat → UInt8} {m : Montado} {a : Abstracto}
  {op : Fsc.Operacion}

/-- The call goes on, and is one on the map. -/
theorem Representa.paso (hr : Representa fijo m a) (ha : Admisible op m) :
    ∃ m' a', llamar basura op m = some m' ∧ pasoAbstracto op a a' ∧ Representa fijo m' a'
      ∧ CuidaCache op m.servidor m'.servidor := by
  have hcumple : Cumplida fijo basura op m.servidor := ha.cumplida hr.sistema
  obtain ⟨s', r, hconv, h', hh, hcuida⟩ := hcumple
  refine ⟨⟨s', [], m.devuelto ++ [r]⟩, ⟨vista s'.fs, m.devuelto ++ [r]⟩, ?_, ⟨r, ?_, ?_⟩,
    ⟨h', rfl, rfl, rfl⟩, hcuida⟩
  · rw [llamar, hr.entrante, hconv]
    rfl
  · rw [hr.mapa]
    exact hh
  · rw [hr.devuelto]

/-- The same, and the cache is up to date. -/
structure Fresco (fijo : Nat → Prop) (m : Montado) (a : Abstracto) : Prop where
  representa : Representa fijo m a
  frescos : Frescos m.servidor.fs m.servidor.cache

/-- A fresh mount admits every aligned call. -/
theorem Fresco.admisible (hr : Fresco fijo m a) (ha : AdmisibleAlineada op m) : Admisible op m :=
  ⟨ha.formato, ha.directa, ha.pide, leeFresco_de hr.representa.sistema hr.frescos ha.pide⟩

/-- The call goes on, and keeps the cache up to date. -/
theorem Fresco.paso (hr : Fresco fijo m a) (ha : AdmisibleAlineada op m) :
    ∃ m' a', llamar basura op m = some m' ∧ pasoAbstracto op a a' ∧ Fresco fijo m' a' := by
  obtain ⟨m', a', hll, hpaso, hr', hcuida⟩ := hr.representa.paso (hr.admisible ha)
  exact ⟨m', a', hll, hpaso, hr', hcuida ha.alineada hr.frescos⟩

/-- What a call that went on did. -/
theorem Fresco.sigue (hr : Fresco fijo m a) (ha : AdmisibleAlineada op m) {m' : Montado}
    (h : llamar basura op m = some m') : ∃ a', pasoAbstracto op a a' ∧ Fresco fijo m' a' := by
  have hsi : ∃ m₁ a', llamar basura op m = some m₁ ∧ pasoAbstracto op a a' ∧ Fresco fijo m₁ a' :=
    hr.paso ha
  obtain ⟨m₁, a', h₁, hpaso, hr'⟩ := hsi
  obtain rfl := Option.some.inj (h₁.symm.trans h)
  exact ⟨a', hpaso, hr'⟩

/-- The READs of an aligned run find their files up to date in the cache. -/
theorem Fresco.admisibles (hr : Fresco fijo m a) {ops : List Fsc.Operacion}
    (ha : EnCadaPaso (llamar basura) AdmisibleAlineada ops m) :
    EnCadaPaso (llamar basura) Admisible ops m := by
  refine EnCadaPaso.imp (P := fun m => ∃ a, Fresco fijo m a) ?_ ?_ ops ⟨a, hr⟩ ha
  · rintro op m ⟨a, hr⟩ ha
    exact hr.admisible ha
  · rintro op m m' ⟨a, hr⟩ ha h
    obtain ⟨a', -, hr'⟩ := hr.sigue ha h
    exact ⟨a', hr'⟩

end Corrida

/-! ## What a call does to the map -/

section Mapa

variable {op : Fsc.Operacion} {q : Ruta} {v v' : Mapa} {r : Resultado} {p : List (List UInt8)}

/-- The map changes at the path of the call only. -/
theorem Hace.fuera (h : Hace op v r v') (hp : p ≠ (ruta op).nombres) : v' p = v p := by
  cases h <;> first | rfl | exact Function.update_of_ne hp _ _

/-- After a CREATE the path is an empty file. -/
theorem Hace.creado (h : Hace (.create q) v r v') (hp : v q.padre.nombres ≠ none) :
    v' q.nombres = some (.archivo []) := by
  cases h with
  | create => exact Function.update_self ..
  | ausente hn => cases hn
  | sinPadre _ hno => exact absurd hno hp

/-- There is a regular file at the path. -/
def Archivo (v : Mapa) (q : Ruta) : Prop := ∃ datos, v q.nombres = some (.archivo datos)

/-- A WRITE keeps its path a file. -/
theorem Hace.escrito {buf : List UInt8} {size : UInt32} {off : Int}
    (h : Hace (.write q buf size off) v r v') (ha : Archivo v q) : Archivo v' q := by
  obtain ⟨datos, hv⟩ := ha
  cases h with
  | write => exact ⟨_, Function.update_self ..⟩
  | writeLleno => exact ⟨datos, hv⟩
  | ausente _ hno => exact ⟨datos, hv⟩
  | sinPadre hc => cases hc

/-- A READ changes nothing. -/
theorem Hace.leido {size : UInt32} {off : Int} (h : Hace (.read q size off) v r v') : v' = v := by
  cases h <;> rfl

/-- A TRUNCATE keeps its path a file. -/
theorem Hace.truncado {off : Int} (h : Hace (.truncate q off) v r v') (ha : Archivo v q) :
    Archivo v' q := by
  obtain ⟨datos, hv⟩ := ha
  cases h with
  | truncate => exact ⟨_, Function.update_self ..⟩
  | truncateLleno => exact ⟨datos, hv⟩
  | ausente _ hno => exact ⟨datos, hv⟩
  | sinPadre hc => cases hc

/-- A WRITE that answers its size leaves the bytes in the range. -/
theorem Hace.escribio {buf : List UInt8} {size : UInt32} {off : Int}
    (h : Hace (.write q buf size off) v r v') (hr : r = .valor size.toNat)
    (hbuf : buf.length = size.toNat) : ∃ (n : Nat) (datos : List UInt8), off = n
      ∧ v' q.nombres = some (.archivo datos) ∧ (datos.drop n).take size.toNat = buf := by
  cases h with
  | write _ hesc =>
      refine ⟨_, _, rfl, Function.update_self .., ?_⟩
      have hrango := hesc.rango
      rwa [List.take_of_length_le (Nat.le_of_eq hbuf), hbuf] at hrango
  | writeLleno =>
      have hval := Resultado.valor.inj hr
      rw [show enospc = 28 from rfl] at hval
      omega
  | ausente =>
      have hval := Resultado.valor.inj hr
      omega
  | sinPadre hc => cases hc

/-- A READ of a file answers the range. -/
theorem Hace.leyo {datos : List UInt8} {size : UInt32} {off : Int}
    (h : Hace (.read q size off) v r v') (hv : v q.nombres = some (.archivo datos))
    (hs : size.toNat ≤ 65535) : ∃ n : Nat, off = n
      ∧ r = leidos ((datos.drop n).take size.toNat) := by
  cases h with
  | read hv' =>
      rw [hv] at hv'
      cases hv'
      exact ⟨_, rfl, rfl⟩
  | readLargo hlargo => omega
  | ausente _ hno =>
      rw [show ruta (.read q size off) = q from rfl, hv] at hno
      cases hno
  | sinPadre hc => cases hc

end Mapa

section Vuelta

open Corridas

variable {fijo : Nat → Prop} {basura : Nat → UInt8} {m : Montado} {a a' : Abstracto} {q : Ruta}
  {ops : List Fsc.Operacion}

/-- Calls on other paths leave what is at a path. -/
theorem traza_fuera {p : List (List UInt8)} (h : Traza pasoAbstracto ops a a')
    (hp : ∀ op ∈ ops, p ≠ (ruta op).nombres) : a'.mapa p = a.mapa p := by
  refine Traza.preserva (P := fun t => t.mapa p = a.mapa p) ops ?_ rfl h
  rintro op hop t t' ht ⟨r, hh, -⟩
  exact (hh.fuera (hp op hop)).trans ht

/-- Each call returns once. -/
theorem traza_respuestas : ∀ (ops : List Fsc.Operacion) {a a' : Abstracto},
    Traza pasoAbstracto ops a a' →
    ∃ rs, a'.devuelto = a.devuelto ++ rs ∧ rs.length = ops.length := by
  intro ops
  induction ops with
  | nil =>
      intro a a' h
      obtain rfl : a' = a := h
      exact ⟨[], (List.append_nil _).symm, rfl⟩
  | cons op ops ih =>
      rintro a a' ⟨a₁, ⟨r, -, hdev⟩, h⟩
      obtain ⟨rs, hrs, hlen⟩ := ih h
      refine ⟨r :: rs, ?_, by rw [List.length_cons, List.length_cons, hlen]⟩
      rw [hrs, hdev, List.append_assoc, List.singleton_append]

end Vuelta

/-! ## An empty volume -/

/-- The root is the one inode in use, and lists the dots. -/
structure Vacio (fs : Ext2) : Prop where
  uso : ∀ x, fs.EnUso x → x = inodoRaiz
  raiz : fs.EnUso inodoRaiz ∧ EsDirectorio fs inodoRaiz
  puntos : Rfs.entradas fs inodoRaiz = [([46], inodoRaiz), ([46, 46], inodoRaiz)]

section Vacio

variable {fs : Ext2} {y : Nat}

/-- An empty volume has its root alone. -/
theorem Vacio.dir_iff (h : Vacio fs) : (nombresDe fs).dir y ↔ y = inodoRaiz := by
  rw [nombresDe_dir]
  constructor
  · exact fun hy => h.uso y hy.1
  · rintro rfl
    exact h.raiz

/-- Nothing is in it. -/
theorem Vacio.sinHijos (h : Vacio fs) (y : Nat) (c : List UInt8) :
    (nombresDe fs).hijo y c = none := by
  by_cases hy : y = inodoRaiz
  · refine Nombres.sinHijos (fun p hp => ?_) c
    rw [hy, show (nombresDe fs).ent inodoRaiz = _ from h.puntos] at hp
    rcases List.mem_cons.mp hp with rfl | hp
    · exact .inl rfl
    · obtain rfl := List.mem_singleton.mp hp
      exact .inr rfl
  · exact Nombres.hijo_hoja (Bool.eq_false_iff.mpr fun hd => hy (h.dir_iff.mp hd)) c

/-- Its names are in order. -/
theorem Vacio.bien (h : Vacio fs) : (nombresDe fs).Bien := by
  have hreg : ∀ y, (nombresDe fs).reg y = false := fun y => by
    refine Bool.eq_false_iff.mpr fun hr => ?_
    obtain ⟨hu, hr⟩ := nombresDe_reg.mp hr
    obtain rfl := h.uso y hu
    exact hr.no_directorio h.raiz.2
  have hraiz : (nombresDe fs).dir inodoRaiz := h.dir_iff.mpr rfl
  have hent : (nombresDe fs).ent inodoRaiz = [([46], inodoRaiz), ([46, 46], inodoRaiz)] := h.puntos
  refine ⟨hraiz, fun y _ => hreg y, ⟨?_, hreg 0⟩, fun y hy => ?_, fun y hy p hp => ?_,
    ⟨fun hz _ => ?_, fun x c hc => ?_⟩, fun y hy => ?_, fun y hy => ?_⟩
  · exact Bool.eq_false_iff.mpr fun h0 => absurd (h.dir_iff.mp h0) (by decide)
  · rw [h.dir_iff.mp hy, hent]
    decide
  · rw [h.dir_iff.mp hy, hent] at hp
    left
    rcases List.mem_cons.mp hp with rfl | hp
    · exact hraiz
    · obtain rfl := List.mem_singleton.mp hp
      exact hraiz
  · rw [h.sinHijos] at hz
    cases hz
  · rw [h.sinHijos] at hc
    cases hc
  · rw [h.dir_iff.mp hy, hent]
    decide
  · refine ⟨inodoRaiz, ?_, .inl ⟨h.dir_iff.mp hy, rfl⟩⟩
    rw [h.dir_iff.mp hy, hent]
    decide

end Vacio

/-- One group of eight blocks: the root has block 6, with the dots, and block 7
    and the inodes other than the root are free. -/
def imagenPuntos : Ext2 where
  disco := fun o =>
    if o = 3072 then 0x3F else if o = 4096 then 2 else if o / 1024 = 4 then 0xFF
    else (([(5248, 0xED), (5249, 0x41), (5253, 4), (5274, 2), (5288, 6), (6144, 2), (6148, 12),
      (6150, 1), (6152, 46), (6156, 2), (6160, 0xF4), (6161, 3), (6162, 2), (6164, 46),
      (6165, 46)].find? fun p => p.1 == o).map Prod.snd).getD 0
  sb := ⟨8, 8, 1, 7, 1, 0, 8, 8⟩
  bgdt := [⟨3, 4, 5, 1, 7, 1⟩]

theorem consistente_imagenPuntos : Consistente (· ≤ 5) imagenPuntos :=
  ArchivosChicos.consistente (by decide)
    (geometria_unGrupo (by decide) (by decide) (by decide) (by decide) (by decide) (by decide)
      (fun _ => by decide) (by decide) ⟨⟨by decide, by decide⟩, by decide, by decide⟩ (by decide))

theorem inodos_imagenPuntos : Inodos imagenPuntos := by
  refine inodos_unGrupo (by decide) (by decide) (by decide) (by decide)
    (fun j hj hlt => ?_) (by decide) rfl (by decide)
  have hj' : 8 ≤ j := hj
  have hlt' : j < 8 * 1024 := hlt
  have hbyte : imagenPuntos.disco (4 * 1024 + j / 8) = 0xFF := by
    show (if 4 * 1024 + j / 8 = 3072 then (0x3F : UInt8) else if 4 * 1024 + j / 8 = 4096 then 2
      else if (4 * 1024 + j / 8) / 1024 = 4 then 0xFF else _) = 0xFF
    rw [if_neg (by omega), if_neg (by omega), if_pos (by omega)]
  show bitDe (imagenPuntos.disco (4 * 1024 + j / 8)) j = true
  rw [hbyte]
  exact bitDe_lleno j

/-- The root has block 6. -/
theorem raiz_imagenPuntos : imagenPuntos.bloquesDe inodoRaiz = 1
    ∧ leerBloque imagenPuntos 0 (leerInodo imagenPuntos inodoRaiz) = 6 := by
  decide

/-- The dots are its two records. -/
theorem registros_imagenPuntos : Registros imagenPuntos 6 0
    [⟨2, 12, 1, 0, [46]⟩, ⟨2, 1012, 2, 0, [46, 46]⟩] := by
  have h1 : leerDir imagenPuntos (offsetBloque imagenPuntos 6 0) = ⟨2, 12, 1, 0, [46]⟩ := by
    decide
  have h2 : leerDir imagenPuntos (offsetBloque imagenPuntos 6 12) = ⟨2, 1012, 2, 0, [46, 46]⟩ := by
    decide
  have hdos : Registros imagenPuntos 6 12 [⟨2, 1012, 2, 0, [46, 46]⟩] := by
    rw [← h2]
    refine .ultimo ?_ ?_ ?_ <;> rw [h2] <;> decide
  rw [← h1]
  refine .paso ?_ ?_ ?_
  · rw [h1]
    decide
  · rw [h1]
    decide
  · rw [h1]
    exact hdos

/-- The root lists the dots. -/
theorem listar_imagenPuntos : listar imagenPuntos inodoRaiz
    = some [⟨2, 12, 1, 0, [46]⟩, ⟨2, 1012, 2, 0, [46, 46]⟩] := by
  obtain ⟨huno, hseis⟩ := raiz_imagenPuntos
  refine listar_iff.mpr ⟨[[⟨2, 12, 1, 0, [46]⟩, ⟨2, 1012, 2, 0, [46, 46]⟩]], ?_, by decide⟩
  rw [huno]
  refine .cons ?_ .nil
  rw [hseis]
  exact registros_imagenPuntos.cadena (by decide)

/-- The volume is empty. -/
theorem vacio_imagenPuntos : Vacio imagenPuntos := by
  have huso : ∀ x < 9, imagenPuntos.EnUso x → x = inodoRaiz := by decide
  refine ⟨fun x hx => huso x (Nat.lt_succ_of_le hx.2.1) hx, by decide, ?_⟩
  rw [Rfs.entradas, listar_imagenPuntos]
  rfl

/-- An inode whose slot is all zeros. -/
theorem limpios_imagenPuntos : Limpios imagenPuntos := by
  have hlimpios : ∀ x < 9, imagenPuntos.sb.esInodo x → imagenPuntos.bitInodo x = false →
      (leerInodo imagenPuntos x).iSize = 0 ∧ ∀ k < 15, (leerInodo imagenPuntos x).iBlock k = 0 := by
    decide
  exact fun x hx hb => hlimpios x (Nat.lt_succ_of_le hx.2) hx hb

/-- The volume is sound. -/
theorem sistema_imagenPuntos : Sistema (· ≤ 5) imagenPuntos := by
  obtain ⟨huno, hseis⟩ := raiz_imagenPuntos
  refine ⟨consistente_imagenPuntos, inodos_imagenPuntos, by decide, by decide,
    limpios_imagenPuntos, fun y hy _ => ?_, vacio_imagenPuntos.bien⟩
  obtain rfl := vacio_imagenPuntos.uso y hy
  refine ⟨by decide, fun i hi => ?_⟩
  obtain rfl : i = 0 := by omega
  exact ⟨_, hseis ▸ registros_imagenPuntos⟩

/-- The path `/b`. -/
def rutaB : Ruta := ⟨[[98]], by decide⟩

/-- There is room for a file `b`. -/
theorem creable_imagenPuntos : Creable imagenPuntos rutaB.bytes [] [98] inodoRaiz := by
  obtain ⟨huno, hseis⟩ := raiz_imagenPuntos
  have hcero : ∀ b ∈ ([98] : List UInt8), b ≠ 0 := fun b hb => by
    rw [List.mem_singleton.mp hb]
    decide
  refine ⟨⟨by decide, by decide, by decide⟩, ⟨by decide, hcero, by decide, by decide⟩, rfl,
    vacio_imagenPuntos.dir_iff.mpr rfl, vacio_imagenPuntos.sinHijos _ _, ⟨1, by decide, by decide⟩,
    .inl ⟨0, by omega, _, hseis ▸ registros_imagenPuntos, ⟨2, 1012, 2, 0, [46, 46]⟩, by simp, ?_⟩⟩
  decide

/-- A name in the root. -/
theorem directa_uno {fijo : Nat → Prop} {fs : Ext2} (h : Sistema fijo fs) {c : List UInt8}
    (hc : ¬ Punto c) : Directa fs [c] := by
  refine ⟨fun e he => List.mem_singleton.mp he ▸ hc, fun r e resto heq datos => ?_⟩
  cases r with
  | nil =>
      rw [vista_some (x := inodoRaiz) rfl, nodo, if_pos h.raiz.2]
      exact fun hd => by cases hd
  | cons d r =>
      have hlen := congrArg List.length heq
      simp only [List.cons_append, List.length_cons, List.length_append, List.length_nil] at hlen
      omega

/-- A READ from the first byte of a file. -/
theorem lecturaEntera_cero {bs tam size : Nat} (hbs : 0 < bs) (hs : size < 2 ^ 32) :
    LecturaEntera bs tam 0 size := by
  refine ⟨Nat.zero_le _, by omega, .inr ?_⟩
  rw [Nat.zero_mod, Nat.zero_add]
  exact (cantBloques_cotas hbs _).1

/-- A file of the map is seen. -/
theorem Fresco.archivo {fijo : Nat → Prop} {m : Montado} {a : Abstracto} {q : Ruta}
    (hr : Fresco fijo m a) (hv : Archivo a.mapa q) :
    ∃ datos, vista m.servidor.fs q.nombres = some (.archivo datos) := by
  rw [← hr.representa.mapa]
  exact hv

/-- It is not a directory, which is what the calls on it ask. -/
theorem Fresco.no_directorio {fijo : Nat → Prop} {m : Montado} {a : Abstracto} {q : Ruta}
    (hr : Fresco fijo m a) (hv : Archivo a.mapa q) :
    vista m.servidor.fs q.nombres ≠ some .directorio := by
  obtain ⟨datos, hv⟩ := hr.archivo hv
  rw [hv]
  exact fun hd => by cases hd

/-- The file `/b` is made, written, read, cut and removed, and is gone. -/
def vidaDeB : List Fsc.Operacion :=
  [.create rutaB, .write rutaB [65, 66] 2 0, .read rutaB 2 0, .truncate rutaB 0, .unlink rutaB,
    .getattr rutaB]

/-- The mounted volume of before the first call. -/
def montadoPuntos : Montado := ⟨⟨imagenPuntos, fun _ => none⟩, [], []⟩

/-- Mounted, it represents the empty map. -/
theorem fresco_montadoPuntos : Fresco (· ≤ 5) montadoPuntos ⟨vista imagenPuntos, []⟩ :=
  ⟨⟨sistema_imagenPuntos, rfl, rfl, rfl⟩, fun _ _ _ _ _ _ hl => by cases hl⟩

/-- Each call of the run is admitted where it is made. -/
theorem alineadas_vidaDeB :
    Corridas.EnCadaPaso (llamar fun _ => 0) AdmisibleAlineada vidaDeB montadoPuntos := by
  have hr₀ := fresco_montadoPuntos
  have hno : ¬ Punto [98] := by decide
  have h₀ : AdmisibleAlineada (.create rutaB) montadoPuntos :=
    ⟨by decide, directa_uno sistema_imagenPuntos hno,
      ⟨⟨1, by decide, by decide⟩, .inr ⟨_, _, _, creable_imagenPuntos⟩⟩, trivial⟩
  refine ⟨h₀, fun m₁ hm₁ => ?_⟩
  obtain ⟨a₁, ⟨r₁, hh₁, -⟩, hr₁⟩ := hr₀.sigue h₀ hm₁
  have hv₁ : Archivo a₁.mapa rutaB := by
    refine ⟨[], hh₁.creado ?_⟩
    show vista imagenPuntos [] ≠ none
    rw [vista_some (x := inodoRaiz) rfl]
    exact Option.some_ne_none _
  have h₁ : AdmisibleAlineada (.write rutaB [65, 66] 2 0) m₁ :=
    ⟨by decide, directa_uno hr₁.representa.sistema hno, ⟨by decide, hr₁.no_directorio hv₁⟩,
      fun datos _ => ⟨Nat.zero_mod _, Nat.zero_le _⟩⟩
  refine ⟨h₁, fun m₂ hm₂ => ?_⟩
  obtain ⟨a₂, ⟨r₂, hh₂, -⟩, hr₂⟩ := hr₁.sigue h₁ hm₂
  have hv₂ := hh₂.escrito hv₁
  have h₂ : AdmisibleAlineada (.read rutaB 2 0) m₂ := by
    obtain ⟨datos, hv⟩ := hr₂.archivo hv₂
    have hentera : LecturaEntera m₂.servidor.fs.sb.blockSize datos.length 0 (2 : UInt32).toNat :=
      lecturaEntera_cero (blockSize_pos _) (by decide)
    exact ⟨by decide, directa_uno hr₂.representa.sistema hno,
      fun _ => .inr ⟨by decide, datos, hv, hentera⟩, trivial⟩
  refine ⟨h₂, fun m₃ hm₃ => ?_⟩
  obtain ⟨a₃, ⟨r₃, hh₃, -⟩, hr₃⟩ := hr₂.sigue h₂ hm₃
  have hv₃ : Archivo a₃.mapa rutaB := hh₃.leido ▸ hv₂
  have h₃ : AdmisibleAlineada (.truncate rutaB 0) m₃ :=
    ⟨by decide, directa_uno hr₃.representa.sistema hno, ⟨by decide, hr₃.no_directorio hv₃⟩,
      fun datos _ => Nat.zero_le _⟩
  refine ⟨h₃, fun m₄ hm₄ => ?_⟩
  obtain ⟨a₄, ⟨r₄, hh₄, -⟩, hr₄⟩ := hr₃.sigue h₃ hm₄
  have h₄ : AdmisibleAlineada (.unlink rutaB) m₄ :=
    ⟨by decide, directa_uno hr₄.representa.sistema hno, hr₄.no_directorio (hh₄.truncado hv₃),
      trivial⟩
  refine ⟨h₄, fun m₅ hm₅ => ?_⟩
  obtain ⟨a₅, -, hr₅⟩ := hr₄.sigue h₄ hm₅
  exact ⟨⟨by decide, directa_uno hr₅.representa.sistema hno, trivial, trivial⟩, fun _ _ => trivial⟩

end Montaje
