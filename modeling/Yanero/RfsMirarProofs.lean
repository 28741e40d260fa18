import Yanero.RfsAlterarProofs
import Yanero.RfsLeerProofs
import Yanero.RfsServidor

/-! # What the questions answer

    GETATTR, READDIR, OPEN and READ walk the path and look at one inode.  On a
    sound volume the walk ends, and leads to what is seen at the path
    (`Sistema.busca`), so each of them answers what the view says: the class and
    the size, the names below, the bytes of a range.

    READ takes the blocks from the cache.  It is right when what the cache holds
    of the blocks of that file are their bytes (`Fresca`); other blocks may be
    anything. -/

namespace Rfs

open Arborescencia Bloques Palabras

/-- A path whose components are names, all but the last of directories or of
    nothing. -/
structure Directa (fs : Ext2) (q : List (List UInt8)) : Prop where
  sinPuntos : ∀ c ∈ q, ¬ Punto c
  directorios : ∀ r c resto, q = r ++ c :: resto → ∀ datos, vista fs r ≠ some (.archivo datos)

/-- What the mode and the size say of what is at a path. -/
def Nodo.Atributos : Nodo → Nat → Nat → Prop
  | .directorio, modo, _ => modo / 2 ^ 12 = 4
  | .archivo datos, modo, tam => modo / 2 ^ 12 = 8 ∧ tam = datos.length

section Mirar

variable {fijo : Nat → Prop} {fs fs' : Ext2} {x d : Nat} {q : List (List UInt8)}
  {path : List UInt8} {n : Nodo}

/-! ## The lookup -/

/-- What is seen at a path that leads somewhere. -/
theorem vista_some (h : andar (nombresDe fs).hijo inodoRaiz q = some x) :
    vista fs q = some (nodo fs x) := by
  rw [vista, h, Option.map_some]

/-- The directories of the volume are looked up the same in another image. -/
def MismosPasos (fs fs' : Ext2) : Prop :=
  ∀ y c, fs.EnUso y → EsDirectorio fs y → paso fs' y c = paso fs y c

/-- From a directory on, the loop of the lookup follows the names of the tree,
    and ends with zero where one is missing. -/
theorem Sistema.buscarDesde (h : Sistema fijo fs) (hpasos : MismosPasos fs fs') :
    ∀ {cs : List (List UInt8)} {y : Nat}, y ≠ 0 → (∀ c ∈ cs, ¬ Punto c) →
    (∀ r c resto, cs = r ++ c :: resto → ∀ z, andar (nombresDe fs).hijo y r = some z →
      (nombresDe fs).dir z) →
    Rfs.buscarDesde fs' y cs = some ((andar (nombresDe fs).hijo y cs).getD 0) := by
  intro cs
  induction cs with
  | nil => exact fun _ _ _ => rfl
  | cons c cs ih =>
      intro y hy hp hdir
      have hd := hdir [] c cs rfl y rfl
      obtain ⟨huso, hes⟩ := nombresDe_dir.mp hd
      rw [buscarDesde_cons hy, hpasos y c huso hes, h.paso huso hes c, Option.bind_some, andar]
      obtain ⟨w, hw⟩ : ∃ w, buscarPar (entradas fs y) c = w := ⟨_, rfl⟩
      rw [hw]
      by_cases h0 : w = 0
      · subst h0
        have hno : (nombresDe fs).hijo y c = none := Nombres.hijo_none fun z hz => by
          obtain ⟨-, -, hz, hne⟩ := Nombres.hijo_iff.mp hz
          exact hne (hz.symm.trans hw)
        rw [hno, buscarDesde_cero]
        rfl
      · have hsi : (nombresDe fs).hijo y c = some w :=
          Nombres.hijo_iff.mpr ⟨hd, hp c List.mem_cons_self, hw, h0⟩
        rw [hsi, Option.bind_some]
        refine ih h0 (fun e he => hp e (List.mem_cons_of_mem c he)) fun r e resto heq z hz => ?_
        refine hdir (c :: r) e resto (by rw [heq]; rfl) z ?_
        rw [andar, hsi]
        exact hz

/-- **LOOKING UP A PATH** leads to the inode that the tree has there, or to zero
    when there is none. -/
theorem Sistema.busca (h : Sistema fijo fs) (hpasos : MismosPasos fs fs')
    (hp : componentes path = q) (hq : Directa fs q) :
    buscarPath fs' path = some ((andar (nombresDe fs).hijo inodoRaiz q).getD 0) := by
  rw [buscarPath, hp]
  refine h.buscarDesde hpasos (by decide) hq.sinPuntos fun r c resto heq z hz => ?_
  obtain ⟨huso, hclase⟩ := h.llega hz
  refine nombresDe_dir.mpr ⟨huso, ?_⟩
  by_contra hno
  refine hq.directorios r c resto heq (contenido fs (leerInodo fs z) 0 (leerInodo fs z).iSize) ?_
  rw [vista_some hz, nodo, if_neg hno]

/-- The lookup of what is seen. -/
theorem Sistema.busca_some (h : Sistema fijo fs) (hp : componentes path = q)
    (hv : vista fs q = some n) : ∃ x, fs.EnUso x ∧ x ≠ 0 ∧ buscarPath fs path = some x
      ∧ andar (nombresDe fs).hijo inodoRaiz q = some x ∧ nodo fs x = n := by
  obtain ⟨x, hx, hn⟩ := Option.map_eq_some_iff.mp hv
  obtain ⟨hbus, h0⟩ := h.buscar hp hx
  exact ⟨x, (h.llega hx).1, h0, hbus, hx, hn⟩

/-- The lookup of what is not there. -/
theorem Sistema.busca_none (h : Sistema fijo fs) (hpasos : MismosPasos fs fs')
    (hp : componentes path = q) (hq : Directa fs q) (hv : vista fs q = none) :
    buscarPath fs' path = some 0 := by
  rw [h.busca hpasos hp hq, Option.map_eq_none_iff.mp hv]
  rfl

/-! ## Attributes -/

/-- The mode and the size of an inode of the tree. -/
theorem Sistema.atributos (h : Sistema fijo fs)
    (hx : andar (nombresDe fs).hijo inodoRaiz q = some x) :
    (nodo fs x).Atributos (leerInodo fs x).iMode (leerInodo fs x).iSize := by
  obtain ⟨-, hclase⟩ := h.llega hx
  unfold nodo
  by_cases hd : EsDirectorio fs x
  · rw [if_pos hd]
    exact hd.2
  · rw [if_neg hd]
    exact ⟨(hclase.resolve_left hd).2, ((length_contenido _ _ _ _).trans (Nat.sub_zero _)).symm⟩

/-- **GETATTR** answers the class and the size of what is seen at the path. -/
theorem Sistema.getattr (h : Sistema fijo fs) (hp : componentes path = q)
    (hv : vista fs q = some n) : ∃ modo links tam, modo < 2 ^ 16 ∧ links < 2 ^ 16 ∧ tam < 2 ^ 32
      ∧ procesarGetattr fs path = some (.getattr modo links (tam : Nat))
        ∧ n.Atributos modo tam := by
  obtain ⟨x, -, h0, hbus, hx, rfl⟩ := h.busca_some hp hv
  have hcabe := leerInodo_cabe fs x
  refine ⟨_, _, _, hcabe.iMode, hcabe.iLinksCount, hcabe.iSize, ?_, h.atributos hx⟩
  rw [procesarGetattr, hbus]
  exact if_neg h0

/-! ## Listings -/

/-- The names that a directory lists: the dots, and what is seen below. -/
theorem Sistema.nombres_mem (h : Sistema fijo fs)
    (hd : andar (nombresDe fs).hijo inodoRaiz q = some d) (hdir : (nombresDe fs).dir d)
    (c : List UInt8) :
    c ∈ (entradas fs d).map nombreDe ↔ Punto c ∨ vista fs (q ++ [c]) ≠ none := by
  have hmem : ∀ e, buscarPar (entradas fs d) e ≠ 0 → e ∈ (entradas fs d).map nombreDe := by
    intro e he
    obtain ⟨p, hp, heq, -⟩ := mem_de_buscarPar he
    exact List.mem_map.mpr ⟨p, hp, heq⟩
  have hno0 : ∀ y, (nombresDe fs).dir y → y ≠ 0 := by
    rintro y hy rfl
    rw [h.nombres.cero.1] at hy
    cases hy
  have hhijo : vista fs (q ++ [c]) ≠ none ↔ (nombresDe fs).hijo d c ≠ none := by
    rw [vista, andar_concat_some hd]
    exact not_congr Option.map_eq_none_iff
  rw [hhijo]
  constructor
  · intro hc
    by_cases hpunto : Punto c
    · exact .inl hpunto
    · obtain ⟨p, hp, rfl⟩ := List.mem_map.mp hc
      refine .inr ?_
      rw [h.nombres.hijo_mem hdir hp hpunto]
      exact Option.some_ne_none _
  · rintro ((rfl | rfl) | hc)
    · have hd' : buscarPar (entradas fs d) [46] = d := h.nombres.punto d hdir
      exact hmem _ (hd'.symm ▸ hno0 d hdir)
    · obtain ⟨e, he, hcaso⟩ := h.nombres.padre d hdir
      refine hmem _ (he ▸ ?_)
      rcases hcaso with ⟨-, rfl⟩ | ⟨a, ha⟩
      · decide
      · exact hno0 e (Nombres.hijo_iff.mp ha).1
    · obtain ⟨z, hz⟩ := Option.ne_none_iff_exists'.mp hc
      obtain ⟨-, -, hbus, hne⟩ := Nombres.hijo_iff.mp hz
      exact hmem c (hbus.symm ▸ hne : buscarPar ((nombresDe fs).ent d) c ≠ 0)

/-- **READDIR** answers the dots and the names seen in the directory, each of
    them once. -/
theorem Sistema.readdir (h : Sistema fijo fs) (hp : componentes path = q)
    (hv : vista fs q = some .directorio) : ∃ lista,
      procesarReaddir fs path = some (.readdir lista) ∧ lista.Nodup ∧ (∀ c ∈ lista, 0 ∉ c)
        ∧ ∀ c, c ∈ lista ↔ Punto c ∨ vista fs (q ++ [c]) ≠ none := by
  obtain ⟨x, huso, h0, hbus, hx, hn⟩ := h.busca_some hp hv
  have hes : EsDirectorio fs x := by
    unfold nodo at hn
    by_contra hno
    rw [if_neg hno] at hn
    cases hn
  have hdir := nombresDe_dir.mpr ⟨huso, hes⟩
  obtain ⟨dss, hdss, -⟩ := h.directorio huso hes
  have hlista := hdss.listar (h.enImagen huso)
  have hnombres : (vigentes (registrosDe (fs.bloquesDe x) dss)).map Dir.nombre
      = (entradas fs x).map nombreDe := by
    rw [entradas, hlista, Option.getD_some, List.map_map]
    rfl
  refine ⟨(entradas fs x).map nombreDe, ?_, h.nombres.nombres x hdir, ?_, h.nombres_mem hx hdir⟩
  · rw [procesarReaddir, hbus]
    refine (if_neg h0).trans ?_
    rw [hlista]
    exact congrArg (fun l => some (Fsc.Contestacion.readdir l)) hnombres
  · intro c hc hcero
    obtain ⟨p, -, rfl⟩ := List.mem_map.mp hc
    have := List.mem_takeWhile_imp hcero
    simp at this

/-! ## Reading -/

/-- The blocks of a file of the volume are data. -/
theorem Sistema.denso (h : Sistema fijo fs) (hx : fs.EnUso x) : Denso fs (leerInodo fs x) := by
  intro m hm
  obtain ⟨hvol, hfijo⟩ := (h.consistente.enMano hx).dato_hoja (rango_bloquesDe fs x) hm
  refine ⟨fun h0 => hfijo ?_, hvol⟩
  rw [h0] at hvol ⊢
  exact h.consistente.geometria.cero hvol

/-- The loop of a read looks at the cache for the blocks it fetches only. -/
theorem leerBloques_congr {inodo : Inode} : ∀ (cant n i : Nat) {cache cache' : Cache}
    {b : List UInt8}, (∀ m, n ≤ m → m < n + cant →
      cache (leerBloque fs m inodo) = cache' (leerBloque fs m inodo)) →
    (leerBloques fs inodo cant n i cache b).map Prod.snd
      = (leerBloques fs inodo cant n i cache' b).map Prod.snd := by
  intro cant
  induction cant with
  | zero => exact fun _ _ _ _ _ _ => rfl
  | succ cant ih =>
      intro n i cache cache' b hig
      have hn := hig n (Nat.le_refl n) (by omega)
      have hresto : ∀ m, n + 1 ≤ m → m < n + 1 + cant →
          cache (leerBloque fs m inodo) = cache' (leerBloque fs m inodo) :=
        fun m h1 h2 => hig m (by omega) (by omega)
      rw [leerBloques, leerBloques, ← hn]
      cases cache (leerBloque fs n inodo) with
      | none =>
          dsimp only
          cases poner b (fs.sb.blockSize * i) (Bytes.leer fs.disco
            (offsetBloque fs (leerBloque fs n inodo) 0) fs.sb.blockSize) with
          | none => rfl
          | some b' =>
              refine ih (n + 1) (i + 1) fun m h1 h2 => ?_
              unfold cacheSubirInfoServer
              split
              · rfl
              · exact hresto m h1 h2
      | some lect =>
          dsimp only
          cases sacar lect 0 fs.sb.blockSize with
          | none => rfl
          | some datos =>
              cases hpon : poner b (fs.sb.blockSize * i) datos with
              | none =>
                  simp only [Option.bind_eq_bind, Option.bind_some, hpon, Option.bind_none]
              | some b' =>
                  simp only [Option.bind_eq_bind, Option.bind_some, hpon]
                  exact ih (n + 1) (i + 1) hresto

theorem leerArchivo_congr {inodo : Inode} (basura : Nat → UInt8) {cache cache' : Cache}
    {off size : Nat} (hig : ∀ m, off / fs.sb.blockSize ≤ m →
      m < off / fs.sb.blockSize + cantBloques fs.sb.blockSize size →
      cache (leerBloque fs m inodo) = cache' (leerBloque fs m inodo)) :
    (leerArchivo basura fs cache inodo off size).map Prod.snd
      = (leerArchivo basura fs cache' inodo off size).map Prod.snd := by
  -- what is cut out depends on the bytes fetched, not on the cache they leave
  have hsnd : ∀ c : Cache, (leerArchivo basura fs c inodo off size).map Prod.snd
      = ((leerBloques fs inodo (cantBloques fs.sb.blockSize size) (off / fs.sb.blockSize) 0 c
        (malloc basura (u32 (size + fs.sb.blockSize * 2)))).map Prod.snd).bind fun b =>
          sacar b (off % fs.sb.blockSize) size := by
    intro c
    rw [leerArchivo]
    rcases leerBloques fs inodo (cantBloques fs.sb.blockSize size) (off / fs.sb.blockSize) 0 c
      (malloc basura (u32 (size + fs.sb.blockSize * 2))) with - | ⟨c', b⟩
    · rfl
    · simp only [Option.bind_eq_bind, Option.bind_some, Option.map_some]
      cases sacar b (off % fs.sb.blockSize) size <;> rfl
  rw [hsnd, hsnd, leerBloques_congr _ _ 0 hig]

theorem contenido_rango (inodo : Inode) {off size tam : Nat} :
    contenido fs inodo off (min (off + size) tam)
      = ((contenido fs inodo 0 tam).drop off).take size := by
  rw [contenido, contenido, ← List.map_drop, ← List.map_take, List.drop_range']
  congr 1
  rcases Nat.le_total size (tam - off) with hle | hle
  · rw [List.take_range'_of_length_ge (by omega)]
    congr 1 <;> omega
  · rw [List.take_range'_of_length_le (by omega)]
    congr 1 <;> omega

/-- A read fetches blocks of the file only. -/
theorem LecturaEntera.bloques {blockSize iSize off size : Nat} (hbs : 0 < blockSize)
    (h : LecturaEntera blockSize iSize off size) {m : Nat}
    (hm : m < off / blockSize + cantBloques blockSize (min size (iSize - off))) :
    m < off / blockSize ∨ m < cantBloques blockSize iSize := by
  obtain ⟨hle, -, hcaso⟩ := h
  obtain ⟨s, hs⟩ : ∃ s, min size (iSize - off) = s := ⟨_, rfl⟩
  rw [hs] at hm hcaso
  rcases hcaso with rfl | hcabe
  · have hcero : cantBloques blockSize 0 = 0 := by
      rw [cantBloques, Nat.zero_mod, if_neg (Nat.lt_irrefl 0), Nat.zero_div]
    rw [hcero] at hm
    exact .inl hm
  · refine .inr ((lt_cantBloques_iff hbs).mpr ?_)
    obtain ⟨hc1, hc2⟩ := cantBloques_cotas hbs s
    have hdm := Nat.div_add_mod off blockSize
    have hmul : (m + 1) * blockSize
        ≤ (off / blockSize + cantBloques blockSize s) * blockSize := Nat.mul_le_mul_right _ hm
    rw [Nat.add_mul, Nat.add_mul, Nat.mul_comm (off / blockSize)] at hmul
    omega

/-- **READ** of a range of a file answers its bytes, when the blocks fetched
    reach the end of the range and the cache of the file is fresh. -/
theorem Sistema.read (h : Sistema fijo fs) (hp : componentes path = q) {datos : List UInt8}
    (hv : vista fs q = some (.archivo datos)) {off size : Nat} (hs : size ≤ 65535)
    (hent : LecturaEntera fs.sb.blockSize datos.length off size) (basura : Nat → UInt8)
    {cache : Cache} (hfresca : ∀ x, andar (nombresDe fs).hijo inodoRaiz q = some x →
      Fresca fs cache x) :
    ∃ cache', procesarRead basura fs cache path off size
        = some (cache', .read (Nipc.trama Fsc.tipoRead ((datos.drop off).take size)))
      ∧ ∀ b, AlDia fs cache b → AlDia fs cache' b := by
  obtain ⟨x, huso, -, hx, rfl⟩ := h.archivo hv
  obtain ⟨hbus, h0⟩ := h.buscar hp hx
  have hG := h.consistente.geometria
  have hden := h.denso huso
  have htam := leerInodo_iSize_lt fs x
  rw [length_contenido, Nat.sub_zero] at hent
  -- the part of the cache that is about the file
  obtain ⟨cache₀, hcache₀⟩ : ∃ cache₀ : Cache, cache₀ = fun b =>
      if ∃ m, m < fs.bloquesDe x ∧ hojaDe fs (leerInodo fs x) m = b then cache b else none :=
    ⟨_, rfl⟩
  have hcoh : Coherente fs cache₀ := by
    intro b l _ hl
    rw [hcache₀] at hl
    dsimp only at hl
    split at hl
    case isTrue hex =>
      obtain ⟨m, hm, rfl⟩ := hex
      exact hfresca x hx m hm l hl
    case isFalse => cases hl
  obtain ⟨cache', hread⟩ := hent.leeBien hbus h0 hden hG.imagen hs basura cache₀ hcoh
  rw [contenido_rango, procesarRead_eq hbus h0, recortado_eq hent.1 htam hent.2.1] at hread
  rw [procesarRead_eq hbus h0, recortado_eq hent.1 htam hent.2.1]
  obtain ⟨s, hs'⟩ : ∃ s, min size ((leerInodo fs x).iSize - off) = s := ⟨_, rfl⟩
  rw [hs'] at hread ⊢
  have hmismo : (leerArchivo basura fs cache (leerInodo fs x) off s).map Prod.snd
      = (leerArchivo basura fs cache₀ (leerInodo fs x) off s).map Prod.snd := by
    refine leerArchivo_congr basura fun m h1 h2 => ?_
    have hm := (hent.bloques (blockSize_pos fs.sb) (hs'.symm ▸ h2)).resolve_left (by omega)
    rw [(hden.legible hG.imagen htam hm).leerBloque, hcache₀]
    exact (if_pos ⟨m, hm, rfl⟩).symm
  obtain ⟨⟨c₀, buf⟩, hleido, hsigue⟩ := Option.bind_eq_some_iff.mp hread
  rw [hleido] at hmismo
  obtain ⟨⟨c, buf'⟩, hleido', hbuf⟩ := Option.map_eq_some_iff.mp hmismo
  obtain rfl : buf' = buf := hbuf
  obtain ⟨paquete, hpaq, hfin⟩ := Option.bind_eq_some_iff.mp hsigue
  obtain ⟨-, hres⟩ := Prod.mk.inj (Option.some.inj hfin)
  refine ⟨c, ?_, fun b hb => leerArchivo_alDia h.blockSize (fun m h1 h2 => ?_) hleido' hb⟩
  · rw [hleido', Option.bind_some, hpaq, Option.bind_some, hres]
  · have hm := (hent.bloques (blockSize_pos fs.sb) (hs'.symm ▸ h2)).resolve_left (by omega)
    exact hden.legible hG.imagen htam hm

end Mirar

end Rfs
