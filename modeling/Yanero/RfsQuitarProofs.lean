import Yanero.RfsEnlacesProofs

/-! # A request takes a file away

    `procesarUnlink` and `procesarRmdir` remove an entry and give back what the
    inode had.  On a sound volume nothing is left of the file (`Quitada`): its
    inode is free and clean, and the tree has one path less.

    RMDIR does so on a directory that lists nothing but the dots, and changes
    nothing on any other. -/

namespace Rfs

open Arborescencia Arboles Palabras

/-! ## An inode that is given back -/

/-- The slots and the counters after `x` is given back. -/
structure Vacante (fs : Ext2) (x : Nat) (fs' : Ext2) : Prop where
  inodos : Inodos fs'
  limpio : (leerInodo fs' x).Limpio
  slots : ∀ y, fs.sb.esInodo y → y ≠ x → (leerInodo fs' y).Igual (leerInodo fs y)

section Quitar

variable {fijo : Nat → Prop} {fs fs₀ fs' : Ext2} {d x y : Nat} {inodo : Inode}
  {p : List (List UInt8)} {c path : List UInt8}

theorem Consistente.vacante (h : Consistente fijo fs) (hI : Inodos fs)
    (hcont : fs.sb.sInodesPerGroup < 2 ^ 16) (hx : fs.EnUso x)
    (hi : inodo.Igual (leerInodo fs x)) : Vacante fs x (Rfs.soltarInodo fs x inodo) := by
  have hG := h.geometria
  obtain ⟨fs₁, inodo₁, hr⟩ : ∃ a b, truncarAbajo fs inodo 0 = (a, b) := ⟨_, _, rfl⟩
  have hv := h.vaciar hx hi hr
  have hg := hv.conserva.guarda
  have hm₁ := hg.mismo
  have hG₁ := hv.enMano.geometria
  have hx₁ : fs₁.sb.esInodo x := ⟨hv.enMano.enUso.1, hv.enMano.enUso.2.1⟩
  have hI₁ := hg.inodos hG hI
  have hcont₁ : fs₁.sb.sInodesPerGroup < 2 ^ 16 := by rwa [hm₁.sInodesPerGroup]
  have hbit := hI₁.liberarInodoEnBitmap hcont₁ hx₁ hv.enMano.enUso.2.2
  have hm₂ := hbit.forma
  have hG₂ := hm₂.geometria hG₁
  obtain ⟨fs₂, hfs₂⟩ : ∃ w, liberarInodoEnBitmap fs₁ x = w := ⟨_, rfl⟩
  have hx₂ : fs₂.sb.esInodo x := by
    rw [← hfs₂, esInodo_forma hm₂]
    exact hx₁
  have hcabe : ({ inodo₁ with iLinksCount := 0, iMode := 0 } : Inode).Cabe := by
    refine ⟨show 0 < 256 ^ 2 by decide, ?_, show 0 < 256 ^ 2 by decide, hv.enMano.cabe⟩
    show inodo₁.iSize < 256 ^ 4
    rw [hv.iSize]
    decide
  rw [hfs₂] at hbit hm₂ hG₂
  rw [Rfs.soltarInodo, hr]
  dsimp only
  rw [hfs₂]
  have hleido := @leerInodo_escribirInodo fs₂ x _ hcabe
  refine ⟨inodos_escribirInodo hG₂ hx₂ (hbit.bit.inodos hI₁ hcont₁ hx₁ hv.enMano.enUso.2.2) _,
    ⟨hleido.iSize.trans hv.iSize, fun k hk => (hleido.iBlock k hk).trans
      (hv.enMano.raizCero hk (Nat.zero_le _))⟩, fun y hy hne => ?_⟩
  have hy₁ : fs₁.sb.esInodo y := by
    rw [esInodo_forma hm₁.forma]
    exact hy
  have hy₂ : fs₂.sb.esInodo y := by
    rw [esInodo_forma hm₂]
    exact hy₁
  exact ((leerInodo_escribirInodo_otro hG₂ hx₂ hy₂ hne _).trans
    (hbit.leerInodo hG₁ hI₁ hx₁ hy₁)).trans (hg.leerInodo hG hy)

/-! ## The entry and the inode -/

/-- The tree of a sound volume is one of `VolumenSano`. -/
theorem Sistema.sano (h : Sistema fijo fs) : VolumenSano fijo fs := by
  refine ⟨h.consistente, h.inodos, h.contador, h.raiz.1, h.sanos, fun y z c hy hd hs => ?_,
    fun y ds hy hd hds => ?_⟩
  · have hbus : buscarPar (entradas fs y) c = z :=
      Option.some.inj ((h.paso hy hd c).symm.trans hs.paso)
    obtain ⟨q, hq, -, heq⟩ := mem_de_buscarPar (hbus.symm ▸ hs.ne_cero : _ ≠ 0)
    rw [← hbus, ← heq]
    rcases h.nombres.destinos y (nombresDe_dir.mpr ⟨hy, hd⟩) q hq with hd | hr
    · exact (nombresDe_dir.mp hd).1
    · exact (nombresDe_reg.mp hr).1
  · have hn := h.nombres.nombres y (nombresDe_dir.mpr ⟨hy, hd⟩)
    rw [show (nombresDe fs).ent y = entradas fs y from rfl, entradas, listar_iff.mpr hds,
      Option.getD_some, List.map_map] at hn
    exact hn

/-- What a request that takes inode `x` out of directory `d` leaves. -/
structure Quitada (fijo : Nat → Prop) (fs : Ext2) (d x : Nat) (fs' : Ext2) : Prop where
  consistente : Consistente fijo fs'
  inodos : Inodos fs'
  forma : MismaForma fs fs'
  enUso : fs'.EnUso = fun y => fs.EnUso y ∧ y ≠ x
  limpio : (leerInodo fs' x).Limpio
  iMode : (leerInodo fs' d).iMode = (leerInodo fs d).iMode
  slots : ∀ y, fs.sb.esInodo y → y ≠ x → y ≠ d → (leerInodo fs' y).Igual (leerInodo fs y)
  intacto : ∀ y, fs.EnUso y → y ≠ x → y ≠ d → Intacto fs fs' y
  quita : entradas fs' d = (entradas fs d).eraseP fun p => p.2 == x
  sano : DirectorioSano fs' d

/-- **THE ENTRY, THEN THE FILE**. -/
theorem Sistema.quitar (h : Sistema fijo fs) (hd : fs.EnUso d) (hdir : EsDirectorio fs d)
    (hx : fs.EnUso x) (hne : x ≠ d) : ∃ fs₀, borrarEntrada fs d x = some (fs₀, true)
      ∧ Quitada fijo fs d x (soltarInodo fs₀ x (leerInodo fs x)) := by
  obtain ⟨dss, hdss, hent⟩ := h.directorio hd hdir
  obtain ⟨fs₀, heq, hb⟩ :=
    h.consistente.borrarEntrada hd hdss hdir.iMode (unionCabe_de h.blockSize x)
  obtain ⟨dss₀, hdss₀, hpares, him₀⟩ := hb.records hd
  have hs := h.sano.soltado hd hx hne hb.solo
  have hC₀ := hb.consistente
  have hI₀ := hs.guarda.inodos h.consistente.geometria h.inodos
  have hx₀ : fs₀.EnUso x := by rwa [hs.enUso]
  have hd₀ : fs₀.EnUso d := by rwa [hs.enUso]
  have hcont₀ : fs₀.sb.sInodesPerGroup < 2 ^ 16 := by
    rw [hb.solo.sb]
    exact h.contador
  have hv := hC₀.vacante hI₀ hcont₀ hx₀ (hs.intacto x hx hne).igual.symm
  have hsu := hs.suelto
  have hforma := hs.guarda.mismo.forma.trans hsu.forma
  have hid := hsu.intacto d hd₀ hne.symm
  refine ⟨fs₀, heq, hsu.consistente, hv.inodos, hforma, ?_, hv.limpio, ?_, fun y hy hyx _ => ?_,
    fun y hy hyx hyd => ?_, ?_, hid.sano him₀ (hdss₀.sano him₀)⟩
  · rw [hsu.enUso, hs.enUso]
  · rw [hid.igual.iMode, hs.igual.iMode]
  · have hy₀ : fs₀.sb.esInodo y := by
      rw [esInodo_forma hs.guarda.mismo.forma]
      exact hy
    exact (hv.slots y hy₀ hyx).trans (hs.guarda.leerInodo h.consistente.geometria hy)
  · exact (hs.intacto y hy hyd).trans (hsu.intacto y (by rwa [hs.enUso]) hyx)
  · rw [entradas, hid.listar him₀ hdss₀, hdss₀.listar him₀, hent, ← hpares]
    rfl

/-! ## What is seen afterwards -/

theorem Quitada.iMode_otro (hq : Quitada fijo fs d x fs') (hy : fs.EnUso y) (hyx : y ≠ x) :
    (leerInodo fs' y).iMode = (leerInodo fs y).iMode := by
  by_cases hyd : y = d
  · rw [hyd, hq.iMode]
  · exact (hq.intacto y hy hyx hyd).igual.iMode

/-- **LESS** by the inode and its entry, in the names. -/
theorem Quitada.baja (hq : Quitada fijo fs d x fs') (h : Sistema fijo fs) :
    Baja (nombresDe fs) (nombresDe fs') d x := by
  have huso : ∀ y, fs'.EnUso y ↔ fs.EnUso y ∧ y ≠ x := fun y => by rw [hq.enUso]
  have hno : ¬ fs'.EnUso x := fun hx => ((huso x).mp hx).2 rfl
  refine ⟨fun y => ?_, fun y => ?_, fun y hy hyd hyx => ?_, hq.quita⟩
  · by_cases hyx : y = x
    · rw [if_pos hyx, hyx, Bool.eq_false_iff]
      exact fun hd => hno (nombresDe_dir.mp hd).1
    · rw [if_neg hyx, Bool.eq_iff_iff, nombresDe_dir, nombresDe_dir, huso, and_iff_left hyx]
      exact and_congr_right fun hu => esDirectorio_igual hq.forma (hq.iMode_otro hu hyx)
  · by_cases hyx : y = x
    · rw [if_pos hyx, hyx, Bool.eq_false_iff]
      exact fun hr => hno (nombresDe_reg.mp hr).1
    · rw [if_neg hyx, Bool.eq_iff_iff, nombresDe_reg, nombresDe_reg, huso, and_iff_left hyx]
      exact and_congr_right fun hu => esRegular_igual hq.forma (hq.iMode_otro hu hyx)
  · obtain ⟨hu, hd⟩ := nombresDe_dir.mp hy
    exact (hq.intacto y hu hyx hyd).entradas h hu hd

/-- The inodes that are free afterwards are clean. -/
theorem Quitada.limpios (hq : Quitada fijo fs d x fs') (h : Sistema fijo fs) (hd : fs.EnUso d)
    (hne : x ≠ d) : Limpios fs' := by
  intro y hy hlibre
  have hno : ¬ fs'.EnUso y := by
    rw [← bitInodo_iff hy, hlibre]
    exact Bool.false_ne_true
  rw [hq.enUso] at hno
  by_cases hyx : y = x
  · rw [hyx]
    exact hq.limpio
  · have hy₀ : fs.sb.esInodo y := esInodo_forma hq.forma ▸ hy
    have hyd : y ≠ d := by
      rintro rfl
      exact hno ⟨hd, hne.symm⟩
    refine (h.limpios y hy₀ ?_).igual (hq.slots y hy₀ hyx hyd)
    rw [Bool.eq_false_iff]
    exact fun hb => hno ⟨(bitInodo_iff hy₀).mp hb, hyx⟩

theorem Quitada.sistema (hq : Quitada fijo fs d x fs') (h : Sistema fijo fs)
    (hh : Hoja (nombresDe fs) d c x) : Sistema fijo fs' := by
  have hd := (nombresDe_dir.mp (Nombres.hijo_iff.mp hh.entrada).1).1
  refine ⟨hq.consistente, hq.inodos, ?_, ?_, hq.limpios h hd hh.ne, fun y hy hdir => ?_,
    (hq.baja h).bien hh h.nombres⟩
  · rw [hq.forma.sInodesPerGroup]
    exact h.contador
  · rw [hq.forma.blockSize]
    exact h.blockSize
  · rw [hq.enUso] at hy
    obtain ⟨hu, hyx⟩ := hy
    have hdir₀ := (esDirectorio_igual hq.forma (hq.iMode_otro hu hyx)).mp hdir
    by_cases hyd : y = d
    · subst hyd
      exact hq.sano
    · exact (hq.intacto y hu hyx hyd).sano (h.enImagen hu) (h.sanos y hu hdir₀)

/-- The cache stays up to date, as the other files stay. -/
theorem Quitada.frescos (hq : Quitada fijo fs d x fs') (hd : EsDirectorio fs d) {cache : Cache}
    (hf : Frescos fs cache) : Frescos fs' cache := by
  refine hf.tras fun y hy hreg => ?_
  rw [hq.enUso] at hy
  obtain ⟨hu, hyx⟩ := hy
  have hreg₀ := (esRegular_igual hq.forma (hq.iMode_otro hu hyx)).mp hreg
  have hyd : y ≠ d := by
    rintro rfl
    exact hreg₀.no_directorio hd
  exact .inr ⟨hu, hreg₀, hq.intacto y hu hyx hyd⟩

/-- **ONE PATH LESS**. -/
theorem Quitada.vista (hq : Quitada fijo fs d x fs') (h : Sistema fijo fs)
    (hh : Hoja (nombresDe fs) d c x) (hd : andar (nombresDe fs).hijo inodoRaiz p = some d) :
    Rfs.vista fs' = Function.update (Rfs.vista fs) (p ++ [c]) none := by
  have hx : andar (nombresDe fs).hijo inodoRaiz (p ++ [c]) = some x := by
    rw [andar_concat_some hd]
    exact hh.entrada
  funext r
  have hr := ((hq.baja h).corta hh h.nombres).andar h.nombres.arbol hh.entrada hh.sinHijos hd r
  rw [Rfs.vista, hr]
  by_cases hrp : r = p ++ [c]
  · rw [if_pos hrp, hrp, Function.update_self, Option.map_none]
  · rw [if_neg hrp, Function.update_of_ne hrp, Rfs.vista]
    cases hz : andar (nombresDe fs).hijo inodoRaiz r with
    | none => rw [Option.map_none, Option.map_none]
    | some z =>
        have hzx : z ≠ x := by
          rintro rfl
          exact hrp (h.nombres.arbol.andar_unico hz hx)
        rw [Option.map_some, Option.map_some]
        by_cases hzd : z = d
        · subst hzd
          rw [nodo_directorio hq.forma hq.iMode
            (nombresDe_dir.mp (Nombres.hijo_iff.mp hh.entrada).1).2]
        · rw [(hq.intacto z (h.llega hz).1 hzx hzd).nodo hq.forma]

/-! ## The two requests -/

/-- The last step to what is seen at a path. -/
theorem Sistema.ultimo (h : Sistema fijo fs) {n : Nodo}
    (hv : Rfs.vista fs (p ++ [c]) = some n) : ∃ d x,
      andar (nombresDe fs).hijo inodoRaiz p = some d ∧ (nombresDe fs).hijo d c = some x
      ∧ x ≠ d ∧ nodo fs x = n := by
  obtain ⟨x, hx, hn⟩ := Option.map_eq_some_iff.mp hv
  have hx' := hx
  rw [andar_concat] at hx'
  obtain ⟨d, hd, hdx⟩ := Option.bind_eq_some_iff.mp hx'
  refine ⟨d, x, hd, hdx, ?_, hn⟩
  rintro rfl
  have := congrArg List.length (h.nombres.arbol.andar_unico hd hx)
  simp at this

/-- The lookups of a request that removes what is at a path. -/
theorem Sistema.buscarAmbos (h : Sistema fijo fs) (hc : Camino path p c)
    (hd : andar (nombresDe fs).hijo inodoRaiz p = some d) (hx : (nombresDe fs).hijo d c = some x) :
    ∃ pathDir, separarPath path = some (pathDir, c) ∧ buscarPath fs path = some x
      ∧ buscarPath fs pathDir = some d ∧ x ≠ 0 ∧ d ≠ 0 := by
  obtain ⟨hdir, -, hbus, hx0⟩ := Nombres.hijo_iff.mp hx
  obtain ⟨hu, hdd⟩ := nombresDe_dir.mp hdir
  obtain ⟨pathDir, hsep, -, -, hpadre, hpath⟩ := hc.buscar (h.recto hd)
  refine ⟨pathDir, hsep, ?_, hpadre, hx0, ?_⟩
  · rw [hpath, h.paso hu hdd, show buscarPar (entradas fs d) c = x from hbus]
  · have := hu.1
    omega

/-- **UNLINK** of a file that is seen: the request answers success, and the file
    and nothing else is gone. -/
theorem Sistema.unlink (h : Sistema fijo fs) (hc : Camino path p c) {datos : List UInt8}
    (hv : Rfs.vista fs (p ++ [c]) = some (.archivo datos)) : ∃ fs',
      procesarUnlink fs path = some (fs', .result 0) ∧ Sistema fijo fs'
      ∧ Rfs.vista fs' = Function.update (Rfs.vista fs) (p ++ [c]) none
      ∧ ∀ cache, Frescos fs cache → Frescos fs' cache := by
  obtain ⟨d, x, hd, hx, hne, hn⟩ := h.ultimo hv
  obtain ⟨pathDir, hsep, hpath, hpadre, hx0, hd0⟩ := h.buscarAmbos hc hd hx
  obtain ⟨hu, hdd⟩ := nombresDe_dir.mp (Nombres.hijo_iff.mp hx).1
  have hno : ¬ EsDirectorio fs x := by
    intro hdir
    rw [nodo, if_pos hdir] at hn
    cases hn
  have hreg : (nombresDe fs).reg x := by
    rcases h.nombres.destino hx with hdir | hreg
    · exact absurd (nombresDe_dir.mp hdir).2 hno
    · exact hreg
  obtain ⟨hux, hregx⟩ := nombresDe_reg.mp hreg
  obtain ⟨fs₀, heq, hq⟩ := h.quitar hu hdd hux hne
  have hh : Hoja (nombresDe fs) d c x := ⟨hx, hne, fun hdir => absurd (nombresDe_dir.mp hdir).2 hno⟩
  refine ⟨_, ?_, hq.sistema h hh, hq.vista h hh hd, fun _ => hq.frescos hdd⟩
  rw [procesarUnlink, hsep]
  dsimp only [Option.bind_eq_bind, Option.bind_some]
  rw [hpath]
  dsimp only [Option.bind_some]
  rw [hpadre]
  dsimp only [Option.bind_some]
  rw [if_pos ⟨hx0, hd0⟩, if_pos hregx.iMode, heq]
  rfl

/-- A directory has two entries when it has the dots and no more. -/
theorem Nombres.Bien.cuenta {N : Nombres} (h : N.Bien) (hx : N.dir x) :
    (N.ent x).length = 2 ↔ ∀ q ∈ N.ent x, Punto (nombreDe q) := by
  have hno0 : ∀ y, N.dir y → y ≠ 0 := by
    rintro y hy rfl
    rw [h.cero.1] at hy
    cases hy
  have hnodup := h.nombres x hx
  have hmem : ∀ e, buscarPar (N.ent x) e ≠ 0 → e ∈ (N.ent x).map nombreDe := by
    intro e he
    obtain ⟨q, hq, heq, -⟩ := mem_de_buscarPar he
    exact List.mem_map.mpr ⟨q, hq, heq⟩
  have huno : [46] ∈ (N.ent x).map nombreDe := hmem _ (by rw [h.punto x hx]; exact hno0 x hx)
  have hdos : [46, 46] ∈ (N.ent x).map nombreDe := by
    obtain ⟨d, hd, hcaso⟩ := h.padre x hx
    refine hmem _ (hd ▸ ?_)
    rcases hcaso with ⟨-, rfl⟩ | ⟨e, he⟩
    · decide
    · exact hno0 d (Nombres.hijo_iff.mp he).1
  have hlargo : (N.ent x).length = ((N.ent x).map nombreDe).length := (List.length_map _).symm
  rw [hlargo]
  constructor
  · intro hlen q hq
    by_contra hno
    have hq' : nombreDe q ∈ (N.ent x).map nombreDe := List.mem_map_of_mem hq
    have h3 : ([[46], [46, 46], nombreDe q] : List (List UInt8)).Nodup := by
      have h1 : nombreDe q ≠ [46] := fun he => hno (.inl he)
      have h2 : nombreDe q ≠ [46, 46] := fun he => hno (.inr he)
      simp [h1.symm, h2.symm]
    have hsub : [[46], [46, 46], nombreDe q] ⊆ (N.ent x).map nombreDe := by simp [huno, hdos, hq']
    have := (h3.subperm hsub).length_le
    simp only [List.length_cons, List.length_nil] at this
    omega
  · intro htodos
    have hpuntos : (N.ent x).map nombreDe ⊆ [[46], [46, 46]] := by
      intro e he
      obtain ⟨q, hq, rfl⟩ := List.mem_map.mp he
      rcases htodos q hq with hp | hp <;> simp [hp]
    have hambos : [[46], [46, 46]] ⊆ (N.ent x).map nombreDe := by simp [huno, hdos]
    have hdistintos : ([[46], [46, 46]] : List (List UInt8)).Nodup := by decide
    have hle := (hnodup.subperm hpuntos).length_le
    have hge := (hdistintos.subperm hambos).length_le
    simp only [List.length_cons, List.length_nil] at hle hge
    omega

/-! ## Removing a directory -/

/-- The link of the parent and the counter of directories come after. -/
theorem Quitada.enlazada {fs₁ : Ext2} (hq : Quitada fijo fs d x fs₁) (hx : fs.sb.esInodo x)
    (hd : fs.EnUso d) (hne : x ≠ d) (he : Enlazada fijo fs₁ d fs') : Quitada fijo fs d x fs' := by
  have ha := he.alterada
  have hes := esInodo_forma hq.forma
  have hd₁ : fs₁.EnUso d := by
    rw [hq.enUso]
    exact ⟨hd, hne.symm⟩
  obtain ⟨hsano, hlista⟩ := he.lista hq.consistente hd₁ hq.sano
  refine ⟨ha.consistente, ha.inodos, hq.forma.trans ha.forma, ha.enUso.trans hq.enUso,
    hq.limpio.igual (ha.slots x (hes ▸ hx) hne), ha.iMode.trans hq.iMode,
    fun y hy hyx hyd => (ha.slots y (hes ▸ hy) hyd).trans (hq.slots y hy hyx hyd),
    fun y hy hyx hyd => (hq.intacto y hy hyx hyd).trans (ha.intacto y ?_ hyd),
    hlista.trans hq.quita, hsano⟩
  rw [hq.enUso]
  exact ⟨hy, hyx⟩

/-- `Dir_cantDirectorios` counts the pairs. -/
theorem Sistema.cantDirectorios (h : Sistema fijo fs) (hx : fs.EnUso x) (hd : EsDirectorio fs x) :
    cantDirectorios fs (leerInodo fs x) = some (entradas fs x).length := by
  obtain ⟨dss, hdss, hent⟩ := h.directorio hx hd
  have hlista := hdss.listar (h.enImagen hx)
  rw [listar] at hlista
  obtain ⟨es, hes, hv⟩ := Option.map_eq_some_iff.mp hlista
  rw [Rfs.cantDirectorios, hes, Option.map_some, hv, hent, pares, List.length_map]

/-- Nothing is seen in a directory that lists the dots and no more. -/
theorem Sistema.vacio_iff (h : Sistema fijo fs) {q : List (List UInt8)}
    (hx : andar (nombresDe fs).hijo inodoRaiz q = some x) (hdir : (nombresDe fs).dir x) :
    (∀ e, Rfs.vista fs (q ++ [e]) = none) ↔ (entradas fs x).length = 2 := by
  have hhijo : ∀ e, Rfs.vista fs (q ++ [e]) = ((nombresDe fs).hijo x e).map (nodo fs) := fun e => by
    rw [Rfs.vista, andar_concat_some hx]
  rw [show entradas fs x = (nombresDe fs).ent x from rfl, h.nombres.cuenta hdir]
  constructor
  · intro hnada r hr
    by_contra hno
    have := hnada (nombreDe r)
    rw [hhijo, h.nombres.hijo_mem hdir hr hno] at this
    cases this
  · intro htodos e
    rw [hhijo, Nombres.sinHijos htodos e, Option.map_none]

/-- What RMDIR asks of the volume: a directory at the path, whose inode is
    counted in a group of the table. -/
structure Borrable (fs : Ext2) (path : List UInt8) (p : List (List UInt8)) (c : List UInt8) :
    Prop where
  camino : Camino path p c
  directorio : vista fs (p ++ [c]) = some .directorio
  grupo : ∀ x, andar (nombresDe fs).hijo inodoRaiz (p ++ [c]) = some x →
    x / fs.sb.sInodesPerGroup < fs.sb.cantGrupos

/-- What the request does on an empty directory. -/
theorem procesarRmdir_vacio {pathDir : List UInt8} {fs₁ fs₂ : Ext2} {l : Nat}
    (hsep : separarPath path = some (pathDir, c)) (hpath : buscarPath fs path = some x)
    (hpadre : buscarPath fs pathDir = some d) (hx0 : x ≠ 0) (hd0 : d ≠ 0)
    (hcant : cantDirectorios fs (leerInodo fs x) = some 2)
    (heq : borrarEntrada fs d x = some (fs₀, true))
    (hfs₁ : soltarInodo fs₀ x (leerInodo fs x) = fs₁)
    (hl : u16 ((leerInodo fs₁ d).iLinksCount + (2 ^ 16 - 1)) = l)
    (hfs₂ : escribirInodo fs₁ d { leerInodo fs₁ d with iLinksCount := l } = fs₂) :
    procesarRmdir fs path
      = some (contarDirectorio fs₂ (x / fs₂.sb.sInodesPerGroup) (2 ^ 16 - 1), .result 0) := by
  rw [procesarRmdir, hsep]
  dsimp only [Option.bind_eq_bind, Option.bind_some]
  rw [hpath]
  dsimp only [Option.bind_some]
  rw [hpadre]
  dsimp only [Option.bind_some]
  rw [if_pos ⟨hx0, hd0⟩, hcant]
  dsimp only [Option.bind_some]
  rw [if_pos rfl, heq]
  dsimp only [Option.bind_some]
  rw [hfs₁, hl, hfs₂]

/-- **RMDIR**: an empty directory is gone, and nothing else; one that is not
    empty stays, with everything else, and the answer is `-ENOTEMPTY`. -/
theorem Sistema.rmdir (h : Sistema fijo fs) (hb : Borrable fs path p c) :
    ((∀ e, Rfs.vista fs (p ++ [c] ++ [e]) = none) → ∃ fs',
      procesarRmdir fs path = some (fs', .result 0) ∧ Sistema fijo fs'
      ∧ Rfs.vista fs' = Function.update (Rfs.vista fs) (p ++ [c]) none
      ∧ ∀ cache, Frescos fs cache → Frescos fs' cache)
    ∧ ((∃ e, Rfs.vista fs (p ++ [c] ++ [e]) ≠ none) →
      procesarRmdir fs path = some (fs, .result (-enotempty))) := by
  obtain ⟨d, x, hd, hx, hne, hn⟩ := h.ultimo hb.directorio
  obtain ⟨pathDir, hsep, hpath, hpadre, hx0, hd0⟩ := h.buscarAmbos hb.camino hd hx
  obtain ⟨hu, hdd⟩ := nombresDe_dir.mp (Nombres.hijo_iff.mp hx).1
  have hdirx : EsDirectorio fs x := by
    by_contra hno
    rw [nodo, if_neg hno] at hn
    cases hn
  have hdirN : (nombresDe fs).dir x := by
    rcases h.nombres.destino hx with hdir | hreg
    · exact hdir
    · exact absurd hdirx (nombresDe_reg.mp hreg).2.no_directorio
  have hux := (nombresDe_dir.mp hdirN).1
  have hwalk : andar (nombresDe fs).hijo inodoRaiz (p ++ [c]) = some x := by
    rw [andar_concat_some hd]
    exact hx
  have hvacio := h.vacio_iff hwalk hdirN
  have hcant := h.cantDirectorios hux hdirx
  refine ⟨fun hnada => ?_, fun halgo => ?_⟩
  · have hdos := hvacio.mp hnada
    have hh : Hoja (nombresDe fs) d c x := ⟨hx, hne, fun _ => (h.nombres.cuenta hdirN).mp hdos⟩
    obtain ⟨fs₀, heq, hq⟩ := h.quitar hu hdd hux hne
    obtain ⟨fs₁, hfs₁⟩ : ∃ w, soltarInodo fs₀ x (leerInodo fs x) = w := ⟨_, rfl⟩
    rw [hfs₁] at hq
    have hd₁ : fs₁.EnUso d := by
      rw [hq.enUso]
      exact ⟨hu, hne.symm⟩
    obtain ⟨l, hl⟩ : ∃ l, u16 ((leerInodo fs₁ d).iLinksCount + (2 ^ 16 - 1)) = l := ⟨_, rfl⟩
    have hl16 : l < 2 ^ 16 := hl ▸ u16_lt _
    obtain ⟨fs₂, hfs₂⟩ : ∃ w, escribirInodo fs₁ d { leerInodo fs₁ d with iLinksCount := l } = w :=
      ⟨_, rfl⟩
    have henl := hq.consistente.enlazar hq.inodos hd₁ hl16 (x / fs₂.sb.sInodesPerGroup) (2 ^ 16 - 1)
    rw [hfs₂] at henl
    have hq' := hq.enlazada ⟨hux.1, hux.2.1⟩ hu hne henl
    exact ⟨_, procesarRmdir_vacio hsep hpath hpadre hx0 hd0 (hdos ▸ hcant) heq hfs₁ hl hfs₂,
      hq'.sistema h hh, hq'.vista h hh hd, fun _ => hq'.frescos hdd⟩
  · have hno : (entradas fs x).length ≠ 2 := by
      obtain ⟨e, he⟩ := halgo
      exact fun hdos => he (hvacio.mpr hdos e)
    rw [procesarRmdir, hsep]
    dsimp only [Option.bind_eq_bind, Option.bind_some]
    rw [hpath]
    dsimp only [Option.bind_some]
    rw [hpadre]
    dsimp only [Option.bind_some]
    rw [if_pos ⟨hx0, hd0⟩, hcant]
    dsimp only [Option.bind_some]
    rw [if_neg hno, if_neg hdirx.iMode]

end Quitar

end Rfs
