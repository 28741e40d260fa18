import Yanero.NipcProofs

/-! # The answer to READDIR

    The server makes two passes over the listing: the first adds the lengths up
    in sixteen bits and takes a block of that size, the second copies each name
    with its size, cut to eight bits, in front.  `entradas` is what the second
    pass really writes.  It fits the block and is read back by the client's
    loop when no cut loses anything; otherwise either a copy leaves the block
    (`copiarNombres_desborda`) or the loop meets a size of 0 and hands over a
    block without a string (`fillerNombres_con_larga`). -/

namespace Nipc

open Bloques Palabras Fsc Rfs

/-- What the second pass writes for a name: its size in one byte, and as many
    bytes of the terminated name as that byte says. -/
def entrada (nombre : List UInt8) : List UInt8 :=
  [UInt8.ofNat ((nombre.length + 1) % 256)] ++
    (nombre ++ [0]).take ((nombre.length + 1) % 256)

def entradas (lista : List (List UInt8)) : List UInt8 := lista.flatMap entrada

/-- What the first pass adds up, before it is cut to sixteen bits. -/
def largoTotal (lista : List (List UInt8)) : Nat := (lista.map fun n => n.length + 2).sum

theorem largoReaddir_eq (lista : List (List UInt8)) :
    largoReaddir lista = largoTotal lista % 65536 := by
  have h : ∀ (l : List (List UInt8)) (a : Nat),
      l.foldl (fun k nombre => (k + nombre.length + 1 + 1) % 65536) (a % 65536) =
        (a + largoTotal l) % 65536 := by
    intro l
    induction l with
    | nil =>
        intro a
        rfl
    | cons n l ih =>
        intro a
        have hn : (a % 65536 + n.length + 1 + 1) % 65536 = (a + n.length + 2) % 65536 := by omega
        rw [List.foldl_cons, hn, ih]
        simp only [largoTotal, List.map_cons, List.sum_cons]
        congr 1
        omega
  have h0 := h lista 0
  rwa [Nat.zero_mod, Nat.zero_add] at h0

theorem length_entrada (n : List UInt8) :
    (entrada n).length = 1 + (n.length + 1) % 256 := by
  simp only [entrada, List.length_append, List.length_take, List.length_singleton]
  omega

theorem entrada_corta {n : List UInt8} (h : n.length ≤ 254) :
    entrada n = [UInt8.ofNat (n.length + 1)] ++ (n ++ [0]) := by
  have hm : (n.length + 1) % 256 = (n ++ [0]).length := by
    simp only [List.length_append, List.length_singleton]
    omega
  rw [entrada, hm, List.take_length, List.length_append, List.length_singleton]

theorem entrada_larga {n : List UInt8} (h : n.length = 255) : entrada n = [0] := by
  rw [entrada, h]
  rfl

theorem length_entradas_cortas {l : List (List UInt8)} (h : ∀ n ∈ l, n.length ≤ 254) :
    (entradas l).length = largoTotal l := by
  induction l with
  | nil => rfl
  | cons n l ih =>
      have hn : n.length ≤ 254 := h n List.mem_cons_self
      have ihl := ih fun m hm => h m (List.mem_cons_of_mem n hm)
      have hm : (n.length + 1) % 256 = n.length + 1 := by omega
      simp only [entradas, largoTotal, List.flatMap_cons, List.length_append, List.map_cons,
        List.sum_cons, length_entrada, hm] at ihl ⊢
      omega

/-- The copy of one name goes on with the block one entry further. -/
theorem copiarNombres_cons {b hecho : List UInt8} {tam : Nat} (htam : tam ≤ 65535)
    (hb : Lleno b hecho tam) (n : List UInt8) (l : List (List UInt8))
    (hcabe : hecho.length + (entrada n).length ≤ tam) :
    ∃ b', Lleno b' (hecho ++ entrada n) tam ∧
      copiarNombres (n :: l) b hecho.length = copiarNombres l b' (hecho ++ entrada n).length := by
  rw [length_entrada] at hcabe
  obtain ⟨b₁, e₁, l₁⟩ := hb.poner hecho.length [UInt8.ofNat ((n.length + 1) % 256)] rfl
    (by simp only [List.length_singleton]; omega)
  have hdatos : sacar (n ++ [0]) 0 ((n.length + 1) % 256) =
      some ((n ++ [0]).take ((n.length + 1) % 256)) := by
    have hle : 0 + (n.length + 1) % 256 ≤ (n ++ [0]).length := by
      simp only [List.length_append, List.length_singleton]
      omega
    rw [sacar, if_pos hle, List.drop_zero]
  have htake : ((n ++ [0]).take ((n.length + 1) % 256)).length = (n.length + 1) % 256 := by
    simp only [List.length_take, List.length_append, List.length_singleton]
    omega
  have ho₁ : (hecho.length + 1) % 65536 = hecho.length + 1 := by omega
  have ho₂ : (hecho.length + 1 + (n.length + 1) % 256) % 65536 =
      (hecho ++ entrada n).length := by
    rw [List.length_append, length_entrada]
    omega
  obtain ⟨b₂, e₂, l₂⟩ := l₁.poner (hecho.length + 1) _ (by simp)
    (by rw [htake, List.length_append, List.length_singleton]; omega)
  refine ⟨b₂, ?_, ?_⟩
  · rw [entrada, ← List.append_assoc]
    exact l₂
  · simp only [copiarNombres, e₁, hdatos, ho₁, e₂, ho₂, bind, Option.bind]

/-- Names that fit are copied one after another. -/
theorem copiarNombres_cabe {tam : Nat} (htam : tam ≤ 65535) :
    ∀ (l : List (List UInt8)) {b hecho : List UInt8}, Lleno b hecho tam →
      hecho.length + (entradas l).length ≤ tam →
      ∃ b', copiarNombres l b hecho.length = some b' ∧ Lleno b' (hecho ++ entradas l) tam := by
  intro l
  induction l with
  | nil =>
      intro b hecho hb _
      exact ⟨b, rfl, by rw [entradas, List.flatMap_nil, List.append_nil]; exact hb⟩
  | cons n l ih =>
      intro b hecho hb hcabe
      have hsplit : entradas (n :: l) = entrada n ++ entradas l := rfl
      rw [hsplit, List.length_append] at hcabe
      obtain ⟨b₁, hb₁, e₁⟩ := copiarNombres_cons htam hb n l (by omega)
      obtain ⟨b₂, e₂, hb₂⟩ := ih hb₁ (by rw [List.length_append]; omega)
      refine ⟨b₂, by rw [e₁, e₂], ?_⟩
      rw [hsplit, ← List.append_assoc]
      exact hb₂

/-- The name whose entry does not fit is written outside the block. -/
theorem copiarNombres_cons_desborda {b hecho : List UInt8} {tam : Nat} (htam : tam ≤ 65535)
    (hb : Lleno b hecho tam) (n : List UInt8) (l : List (List UInt8))
    (hno : tam < hecho.length + (entrada n).length) :
    copiarNombres (n :: l) b hecho.length = none := by
  rw [length_entrada] at hno
  by_cases h1 : hecho.length + 1 ≤ tam
  · obtain ⟨b₁, e₁, l₁⟩ := hb.poner hecho.length [UInt8.ofNat ((n.length + 1) % 256)] rfl
      (by simpa using h1)
    have ho₁ : (hecho.length + 1) % 65536 = hecho.length + 1 := by omega
    cases hd : sacar (n ++ [0]) 0 ((n.length + 1) % 256) with
    | none => simp only [copiarNombres, e₁, hd, bind, Option.bind]
    | some datos =>
        have hlen : datos.length = (n.length + 1) % 256 := by
          rw [sacar] at hd
          split at hd
          · obtain rfl := Option.some.inj hd
            simp only [List.length_take, List.length_drop, List.length_append,
              List.length_singleton]
            omega
          · cases hd
        have e₂ : poner b₁ (hecho.length + 1) datos = none :=
          l₁.desborda (by simp) (by simp only [List.length_append, List.length_singleton]; omega)
        simp only [copiarNombres, e₁, hd, ho₁, e₂, bind, Option.bind]
  · have e₁ : poner b hecho.length [UInt8.ofNat ((n.length + 1) % 256)] = none :=
      hb.desborda rfl (by simp only [List.length_singleton]; omega)
    simp only [copiarNombres, e₁, bind, Option.bind]

/-- Names that do not fit leave the block somewhere. -/
theorem copiarNombres_desborda {tam : Nat} (htam : tam ≤ 65535) :
    ∀ (l : List (List UInt8)) {b hecho : List UInt8}, Lleno b hecho tam →
      tam < hecho.length + (entradas l).length →
      copiarNombres l b hecho.length = none := by
  intro l
  induction l with
  | nil =>
      intro b hecho hb hno
      have hle := hb.length_le
      simp only [entradas, List.flatMap_nil, List.length_nil] at hno
      omega
  | cons n l ih =>
      intro b hecho hb hno
      have hsplit : entradas (n :: l) = entrada n ++ entradas l := rfl
      rw [hsplit, List.length_append] at hno
      by_cases hcabe : hecho.length + (entrada n).length ≤ tam
      · obtain ⟨b₁, hb₁, e₁⟩ := copiarNombres_cons htam hb n l hcabe
        rw [e₁]
        exact ih hb₁ (by rw [List.length_append]; omega)
      · exact copiarNombres_cons_desborda htam hb n l (by omega)

/-- One turn of the client's loop over the entry of a name of up to 254 bytes. -/
theorem fillerNombres_corta {n : List UInt8} (hn : n.length ≤ 254) (h0 : 0 ∉ n)
    (hecho resto : List UInt8) {tam : Nat} (htam : (hecho ++ (entrada n ++ resto)).length = tam)
    (hmax : tam ≤ 65535) (fuel : Nat) :
    fillerNombres tam (hecho ++ (entrada n ++ resto)) (fuel + 1) hecho.length =
      (fillerNombres tam (hecho ++ (entrada n ++ resto)) fuel
        (hecho ++ entrada n).length).map (n :: ·) := by
  have hlen : (entrada n).length = n.length + 2 := by
    rw [length_entrada]
    omega
  simp only [List.length_append] at htam
  have hlt : hecho.length < tam := by omega
  have hbyte : (hecho ++ (entrada n ++ resto))[hecho.length]? =
      some (UInt8.ofNat (n.length + 1)) := by
    rw [List.getElem?_append_right (Nat.le_refl _), Nat.sub_self, entrada_corta hn]
    rfl
  have hval : (UInt8.ofNat (n.length + 1)).toNat = n.length + 1 := by
    rw [UInt8.toNat_ofNat']
    omega
  have ho₁ : (hecho.length + 1) % 65536 = hecho.length + 1 := by omega
  have ho₂ : (hecho.length + 1 + (n.length + 1)) % 65536 = (hecho ++ entrada n).length := by
    rw [List.length_append, hlen]
    omega
  have hmandar : sacar (hecho ++ (entrada n ++ resto)) (hecho.length + 1) (n.length + 1) =
      some (n ++ [0]) := by
    have hassoc : hecho ++ (entrada n ++ resto) =
        (hecho ++ [UInt8.ofNat (n.length + 1)]) ++ ((n ++ [0]) ++ resto) := by
      rw [entrada_corta hn]
      simp
    rw [hassoc]
    exact sacar_en (by simp) (by simp)
  have hcad : cadena (n ++ [0]) = some n := cadena_terminada h0 []
  rw [fillerNombres, if_pos hlt]
  simp only [hbyte, hval, ho₁, ho₂, hmandar, hcad, bind, Option.bind]
  cases fillerNombres tam (hecho ++ (entrada n ++ resto)) fuel (hecho ++ entrada n).length <;> rfl

/-- The loop gives every name back when they fill the payload. -/
theorem fillerNombres_cortas :
    ∀ (l : List (List UInt8)) (hecho : List UInt8) {tam : Nat},
      (∀ n ∈ l, n.length ≤ 254 ∧ 0 ∉ n) → (hecho ++ entradas l).length = tam → tam ≤ 65535 →
      fillerNombres tam (hecho ++ entradas l) (l.length + 1) hecho.length = some l := by
  intro l
  induction l with
  | nil =>
      intro hecho tam _ htam _
      have hno : ¬ hecho.length < tam := by
        rw [← htam, entradas, List.flatMap_nil, List.append_nil]
        omega
      rw [fillerNombres, if_neg hno]
  | cons n l ih =>
      intro hecho tam h htam hmax
      have hsplit : entradas (n :: l) = entrada n ++ entradas l := rfl
      rw [hsplit] at htam ⊢
      obtain ⟨hn, h0⟩ := h n List.mem_cons_self
      have hrec := ih (hecho ++ entrada n) (fun m hm => h m (List.mem_cons_of_mem n hm))
        (by rw [List.append_assoc]; exact htam) hmax
      rw [List.append_assoc] at hrec
      rw [List.length_cons, fillerNombres_corta hn h0 hecho (entradas l) htam hmax, hrec]
      rfl

/-- A name of 255 bytes: the loop meets a size of 0 and the name it hands over
    is an empty block, which holds no string. -/
theorem fillerNombres_larga {n : List UInt8} (hn : n.length = 255) (hecho resto : List UInt8)
    {tam : Nat} (htam : (hecho ++ (entrada n ++ resto)).length ≤ tam) (fuel : Nat) :
    fillerNombres tam (hecho ++ (entrada n ++ resto)) fuel hecho.length = none := by
  cases fuel with
  | zero => rfl
  | succ fuel =>
      have hbyte : (hecho ++ (entrada n ++ resto))[hecho.length]? = some 0 := by
        rw [List.getElem?_append_right (Nat.le_refl _), Nat.sub_self, entrada_larga hn]
        rfl
      have hlt : hecho.length < tam := by
        rw [entrada_larga hn] at htam
        simp only [List.length_append, List.length_singleton] at htam
        omega
      rw [fillerNombres, if_pos hlt]
      simp only [hbyte, bind, Option.bind]
      cases hs : sacar (hecho ++ (entrada n ++ resto)) ((hecho.length + 1) % 65536)
          (0 : UInt8).toNat with
      | none => rfl
      | some mandar =>
          have hm : mandar = [] := by
            rw [sacar] at hs
            split at hs
            · exact (Option.some.inj hs).symm.trans (List.take_zero)
            · cases hs
          rw [hm]
          rfl

/-- The loop never gets past a name of 255 bytes. -/
theorem fillerNombres_con_larga (cola : List UInt8) {tam : Nat} (hmax : tam ≤ 65535) :
    ∀ (l : List (List UInt8)) (hecho : List UInt8) (fuel : Nat),
      (∀ n ∈ l, n.length ≤ 255 ∧ 0 ∉ n) → (∃ n ∈ l, n.length = 255) →
      (hecho ++ (entradas l ++ cola)).length = tam →
      fillerNombres tam (hecho ++ (entradas l ++ cola)) fuel hecho.length = none := by
  intro l
  induction l with
  | nil =>
      intro hecho fuel _ hex
      obtain ⟨n, hn, _⟩ := hex
      cases hn
  | cons n l ih =>
      intro hecho fuel h hex htam
      have hsplit : entradas (n :: l) ++ cola = entrada n ++ (entradas l ++ cola) := by
        rw [← List.append_assoc]
        rfl
      rw [hsplit] at htam ⊢
      obtain ⟨hn, h0⟩ := h n List.mem_cons_self
      by_cases hlarga : n.length = 255
      · exact fillerNombres_larga hlarga hecho _ (Nat.le_of_eq htam) fuel
      · obtain ⟨m, hm, hm255⟩ := hex
        have hml : m ∈ l := by
          rcases List.mem_cons.mp hm with rfl | hml
          · exact absurd hm255 hlarga
          · exact hml
        cases fuel with
        | zero => rfl
        | succ fuel =>
            have hrec := ih (hecho ++ entrada n) fuel
              (fun k hk => h k (List.mem_cons_of_mem n hk)) ⟨m, hml, hm255⟩
              (by rw [List.append_assoc]; exact htam)
            rw [List.append_assoc] at hrec
            rw [fillerNombres_corta (by omega) h0 hecho _ htam hmax, hrec]
            rfl

/-- The client reads the frame of a payload as that payload. -/
theorem readdirRespuesta_trama {tipo : UInt8} {c : List UInt8} (hc : c.length ≤ 65535)
    (fuel : Nat) :
    readdirRespuesta fuel (trama tipo c) = fillerNombres c.length c fuel 0 := by
  have hcab : trama tipo c = ([tipo] ++ bytesDe 2 c.length) ++ c := by simp [trama]
  have hbuf : sacar (trama tipo c) 0 3 = some ([tipo] ++ bytesDe 2 c.length) := by
    rw [hcab]
    exact sacar_inicio (by simp)
  have hlargo : sacar ([tipo] ++ bytesDe 2 c.length) 1 2 = some (bytesDe 2 c.length) :=
    sacar_final rfl (by simp)
  have hv : valor (bytesDe 2 c.length) = c.length := by
    rw [valor_bytesDe]
    exact Nat.mod_eq_of_lt (by omega)
  have hdrop : (trama tipo c).drop 3 = c := by
    rw [hcab]
    exact List.drop_left' (by simp)
  simp only [readdirRespuesta, hbuf, hlargo, hv, hdrop, deserializarReaddirRta, sacar_todo, bind,
    Option.bind]

/-- The frame the server sends, when the names fit the payload it computed. -/
theorem enviarReaddir_cabe (basura : Nat → UInt8) {l : List (List UInt8)}
    (h : (entradas l).length ≤ largoReaddir l) :
    ∃ cola, (entradas l ++ cola).length = largoReaddir l ∧
      enviarReaddir basura l = some (trama TipoPath.readdir.codigo (entradas l ++ cola)) := by
  have htam : largoReaddir l ≤ 65535 := by
    rw [largoReaddir_eq]
    omega
  obtain ⟨b, e, cola, rfl, hb⟩ := copiarNombres_cabe htam l
    (lleno_malloc basura (largoReaddir l)) (by simpa using h)
  rw [List.nil_append] at hb e
  rw [List.length_nil] at e
  have hn := serializarNipc_eq basura TipoPath.readdir.codigo (entradas l ++ cola)
  rw [hb] at hn
  refine ⟨cola, hb, ?_⟩
  have hlen : largoReaddir l + 3 = (trama TipoPath.readdir.codigo (entradas l ++ cola)).length := by
    rw [length_trama, hb]
    omega
  simp only [enviarReaddir, serializarReaddirRta, e, hn, bind, Option.bind, hlen, sacar_todo]

theorem enviarReaddir_desborda (basura : Nat → UInt8) {l : List (List UInt8)}
    (h : largoReaddir l < (entradas l).length) : enviarReaddir basura l = none := by
  have htam : largoReaddir l ≤ 65535 := by
    rw [largoReaddir_eq]
    omega
  have e := copiarNombres_desborda htam l (lleno_malloc basura (largoReaddir l))
    (by simpa using h)
  rw [List.length_nil] at e
  simp only [enviarReaddir, serializarReaddirRta, e, bind, Option.bind]

/-- The client's names are those of the listing. -/
def ReaddirFiel (basura : Nat → UInt8) (l : List (List UInt8)) : Prop :=
  ∃ flujo, enviarReaddir basura l = some flujo ∧ ∃ fuel, readdirRespuesta fuel flujo = some l

theorem readdirFiel_cortas (basura : Nat → UInt8) {l : List (List UInt8)}
    (h : ∀ n ∈ l, n.length ≤ 254 ∧ 0 ∉ n) (hsum : largoTotal l ≤ 65535) :
    ReaddirFiel basura l := by
  have hlen : (entradas l).length = largoTotal l :=
    length_entradas_cortas fun n hn => (h n hn).1
  have htam : largoReaddir l = largoTotal l := by
    rw [largoReaddir_eq]
    omega
  obtain ⟨cola, hcola, henv⟩ := enviarReaddir_cabe basura (l := l) (by omega)
  have hnil : cola = [] := by
    rw [List.length_append] at hcola
    exact List.length_eq_zero_iff.mp (by omega)
  rw [hnil, List.append_nil] at henv
  refine ⟨_, henv, l.length + 1, ?_⟩
  rw [readdirRespuesta_trama (by omega)]
  exact fillerNombres_cortas l [] h rfl (by omega)

theorem not_readdirFiel_larga (basura : Nat → UInt8) {l : List (List UInt8)}
    (h : ∀ n ∈ l, n.length ≤ 255 ∧ 0 ∉ n) (hex : ∃ n ∈ l, n.length = 255) :
    ¬ ReaddirFiel basura l := by
  rintro ⟨flujo, henv, fuel, hlee⟩
  by_cases hcabe : (entradas l).length ≤ largoReaddir l
  · have htam : largoReaddir l ≤ 65535 := by
      rw [largoReaddir_eq]
      omega
    obtain ⟨cola, hcola, henv'⟩ := enviarReaddir_cabe basura hcabe
    obtain rfl : trama TipoPath.readdir.codigo (entradas l ++ cola) = flujo :=
      Option.some.inj (henv'.symm.trans henv)
    rw [readdirRespuesta_trama (by omega)] at hlee
    have hnone := fillerNombres_con_larga cola htam l [] fuel h hex (by simpa using hcola)
    rw [List.nil_append, List.length_nil, ← hcola] at hnone
    rw [hnone] at hlee
    cases hlee
  · rw [enviarReaddir_desborda basura (by omega)] at henv
    cases henv

theorem not_readdirFiel_muchas (basura : Nat → UInt8) {l : List (List UInt8)}
    (h : ∀ n ∈ l, n.length ≤ 254) (hsum : 65535 < largoTotal l) : ¬ ReaddirFiel basura l := by
  rintro ⟨flujo, henv, -⟩
  have hlen : (entradas l).length = largoTotal l := length_entradas_cortas h
  have hno : largoReaddir l < (entradas l).length := by
    rw [largoReaddir_eq, hlen]
    omega
  rw [enviarReaddir_desborda basura hno] at henv
  cases henv

/-- **THE LISTING ROUND TRIPS EXACTLY WHEN ITS SIZES FIT**: every name in the
    one byte of its size, terminator included, and all the entries in the two
    bytes of the payload's length. -/
theorem readdir_ida_y_vuelta_iff (basura : Nat → UInt8) (l : List (List UInt8))
    (h : ∀ n ∈ l, 1 ≤ n.length ∧ n.length ≤ 255 ∧ 0 ∉ n) :
    ReaddirFiel basura l ↔ (∀ n ∈ l, n.length ≤ 254) ∧ largoTotal l ≤ 65535 := by
  constructor
  · intro hfiel
    have hcortas : ∀ n ∈ l, n.length ≤ 254 := by
      intro n hn
      have hn255 : n.length ≠ 255 := fun hno =>
        not_readdirFiel_larga basura (fun m hm => (h m hm).2) ⟨n, hn, hno⟩ hfiel
      have := (h n hn).2.1
      omega
    refine ⟨hcortas, Nat.le_of_not_lt ?_⟩
    intro hno
    exact not_readdirFiel_muchas basura hcortas hno hfiel
  · rintro ⟨hcortas, hsum⟩
    exact readdirFiel_cortas basura (fun n hn => ⟨hcortas n hn, (h n hn).2.2⟩) hsum

theorem readdir_ida_y_vuelta_punto :
    (ReaddirFiel (fun _ => 0) [[46], [46, 46], [97, 98]] ↔
      (∀ n ∈ [[46], [46, 46], [97, 98]], List.length (α := UInt8) n ≤ 254) ∧
        largoTotal [[46], [46, 46], [97, 98]] ≤ 65535) :=
  readdir_ida_y_vuelta_iff (fun _ => 0) [[46], [46, 46], [97, 98]] (by decide)

/-- A directory with one name of 255 bytes. -/
theorem readdir_ida_y_vuelta_falla :
    ¬ ∀ (basura : Nat → UInt8) (l : List (List UInt8)),
      (∀ n ∈ l, 1 ≤ n.length ∧ n.length ≤ 255 ∧ 0 ∉ n) → ReaddirFiel basura l := by
  intro h
  have hl : ∀ n ∈ [List.replicate 255 (97 : UInt8)], 1 ≤ n.length ∧ n.length ≤ 255 ∧ 0 ∉ n := by
    intro n hn
    obtain rfl := List.mem_singleton.mp hn
    rw [List.length_replicate, List.mem_replicate]
    decide
  exact not_readdirFiel_larga (fun _ => 0) (fun n hn => (hl n hn).2)
    ⟨_, List.mem_singleton_self _, List.length_replicate⟩ (h (fun _ => 0) _ hl)

end Nipc
