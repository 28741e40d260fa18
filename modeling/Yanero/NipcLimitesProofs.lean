import Yanero.NipcAnchos

/-! # Messages that are not what they should be

    Nothing of a received payload is checked before it is decoded.  A request
    is decoded inside its payload exactly when the path ends there and the
    fields after it fit (`decodifica_dentro_iff`), and the loop over the names
    of a directory ends inside its payload exactly when the payload is made of
    whole entries (`recorre_dentro_iff`). -/

namespace Nipc

open Bloques Palabras

/-! ## Requests -/

/-- The requests with fields after the path. -/
inductive TipoCampos where
  | read
  | write
  | truncate
deriving DecidableEq

/-- The deserialiser of the requests of a type; `pila` is what the local
    `deserial.offset` held. -/
def TipoCampos.deserializar (a : Anchos) (pila : List UInt8) :
    TipoCampos → List UInt8 → Option Mensaje
  | .read, payload => deserializarRead a payload
  | .write, payload => deserializarWrite a pila payload
  | .truncate, payload => deserializarTruncate a payload

/-- The fields of the message are bytes of the payload, one after the other. -/
def DelPayload (a : Anchos) (pila payload : List UInt8) : Mensaje → Prop
  | .read path offset size => ∃ o s, path ++ 0 :: (o ++ s) <+: payload ∧ o.length = a.offT
      ∧ s.length = a.sizeT ∧ offset = conSigno o ∧ size = valor s
  | .write path size buf offset => ∃ s o, path ++ 0 :: (s ++ (buf ++ o)) <+: payload
      ∧ s.length = a.sizeT ∧ size = valor s ∧ buf.length = size ∧ o.length = 4
      ∧ offset = conSigno (o ++ pila.drop 4)
  | .truncate path offset => ∃ o, path ++ 0 :: o <+: payload ∧ o.length = a.offT
      ∧ offset = conSigno o
  | .getattr .. => False

/-- The payload is decoded without leaving it. -/
def DecodificaDentro (a : Anchos) (pila : List UInt8) (t : TipoCampos) (payload : List UInt8) :
    Prop := ∃ m, t.deserializar a pila payload = some m ∧ DelPayload a pila payload m

/-- The bytes that the fields after the path take. -/
def TipoCampos.Caben (a : Anchos) : TipoCampos → List UInt8 → Prop
  | .read, resto => a.offT + a.sizeT ≤ resto.length
  | .write, resto => a.sizeT + valor (resto.take a.sizeT) + 4 ≤ resto.length
  | .truncate, resto => a.offT ≤ resto.length

/-- The path ends in the payload, and the fields after it are all there. -/
def Completo (a : Anchos) (t : TipoCampos) (payload : List UInt8) : Prop :=
  ∃ path resto, payload = path ++ 0 :: resto ∧ 0 ∉ path ∧ t.Caben a resto

section Pedidos

variable {a : Anchos} {pila payload path resto : List UInt8} {t : TipoCampos}

theorem tamPath_payload (h0 : 0 ∉ path) (hlen : (path ++ 0 :: resto).length ≤ 65535) :
    Rfs.tamPath (path ++ 0 :: resto) = some (path.length + 1) := by
  rw [List.length_append, List.length_cons] at hlen
  rw [Rfs.tamPath, cadena_terminada h0]
  show some ((path.length + 1) % 65536) = _
  rw [Nat.mod_eq_of_lt (by omega)]

theorem sacar_payload (path resto : List UInt8) :
    sacar (path ++ 0 :: resto) 0 (path.length + 1) = some (path ++ [0]) := by
  have hassoc : path ++ 0 :: resto = (path ++ [0]) ++ resto := by simp
  rw [hassoc]
  exact sacar_inicio (by simp)

/-- What stands after the path is read from there on. -/
theorem sacar_campo (path resto : List UInt8) (k n : Nat) :
    sacar (path ++ 0 :: resto) (path.length + 1 + k) n = sacar resto k n := by
  have hassoc : path ++ 0 :: resto = (path ++ [0]) ++ resto := by simp
  have hlen : path.length + 1 = (path ++ [0]).length := by simp
  rw [hassoc, hlen]
  exact sacar_append _ _ k n

/-- The next field starts after one that is in the payload. -/
theorem siguiente_campo {k n : Nat} (hlen : (path ++ 0 :: resto).length ≤ 65535)
    (h : k + n ≤ resto.length) :
    (path.length + 1 + k + n) % 65536 = path.length + 1 + (k + n) := by
  rw [List.length_append, List.length_cons] at hlen
  omega

theorem deserializarTruncate_eq (h0 : 0 ∉ path) (hlen : (path ++ 0 :: resto).length ≤ 65535) :
    deserializarTruncate a (path ++ 0 :: resto) = if a.offT ≤ resto.length then
      some (.truncate path (conSigno (resto.take a.offT))) else none := by
  have hcampo := sacar_campo path resto 0
  simp only [Nat.add_zero] at hcampo
  simp only [deserializarTruncate, tamPath_payload h0 hlen, sacar_payload, cadena_terminada h0 [],
    hcampo, bind, Option.bind_some]
  rw [sacar, Nat.zero_add, List.drop_zero]
  split <;> rfl

theorem deserializarRead_eq (h0 : 0 ∉ path) (hlen : (path ++ 0 :: resto).length ≤ 65535) :
    deserializarRead a (path ++ 0 :: resto) = if a.offT + a.sizeT ≤ resto.length then
      some (.read path (conSigno (resto.take a.offT)) (valor ((resto.drop a.offT).take a.sizeT)))
    else none := by
  have hcampo := sacar_campo path resto 0
  simp only [Nat.add_zero] at hcampo
  simp only [deserializarRead, tamPath_payload h0 hlen, sacar_payload, cadena_terminada h0 [],
    hcampo, bind, Option.bind_some]
  by_cases h1 : 0 + a.offT ≤ resto.length
  · have hsig := siguiente_campo hlen h1
    rw [Nat.add_zero, Nat.zero_add] at hsig
    rw [sacar_iff.mpr ⟨h1, rfl⟩, Option.bind_some, hsig, sacar_campo, sacar, List.drop_zero]
    split <;> rfl
  · rw [sacar, if_neg h1, if_neg (by omega)]
    rfl

theorem deserializarWrite_eq (h0 : 0 ∉ path) (hlen : (path ++ 0 :: resto).length ≤ 65535)
    (hpila : 4 ≤ pila.length) :
    deserializarWrite a pila (path ++ 0 :: resto) =
      if a.sizeT + valor (resto.take a.sizeT) + 4 ≤ resto.length then
        some (.write path (valor (resto.take a.sizeT))
          ((resto.drop a.sizeT).take (valor (resto.take a.sizeT)))
          (conSigno ((resto.drop (a.sizeT + valor (resto.take a.sizeT))).take 4 ++ pila.drop 4)))
      else none := by
  have hcampo := sacar_campo path resto 0
  simp only [Nat.add_zero] at hcampo
  simp only [deserializarWrite, tamPath_payload h0 hlen, sacar_payload, cadena_terminada h0 [],
    hcampo, bind, Option.bind_some]
  by_cases h1 : 0 + a.sizeT ≤ resto.length
  · have hsig := siguiente_campo hlen h1
    rw [Nat.add_zero, Nat.zero_add] at hsig
    rw [sacar_iff.mpr ⟨h1, rfl⟩, Option.bind_some, hsig, sacar_campo, List.drop_zero]
    obtain ⟨size, hsize⟩ : ∃ size, valor (resto.take a.sizeT) = size := ⟨_, rfl⟩
    rw [hsize]
    by_cases h2 : a.sizeT + size ≤ resto.length
    · have hsig := siguiente_campo hlen h2
      rw [sacar_iff.mpr ⟨h2, rfl⟩, Option.bind_some, hsig, sacar_campo]
      by_cases h3 : a.sizeT + size + 4 ≤ resto.length
      · have hcuatro : ((resto.drop (a.sizeT + size)).take 4).length = 4 := by
          rw [List.length_take, List.length_drop]
          omega
        rw [sacar_iff.mpr ⟨h3, rfl⟩, Option.bind_some, poner, hcuatro, Nat.zero_add, if_pos hpila,
          if_pos h3, List.take_zero]
        rfl
      · rw [sacar, if_neg h3, if_neg h3]
        rfl
    · rw [sacar, if_neg h2, if_neg (by omega)]
      rfl
  · rw [sacar, if_neg h1, if_neg (by omega)]
    rfl

/-- Without the end of the path the scan leaves the payload. -/
theorem deserializar_sin_fin (h : cadena payload = none) :
    t.deserializar a pila payload = none := by
  have htam : Rfs.tamPath payload = none := by
    rw [Rfs.tamPath, h]
    rfl
  cases t with
  | read =>
      rw [TipoCampos.deserializar, deserializarRead, htam]
      rfl
  | write =>
      rw [TipoCampos.deserializar, deserializarWrite, htam]
      rfl
  | truncate =>
      rw [TipoCampos.deserializar, deserializarTruncate, htam]
      rfl

/-- With all its fields a request is decoded from them. -/
theorem TipoCampos.Caben.decodifica (h0 : 0 ∉ path) (hlen : (path ++ 0 :: resto).length ≤ 65535)
    (hpila : 4 ≤ pila.length) (h : t.Caben a resto) :
    DecodificaDentro a pila t (path ++ 0 :: resto) := by
  have hprefijo : ∀ {fields cola : List UInt8}, resto = fields ++ cola →
      path ++ 0 :: fields <+: path ++ 0 :: resto := by
    rintro fields cola rfl
    exact ⟨cola, by simp⟩
  cases t with
  | read =>
      have h : a.offT + a.sizeT ≤ resto.length := h
      refine ⟨_, (deserializarRead_eq h0 hlen).trans (if_pos h), resto.take a.offT,
        (resto.drop a.offT).take a.sizeT, ?_, ?_, ?_, rfl, rfl⟩
      · refine @hprefijo _ ((resto.drop a.offT).drop a.sizeT) ?_
        rw [List.append_assoc, List.take_append_drop, List.take_append_drop]
      · rw [List.length_take]
        omega
      · rw [List.length_take, List.length_drop]
        omega
  | write =>
      obtain ⟨size, hsize⟩ : ∃ size, valor (resto.take a.sizeT) = size := ⟨_, rfl⟩
      have h : a.sizeT + valor (resto.take a.sizeT) + 4 ≤ resto.length := h
      have heq := (deserializarWrite_eq (a := a) h0 hlen hpila).trans (if_pos h)
      rw [hsize] at heq h
      refine ⟨_, heq, resto.take a.sizeT, (resto.drop (a.sizeT + size)).take 4, ?_, ?_, hsize.symm,
        ?_, ?_, rfl⟩
      · refine @hprefijo _ ((resto.drop (a.sizeT + size)).drop 4) ?_
        rw [List.append_assoc, List.append_assoc, List.take_append_drop, ← List.drop_drop,
          List.take_append_drop, List.take_append_drop]
      · rw [List.length_take]
        omega
      · rw [List.length_take, List.length_drop]
        omega
      · rw [List.length_take, List.length_drop]
        omega
  | truncate =>
      have h : a.offT ≤ resto.length := h
      refine ⟨_, (deserializarTruncate_eq h0 hlen).trans (if_pos h), resto.take a.offT, ?_, ?_, rfl⟩
      · exact @hprefijo _ (resto.drop a.offT) (List.take_append_drop ..).symm
      · rw [List.length_take]
        omega

/-- Without some field the copy of it leaves the payload. -/
theorem deserializar_corto (h0 : 0 ∉ path) (hlen : (path ++ 0 :: resto).length ≤ 65535)
    (hpila : 4 ≤ pila.length) (h : ¬ t.Caben a resto) :
    t.deserializar a pila (path ++ 0 :: resto) = none := by
  cases t with
  | read => exact (deserializarRead_eq h0 hlen).trans (if_neg h)
  | write => exact (deserializarWrite_eq h0 hlen hpila).trans (if_neg h)
  | truncate => exact (deserializarTruncate_eq h0 hlen).trans (if_neg h)

/-- **REQUESTS**: a payload is decoded without leaving it exactly when it is a
    whole request. -/
theorem decodifica_dentro_iff (a : Anchos) (pila payload : List UInt8) (t : TipoCampos)
    (hpila : 4 ≤ pila.length) (hlen : payload.length ≤ 65535) :
    DecodificaDentro a pila t payload ↔ Completo a t payload := by
  constructor
  · rintro ⟨m, hm, -⟩
    cases hc : cadena payload with
    | none =>
        rw [deserializar_sin_fin hc] at hm
        cases hm
    | some path =>
        obtain ⟨h0, resto, rfl⟩ := cadena_iff.mp hc
        refine ⟨path, resto, rfl, h0, ?_⟩
        by_contra hno
        rw [deserializar_corto h0 hlen hpila hno] at hm
        cases hm
  · rintro ⟨path, resto, rfl, h0, hcaben⟩
    exact hcaben.decodifica h0 hlen hpila

end Pedidos

/-- The server of the makefiles: 32 bits. -/
def rfs32 : Anchos := ⟨4, 4, 4⟩

/-- A TRUNCATE of `/` to 5 bytes. -/
theorem decodifica_dentro_cinco : DecodificaDentro rfs32 [9, 9, 9, 9] .truncate
    [47, 0, 5, 0, 0, 0] :=
  (decodifica_dentro_iff rfs32 [9, 9, 9, 9] [47, 0, 5, 0, 0, 0] .truncate (by decide)
    (by decide)).mpr ⟨[47], [5, 0, 0, 0], rfl, by decide, show 4 ≤ 4 by decide⟩

/-- A payload of one byte without the end of the path, and a WRITE that
    announces more bytes than it has. -/
theorem decodifica_dentro_falla : ¬ DecodificaDentro rfs32 [0, 0, 0, 0] .truncate [47]
    ∧ ¬ DecodificaDentro rfs32 [0, 0, 0, 0] .write [47, 0, 9, 0, 0, 0, 1, 0, 0, 0, 0] := by
  constructor
  · rintro ⟨m, hm, -⟩
    have hno : TipoCampos.truncate.deserializar rfs32 [0, 0, 0, 0] [47] = none := by decide
    rw [hno] at hm
    cases hm
  · rintro ⟨m, hm, -⟩
    have hno : TipoCampos.write.deserializar rfs32 [0, 0, 0, 0] [47, 0, 9, 0, 0, 0, 1, 0, 0, 0, 0]
        = none := by decide
    rw [hno] at hm
    cases hm

/-! ## The names of a directory -/

/-- The loop ends and all its copies are inside the payload. -/
def RecorreDentro (payload : List UInt8) : Prop :=
  ∃ fuel copias, Fsc.copiasReaddir payload fuel 0 = some copias
    ∧ ∀ c ∈ copias, c.1 + c.2 ≤ payload.length

/-- Each entry a size and as many bytes. -/
def entero (ds : List (List UInt8)) : List UInt8 :=
  ds.flatMap fun d => UInt8.ofNat d.length :: d

/-- The payload is made of whole entries. -/
def DeEntradas (payload : List UInt8) : Prop :=
  ∃ ds : List (List UInt8), (∀ d ∈ ds, d.length ≤ 255) ∧ payload = entero ds

section Nombres

variable {payload : List UInt8} {off fuel : Nat} {copias : List (Nat × Nat)}

/-- One turn of the loop, when its copies are inside. -/
theorem copiasReaddir_dentro (hlen : payload.length ≤ 65535) (hoff : off < payload.length)
    (h : Fsc.copiasReaddir payload (fuel + 1) off = some copias)
    (hdentro : ∀ c ∈ copias, c.1 + c.2 ≤ payload.length) :
    off + 1 + (payload.getD off 0).toNat ≤ payload.length
      ∧ ∃ resto, Fsc.copiasReaddir payload fuel (off + 1 + (payload.getD off 0).toNat) = some resto
        ∧ ∀ c ∈ resto, c ∈ copias := by
  rw [Fsc.copiasReaddir, if_pos hoff] at h
  obtain ⟨resto, hresto, rfl⟩ := Option.map_eq_some_iff.mp h
  have huno : (off + 1) % 65536 = off + 1 := Nat.mod_eq_of_lt (by omega)
  rw [huno] at hresto hdentro
  have hfin := hdentro (off + 1, (payload.getD off 0).toNat) (by simp)
  dsimp only at hfin
  rw [Nat.mod_eq_of_lt (by omega)] at hresto
  exact ⟨hfin, resto, hresto, fun c hc => List.mem_append_right _ hc⟩

/-- From each position the loop reaches the rest of the payload is entries. -/
theorem deEntradas_desde (hlen : payload.length ≤ 65535) :
    ∀ (fuel : Nat) {off : Nat} {copias : List (Nat × Nat)}, off ≤ payload.length →
      Fsc.copiasReaddir payload fuel off = some copias →
      (∀ c ∈ copias, c.1 + c.2 ≤ payload.length) → DeEntradas (payload.drop off) := by
  intro fuel
  induction fuel with
  | zero =>
      intro off copias _ h
      cases h
  | succ fuel ih =>
      intro off copias hle h hdentro
      rcases Nat.lt_or_eq_of_le hle with hlt | rfl
      · obtain ⟨hfin, resto, hresto, hsub⟩ := copiasReaddir_dentro hlen hlt h hdentro
        obtain ⟨ds, hds, heq⟩ := ih hfin hresto fun c hc => hdentro c (hsub c hc)
        obtain ⟨t, ht⟩ : ∃ t, payload.getD off 0 = t := ⟨_, rfl⟩
        rw [ht] at hfin heq
        have hcorto : ((payload.drop (off + 1)).take t.toNat).length = t.toNat := by
          rw [List.length_take, List.length_drop]
          omega
        refine ⟨(payload.drop (off + 1)).take t.toNat :: ds, fun d hd => ?_, ?_⟩
        · rcases List.mem_cons.mp hd with rfl | hd
          · rw [hcorto]
            exact Nat.le_of_lt_succ t.toNat_lt
          · exact hds d hd
        · have hbyte : payload[off] = t := by
            rw [← ht, List.getD_eq_getElem _ _ hlt]
          have hresto : payload.drop (off + 1 + t.toNat)
              = (payload.drop (off + 1)).drop t.toNat := List.drop_drop.symm
          rw [List.drop_eq_getElem_cons hlt, hbyte]
          show t :: payload.drop (off + 1) = (UInt8.ofNat _ :: _) ++ entero ds
          rw [hcorto, ← heq, List.cons_append, hresto, List.take_append_drop, UInt8.ofNat_toNat]
      · exact ⟨[], by simp, by rw [List.drop_length]; rfl⟩

/-- The loop goes through whole entries, one turn for each. -/
theorem copiasReaddir_entero (hlen : payload.length ≤ 65535) :
    ∀ (ds : List (List UInt8)) {hecho : List UInt8}, (∀ d ∈ ds, d.length ≤ 255) →
      payload = hecho ++ entero ds →
      ∃ copias, Fsc.copiasReaddir payload (ds.length + 1) hecho.length = some copias
        ∧ ∀ c ∈ copias, c.1 + c.2 ≤ payload.length := by
  intro ds
  induction ds with
  | nil =>
      intro hecho _ heq
      refine ⟨[], ?_, by simp⟩
      rw [Fsc.copiasReaddir, if_neg]
      rw [heq, entero, List.flatMap_nil, List.append_nil]
      exact Nat.lt_irrefl _
  | cons d ds ih =>
      intro hecho hds heq
      have hd := hds d List.mem_cons_self
      have hsplit : payload = (hecho ++ UInt8.ofNat d.length :: d) ++ entero ds := by
        rw [heq, List.append_assoc]
        rfl
      have hl := congrArg List.length hsplit
      simp only [List.length_append, List.length_cons] at hl
      have hbyte : payload.getD hecho.length 0 = UInt8.ofNat d.length := by
        rw [hsplit, List.append_assoc, List.getD_append_right _ _ _ _ (Nat.le_refl _), Nat.sub_self]
        rfl
      have hval : (UInt8.ofNat d.length).toNat = d.length := by
        rw [UInt8.toNat_ofNat']
        omega
      obtain ⟨copias, hc, hdentro⟩ := ih (fun e he => hds e (List.mem_cons_of_mem d he)) hsplit
      have hsig : (hecho.length + 1 + d.length) % 65536
          = (hecho ++ UInt8.ofNat d.length :: d).length := by
        rw [List.length_append, List.length_cons]
        omega
      refine ⟨[(hecho.length, 1), (hecho.length + 1, d.length)] ++ copias, ?_, ?_⟩
      · rw [List.length_cons, Fsc.copiasReaddir, if_pos (by omega), hbyte, hval,
          Nat.mod_eq_of_lt (show hecho.length + 1 < 65536 by omega)]
        show (Fsc.copiasReaddir payload (ds.length + 1)
          ((hecho.length + 1 + d.length) % 65536)).map _ = _
        rw [hsig, hc]
        rfl
      · intro c hmem
        rcases List.mem_append.mp hmem with hmem | hmem
        · obtain rfl | rfl : c = (hecho.length, 1) ∨ c = (hecho.length + 1, d.length) := by
            simpa using hmem
          · show hecho.length + 1 ≤ payload.length
            omega
          · show hecho.length + 1 + d.length ≤ payload.length
            omega
        · exact hdentro c hmem

/-- **THE NAMES OF A DIRECTORY**: the loop ends with every copy inside the
    payload exactly when the payload is made of whole entries. -/
theorem recorre_dentro_iff (payload : List UInt8) (hlen : payload.length ≤ 65535) :
    RecorreDentro payload ↔ DeEntradas payload := by
  constructor
  · rintro ⟨fuel, copias, h, hdentro⟩
    exact deEntradas_desde hlen fuel (Nat.zero_le _) h hdentro
  · rintro ⟨ds, hds, heq⟩
    obtain ⟨copias, h, hdentro⟩ := @copiasReaddir_entero payload hlen ds [] hds heq
    exact ⟨_, copias, h, hdentro⟩

end Nombres

/-- The entries `.` and `f`. -/
theorem recorre_dentro_dos : RecorreDentro [2, 46, 0, 2, 102, 0] :=
  (recorre_dentro_iff [2, 46, 0, 2, 102, 0] (by decide)).mpr
    ⟨[[46, 0], [102, 0]], by decide, by decide⟩

/-- A size of 5 with nothing after it; the copy leaves the payload. -/
theorem recorre_dentro_falla : ¬ RecorreDentro [5] := by
  rintro ⟨fuel, copias, h, hdentro⟩
  cases fuel with
  | zero => cases h
  | succ fuel =>
      cases fuel with
      | zero => cases h
      | succ fuel =>
          obtain rfl : [(0, 1), (1, 5)] = copias := Option.some.inj h
          exact absurd (hdentro (1, 5) (by decide)) (by decide)

end Nipc
