import Yanero.NipcProofs

/-! # When a READ or a WRITE stays in the format

    `fsc_read` refuses sizes above 65535 and `fsc_write` refuses nothing; both
    add up their lengths in a `uint16_t` and cut the offset to 32 bits.  A call
    is faithful when it sends nothing, or sends one frame whose header tells
    its length and from which the server reads the same offset and size.  That
    is so exactly when the payload has at most 65532 bytes and the offset is
    below 2^31 (`fiel_iff`). -/

namespace Nipc

open Bloques Palabras Fsc Rfs

/-- The arguments FUSE can give: a C string, as many bytes as announced, and a
    non-negative 64-bit offset. -/
def Valida : Llamada → Prop
  | .fscRead path _ offset => 0 ∉ path ∧ 0 ≤ offset ∧ offset < 2 ^ 63
  | .fscWrite path buf size offset =>
      0 ∉ path ∧ 0 ≤ offset ∧ offset < 2 ^ 63 ∧ buf.length = size.toNat

/-- `fsc_read` returns `-ENOENT` at once. -/
def Rechazada : Llamada → Prop
  | .fscRead _ size _ => 65535 < size.toNat
  | .fscWrite .. => False

instance : ∀ c : Llamada, Decidable (Valida c)
  | .fscRead .. => inferInstanceAs (Decidable (_ ∧ _ ∧ _))
  | .fscWrite .. => inferInstanceAs (Decidable (_ ∧ _ ∧ _ ∧ _))

instance : ∀ c : Llamada, Decidable (Rechazada c)
  | .fscRead _ size _ => inferInstanceAs (Decidable (65535 < size.toNat))
  | .fscWrite .. => inferInstanceAs (Decidable False)

/-- The bytes of the payload, counted without a width. -/
def largoPayload : Llamada → Nat
  | .fscRead path _ _ => path.length + 1 + 4 + 4
  | .fscWrite path _ size _ => path.length + 1 + 4 + 4 + size.toNat

/-- The offset of a call. -/
def offsetDe : Llamada → Int
  | .fscRead _ _ offset => offset
  | .fscWrite _ _ _ offset => offset

/-- The server reads the offset and the size of the call. -/
def Coincide : Llamada → Pedido → Prop
  | .fscRead _ size offset, .read _ offset' size' => offset' = offset ∧ size' = size
  | .fscWrite _ _ size offset, .write _ size' _ offset' => offset' = offset ∧ size' = size
  | _, _ => False

/-- The call fails without sending, or sends one frame: the header tells the
    length of the payload, the bytes sent are the header and the payload, and
    the server decodes the offset and the size that were given. -/
def Fiel (basura : Nat → UInt8) (c : Llamada) : Prop :=
  c.enviar basura = some .enoent ∨
    ∃ bytes q, c.enviar basura = some (.enviado bytes) ∧
      valor ((bytes.drop 1).take 2) = largoPayload c ∧
      bytes.length = 3 + valor ((bytes.drop 1).take 2) ∧
      recibirPedido bytes = some (q, []) ∧ Coincide c q

section Dominio

variable {basura : Nat → UInt8} {c : Llamada}

/-- Every offset the server decodes is below 2^31. -/
theorem deOffT_lt {bytes : List UInt8} (h : bytes.length = 4) : deOffT bytes < 2 ^ 31 := by
  have hlt := valor_lt bytes
  rw [h] at hlt
  have hp : (256 : Nat) ^ 4 = 2 ^ 32 := by decide
  rw [hp] at hlt
  rw [deOffT]
  split <;> omega

theorem length_sacar {b r : List UInt8} {off n : Nat} (h : sacar b off n = some r) :
    r.length = n := by
  unfold sacar at h
  split at h
  · obtain rfl := Option.some.inj h
    rw [List.length_take, List.length_drop]
    omega
  · cases h

theorem deserializarReadPedido_offset {payload : List UInt8} {q : Pedido}
    (h : deserializarReadPedido payload = some q) :
    ∃ path offset size, q = .read path offset size ∧ offset < 2 ^ 31 := by
  simp only [deserializarReadPedido, Option.bind_eq_bind, Option.bind_eq_some_iff] at h
  obtain ⟨off, -, b, -, path, -, o, ho, s, -, hq⟩ := h
  exact ⟨path, _, _, (Option.some.inj hq).symm, deOffT_lt (length_sacar ho)⟩

theorem deserializarWritePedido_offset {payload : List UInt8} {q : Pedido}
    (h : deserializarWritePedido payload = some q) :
    ∃ path size buf offset, q = .write path size buf offset ∧ offset < 2 ^ 31 := by
  simp only [deserializarWritePedido, Option.bind_eq_bind, Option.bind_eq_some_iff] at h
  obtain ⟨off, -, b, -, path, -, s, -, buf, -, o, ho, hq⟩ := h
  exact ⟨path, _, buf, _, (Option.some.inj hq).symm, deOffT_lt (length_sacar ho)⟩

theorem deserializarTruncatePedido_tipo {payload : List UInt8} {q : Pedido}
    (h : deserializarTruncatePedido payload = some q) :
    ∃ path offset, q = .truncate path offset := by
  simp only [deserializarTruncatePedido, Option.bind_eq_bind, Option.bind_eq_some_iff] at h
  obtain ⟨off, -, b, -, path, -, o, -, hq⟩ := h
  exact ⟨path, _, (Option.some.inj hq).symm⟩

/-- A request the server takes off a stream comes from one of its
    deserialisers, so an offset in it is below 2^31. -/
theorem recibirPedido_corto {flujo resto : List UInt8} {q : Pedido}
    (h : recibirPedido flujo = some (q, resto)) (hq : Coincide c q) : offsetDe c < 2 ^ 31 := by
  simp only [recibirPedido, Option.bind_eq_bind, Option.bind_eq_some_iff] at h
  obtain ⟨buffer, -, tipo, -, largo, -, h⟩ := h
  split at h
  · cases h
  simp only [Option.bind_eq_some_iff] at h
  obtain ⟨payload, -, pedido, hp, h⟩ := h
  obtain rfl : pedido = q := congrArg Prod.fst (Option.some.inj h)
  unfold deserializarPedido at hp
  split at hp
  · obtain ⟨path, offset, size, rfl, hlt⟩ := deserializarReadPedido_offset hp
    cases c with
    | fscRead path' size' offset' => exact hq.1 ▸ hlt
    | fscWrite path' buf' size' offset' => exact hq.elim
  split at hp
  · obtain ⟨path, size, buf, offset, rfl, hlt⟩ := deserializarWritePedido_offset hp
    cases c with
    | fscRead path' size' offset' => exact hq.elim
    | fscWrite path' buf' size' offset' => exact hq.1 ▸ hlt
  split at hp
  · obtain ⟨path, offset, rfl⟩ := deserializarTruncatePedido_tipo hp
    cases c <;> exact hq.elim
  · simp only [Option.bind_eq_bind, Option.bind_eq_some_iff] at hp
    obtain ⟨tipo', -, path, -, hp⟩ := hp
    obtain rfl := Option.some.inj hp
    cases c <;> exact hq.elim

/-- The header of a frame tells the length of its body. -/
theorem valor_trama (tipo : UInt8) {cuerpo : List UInt8} (h : cuerpo.length < 65536) :
    valor (((trama tipo cuerpo).drop 1).take 2) = cuerpo.length := by
  have ht : ((trama tipo cuerpo).drop 1).take 2 = bytesDe 2 cuerpo.length := by
    show (bytesDe 2 cuerpo.length ++ cuerpo).take 2 = bytesDe 2 cuerpo.length
    exact List.take_left' (length_bytesDe 2 _)
  rw [ht, valor_bytesDe]
  exact Nat.mod_eq_of_lt h

/-- A call inside the bounds asks for a request of the format. -/
theorem enFormato_pedido (hv : Valida c) (hlen : largoPayload c ≤ 65532)
    (hoff : offsetDe c < 2 ^ 31) : EnFormato c.pedido := by
  cases c with
  | fscRead path size offset =>
      obtain ⟨h0, h1, -⟩ := hv
      simp only [largoPayload, offsetDe] at hlen hoff
      exact ⟨h0, ⟨by omega, hoff⟩, by omega⟩
  | fscWrite path buf size offset =>
      obtain ⟨h0, h1, -, hbuf⟩ := hv
      simp only [largoPayload, offsetDe] at hlen hoff
      exact ⟨h0, ⟨by omega, hoff⟩, hbuf, by omega⟩

theorem largoPayload_eq (hv : Valida c) : (cuerpo c.pedido).length = largoPayload c := by
  cases c with
  | fscRead path size offset => simp [Llamada.pedido, cuerpo, largoPayload]
  | fscWrite path buf size offset =>
      obtain ⟨-, -, -, hbuf⟩ := hv
      simp only [Llamada.pedido, cuerpo, largoPayload, List.length_append, length_bytesDe,
        List.length_singleton, hbuf]
      omega

/-- What a call that is not refused sends. -/
theorem enviar_llamada (hr : ¬ Rechazada c) :
    c.enviar basura = (c.pedido.enviar basura).map .enviado := by
  cases c with
  | fscRead path size offset =>
      have hle : ¬ 65535 < size.toNat := hr
      rw [Llamada.enviar, if_neg hle]
  | fscWrite path buf size offset => rfl

theorem enviar_rechazada (hr : Rechazada c) : c.enviar basura = some .enoent := by
  cases c with
  | fscRead path size offset =>
      have hgt : 65535 < size.toNat := hr
      rw [Llamada.enviar, if_pos hgt]
  | fscWrite path buf size offset => exact hr.elim

theorem coincide_pedido (c : Llamada) : Coincide c c.pedido := by
  cases c <;> exact ⟨rfl, rfl⟩

/-- A call in the bounds is faithful. -/
theorem fiel_of_dominio (hv : Valida c) (hr : ¬ Rechazada c) (hlen : largoPayload c ≤ 65532)
    (hoff : offsetDe c < 2 ^ 31) : Fiel basura c := by
  have hf := enFormato_pedido hv hlen hoff
  have hc := largoPayload_eq hv
  have hcorto : (cuerpo c.pedido).length < 65536 := by omega
  have hcab := valor_trama (tipoDe c.pedido) hcorto
  have hrec := recibirPedido_enviado hf []
  rw [List.append_nil] at hrec
  refine .inr ⟨trama (tipoDe c.pedido) (cuerpo c.pedido), c.pedido, ?_, ?_, ?_, hrec,
    coincide_pedido c⟩
  · rw [enviar_llamada hr, enviar_eq basura hf, Option.map_some]
  · rw [hcab, hc]
  · rw [hcab, length_trama]

/-- The bytes a call sends are `tamano_paq`, modulo the width of both. -/
theorem length_enviado {bytes : List UInt8} (hr : ¬ Rechazada c)
    (h : c.enviar basura = some (.enviado bytes)) :
    bytes.length = (3 + largoPayload c) % 65536 := by
  rw [enviar_llamada hr] at h
  obtain ⟨b, hb, heq⟩ := Option.map_eq_some_iff.mp h
  obtain rfl : b = bytes := by injection heq
  simp only [Pedido.enviar, Option.bind_eq_bind, Option.bind_eq_some_iff] at hb
  obtain ⟨paquete, -, hs⟩ := hb
  rw [length_sacar hs]
  cases c with
  | fscRead path size offset => simp only [Llamada.pedido, Pedido.tamanoPaq, largoPayload]; omega
  | fscWrite path buf size offset =>
      simp only [Llamada.pedido, Pedido.tamanoPaq, largoPayload]
      omega

/-- **THE DOMAIN OF THE FORMAT**: a call is faithful exactly when it is refused
    or its payload and its offset fit. -/
theorem fiel_iff (basura : Nat → UInt8) (c : Llamada) (hv : Valida c) :
    Fiel basura c ↔ Rechazada c ∨ (largoPayload c ≤ 65532 ∧ offsetDe c < 2 ^ 31) := by
  constructor
  · intro h
    by_cases hr : Rechazada c
    · exact .inl hr
    refine .inr ?_
    rcases h with h | ⟨bytes, q, henv, hcab, hlen, hrec, hq⟩
    · rw [enviar_llamada hr] at h
      obtain ⟨b, -, heq⟩ := Option.map_eq_some_iff.mp h
      cases heq
    · have hpaq := length_enviado hr henv
      refine ⟨?_, recibirPedido_corto hrec hq⟩
      rw [hlen, hcab] at hpaq
      omega
  · rintro (hr | ⟨hlen, hoff⟩)
    · exact .inl (enviar_rechazada hr)
    · by_cases hr : Rechazada c
      · exact .inl (enviar_rechazada hr)
      · exact fiel_of_dominio hv hr hlen hoff

end Dominio

/-- A WRITE of three bytes in the bounds. -/
theorem fiel_iff_tres : Fiel (fun _ => 7) (.fscWrite [47, 97] [1, 0, 2] 3 70000) :=
  (fiel_iff (fun _ => 7) _ (by decide)).mpr (.inr (by decide))

/-- A READ of one byte at offset 2^31 is accepted, and the server reads a
    negative offset. -/
theorem fiel_iff_falla : Valida (.fscRead [47, 97] 1 (2 ^ 31)) ∧
    ¬ Rechazada (.fscRead [47, 97] 1 (2 ^ 31)) ∧
    ¬ Fiel (fun _ => 7) (.fscRead [47, 97] 1 (2 ^ 31)) ∧
    (∃ bytes, Llamada.enviar (fun _ => 7) (.fscRead [47, 97] 1 (2 ^ 31)) = some (.enviado bytes) ∧
      recibirPedido bytes = some (.read [47, 97] (-2 ^ 31) 1, [])) := by
  refine ⟨by decide, by decide, ?_, _, rfl, by decide⟩
  rintro (h | ⟨bytes, q, henv, -, -, hrec, hq⟩)
  · exact absurd h (by decide)
  · exact absurd (recibirPedido_corto hrec hq) (by decide)

end Nipc
