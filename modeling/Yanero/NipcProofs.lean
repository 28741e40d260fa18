import Yanero.RfsSerial

/-! # The frames that cross the wire

    Client and server compute the lengths of a frame in three places each.
    The bridge between them is the plain frame `trama tipo cuerpo`: the type,
    two bytes of length and the body.  Every serialiser of the client builds
    the frame of its request's body (`paquete_eq`), the server's reader takes
    exactly one frame off the stream (`recibirPedido_trama`), and the
    deserialiser of the type inverts the body (`deserializarPedido_cuerpo`). -/

namespace Nipc

open Bloques Palabras Fsc Rfs

/-- A frame: type, length and body. -/
def trama (tipo : UInt8) (cuerpo : List UInt8) : List UInt8 :=
  [tipo] ++ (bytesDe 2 cuerpo.length ++ cuerpo)

theorem length_trama (tipo : UInt8) (cuerpo : List UInt8) :
    (trama tipo cuerpo).length = 3 + cuerpo.length := by
  simp only [trama, List.length_append, length_bytesDe, List.length_singleton]
  omega

/-- The packet of a complete payload is its frame. -/
theorem serializarNipc_eq (basura : Nat → UInt8) (tipo : UInt8) (cuerpo : List UInt8) :
    serializarNipc basura ⟨tipo, cuerpo.length, cuerpo⟩ = some (trama tipo cuerpo) := by
  have l₀ := lleno_malloc basura (1 + 2 + cuerpo.length)
  obtain ⟨b₁, e₁, l₁⟩ := l₀.poner 0 [tipo] rfl (by simp; omega)
  obtain ⟨b₂, e₂, l₂⟩ := l₁.poner 1 (bytesDe 2 cuerpo.length) rfl (by simp)
  obtain ⟨b₃, e₃, l₃⟩ := l₂.poner 3 cuerpo (by simp) (by simp)
  have hb : b₃ = trama tipo cuerpo := by
    rw [l₃.completo (by simp; omega), trama]
    simp
  simp only [serializarNipc, e₁, e₂, sacar_todo, e₃, hb, bind, Option.bind]

/-! ## What each serialiser builds -/

/-- The type byte of a request. -/
def tipoDe : Pedido → UInt8
  | .soloPath tipo _ => tipo.codigo
  | .read .. => tipoRead
  | .write .. => tipoWrite
  | .truncate .. => tipoTruncate

/-- The body of a request. -/
def cuerpo : Pedido → List UInt8
  | .soloPath _ path => path ++ [0]
  | .read path off size => (path ++ [0]) ++ (bytesDe 4 (aUint32 off) ++ bytesDe 4 size.toNat)
  | .write path size buf off =>
      (path ++ [0]) ++ (bytesDe 4 size.toNat ++ (buf ++ bytesDe 4 (aUint32 off)))
  | .truncate path off => (path ++ [0]) ++ bytesOffT off

/-- An offset both widths of `off_t` can hold. -/
def OffsetCorto (off : Int) : Prop := -2 ^ 31 ≤ off ∧ off < 2 ^ 31

/-- The requests of the format: paths without a zero byte, offsets below
    2^31, as many bytes to write as announced, and a payload of at most 65532
    bytes. -/
def EnFormato : Pedido → Prop
  | .soloPath _ path => 0 ∉ path ∧ path.length + 1 ≤ 65532
  | .read path off _ => 0 ∉ path ∧ OffsetCorto off ∧ path.length + 1 + 8 ≤ 65532
  | .write path size buf off =>
      0 ∉ path ∧ OffsetCorto off ∧ buf.length = size.toNat ∧
        path.length + 1 + 8 + size.toNat ≤ 65532
  | .truncate path off => 0 ∉ path ∧ OffsetCorto off ∧ path.length + 1 + 8 ≤ 65532

instance (off : Int) : Decidable (OffsetCorto off) :=
  inferInstanceAs (Decidable (_ ∧ _))

instance : ∀ p : Pedido, Decidable (EnFormato p)
  | .soloPath .. => inferInstanceAs (Decidable (_ ∧ _))
  | .read .. => inferInstanceAs (Decidable (_ ∧ _ ∧ _))
  | .write .. => inferInstanceAs (Decidable (_ ∧ _ ∧ _ ∧ _))
  | .truncate .. => inferInstanceAs (Decidable (_ ∧ _ ∧ _))

/-- A request in format has a payload, and it fits. -/
theorem length_cuerpo {p : Pedido} (h : EnFormato p) :
    0 < (cuerpo p).length ∧ (cuerpo p).length ≤ 65532 := by
  cases p <;> simp only [EnFormato, cuerpo, bytesOffT, List.length_append, length_bytesDe,
    List.length_singleton] at h ⊢ <;> omega

/-- The packet of a request that has a path alone. -/
theorem serializarPath_eq (basura : Nat → UInt8) {path : List UInt8} (tipo : UInt8)
    (h : path.length + 1 ≤ 65532) :
    serializarPath basura path tipo = some (trama tipo (path ++ [0])) := by
  have hlen : (path.length + 1) % 65536 = (path ++ [0]).length := by
    simp only [List.length_append, List.length_singleton]
    omega
  have l₀ := lleno_malloc basura (path ++ [0]).length
  obtain ⟨b₁, e₁, l₁⟩ := l₀.poner 0 (path ++ [0]) rfl (by simp)
  have hb : b₁ = path ++ [0] := l₁.completo (by simp)
  simp only [serializarPath, hlen, e₁, hb, serializarNipc_eq, bind, Option.bind]

/-- The packet of a READ. -/
theorem serializarReadPedido_eq (basura : Nat → UInt8) {path : List UInt8} (off : Int)
    (size : UInt32) (h : path.length + 1 + 8 ≤ 65532) :
    serializarReadPedido basura path off size =
      some (trama tipoRead (cuerpo (.read path off size))) := by
  have hlen : (path.length + 1 + 4 + 4) % 65536 = (cuerpo (.read path off size)).length := by
    simp only [cuerpo, List.length_append, length_bytesDe, List.length_singleton]
    omega
  have hc : (cuerpo (.read path off size)).length = path.length + 9 := by simp [cuerpo]
  have ho₁ : (path.length + 1) % 65536 = path.length + 1 := by omega
  have ho₂ : (path.length + 1 + 4) % 65536 = path.length + 1 + 4 := by omega
  have l₀ := lleno_malloc basura (cuerpo (.read path off size)).length
  obtain ⟨b₁, e₁, l₁⟩ := l₀.poner 0 (path ++ [0]) rfl (by simp; omega)
  obtain ⟨b₂, e₂, l₂⟩ := l₁.poner (path.length + 1) (bytesDe 4 (aUint32 off)) (by simp)
    (by simp; omega)
  obtain ⟨b₃, e₃, l₃⟩ := l₂.poner (path.length + 1 + 4) (bytesDe 4 size.toNat) (by simp)
    (by simp; omega)
  have hb : b₃ = cuerpo (.read path off size) := by
    rw [l₃.completo (by simp; omega), cuerpo]
    simp
  simp only [serializarReadPedido, hlen, ho₁, ho₂, e₁, e₂, e₃, hb, serializarNipc_eq, bind,
    Option.bind]

/-- The packet of a WRITE. -/
theorem serializarWritePedido_eq (basura : Nat → UInt8) {path : List UInt8} {size : UInt32}
    {buf : List UInt8} (off : Int) (hbuf : buf.length = size.toNat)
    (h : path.length + 1 + 8 + size.toNat ≤ 65532) :
    serializarWritePedido basura path size buf off =
      some (trama tipoWrite (cuerpo (.write path size buf off))) := by
  have hc : (cuerpo (.write path size buf off)).length = path.length + 9 + size.toNat := by
    simp [cuerpo, hbuf]
    omega
  have hlen : (path.length + 1 + 4 + 4 + size.toNat) % 65536 =
      (cuerpo (.write path size buf off)).length := by
    rw [hc]
    omega
  have ho₁ : (path.length + 1) % 65536 = path.length + 1 := by omega
  have ho₂ : (path.length + 1 + 4) % 65536 = path.length + 1 + 4 := by omega
  have ho₃ : (path.length + 1 + 4 + size.toNat) % 65536 = path.length + 1 + 4 + size.toNat := by
    omega
  have hdatos : sacar buf 0 size.toNat = some buf := by rw [← hbuf, sacar_todo]
  have l₀ := lleno_malloc basura (cuerpo (.write path size buf off)).length
  obtain ⟨b₁, e₁, l₁⟩ := l₀.poner 0 (path ++ [0]) rfl (by simp; omega)
  obtain ⟨b₂, e₂, l₂⟩ := l₁.poner (path.length + 1) (bytesDe 4 size.toNat) (by simp)
    (by simp; omega)
  obtain ⟨b₃, e₃, l₃⟩ := l₂.poner (path.length + 1 + 4) buf (by simp) (by simp; omega)
  obtain ⟨b₄, e₄, l₄⟩ := l₃.poner (path.length + 1 + 4 + size.toNat) (bytesDe 4 (aUint32 off))
    (by simp; omega) (by simp; omega)
  have hb : b₄ = cuerpo (.write path size buf off) := by
    rw [l₄.completo (by simp; omega), cuerpo]
    simp
  simp only [serializarWritePedido, hlen, ho₁, ho₂, ho₃, e₁, e₂, hdatos, e₃, e₄, hb,
    serializarNipc_eq, bind, Option.bind]

/-- The packet of a TRUNCATE. -/
theorem serializarTruncatePedido_eq (basura : Nat → UInt8) {path : List UInt8} (off : Int)
    (h : path.length + 1 + 8 ≤ 65532) :
    serializarTruncatePedido basura path off =
      some (trama tipoTruncate (cuerpo (.truncate path off))) := by
  have hc : (cuerpo (.truncate path off)).length = path.length + 9 := by
    simp [cuerpo, bytesOffT]
  have hlen : (path.length + 1 + 8) % 65536 = (cuerpo (.truncate path off)).length := by
    rw [hc]
    omega
  have ho : (path.length + 1) % 65536 = path.length + 1 := by omega
  have hdatos : sacar (path ++ [0]) 0 (path.length + 1) = some (path ++ [0]) := by
    have := sacar_todo (path ++ [0])
    rwa [List.length_append] at this
  have l₀ := lleno_malloc basura (cuerpo (.truncate path off)).length
  obtain ⟨b₁, e₁, l₁⟩ := l₀.poner 0 (path ++ [0]) rfl (by simp; omega)
  obtain ⟨b₂, e₂, l₂⟩ := l₁.poner (path.length + 1) (bytesOffT off) (by simp)
    (by simp [bytesOffT]; omega)
  have hb : b₂ = cuerpo (.truncate path off) := by
    rw [l₂.completo (by simp [bytesOffT]; omega), cuerpo]
    simp
  simp only [serializarTruncatePedido, hlen, ho, hdatos, e₁, e₂, hb, serializarNipc_eq, bind,
    Option.bind]

/-- The packet of a request is the frame of its body. -/
theorem paquete_eq (basura : Nat → UInt8) {p : Pedido} (h : EnFormato p) :
    p.paquete basura = some (trama (tipoDe p) (cuerpo p)) := by
  cases p with
  | soloPath tipo path => exact serializarPath_eq basura tipo.codigo h.2
  | read path off size => exact serializarReadPedido_eq basura off size h.2.2
  | write path size buf off => exact serializarWritePedido_eq basura off h.2.2.1 h.2.2.2
  | truncate path off => exact serializarTruncatePedido_eq basura off h.2.2

/-- `tamano_paq` is the length of the frame. -/
theorem tamanoPaq_eq {p : Pedido} (h : EnFormato p) :
    p.tamanoPaq = (trama (tipoDe p) (cuerpo p)).length := by
  rw [length_trama]
  cases p <;> simp only [EnFormato, Pedido.tamanoPaq, cuerpo, bytesOffT, List.length_append,
    length_bytesDe, List.length_singleton] at h ⊢ <;> omega

/-- **A REQUEST IS SENT AS ITS FRAME**: the bytes on the socket are the whole
    frame and nothing else. -/
theorem enviar_eq (basura : Nat → UInt8) {p : Pedido} (h : EnFormato p) :
    p.enviar basura = some (trama (tipoDe p) (cuerpo p)) := by
  simp only [Pedido.enviar, paquete_eq basura h, tamanoPaq_eq h, sacar_todo, bind, Option.bind]

/-! ## What the server reads back -/

/-- One turn of the reader takes one frame, whatever follows it. -/
theorem recibirPedido_trama (tipo : UInt8) {c : List UInt8} (resto : List UInt8)
    (h0 : 0 < c.length) (hc : c.length < 65536) :
    recibirPedido (trama tipo c ++ resto) =
      (deserializarPedido tipo c).map fun p => (p, resto) := by
  have hcab : trama tipo c ++ resto = ([tipo] ++ bytesDe 2 c.length) ++ (c ++ resto) := by
    simp [trama]
  have hbuf : sacar (trama tipo c ++ resto) 0 3 = some ([tipo] ++ bytesDe 2 c.length) := by
    rw [hcab]
    exact sacar_inicio (by simp)
  have hlargo : sacar ([tipo] ++ bytesDe 2 c.length) 1 2 = some (bytesDe 2 c.length) :=
    sacar_final rfl (by simp)
  have hv : valor (bytesDe 2 c.length) = c.length := by
    rw [valor_bytesDe]
    exact Nat.mod_eq_of_lt hc
  have hdrop : (trama tipo c ++ resto).drop 3 = c ++ resto := by
    rw [hcab]
    exact List.drop_left' (by simp)
  have hpay : sacar (c ++ resto) 0 c.length = some c := sacar_inicio rfl
  have hne : c.length ≠ 0 := Nat.ne_of_gt h0
  have htipo : ([tipo] ++ bytesDe 2 c.length)[0]? = some tipo := rfl
  simp only [recibirPedido, hbuf, htipo, hlargo, hv, hdrop, if_neg hne, hpay, List.drop_left,
    bind, Option.bind]
  cases deserializarPedido tipo c <;> rfl

/-- The server's `off_t` of the four low bytes of a number. -/
theorem deOffT_bytesDe {off : Int} {v : Nat} (ho : OffsetCorto off)
    (hv : (v : Int) % 2 ^ 32 = off % 2 ^ 32) : deOffT (bytesDe 4 v) = off := by
  obtain ⟨h1, h2⟩ := ho
  have hp : (256 : Nat) ^ 4 = 2 ^ 32 := by decide
  rw [deOffT, valor_bytesDe, hp]
  split <;> omega

/-- The terminated path at the start of a body. -/
theorem tamPath_eq {path : List UInt8} (resto : List UInt8) (h0 : 0 ∉ path)
    (hlen : path.length + 1 ≤ 65532) :
    tamPath ((path ++ [0]) ++ resto) = some (path.length + 1) := by
  have hcad : cadena ((path ++ [0]) ++ resto) = some path := by
    rw [List.append_assoc]
    exact cadena_terminada h0 resto
  simp only [tamPath, hcad, bind, Option.bind]
  rw [Nat.mod_eq_of_lt (by omega)]

/-- The path is taken with its zero. -/
theorem sacar_path {path resto : List UInt8} :
    sacar ((path ++ [0]) ++ resto) 0 (path.length + 1) = some (path ++ [0]) :=
  sacar_inicio (by simp)

/-- The size is read back. -/
theorem valor_uint32 (n : UInt32) : UInt32.ofNat (valor (bytesDe 4 n.toNat)) = n := by
  have hp : (256 : Nat) ^ 4 = 2 ^ 32 := by decide
  rw [valor_bytesDe, hp, Nat.mod_eq_of_lt n.toNat_lt, UInt32.ofNat_toNat]

/-- The client sends the low 32 bits of an offset. -/
theorem aUint32_mod (off : Int) : ((aUint32 off : Nat) : Int) % 2 ^ 32 = off % 2 ^ 32 := by
  unfold aUint32
  omega

/-- The server decodes the payload of a READ. -/
theorem deserializarReadPedido_cuerpo {path : List UInt8} {off : Int} (size : UInt32)
    (h0 : 0 ∉ path) (ho : OffsetCorto off) (hlen : path.length + 1 + 8 ≤ 65532) :
    deserializarReadPedido (cuerpo (.read path off size)) = some (.read path off size) := by
  have hcad : cadena (path ++ [0]) = some path := cadena_terminada h0 []
  have htam : tamPath (cuerpo (.read path off size)) = some (path.length + 1) :=
    tamPath_eq _ h0 (by omega)
  have hpath : sacar (cuerpo (.read path off size)) 0 (path.length + 1) = some (path ++ [0]) :=
    sacar_path
  have hoff : sacar (cuerpo (.read path off size)) (path.length + 1) 4 =
      some (bytesDe 4 (aUint32 off)) :=
    sacar_en (by simp) (by simp)
  have hsig : (path.length + 1 + 4) % 65536 = path.length + 1 + 4 := by omega
  have hsize : sacar (cuerpo (.read path off size)) (path.length + 1 + 4) 4 =
      some (bytesDe 4 size.toNat) := by
    rw [cuerpo, ← List.append_assoc]
    exact sacar_final (by simp) (by simp)
  simp only [deserializarReadPedido, htam, hpath, hoff, hsig, hsize, hcad, bind, Option.bind,
    deOffT_bytesDe ho (aUint32_mod off), valor_uint32]

/-- And the one of a WRITE. -/
theorem deserializarWritePedido_cuerpo {path : List UInt8} {size : UInt32} {buf : List UInt8}
    {off : Int} (h0 : 0 ∉ path) (ho : OffsetCorto off) (hbuf : buf.length = size.toNat)
    (hlen : path.length + 1 + 8 + size.toNat ≤ 65532) :
    deserializarWritePedido (cuerpo (.write path size buf off)) =
      some (.write path size buf off) := by
  have hcad : cadena (path ++ [0]) = some path := cadena_terminada h0 []
  have htam : tamPath (cuerpo (.write path size buf off)) = some (path.length + 1) :=
    tamPath_eq _ h0 (by omega)
  have hpath : sacar (cuerpo (.write path size buf off)) 0 (path.length + 1) = some (path ++ [0]) :=
    sacar_path
  have hsize : sacar (cuerpo (.write path size buf off)) (path.length + 1) 4 =
      some (bytesDe 4 size.toNat) :=
    sacar_en (by simp) (by simp)
  have hsig : (path.length + 1 + 4) % 65536 = path.length + 1 + 4 := by omega
  have hdatos : sacar (cuerpo (.write path size buf off)) (path.length + 1 + 4) size.toNat =
      some buf := by
    rw [cuerpo, ← List.append_assoc]
    exact sacar_en (by simp) hbuf.symm
  have hfin : (path.length + 1 + 4 + size.toNat) % 65536 = path.length + 1 + 4 + size.toNat := by
    omega
  have hoff : sacar (cuerpo (.write path size buf off)) (path.length + 1 + 4 + size.toNat) 4 =
      some (bytesDe 4 (aUint32 off)) := by
    rw [cuerpo, ← List.append_assoc, ← List.append_assoc]
    exact sacar_final (by simp; omega) (by simp)
  simp only [deserializarWritePedido, htam, hpath, hsize, hsig, valor_uint32, hdatos, hfin, hoff,
    hcad, bind, Option.bind, deOffT_bytesDe ho (aUint32_mod off)]

/-- The server reads half of the client's `off_t`; the low half is enough. -/
theorem deserializarTruncatePedido_cuerpo {path : List UInt8} {off : Int} (h0 : 0 ∉ path)
    (ho : OffsetCorto off) (hlen : path.length + 1 + 8 ≤ 65532) :
    deserializarTruncatePedido (cuerpo (.truncate path off)) = some (.truncate path off) := by
  have hcad : cadena (path ++ [0]) = some path := cadena_terminada h0 []
  have htam : tamPath (cuerpo (.truncate path off)) = some (path.length + 1) :=
    tamPath_eq _ h0 (by omega)
  have hpath : sacar (cuerpo (.truncate path off)) 0 (path.length + 1) = some (path ++ [0]) :=
    sacar_path
  have hmitad : bytesOffT off = bytesDe 4 (off % 2 ^ 64).toNat ++
      bytesDe 4 ((off % 2 ^ 64).toNat / 256 ^ 4) := bytesDe_add 4 4 _
  have hoff : sacar (cuerpo (.truncate path off)) (path.length + 1) 4 =
      some (bytesDe 4 (off % 2 ^ 64).toNat) := by
    rw [cuerpo, hmitad]
    exact sacar_en (by simp) (by simp)
  have hmod : (((off % 2 ^ 64).toNat : Nat) : Int) % 2 ^ 32 = off % 2 ^ 32 := by omega
  simp only [deserializarTruncatePedido, htam, hpath, hoff, hcad, bind, Option.bind,
    deOffT_bytesDe ho hmod]

/-- A request type is known by its code. -/
theorem tipoPathDe_codigo (t : TipoPath) : tipoPathDe t.codigo = some t := by
  cases t <;> rfl

/-- **EVERY DESERIALISER INVERTS ITS SERIALISER.** -/
theorem deserializarPedido_cuerpo {p : Pedido} (h : EnFormato p) :
    deserializarPedido (tipoDe p) (cuerpo p) = some p := by
  cases p with
  | soloPath tipo path =>
      have h5 : tipo.codigo ≠ tipoRead := by cases tipo <;> decide
      have h6 : tipo.codigo ≠ tipoWrite := by cases tipo <;> decide
      have h9 : tipo.codigo ≠ tipoTruncate := by cases tipo <;> decide
      have hcad : cadena (path ++ [0]) = some path := cadena_terminada h.1 []
      simp only [deserializarPedido, tipoDe, cuerpo, if_neg h5, if_neg h6, if_neg h9,
        tipoPathDe_codigo, hcad, bind, Option.bind]
  | read path off size => exact deserializarReadPedido_cuerpo size h.1 h.2.1 h.2.2
  | write path size buf off =>
      exact deserializarWritePedido_cuerpo h.1 h.2.1 h.2.2.1 h.2.2.2
  | truncate path off => exact deserializarTruncatePedido_cuerpo h.1 h.2.1 h.2.2

/-- One request comes off the stream whole, and the rest stays. -/
theorem recibirPedido_enviado {p : Pedido} (h : EnFormato p) (resto : List UInt8) :
    recibirPedido (trama (tipoDe p) (cuerpo p) ++ resto) = some (p, resto) := by
  obtain ⟨h0, hc⟩ := length_cuerpo h
  rw [recibirPedido_trama (tipoDe p) resto h0 (by omega), deserializarPedido_cuerpo h]
  rfl

/-- **THE REQUESTS ROUND TRIP**: the stream of any sequence of requests of the
    format is read back as the same sequence, to its last byte. -/
theorem pedidos_ida_y_vuelta (basura : Nat → UInt8) (l : List Pedido)
    (h : ∀ p ∈ l, EnFormato p) :
    ∃ flujo, enviarPedidos basura l = some flujo ∧
      ∀ fuel, l.length ≤ fuel → recibirPedidos fuel flujo = some l := by
  induction l with
  | nil =>
      refine ⟨[], rfl, ?_⟩
      intro fuel _
      cases fuel <;> rfl
  | cons p resto ih =>
      have hp : EnFormato p := h p List.mem_cons_self
      obtain ⟨cola, hcola, hlee⟩ := ih fun q hq => h q (List.mem_cons_of_mem p hq)
      refine ⟨trama (tipoDe p) (cuerpo p) ++ cola, ?_, ?_⟩
      · simp only [enviarPedidos, enviar_eq basura hp, hcola, bind, Option.bind]
      · intro fuel hfuel
        cases fuel with
        | zero => exact absurd hfuel (by simp)
        | succ fuel =>
            have hr := recibirPedido_enviado hp cola
            have hresto := hlee fuel (by simpa using hfuel)
            obtain ⟨b, flujo, hb⟩ : ∃ b flujo, trama (tipoDe p) (cuerpo p) ++ cola = b :: flujo :=
              ⟨_, _, rfl⟩
            rw [hb] at hr ⊢
            simp only [recibirPedidos, hr, hresto, bind, Option.bind]

/-- Four requests, one with bytes to write. -/
theorem pedidos_ida_y_vuelta_cuatro :
    ∃ flujo, enviarPedidos (fun _ => 7) [.soloPath .mkdir [47, 97], .write [47, 98] 2 [1, 0] 5,
        .read [47, 98] 0 4096, .truncate [47, 98] 70000] = some flujo ∧
      ∀ fuel, 4 ≤ fuel → recibirPedidos fuel flujo = some [.soloPath .mkdir [47, 97],
        .write [47, 98] 2 [1, 0] 5, .read [47, 98] 0 4096, .truncate [47, 98] 70000] :=
  pedidos_ida_y_vuelta (fun _ => 7) _ (by decide)

end Nipc
