import Yanero.NipcAnchos
import Yanero.NipcProofs
import Mathlib.Tactic.Ring

/-! # The format on a 64-bit machine

    On a 64-bit machine the two programs disagree on two of the four messages.
    The client writes the offset of a READ in four bytes and the server reads
    an `off_t` of eight, so it runs past the payload; the server copies the
    four bytes of the offset of a WRITE over a local of eight, and half of what
    it reads was never written.  TRUNCATE and the answer to GETATTR round trip
    (`ida_y_vuelta_lp64_iff`). -/

namespace Nipc

open Bloques Palabras Fsc

/-- The messages the format is meant for, on a 64-bit machine. -/
def EnDominio : Mensaje → Prop
  | .read path offset size =>
      0 ∉ path ∧ 0 ≤ offset ∧ offset < 2 ^ 31 ∧ size < 2 ^ 64 ∧ path.length + 1 + 4 + 8 ≤ 65532
  | .write path size buf offset =>
      0 ∉ path ∧ 0 ≤ offset ∧ offset < 2 ^ 31 ∧ buf.length = size ∧
        path.length + 1 + 4 + 8 + size ≤ 65532
  | .truncate path offset =>
      0 ∉ path ∧ 0 ≤ offset ∧ offset < 2 ^ 31 ∧ path.length + 1 + 8 ≤ 65532
  | .getattr modo nlink totalSize =>
      modo < 2 ^ 32 ∧ nlink < 2 ^ 64 ∧ 0 ≤ totalSize ∧ totalSize < 2 ^ 31

instance : ∀ m : Mensaje, Decidable (EnDominio m)
  | .read .. => inferInstanceAs (Decidable (_ ∧ _ ∧ _ ∧ _ ∧ _))
  | .write .. => inferInstanceAs (Decidable (_ ∧ _ ∧ _ ∧ _ ∧ _))
  | .truncate .. => inferInstanceAs (Decidable (_ ∧ _ ∧ _ ∧ _))
  | .getattr .. => inferInstanceAs (Decidable (_ ∧ _ ∧ _ ∧ _))

/-- The receiver reads the fields that were sent, whatever its stack held. -/
def IdaYVuelta (basura : Nat → UInt8) (m : Mensaje) : Prop :=
  ∀ pila : List UInt8, pila.length = 8 →
    ((m.codificar lp64 lp64 basura).bind (m.decodificar lp64 lp64 pila)) = some m

/-- The messages whose two ends agree. -/
def MismoAncho : Mensaje → Prop
  | .read .. => False
  | .write .. => False
  | .truncate .. => True
  | .getattr .. => True

/-- The body of a message. -/
def cuerpo64 : Mensaje → List UInt8
  | .read path off size => (path ++ [0]) ++ (bytesDe 4 (aUint32 off) ++ bytesDe 8 size)
  | .write path size buf off =>
      (path ++ [0]) ++ (bytesDe 8 size ++ (buf ++ bytesDe 4 (aUint32 off)))
  | .truncate path off => (path ++ [0]) ++ bytesConSigno 8 off
  | .getattr modo nlink totalSize =>
      bytesDe 4 modo ++ (bytesDe 8 nlink ++ bytesConSigno 8 totalSize)

/-- The type byte of a message. -/
def tipo64 : Mensaje → UInt8
  | .read .. => tipoRead
  | .write .. => tipoWrite
  | .truncate .. => tipoTruncate
  | .getattr .. => TipoPath.getattr.codigo

section Lp64

variable {basura : Nat → UInt8} {m : Mensaje} {path buf : List UInt8} {off : Int} {size : Nat}

@[simp] theorem length_bytesConSigno (w : Nat) (x : Int) : (bytesConSigno w x).length = w :=
  length_bytesDe w _

theorem length_cuerpo64 (h : EnDominio m) : (cuerpo64 m).length < 65536 := by
  cases m with
  | read path off size =>
      obtain ⟨-, -, -, -, h⟩ := h
      simp only [cuerpo64, List.length_append, length_bytesDe, List.length_singleton]
      omega
  | write path size buf off =>
      obtain ⟨-, -, -, hbuf, h⟩ := h
      simp only [cuerpo64, List.length_append, length_bytesDe, List.length_singleton]
      omega
  | truncate path off =>
      obtain ⟨-, -, -, h⟩ := h
      simp only [cuerpo64, List.length_append, length_bytesConSigno, List.length_singleton]
      omega
  | getattr modo nlink totalSize =>
      simp [cuerpo64]

theorem serializarRead_lp64 (h : path.length + 1 + 4 + 8 ≤ 65532) :
    serializarRead lp64 basura path off size =
      some (trama tipoRead (cuerpo64 (.read path off size))) := by
  have hc : (cuerpo64 (.read path off size)).length = path.length + 13 := by simp [cuerpo64]
  have hlen : (path.length + 1 + 4 + 8) % 65536 = (cuerpo64 (.read path off size)).length := by
    rw [hc]
    omega
  have ho₁ : (path.length + 1) % 65536 = path.length + 1 := by omega
  have ho₂ : (path.length + 1 + 4) % 65536 = path.length + 1 + 4 := by omega
  have l₀ := lleno_malloc basura (cuerpo64 (.read path off size)).length
  obtain ⟨b₁, e₁, l₁⟩ := l₀.poner 0 (path ++ [0]) rfl (by simp; omega)
  obtain ⟨b₂, e₂, l₂⟩ := l₁.poner (path.length + 1) (bytesDe 4 (aUint32 off)) (by simp)
    (by simp; omega)
  obtain ⟨b₃, e₃, l₃⟩ := l₂.poner (path.length + 1 + 4) (bytesDe 8 size) (by simp)
    (by simp; omega)
  have hb : b₃ = cuerpo64 (.read path off size) := by
    rw [l₃.completo (by simp; omega), cuerpo64]
    simp
  simp only [serializarRead, lp64, hlen, ho₁, ho₂, e₁, e₂, e₃, hb, serializarNipc_eq, bind,
    Option.bind]

theorem serializarWrite_lp64 (hbuf : buf.length = size)
    (h : path.length + 1 + 4 + 8 + size ≤ 65532) :
    serializarWrite lp64 basura path size buf off =
      some (trama tipoWrite (cuerpo64 (.write path size buf off))) := by
  have hc : (cuerpo64 (.write path size buf off)).length = path.length + 13 + size := by
    simp [cuerpo64, hbuf]
    omega
  have hlen : (path.length + 1 + 4 + 8 + size) % 65536 =
      (cuerpo64 (.write path size buf off)).length := by
    rw [hc]
    omega
  have ho₁ : (path.length + 1) % 65536 = path.length + 1 := by omega
  have ho₂ : (path.length + 1 + 8) % 65536 = path.length + 1 + 8 := by omega
  have ho₃ : (path.length + 1 + 8 + size) % 65536 = path.length + 1 + 8 + size := by omega
  have hdatos : sacar buf 0 size = some buf := by rw [← hbuf, sacar_todo]
  have l₀ := lleno_malloc basura (cuerpo64 (.write path size buf off)).length
  obtain ⟨b₁, e₁, l₁⟩ := l₀.poner 0 (path ++ [0]) rfl (by simp; omega)
  obtain ⟨b₂, e₂, l₂⟩ := l₁.poner (path.length + 1) (bytesDe 8 size) (by simp) (by simp; omega)
  obtain ⟨b₃, e₃, l₃⟩ := l₂.poner (path.length + 1 + 8) buf (by simp) (by simp; omega)
  obtain ⟨b₄, e₄, l₄⟩ := l₃.poner (path.length + 1 + 8 + size) (bytesDe 4 (aUint32 off))
    (by simp; omega) (by simp; omega)
  have hb : b₄ = cuerpo64 (.write path size buf off) := by
    rw [l₄.completo (by simp; omega), cuerpo64]
    simp
  simp only [serializarWrite, lp64, hlen, ho₁, ho₂, ho₃, e₁, e₂, hdatos, e₃, e₄, hb,
    serializarNipc_eq, bind, Option.bind]

theorem serializarTruncate_lp64 (h : path.length + 1 + 8 ≤ 65532) :
    serializarTruncate lp64 basura path off =
      some (trama tipoTruncate (cuerpo64 (.truncate path off))) := by
  have hc : (cuerpo64 (.truncate path off)).length = path.length + 9 := by simp [cuerpo64]
  have hlen : (path.length + 1 + 8) % 65536 = (cuerpo64 (.truncate path off)).length := by
    rw [hc]
    omega
  have ho : (path.length + 1) % 65536 = path.length + 1 := by omega
  have hdatos : sacar (path ++ [0]) 0 (path.length + 1) = some (path ++ [0]) := by
    have := sacar_todo (path ++ [0])
    rwa [List.length_append] at this
  have l₀ := lleno_malloc basura (cuerpo64 (.truncate path off)).length
  obtain ⟨b₁, e₁, l₁⟩ := l₀.poner 0 (path ++ [0]) rfl (by simp; omega)
  obtain ⟨b₂, e₂, l₂⟩ := l₁.poner (path.length + 1) (bytesConSigno 8 off) (by simp)
    (by simp; omega)
  have hb : b₂ = cuerpo64 (.truncate path off) := by
    rw [l₂.completo (by simp; omega), cuerpo64]
    simp
  simp only [serializarTruncate, lp64, hlen, ho, hdatos, e₁, e₂, hb, serializarNipc_eq, bind,
    Option.bind]

theorem serializarGetattr_lp64 (modo links : Nat) (totalSize : Int) :
    serializarGetattr lp64 basura modo links totalSize =
      some (trama TipoPath.getattr.codigo (cuerpo64 (.getattr modo links totalSize))) := by
  have hlen : (4 + 8 + 8) % 65536 = (cuerpo64 (.getattr modo links totalSize)).length := by
    simp [cuerpo64]
  have l₀ := lleno_malloc basura (cuerpo64 (.getattr modo links totalSize)).length
  obtain ⟨b₁, e₁, l₁⟩ := l₀.poner 0 (bytesDe 4 modo) rfl (by simp [cuerpo64])
  obtain ⟨b₂, e₂, l₂⟩ := l₁.poner 4 (bytesDe 8 links) (by simp) (by simp [cuerpo64])
  obtain ⟨b₃, e₃, l₃⟩ := l₂.poner 12 (bytesConSigno 8 totalSize) (by simp) (by simp [cuerpo64])
  have hb : b₃ = cuerpo64 (.getattr modo links totalSize) := by
    rw [l₃.completo (by simp [cuerpo64]), cuerpo64]
    simp
  have ho : (4 + 8) % 65536 = 12 := rfl
  simp only [serializarGetattr, lp64, hlen, ho, e₁, e₂, e₃, hb, serializarNipc_eq, bind,
    Option.bind]

/-- Every serialiser builds the frame of its message. -/
theorem codificar_lp64 (h : EnDominio m) :
    m.codificar lp64 lp64 basura = some (trama (tipo64 m) (cuerpo64 m)) := by
  cases m with
  | read path off size => exact serializarRead_lp64 h.2.2.2.2
  | write path size buf off => exact serializarWrite_lp64 h.2.2.2.1 h.2.2.2.2
  | truncate path off => exact serializarTruncate_lp64 h.2.2.2
  | getattr modo nlink totalSize => exact serializarGetattr_lp64 modo nlink totalSize

/-- The receiver of a frame gets its body. -/
theorem payload_trama (tipo : UInt8) {c : List UInt8} (h : c.length < 65536) :
    sacar (trama tipo c) 1 2 = some (bytesDe 2 c.length) ∧
      sacar (trama tipo c) 3 (valor (bytesDe 2 c.length)) = some c := by
  have hv : valor (bytesDe 2 c.length) = c.length := by
    rw [valor_bytesDe]
    exact Nat.mod_eq_of_lt h
  constructor
  · exact sacar_en rfl (by simp)
  · rw [hv, trama, ← List.append_assoc]
    exact sacar_final (by simp) rfl

/-- A small non-negative number and its bytes. -/
theorem conSigno_bytesConSigno {x : Int} (h0 : 0 ≤ x) (h1 : x < 2 ^ 31) :
    conSigno (bytesConSigno 8 x) = x := by
  have hp : (256 : Nat) ^ 8 = 2 ^ 64 := by decide
  have hv : valor (bytesConSigno 8 x) = x.toNat := by
    rw [bytesConSigno, valor_bytesDe, hp]
    omega
  rw [conSigno, length_bytesConSigno, hv]
  split <;> omega

/-- What the receiver of a message reads from its body. -/
theorem decodificar_trama (pila : List UInt8) (h : EnDominio m) :
    m.decodificar lp64 lp64 pila (trama (tipo64 m) (cuerpo64 m)) =
      m.deserializar lp64 lp64 pila (cuerpo64 m) := by
  obtain ⟨h1, h2⟩ := payload_trama (tipo64 m) (length_cuerpo64 h)
  simp only [Mensaje.decodificar, h1, h2, bind, Option.bind]

/-- A READ makes the server read past the payload. -/
theorem deserializarRead_lp64 (h0 : 0 ∉ path) (hlen : path.length + 1 + 4 + 8 ≤ 65532) :
    deserializarRead lp64 (cuerpo64 (.read path off size)) = none := by
  have hcad : cadena (path ++ [0]) = some path := cadena_terminada h0 []
  have htam : Rfs.tamPath (cuerpo64 (.read path off size)) = some (path.length + 1) :=
    tamPath_eq _ h0 (by omega)
  have hpath : sacar (cuerpo64 (.read path off size)) 0 (path.length + 1) = some (path ++ [0]) :=
    sacar_path
  have hsig : (path.length + 1 + 8) % 65536 = path.length + 1 + 8 := by omega
  have hc : (cuerpo64 (.read path off size)).length = path.length + 13 := by simp [cuerpo64]
  have hfuera : sacar (cuerpo64 (.read path off size)) (path.length + 1 + 8) 8 = none := by
    rw [sacar, if_neg (by omega)]
  simp only [deserializarRead, lp64, htam, hpath, hcad, hsig, hfuera, bind, Option.bind]
  cases sacar (cuerpo64 (.read path off size)) (path.length + 1) 8 <;> rfl

/-- The offset of a WRITE keeps the high half of what the stack held. -/
theorem deserializarWrite_lp64 {pila : List UInt8} (h0 : 0 ∉ path) (hp : pila.length = 8)
    (hbuf : buf.length = size) (hlen : path.length + 1 + 4 + 8 + size ≤ 65532) :
    deserializarWrite lp64 pila (cuerpo64 (.write path size buf off)) =
      some (.write path size buf (conSigno (bytesDe 4 (aUint32 off) ++ pila.drop 4))) := by
  have hcad : cadena (path ++ [0]) = some path := cadena_terminada h0 []
  have htam : Rfs.tamPath (cuerpo64 (.write path size buf off)) = some (path.length + 1) :=
    tamPath_eq _ h0 (by omega)
  have hpath : sacar (cuerpo64 (.write path size buf off)) 0 (path.length + 1) =
      some (path ++ [0]) := sacar_path
  have hsize : sacar (cuerpo64 (.write path size buf off)) (path.length + 1) 8 =
      some (bytesDe 8 size) :=
    sacar_en (by simp) (by simp)
  have hv : valor (bytesDe 8 size) = size := by
    have h8 : (256 : Nat) ^ 8 = 2 ^ 64 := by decide
    rw [valor_bytesDe, h8]
    exact Nat.mod_eq_of_lt (by omega)
  have hsig : (path.length + 1 + 8) % 65536 = path.length + 1 + 8 := by omega
  have hdatos : sacar (cuerpo64 (.write path size buf off)) (path.length + 1 + 8) size =
      some buf := by
    rw [cuerpo64, ← List.append_assoc]
    exact sacar_en (by simp) hbuf.symm
  have hfin : (path.length + 1 + 8 + size) % 65536 = path.length + 1 + 8 + size := by omega
  have hoff : sacar (cuerpo64 (.write path size buf off)) (path.length + 1 + 8 + size) 4 =
      some (bytesDe 4 (aUint32 off)) := by
    rw [cuerpo64, ← List.append_assoc, ← List.append_assoc]
    exact sacar_final (by simp; omega) (by simp)
  have hpila : poner pila 0 (bytesDe 4 (aUint32 off)) =
      some (bytesDe 4 (aUint32 off) ++ pila.drop 4) := by
    rw [poner, if_pos (by simp [hp])]
    simp
  simp only [deserializarWrite, lp64, htam, hpath, hcad, hsize, hv, hsig, hdatos, hfin, hoff, hpila,
    bind, Option.bind]

theorem deserializarTruncate_lp64 (h0 : 0 ∉ path) (h1 : 0 ≤ off) (h2 : off < 2 ^ 31)
    (hlen : path.length + 1 + 8 ≤ 65532) :
    deserializarTruncate lp64 (cuerpo64 (.truncate path off)) = some (.truncate path off) := by
  have hcad : cadena (path ++ [0]) = some path := cadena_terminada h0 []
  have htam : Rfs.tamPath (cuerpo64 (.truncate path off)) = some (path.length + 1) :=
    tamPath_eq _ h0 (by omega)
  have hpath : sacar (cuerpo64 (.truncate path off)) 0 (path.length + 1) = some (path ++ [0]) :=
    sacar_path
  have hoff : sacar (cuerpo64 (.truncate path off)) (path.length + 1) 8 =
      some (bytesConSigno 8 off) :=
    sacar_final (by simp) (by simp)
  simp only [deserializarTruncate, lp64, htam, hpath, hcad, hoff, conSigno_bytesConSigno h1 h2,
    bind, Option.bind]

/-- The client reads the low half of the size, which is all of it. -/
theorem deserializarGetattr_lp64 {modo nlink : Nat} {totalSize : Int} (hm : modo < 2 ^ 32)
    (hn : nlink < 2 ^ 64) (h0 : 0 ≤ totalSize) (h1 : totalSize < 2 ^ 31) :
    deserializarGetattr lp64 (cuerpo64 (.getattr modo nlink totalSize)) =
      some (.getattr modo nlink totalSize) := by
  have h4 : (256 : Nat) ^ 4 = 2 ^ 32 := by decide
  have h8 : (256 : Nat) ^ 8 = 2 ^ 64 := by decide
  have hmodo : sacar (cuerpo64 (.getattr modo nlink totalSize)) 0 4 = some (bytesDe 4 modo) :=
    sacar_inicio (by simp)
  have hnlink : sacar (cuerpo64 (.getattr modo nlink totalSize)) 4 8 = some (bytesDe 8 nlink) :=
    sacar_en (by simp) (by simp)
  have hmitad : bytesConSigno 8 totalSize = bytesDe 4 (totalSize % 2 ^ (8 * 8)).toNat ++
      bytesDe 4 ((totalSize % 2 ^ (8 * 8)).toNat / 256 ^ 4) := bytesDe_add 4 4 _
  have hsize : sacar (cuerpo64 (.getattr modo nlink totalSize)) 12 4 =
      some (bytesDe 4 (totalSize % 2 ^ (8 * 8)).toNat) := by
    rw [cuerpo64, hmitad, ← List.append_assoc]
    exact sacar_en (by simp) (by simp)
  have hvm : valor (bytesDe 4 modo) = modo := by
    rw [valor_bytesDe, h4]
    exact Nat.mod_eq_of_lt hm
  have hvn : valor (bytesDe 8 nlink) = nlink := by
    rw [valor_bytesDe, h8]
    exact Nat.mod_eq_of_lt hn
  have hvs : ((valor (bytesDe 4 (totalSize % 2 ^ (8 * 8)).toNat) : Nat) : Int) = totalSize := by
    rw [valor_bytesDe, h4]
    omega
  have ho : (4 + 8) % 65536 = 12 := rfl
  simp only [deserializarGetattr, lp64, hmodo, hnlink, ho, hsize, hvm, hvn, hvs, bind, Option.bind]

/-- Ones in the high half make the offset of a WRITE a large number. -/
theorem conSigno_pila (v : Nat) : 2 ^ 31 ≤ conSigno (bytesDe 4 v ++ [1, 1, 1, 1]) := by
  have hv : valor (bytesDe 4 v ++ [1, 1, 1, 1]) = v % 256 ^ 4 + 256 ^ 4 * 16843009 := by
    have happ : ∀ (l : List UInt8), valor (l ++ [1, 1, 1, 1]) =
        valor l + 256 ^ l.length * 16843009 := by
      intro l
      induction l with
      | nil => rfl
      | cons b l ih =>
          rw [List.cons_append, valor, ih, valor, List.length_cons, Nat.pow_succ]
          ring
    rw [happ, valor_bytesDe, length_bytesDe]
  have hl : (bytesDe 4 v ++ [1, 1, 1, 1]).length = 8 := by simp
  rw [conSigno, hl, hv]
  split <;> omega

/-- **THE FORMAT ON A 64-BIT MACHINE**: a message round trips exactly when both
    ends give its fields the same widths. -/
theorem ida_y_vuelta_lp64_iff (basura : Nat → UInt8) (m : Mensaje) (h : EnDominio m) :
    IdaYVuelta basura m ↔ MismoAncho m := by
  have hbind : ∀ pila, (m.codificar lp64 lp64 basura).bind (m.decodificar lp64 lp64 pila) =
      m.decodificar lp64 lp64 pila (trama (tipo64 m) (cuerpo64 m)) := by
    intro pila
    rw [codificar_lp64 h, Option.bind_some]
  have hocho : ([1, 1, 1, 1, 1, 1, 1, 1] : List UInt8).length = 8 := rfl
  cases m with
  | read path off size =>
      refine ⟨fun hr => ?_, fun hm => hm.elim⟩
      have := hr _ hocho
      rw [hbind, decodificar_trama _ h] at this
      rw [Mensaje.deserializar, deserializarRead_lp64 h.1 h.2.2.2.2] at this
      cases this
  | write path size buf off =>
      refine ⟨fun hr => ?_, fun hm => hm.elim⟩
      have := hr _ hocho
      rw [hbind, decodificar_trama _ h] at this
      rw [Mensaje.deserializar, deserializarWrite_lp64 h.1 hocho h.2.2.2.1 h.2.2.2.2] at this
      have hoff : conSigno (bytesDe 4 (aUint32 off) ++ [1, 1, 1, 1]) = off := by
        injection Option.some.inj this
      have hgrande := conSigno_pila (aUint32 off)
      rw [hoff] at hgrande
      exact absurd h.2.2.1 (by omega)
  | truncate path off =>
      refine ⟨fun _ => trivial, fun _ pila _ => ?_⟩
      rw [hbind, decodificar_trama _ h]
      exact deserializarTruncate_lp64 h.1 h.2.1 h.2.2.1 h.2.2.2
  | getattr modo nlink totalSize =>
      refine ⟨fun _ => trivial, fun _ pila _ => ?_⟩
      rw [hbind, decodificar_trama _ h]
      exact deserializarGetattr_lp64 h.1 h.2.1 h.2.2.1 h.2.2.2

end Lp64

/-- A TRUNCATE round trips. -/
theorem ida_y_vuelta_lp64_truncate : IdaYVuelta (fun _ => 7) (.truncate [47, 97] 70000) :=
  (ida_y_vuelta_lp64_iff (fun _ => 7) _ (by decide)).mpr trivial

/-- A READ of ten bytes at the start of a file: the server runs past the
    payload. -/
theorem ida_y_vuelta_lp64_falla : EnDominio (.read [47, 97] 0 10) ∧
    ((Mensaje.read [47, 97] 0 10).codificar lp64 lp64 (fun _ => 7)).isSome ∧
    ((Mensaje.read [47, 97] 0 10).codificar lp64 lp64 (fun _ => 7)).bind
      ((Mensaje.read [47, 97] 0 10).decodificar lp64 lp64 [0, 0, 0, 0, 0, 0, 0, 0]) = none ∧
    ¬ IdaYVuelta (fun _ => 7) (.read [47, 97] 0 10) := by
  have hno : ((Mensaje.read [47, 97] 0 10).codificar lp64 lp64 (fun _ => 7)).bind
      ((Mensaje.read [47, 97] 0 10).decodificar lp64 lp64 [0, 0, 0, 0, 0, 0, 0, 0]) = none := by
    decide
  refine ⟨by decide, by decide, hno, ?_⟩
  intro h
  have := h [0, 0, 0, 0, 0, 0, 0, 0] rfl
  rw [hno] at this
  cases this

end Nipc
