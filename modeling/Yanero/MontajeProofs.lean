import Yanero.Montaje
import Yanero.NipcAnchosProofs
import Yanero.FscCoherenciaProofs

/-! # The mounted volume is a map from paths

    One call goes through the client, the socket and the server
    (`conversar_conServidor`), so what it returns is what the handler answers,
    and the theorems on the requests say what that is on a sound volume: it
    returns, nothing is left on the socket, the volume is sound and the call is
    one on the map (`Admisible.cumplida`). -/

namespace Montaje

open Guiones Bloques Palabras Fsc Rfs Nipc Arborescencia

/-! ## What a worker sends -/

section Envios

variable {basura : Nat → UInt8} {p : Pedido}

/-- A result of `int` is read back as it was. -/
theorem deserializarResultRta_bytes {n : Int} (h1 : -2 ^ 31 ≤ n) (h2 : n < 2 ^ 31) :
    deserializarResultRta (bytesConSigno 4 n) = some n := by
  have hlen : (bytesConSigno 4 n).length = 4 := length_bytesConSigno 4 n
  have hsacar := sacar_todo (bytesConSigno 4 n)
  rw [hlen] at hsacar
  rw [deserializarResultRta, hsacar, Option.map_some, conSigno, hlen, bytesConSigno, valor_bytesDe]
  have h256 : (256 : Nat) ^ 4 = 2 ^ 32 := by decide
  congr 1
  split <;> omega

/-- The answer packet of a result. -/
theorem serializarResultRta_eq (rta : Int) (tipo : UInt8) :
    serializarResultRta basura rta tipo = some (trama tipo (bytesConSigno 4 rta)) := by
  have hlen : (bytesConSigno 4 rta).length = 4 := length_bytesConSigno 4 rta
  obtain ⟨b, e, l⟩ := (lleno_malloc basura 4).poner 0 (bytesConSigno 4 rta) rfl (by simp)
  have hb : b = bytesConSigno 4 rta := l.completo (by simp)
  have hn := serializarNipc_eq basura tipo (bytesConSigno 4 rta)
  rw [hlen] at hn
  simp only [serializarResultRta, e, hb, hn, bind, Option.bind]

/-- The requests that are answered with a result. -/
def ConResult : Pedido → Prop
  | .soloPath .getattr _ => False
  | .soloPath .readdir _ => False
  | .soloPath .release _ => False
  | .read _ _ _ => False
  | _ => True

/-- The packet of a request that is answered with a result. -/
theorem paqueteRta_result (hp : ConResult p) (rta : Int) :
    paqueteRta basura p (.result rta) = some (trama (tipoDe p) (bytesConSigno 4 rta)) := by
  have hs : ∀ tipo, (do
      let paquete ← serializarResultRta basura rta tipo
      sacar paquete 0 (4 + 3)) = some (trama tipo (bytesConSigno 4 rta)) := by
    intro tipo
    have hlen : (trama tipo (bytesConSigno 4 rta)).length = 4 + 3 := by
      rw [length_trama, length_bytesConSigno]
    have hsacar := sacar_todo (trama tipo (bytesConSigno 4 rta))
    rw [hlen] at hsacar
    rw [serializarResultRta_eq]
    exact hsacar
  match p, hp with
  | .soloPath .opn _, _ => exact hs _
  | .soloPath .create _, _ => exact hs _
  | .soloPath .unlink _, _ => exact hs _
  | .soloPath .rmdir _, _ => exact hs _
  | .soloPath .mkdir _, _ => exact hs _
  | .write _ _ _ _, _ => exact hs _
  | .truncate _ _, _ => exact hs _

/-- The packet of an error. -/
theorem paqueteRta_error (hp : p.conRespuesta) :
    paqueteRta basura p .error = some (trama 0 []) := by
  match p, hp with
  | .soloPath .getattr _, _ => rfl
  | .soloPath .readdir _, _ => rfl
  | .soloPath .opn _, _ => rfl
  | .soloPath .create _, _ => rfl
  | .soloPath .unlink _, _ => rfl
  | .soloPath .rmdir _, _ => rfl
  | .soloPath .mkdir _, _ => rfl
  | .read _ _ _, _ => rfl
  | .write _ _ _ _, _ => rfl
  | .truncate _ _, _ => rfl

/-- The payload of the answer to GETATTR. -/
def cuerpoAtributos (modo links tam : Nat) : List UInt8 :=
  bytesDe 4 modo ++ (bytesDe 4 links ++ bytesConSigno 4 tam)

theorem length_cuerpoAtributos (modo links tam : Nat) :
    (cuerpoAtributos modo links tam).length = 12 := by
  simp [cuerpoAtributos]

/-- The packet of the attributes. -/
theorem paqueteRta_getattr (path : List UInt8) (modo links tam : Nat) :
    paqueteRta basura (.soloPath .getattr path) (.getattr modo links tam)
      = some (trama TipoPath.getattr.codigo (cuerpoAtributos modo links tam)) := by
  have hlen : (4 + 4 + 4) % 65536 = (cuerpoAtributos modo links tam).length := by
    rw [length_cuerpoAtributos]
  have l₀ := lleno_malloc basura (cuerpoAtributos modo links tam).length
  obtain ⟨b₁, e₁, l₁⟩ := l₀.poner 0 (bytesDe 4 modo) rfl (by simp [cuerpoAtributos])
  obtain ⟨b₂, e₂, l₂⟩ := l₁.poner 4 (bytesDe 4 links) (by simp) (by simp [cuerpoAtributos])
  obtain ⟨b₃, e₃, l₃⟩ := l₂.poner 8 (bytesConSigno 4 (tam : Nat)) (by simp)
    (by simp [cuerpoAtributos])
  have hb : b₃ = cuerpoAtributos modo links tam := by
    rw [l₃.completo (by simp [cuerpoAtributos]), cuerpoAtributos]
    simp
  have ho : (4 + 4) % 65536 = 8 := rfl
  have hpaq : serializarGetattr Fsc.rfs32 basura modo links (tam : Nat)
      = some (trama TipoPath.getattr.codigo (cuerpoAtributos modo links tam)) := by
    simp only [serializarGetattr, Fsc.rfs32, hlen, ho, e₁, e₂, e₃, hb, serializarNipc_eq, bind,
      Option.bind]
  have htodo : (trama TipoPath.getattr.codigo (cuerpoAtributos modo links tam)).length
      = 4 + 4 + 4 + 3 := by
    rw [length_trama, length_cuerpoAtributos]
  have hsacar := sacar_todo (trama TipoPath.getattr.codigo (cuerpoAtributos modo links tam))
  rw [htodo] at hsacar
  rw [paqueteRta, hpaq]
  exact hsacar

/-- The client reads the three fields of GETATTR. -/
theorem deserializarGetattr_cuerpo {modo links tam : Nat} (hm : modo < 2 ^ 32) (hl : links < 2 ^ 32)
    (ht : tam < 2 ^ 32) : deserializarGetattr fsc32 (cuerpoAtributos modo links tam)
      = some (.getattr modo links tam) := by
  have h₁ : sacar (cuerpoAtributos modo links tam) 0 4 = some (bytesDe 4 modo) := by
    rw [cuerpoAtributos, ← List.nil_append (bytesDe 4 modo ++ _)]
    exact sacar_en rfl (by simp)
  have h₂ : sacar (cuerpoAtributos modo links tam) 4 4 = some (bytesDe 4 links) := by
    rw [cuerpoAtributos]
    exact sacar_en (by simp) (by simp)
  have h₃ : sacar (cuerpoAtributos modo links tam) 8 4 = some (bytesConSigno 4 (tam : Nat)) := by
    rw [cuerpoAtributos, ← List.append_assoc, ← List.append_nil (bytesConSigno 4 (tam : Nat))]
    exact sacar_en (by simp) (by simp)
  have ho : (4 + 4) % 65536 = 8 := rfl
  have htam : valor (bytesConSigno 4 (tam : Nat)) = tam := by
    rw [bytesConSigno, valor_bytesDe]
    omega
  have hmodo : valor (bytesDe 4 modo) = modo := by
    rw [valor_bytesDe]
    exact Nat.mod_eq_of_lt hm
  have hlinks : valor (bytesDe 4 links) = links := by
    rw [valor_bytesDe]
    exact Nat.mod_eq_of_lt hl
  simp only [deserializarGetattr, fsc32, ho, h₁, h₂, h₃, bind, Option.bind, htam, hmodo, hlinks]

/-- More turns do not change a loop that has ended. -/
theorem fillerNombres_mas {tamano : Nat} {l : List UInt8} : ∀ (fuel : Nat) {mas off : Nat}
    {nombres : List (List UInt8)}, fuel ≤ mas → fillerNombres tamano l fuel off = some nombres →
    fillerNombres tamano l mas off = some nombres := by
  intro fuel
  induction fuel with
  | zero => intro mas off nombres _ h; cases h
  | succ fuel ih =>
      intro mas off nombres hle h
      obtain ⟨mas, rfl⟩ : ∃ m, mas = m + 1 := ⟨mas - 1, by omega⟩
      rw [fillerNombres] at h ⊢
      by_cases hoff : off < tamano
      · rw [if_pos hoff] at h ⊢
        obtain ⟨tamDir, h1, h⟩ := Option.bind_eq_some_iff.mp h
        obtain ⟨mandar, h2, h⟩ := Option.bind_eq_some_iff.mp h
        obtain ⟨nombre, h3, h⟩ := Option.bind_eq_some_iff.mp h
        obtain ⟨resto, h4, h⟩ := Option.bind_eq_some_iff.mp h
        have h5 := ih (Nat.le_of_succ_le_succ hle) h4
        simp only [h1, h2, h3, h5, Option.bind_eq_bind, Option.bind_some]
        exact h
      · rwa [if_neg hoff] at h ⊢

/-- The names of a listing, when they fit the answer. -/
theorem paqueteRta_readdir (path : List UInt8) {l : List (List UInt8)}
    (h : ∀ n ∈ l, n.length ≤ 254) (hsum : largoTotal l ≤ 65535) :
    paqueteRta basura (.soloPath .readdir path) (.readdir l)
      = some (trama TipoPath.readdir.codigo (Nipc.entradas l)) := by
  have hlen := length_entradas_cortas h
  have htam : largoReaddir l = largoTotal l := by
    rw [largoReaddir_eq]
    omega
  obtain ⟨cola, hcola, henv⟩ := @enviarReaddir_cabe basura l (by omega)
  have hnil : cola = [] := by
    rw [List.length_append] at hcola
    exact List.length_eq_zero_iff.mp (by omega)
  rwa [hnil, List.append_nil] at henv

/-- Every name takes a byte at least. -/
theorem length_le_largoTotal (l : List (List UInt8)) : l.length ≤ largoTotal l := by
  induction l with
  | nil => exact Nat.le_refl 0
  | cons n l ih =>
      rw [largoTotal] at ih ⊢
      rw [List.map_cons, List.sum_cons, List.length_cons]
      omega

/-- The client reads the names the server wrote, when the listing fits. -/
theorem nombresReaddir_entradas {l : List (List UInt8)} (h : ∀ n ∈ l, n.length ≤ 254 ∧ 0 ∉ n)
    (hsum : largoTotal l ≤ 65535) : nombresReaddir (Nipc.entradas l) = some l := by
  have hlen := length_entradas_cortas fun n hn => (h n hn).1
  have hfin := fillerNombres_cortas l [] h rfl (by rw [List.nil_append]; omega)
  have hl := length_le_largoTotal l
  rw [nombresReaddir, deserializarReaddirRta, sacar_todo]
  exact fillerNombres_mas (l.length + 1) (by omega) hfin

end Envios

/-! ## A conversation -/

section Conversaciones

variable {basura : Nat → UInt8} {p : Pedido} {s s' : Proceso} {e rta c : List UInt8}
  {error : Resultado} {exito : List UInt8 → Programa} {g : Programa}

/-- The request arrives as it was sent, and the answer comes in. -/
theorem conversar_pedirA {sigue : Nat → Programa} (hp : EnFormato p)
    (hproc : procesarPedido basura p s = some (s', rta)) :
    conversar basura (pedirA basura p sigue) s e = conversar basura (sigue 0) s' (e ++ rta) := by
  have hrec := recibirPedido_enviado hp []
  rw [List.append_nil] at hrec
  simp only [pedirA, definido, paquete_eq basura hp, conversar, enviar_eq basura hp, hrec, hproc,
    Option.bind_eq_bind, Option.bind_some]

/-- The header of a frame. -/
theorem trama_cons (tipo : UInt8) (hc : c.length < 65536) : ∃ l₀ l₁,
    trama tipo c = tipo :: l₀ :: l₁ :: c ∧ valor [l₀, l₁] = c.length := by
  refine ⟨_, _, rfl, ?_⟩
  exact (valor_bytesDe 2 c.length).trans (Nat.mod_eq_of_lt hc)

/-- An error packet ends the operation with its error. -/
theorem conversar_recibir_error (sock : Nat) :
    conversar basura (recibir p error exito sock) s (trama 0 []) = some (s, [], error) := by
  have hne : (0 : UInt8) ≠ tipoDe p := (tipoDe_ne_error p).symm
  show conversar basura (if (0 : UInt8) ≠ tipoDe p then soltarSocket sock (.fin error) else _) s []
    = _
  rw [if_pos hne]
  rfl

/-- A packet of the request's own type goes to the decoder. -/
theorem conversar_recibir (sock : Nat) (hc : c.length < 65536) :
    conversar basura (recibir p error exito sock) s (trama (tipoDe p) c)
      = conversar basura (exito c) s [] := by
  obtain ⟨l₀, l₁, htrama, hl⟩ := @trama_cons c (tipoDe p) hc
  rw [htrama]
  show conversar basura (if tipoDe p ≠ tipoDe p then _ else
    .haz (.recvPayload sock (valor [l₀, l₁])) fun paqueteRecv =>
      soltarSocket sock (exito paqueteRecv))
      s c = _
  rw [if_neg (not_not.mpr rfl), hl]
  show (if c.length ≤ c.length then conversar basura (soltarSocket sock (exito (c.take c.length))) s
    (c.drop c.length) else none) = _
  rw [if_pos (Nat.le_refl _), List.take_length, List.drop_length]
  rfl

/-- **A CALL** that is refused. -/
theorem conversar_error (hp : EnFormato p)
    (hproc : procesarPedido basura p s = some (s', trama 0 [])) :
    conversar basura (conServidor basura p error exito) s [] = some (s', [], error) := by
  rw [conServidor, conversar_pedirA hp hproc]
  exact conversar_recibir_error 0

/-- **A CALL** that is answered. -/
theorem conversar_conServidor (hp : EnFormato p) (hc : c.length < 65536)
    (hproc : procesarPedido basura p s = some (s', trama (tipoDe p) c)) :
    conversar basura (conServidor basura p error exito) s []
      = conversar basura (exito c) s' [] := by
  rw [conServidor, conversar_pedirA hp hproc]
  exact conversar_recibir 0 hc

/-- A result goes back to FUSE. -/
theorem conversar_devolver {n : Int} (h1 : -2 ^ 31 ≤ n) (h2 : n < 2 ^ 31) :
    conversar basura (devolver (bytesConSigno 4 n)) s [] = some (s, [], .valor n) := by
  rw [devolver, deserializarResultRta_bytes h1 h2]
  rfl

/-- A READ that is answered; an empty payload is not received. -/
theorem conversar_fscRead {path : List UInt8} {size : UInt32} {off : Int}
    (hsize : ¬ 65535 < size.toNat) (hf : EnFormato (.read path off size)) (hc : c.length < 65536)
    (hproc : procesarPedido basura (.read path off size) s = some (s', trama tipoRead c)) :
    conversar basura (fscRead basura path size off) s [] = some (s', [], leidos c) := by
  rw [fscRead, if_neg hsize]
  refine (conversar_pedirA hf hproc).trans ?_
  obtain ⟨l₀, l₁, htrama, hl⟩ := @trama_cons c tipoRead hc
  rw [List.nil_append, htrama]
  show conversar basura (if tipoRead ≠ tipoRead then _ else if valor [l₀, l₁] = 0 then
    soltarSocket 0 (.fin (.valor 0)) else .haz (.recvPayload 0 (valor [l₀, l₁])) fun paqueteRecv =>
      soltarSocket 0 (.fin (.leido paqueteRecv))) s' c = _
  rw [if_neg (not_not.mpr rfl), hl, leidos]
  by_cases h0 : c = []
  · subst h0
    rfl
  · rw [if_neg h0, if_neg fun hlen => h0 (List.length_eq_zero_iff.mp hlen)]
    show (if c.length ≤ c.length then some (s', c.drop c.length, Resultado.leido (c.take c.length))
      else none) = _
    rw [if_pos (Nat.le_refl _), List.take_length, List.drop_length]

/-- Dropping keys sends nothing to the server. -/
theorem conversar_borrarCacheDirectorios {q : Ruta} (hlen : q.bytes.length < 65536) :
    conversar basura (borrarCacheDirectorios q.bytes g) s e = conversar basura g s e := by
  obtain ⟨nombreArch, hsep⟩ := separarPathCliente_padre q hlen
  simp only [borrarCacheDirectorios, conversar, definido, hsep]

/-- The calls that return a result of the server. -/
theorem conversar_result {op : Fsc.Operacion} (hop : ConResult op.pedido) (hf : EnFormato op.pedido)
    {n : Int} (h1 : -2 ^ 31 ≤ n) (h2 : n < 2 ^ 31)
    (hproc : procesarPedido basura op.pedido s
      = some (s', trama (tipoDe op.pedido) (bytesConSigno 4 n))) :
    conversar basura (op.programa basura) s [] = some (s', [], .valor n) := by
  have hc : (bytesConSigno 4 n).length < 65536 := by
    rw [length_bytesConSigno]
    decide
  have hentrada : ∀ {tipo : TipoPath} {q : Ruta}, EnFormato (.soloPath tipo q.bytes) →
      procesarPedido basura (.soloPath tipo q.bytes) s
        = some (s', trama (tipoDe (.soloPath tipo q.bytes)) (bytesConSigno 4 n)) →
      conversar basura (fscEntrada basura tipo q.bytes) s [] = some (s', [], .valor n) := by
    intro tipo q hf hproc
    have hlen : q.bytes.length < 65536 := by
      have := hf.2
      omega
    rw [fscEntrada, conversar_conServidor hf hc hproc, conversar_borrarCacheDirectorios hlen,
      conversar_devolver h1 h2]
  cases op with
  | getattr q => exact hop.elim
  | readdir q => exact hop.elim
  | release q => exact hop.elim
  | read q size off => exact hop.elim
  | opn q => exact (conversar_conServidor hf hc hproc).trans (conversar_devolver h1 h2)
  | create q => exact hentrada hf hproc
  | unlink q => exact hentrada hf hproc
  | rmdir q => exact hentrada hf hproc
  | mkdir q => exact hentrada hf hproc
  | truncate q off =>
      exact (conversar_conServidor hf hc hproc).trans (@conversar_devolver basura s' n h1 h2)
  | write q buf size off =>
      refine (conversar_conServidor hf hc hproc).trans ?_
      rw [deserializarWriteRta, deserializarResultRta_bytes h1 h2]
      rfl

/-- The same calls, refused. -/
theorem conversar_rechazo {op : Fsc.Operacion} (hop : ConResult op.pedido)
    (hf : EnFormato op.pedido)
    (hproc : procesarPedido basura op.pedido s = some (s', trama 0 [])) :
    conversar basura (op.programa basura) s [] = some (s', [], .valor (-1)) := by
  cases op with
  | getattr q => exact hop.elim
  | readdir q => exact hop.elim
  | release q => exact hop.elim
  | read q size off => exact hop.elim
  | opn q => exact conversar_error hf hproc
  | create q => exact conversar_error hf hproc
  | unlink q => exact conversar_error hf hproc
  | rmdir q => exact conversar_error hf hproc
  | mkdir q => exact conversar_error hf hproc
  | truncate q off => exact conversar_error hf hproc
  | write q buf size off => exact conversar_error hf hproc

end Conversaciones

/-! ## The handlers, with their answers -/

section Atender

variable {basura : Nat → UInt8} {p : Pedido} {s : Proceso} {fs' : Ext2}

/-- A request that only looks leaves the volume as it is. -/
theorem mira_eq {c : Contestacion} {rta : List UInt8} (h : paqueteRta basura p c = some rta) :
    s.mira basura p (some c) = some (s, rta) := by
  rw [Proceso.mira]
  dsimp only [Option.bind_eq_bind, Option.bind_some]
  rw [h]
  rfl

/-- A request that changes the volume and answers a result. -/
theorem con_result (hp : ConResult p) (n : Int) :
    s.con basura p (some (fs', .result n))
      = some ({ s with fs := fs' }, trama (tipoDe p) (bytesConSigno 4 n)) := by
  rw [Proceso.con]
  dsimp only [Option.bind_eq_bind, Option.bind_some, Respuesta.enviar]
  rw [paqueteRta_result hp]
  rfl

/-- The same with an error. -/
theorem con_error (hp : p.conRespuesta) :
    s.con basura p (some (fs', .error)) = some ({ s with fs := fs' }, trama 0 []) := by
  rw [Proceso.con]
  dsimp only [Option.bind_eq_bind, Option.bind_some, Respuesta.enviar]
  rw [paqueteRta_error hp]
  rfl

end Atender

/-! ## One call -/

/-- The call keeps the cache up to date. -/
def CuidaCache (op : Fsc.Operacion) (s s' : Proceso) : Prop :=
  Alineada op s → Frescos s.fs s.cache → Frescos s'.fs s'.cache

/-- The call returns, leaves the volume sound and the socket empty, and is a step
    of the map. -/
def Cumplida (fijo : Nat → Prop) (basura : Nat → UInt8) (op : Fsc.Operacion) (s : Proceso) : Prop :=
  ∃ s' r, conversar basura (op.programa basura) s [] = some (s', [], r)
    ∧ Sistema fijo s'.fs ∧ Hace op (vista s.fs) r (vista s'.fs) ∧ CuidaCache op s s'

section Llamadas

variable {fijo : Nat → Prop} {basura : Nat → UInt8} {s : Proceso} {op : Fsc.Operacion} {q : Ruta}
  {fs' : Ext2}

/-- A call answered by a result, from what the server does. -/
theorem cumplida_result (hop : ConResult op.pedido) (hf : EnFormato op.pedido) {n : Int}
    (h1 : -2 ^ 31 ≤ n) (h2 : n < 2 ^ 31) {s' : Proceso}
    (hproc : procesarPedido basura op.pedido s
      = some (s', trama (tipoDe op.pedido) (bytesConSigno 4 n)))
    (h' : Sistema fijo s'.fs) (hc : CuidaCache op s s')
    (hh : Hace op (vista s.fs) (.valor n) (vista s'.fs)) : Cumplida fijo basura op s :=
  ⟨s', .valor n, conversar_result hop hf h1 h2 hproc, h', hh, hc⟩

/-- A name that is missing, for the calls that return a result. -/
theorem cumplida_rechazo (hop : ConResult op.pedido) (hf : EnFormato op.pedido) {s' : Proceso}
    (hproc : procesarPedido basura op.pedido s = some (s', trama 0 []))
    (h' : Sistema fijo s'.fs) (hc : CuidaCache op s s')
    (hh : Hace op (vista s.fs) (.valor (-1)) (vista s'.fs)) : Cumplida fijo basura op s :=
  ⟨s', .valor (-1), conversar_rechazo hop hf hproc, h', hh, hc⟩

/-- A call that leaves the process as it was. -/
theorem CuidaCache.refl (op : Fsc.Operacion) (s : Proceso) : CuidaCache op s s := fun _ hf => hf

/-! ### Questions -/

/-- **GETATTR** answers the attributes of the map. -/
theorem llamar_getattr (h : Sistema fijo s.fs) (hf : EnFormato (Fsc.Operacion.getattr q).pedido)
    (hd : Directa s.fs q.nombres) : Cumplida fijo basura (.getattr q) s := by
  have hcomp := componentes_bytes q
  cases hv : vista s.fs q.nombres with
  | none =>
      have hproc : procesarPedido basura (Fsc.Operacion.getattr q).pedido s
          = some (s, trama 0 []) := by
        show s.mira basura _ (procesarGetattr s.fs q.bytes) = _
        rw [procesarGetattr, h.busca_none (MismosPasos.refl _) hcomp hd hv]
        rfl
      refine ⟨s, .valor (-Fsc.enoent), ?_, h, .getattrAusente hv, .refl _ s⟩
      exact conversar_error hf hproc
  | some n =>
      obtain ⟨modo, links, tam, hm, hl, ht, hans, hatr⟩ := h.getattr hcomp hv
      have hproc : procesarPedido basura (Fsc.Operacion.getattr q).pedido s
          = some (s, trama TipoPath.getattr.codigo (cuerpoAtributos modo links tam)) := by
        show s.mira basura _ (procesarGetattr s.fs q.bytes) = _
        rw [hans]
        exact mira_eq (paqueteRta_getattr q.bytes modo links tam)
      refine ⟨s, .atributos (.getattr modo links tam), ?_, h, .getattr hv hatr, .refl _ s⟩
      have hc : (cuerpoAtributos modo links tam).length < 65536 := by
        rw [length_cuerpoAtributos]
        decide
      refine (conversar_conServidor hf hc hproc).trans ?_
      show conversar basura (definido (deserializarGetattr fsc32 (cuerpoAtributos modo links tam))
        fun attr => .fin (.atributos attr)) s [] = _
      rw [deserializarGetattr_cuerpo (by omega) (by omega) ht]
      rfl

/-- A listing of names that are below a path fits its answer. -/
theorem NombresCaben.lista {v : Mapa} {q : List (List UInt8)} (h : NombresCaben v q)
    {lista : List (List UInt8)} (hn : lista.Nodup)
    (hmem : ∀ c, c ∈ lista ↔ Punto c ∨ v (q ++ [c]) ≠ none) :
    (∀ c ∈ lista, c.length ≤ 254) ∧ largoTotal lista ≤ 65535 := by
  obtain ⟨ns, hns, hlargo, hsum⟩ := h
  have hsub : lista ⊆ [46] :: [46, 46] :: ns := by
    intro c hc
    rcases (hmem c).mp hc with (rfl | rfl) | hc
    · exact List.mem_cons_self
    · exact List.mem_cons_of_mem _ List.mem_cons_self
    · exact List.mem_cons_of_mem _ (List.mem_cons_of_mem _ (hns c hc))
  refine ⟨fun c hc => ?_, ?_⟩
  · rcases List.mem_cons.mp (hsub hc) with rfl | hc
    · decide
    · rcases List.mem_cons.mp hc with rfl | hc
      · decide
      · exact hlargo c hc
  · obtain ⟨l, hperm, hl⟩ := hn.subperm hsub
    have hmas : largoTotal l ≤ largoTotal ([46] :: [46, 46] :: ns) :=
      (hl.map _).sum_le_sum fun _ _ => Nat.zero_le _
    have heq : largoTotal l = largoTotal lista := (hperm.map _).sum_eq
    have hdos : largoTotal ([46] :: [46, 46] :: ns) = largoTotal ns + 7 := by
      simp only [largoTotal, List.map_cons, List.sum_cons, List.length_cons, List.length_nil]
      omega
    omega

/-- **READDIR** answers the names of the map. -/
theorem llamar_readdir (h : Sistema fijo s.fs) (hf : EnFormato (Fsc.Operacion.readdir q).pedido)
    (hd : Directa s.fs q.nombres) (hp : Pide (.readdir q) s) :
    Cumplida fijo basura (.readdir q) s := by
  have hcomp := componentes_bytes q
  rcases hp with hv | ⟨hv, hcaben⟩
  · have hproc : procesarPedido basura (Fsc.Operacion.readdir q).pedido s
        = some (s, trama 0 []) := by
      show s.mira basura _ (procesarReaddir s.fs q.bytes) = _
      rw [procesarReaddir, h.busca_none (MismosPasos.refl _) hcomp hd hv]
      rfl
    refine ⟨s, .valor (-1), ?_, h, .ausente rfl hv, .refl _ s⟩
    exact conversar_error hf hproc
  · obtain ⟨lista, hans, hn, hcero, hmem⟩ := h.readdir hcomp hv
    obtain ⟨hlargo, hsum⟩ := hcaben.lista hn hmem
    have hproc : procesarPedido basura (Fsc.Operacion.readdir q).pedido s
        = some (s, trama TipoPath.readdir.codigo (Nipc.entradas lista)) := by
      show s.mira basura _ (procesarReaddir s.fs q.bytes) = _
      rw [hans]
      exact mira_eq (paqueteRta_readdir q.bytes hlargo hsum)
    have hc : (Nipc.entradas lista).length < 65536 := by
      have := length_entradas_cortas hlargo
      omega
    refine ⟨s, .nombres lista, ?_, h, .readdir hv hn hmem, .refl _ s⟩
    refine (conversar_conServidor hf hc hproc).trans ?_
    show conversar basura (definido (nombresReaddir (Nipc.entradas lista))
      fun lista => .fin (.nombres lista)) s [] = _
    rw [nombresReaddir_entradas (fun n hn => ⟨hlargo n hn, hcero n hn⟩) hsum]
    rfl

/-- **OPEN** answers whether the map has the path. -/
theorem llamar_opn (h : Sistema fijo s.fs) (hf : EnFormato (Fsc.Operacion.opn q).pedido)
    (hd : Directa s.fs q.nombres) : Cumplida fijo basura (.opn q) s := by
  have hcomp := componentes_bytes q
  cases hv : vista s.fs q.nombres with
  | none =>
      have hproc : procesarPedido basura (Fsc.Operacion.opn q).pedido s
          = some (s, trama 0 []) := by
        show s.mira basura _ (procesarOpen s.fs q.bytes) = _
        rw [procesarOpen, h.busca_none (MismosPasos.refl _) hcomp hd hv]
        rfl
      exact cumplida_rechazo trivial hf hproc h (.refl _ s) (.ausente rfl hv)
  | some n =>
      obtain ⟨x, -, h0, hbus, -, -⟩ := h.busca_some hcomp hv
      have hproc : procesarPedido basura (Fsc.Operacion.opn q).pedido s
          = some (s, trama (tipoDe (Fsc.Operacion.opn q).pedido) (bytesConSigno 4 0)) := by
        show s.mira basura _ (procesarOpen s.fs q.bytes) = _
        rw [procesarOpen, hbus]
        dsimp only [Option.bind_eq_bind, Option.bind_some]
        rw [if_neg h0]
        exact mira_eq (paqueteRta_result (p := (Fsc.Operacion.opn q).pedido) trivial 0)
      exact cumplida_result trivial hf (by decide) (by decide) hproc h (.refl _ s) (.opn hv)

/-- RELEASE is not answered. -/
theorem llamar_release (h : Sistema fijo s.fs) (hf : EnFormato (Fsc.Operacion.release q).pedido) :
    Cumplida fijo basura (.release q) s :=
  ⟨s, .valor 0, conversar_pedirA hf rfl, h, .release, .refl _ s⟩

/-- **READ** answers the bytes of the map. -/
theorem llamar_read {size : UInt32} {off : Int} (h : Sistema fijo s.fs)
    (hf : EnFormato (Fsc.Operacion.read q size off).pedido) (hd : Directa s.fs q.nombres)
    (hp : Pide (.read q size off) s) (hfresca : LeeFresco (.read q size off) s) :
    Cumplida fijo basura (.read q size off) s := by
  have hcomp := componentes_bytes q
  by_cases hsize : 65535 < size.toNat
  · refine ⟨s, .valor (-Fsc.enoent), ?_, h, .readLargo hsize, .refl _ s⟩
    show conversar basura (fscRead basura q.bytes size off) s [] = _
    rw [fscRead, if_pos hsize]
    rfl
  have hprog : Fsc.Operacion.programa basura (.read q size off)
      = fscRead basura q.bytes size off := rfl
  rcases hp (Nat.le_of_not_lt hsize) with hv | ⟨h0, datos, hv, hent⟩
  · have hproc : procesarPedido basura (Fsc.Operacion.read q size off).pedido s
        = some (s, trama 0 []) := by
      have hread : procesarRead basura s.fs s.cache q.bytes (aUint32 off) size.toNat
          = some (s.cache, .error) := by
        rw [procesarRead, h.busca_none (MismosPasos.refl _) hcomp hd hv]
        rfl
      rw [Fsc.Operacion.pedido, procesarPedido, hread]
      rfl
    refine ⟨s, .valor (-1), ?_, h, .ausente rfl hv, .refl _ s⟩
    rw [hprog, fscRead, if_neg hsize]
    exact (conversar_pedirA hf hproc).trans rfl
  · obtain ⟨n, rfl⟩ := Int.eq_ofNat_of_zero_le h0
    have hn : aUint32 (n : Int) = n := by
      have := hf.2.1.2
      rw [aUint32]
      omega
    rw [Int.toNat_natCast] at hent
    obtain ⟨cache', hread, halDia⟩ := h.read hcomp hv (Nat.le_of_not_lt hsize) hent basura
      (hfresca (Nat.le_of_not_lt hsize))
    have hproc : procesarPedido basura (.read q.bytes n size) s
        = some ({ s with cache := cache' }, trama tipoRead ((datos.drop n).take size.toNat)) := by
      rw [procesarPedido, hn, hread]
      rfl
    have hc : ((datos.drop n).take size.toNat).length < 65536 := by
      have := List.length_take_le size.toNat (datos.drop n)
      omega
    exact ⟨_, _, conversar_fscRead hsize hf hc hproc, h, .read hv,
      fun _ hfr x hx hreg m hm => halDia _ (hfr x hx hreg m hm)⟩

/-! ### Changes to a file -/

/-- A file that does not grow has its blocks. -/
theorem caben_de_le {fs : Ext2} {tam n : Nat} (h : n ≤ tam) : Caben fs tam n :=
  Nat.le_trans (bloquesTotales_mono (cantBloques_mono (blockSize_pos fs.sb) h))
    (Nat.le_add_left _ _)

/-- **WRITE** puts the bytes in the map. -/
theorem llamar_write {buf : List UInt8} {size : UInt32} {off : Int} (h : Sistema fijo s.fs)
    (hf : EnFormato (Fsc.Operacion.write q buf size off).pedido) (hd : Directa s.fs q.nombres)
    (hp : Pide (.write q buf size off) s) : Cumplida fijo basura (.write q buf size off) s := by
  have hcomp := componentes_bytes q
  obtain ⟨h0, hdir⟩ := hp
  cases hv : vista s.fs q.nombres with
  | none =>
      have hproc : procesarPedido basura (Fsc.Operacion.write q buf size off).pedido s
          = some (s, trama 0 []) := by
        have hwrite : procesarWrite s.fs s.cache q.bytes (aUint32 off) size.toNat buf
            = some (s.fs, s.cache, .error) := by
          rw [procesarWrite, h.busca_none (MismosPasos.refl _) hcomp hd hv]
          rfl
        rw [Fsc.Operacion.pedido, procesarPedido, hwrite]
        rfl
      exact cumplida_rechazo trivial hf hproc h (.refl _ s) (.ausente rfl hv)
  | some n =>
      cases n with
      | directorio => exact absurd hv hdir
      | archivo datos =>
          obtain ⟨-, ⟨-, hoff⟩, hbuf, hlen⟩ := id hf
          obtain ⟨n, rfl⟩ := Int.eq_ofNat_of_zero_le h0
          have hn : aUint32 (n : Int) = n := by
            rw [aUint32]
            omega
          obtain ⟨fs', cache', r, hwrite, h', hcaso, hfrescos⟩ := h.write hcomp hv
            (show size.toNat ≤ 65535 by omega) (Nat.le_of_eq hbuf.symm)
            (show n + size.toNat < 2 ^ 32 by omega) s.cache
          have hproc : procesarPedido basura (Fsc.Operacion.write q buf size n).pedido s
              = some (⟨fs', cache'⟩, trama (tipoDe (Fsc.Operacion.write q buf size n).pedido)
                (bytesConSigno 4 r)) := by
            rw [Fsc.Operacion.pedido, procesarPedido, hn, hwrite]
            dsimp only [Option.bind_eq_bind, Option.bind_some, Respuesta.enviar]
            rw [paqueteRta_result (p := .write q.bytes size buf n) trivial]
            rfl
          have hcuida : CuidaCache (.write q buf size n) s ⟨fs', cache'⟩ := fun hal =>
            hfrescos (hal datos hv).1 (hal datos hv).2
          rcases hcaso with ⟨-, rfl, datos', hesc, hvista⟩ | ⟨hno, rfl, hvista⟩
          · refine cumplida_result trivial hf (by omega) (by omega) hproc h' hcuida ?_
            rw [hvista]
            exact .write hv hesc
          · refine cumplida_result trivial hf (by decide) (by decide) hproc h' hcuida ?_
            rw [hvista]
            refine .writeLleno hv ?_
            by_contra hle
            exact hno (caben_de_le (by omega))

/-- **TRUNCATE** cuts or extends the bytes of the map. -/
theorem llamar_truncate {off : Int} (h : Sistema fijo s.fs)
    (hf : EnFormato (Fsc.Operacion.truncate q off).pedido) (hd : Directa s.fs q.nombres)
    (hp : Pide (.truncate q off) s) : Cumplida fijo basura (.truncate q off) s := by
  have hcomp := componentes_bytes q
  obtain ⟨h0, hdir⟩ := hp
  cases hv : vista s.fs q.nombres with
  | none =>
      have hproc : procesarPedido basura (Fsc.Operacion.truncate q off).pedido s
          = some (s, trama 0 []) := by
        have htrunc : procesarTruncate s.fs q.bytes (aUint32 off) = some (s.fs, .error) := by
          rw [procesarTruncate, h.busca_none (MismosPasos.refl _) hcomp hd hv]
          rfl
        rw [Fsc.Operacion.pedido, procesarPedido, htrunc]
        rfl
      exact cumplida_rechazo trivial hf hproc h (.refl _ s) (.ausente rfl hv)
  | some n =>
      cases n with
      | directorio => exact absurd hv hdir
      | archivo datos =>
          obtain ⟨-, ⟨-, hoff⟩, -⟩ := id hf
          obtain ⟨n, rfl⟩ := Int.eq_ofNat_of_zero_le h0
          have hn : aUint32 (n : Int) = n := by
            rw [aUint32]
            omega
          obtain ⟨fs', r, htrunc, h', hcaso, hfrescos⟩ :=
            h.truncate hcomp hv (show n < 2 ^ 32 by omega)
          have hproc : procesarPedido basura (Fsc.Operacion.truncate q n).pedido s
              = some ({ s with fs := fs' }, trama (tipoDe (Fsc.Operacion.truncate q n).pedido)
                (bytesConSigno 4 r)) := by
            rw [Fsc.Operacion.pedido, procesarPedido, hn, htrunc]
            exact con_result (p := .truncate q.bytes n) trivial r
          have hcuida : CuidaCache (.truncate q n) s { s with fs := fs' } := fun hal =>
            hfrescos s.cache (hal datos hv)
          rcases hcaso with ⟨-, rfl, datos', htr, hvista⟩ | ⟨hno, rfl, hvista⟩
          · refine cumplida_result trivial hf (by decide) (by decide) hproc h' hcuida ?_
            rw [hvista]
            exact .truncate hv htr
          · refine cumplida_result trivial hf (by decide) (by decide) hproc h' hcuida ?_
            rw [hvista]
            exact .truncateLleno hv (Nat.lt_of_not_le fun hle => hno (caben_de_le hle))

/-! ### Changes to the tree -/

/-- The parent of a path. -/
theorem padre_nombres {p : List (List UInt8)} {c : List UInt8} (h : q.nombres = p ++ [c]) :
    q.padre.nombres = p := by
  show q.nombres.dropLast = p
  rw [h, List.dropLast_concat]

/-- A path other than the root is one of a name in a directory. -/
theorem camino_bytes (hne : q.nombres ≠ []) :
    ∃ c, q.nombres = q.padre.nombres ++ [c] ∧ Camino q.bytes q.padre.nombres c := by
  obtain ⟨ns, n, hq⟩ := (List.eq_nil_or_concat q.nombres).resolve_left hne
  rw [List.concat_eq_append] at hq
  obtain ⟨hn, h47, -⟩ := q.bien n (by rw [hq]; simp)
  rw [padre_nombres hq]
  refine ⟨n, hq, ?_, ?_, (componentes_bytes q).trans hq⟩
  · rw [Ruta.bytes, if_neg hne, hq]
    cases ns <;> rfl
  · rw [Ruta.bytes, if_neg hne, hq, List.flatMap_append, List.flatMap_singleton,
      List.getLast?_append_of_ne_nil _ (List.cons_ne_nil 47 n)]
    intro h
    rw [List.getLast?_cons, Option.some.injEq] at h
    rcases List.eq_nil_or_concat n with rfl | ⟨m, b, rfl⟩
    · exact hn rfl
    · rw [List.concat_eq_append] at h h47
      simp at h h47
      exact h47.2 h.symm

/-- The parts of the path of a request. -/
theorem partes_camino {p : List (List UInt8)} {c : List UInt8} (h : Camino q.bytes p c) :
    q.nombres = p ++ [c] ∧ q.padre.nombres = p :=
  have hq := (componentes_bytes q).symm.trans h.partes
  ⟨hq, padre_nombres hq⟩

/-- What is seen where something can be made. -/
theorem vista_creable {p : List (List UInt8)} {c : List UInt8} {d : Nat}
    (hc : Creable s.fs q.bytes p c d) : vista s.fs q.padre.nombres = some .directorio
      ∧ vista s.fs q.nombres = none := by
  obtain ⟨hq, hpadre⟩ := partes_camino hc.camino
  constructor
  · rw [hpadre, vista_some hc.padre, nodo, if_pos (nombresDe_dir.mp hc.dir).2]
  · rw [hq, vista, andar_concat_some hc.padre, hc.ausente, Option.map_none]

/-- **CREATE** adds an empty file to the map. -/
theorem llamar_create (h : Sistema fijo s.fs) (hf : EnFormato (Fsc.Operacion.create q).pedido)
    (hd : Directa s.fs q.nombres) (hp : Pide (.create q) s) :
    Cumplida fijo basura (.create q) s := by
  obtain ⟨hl, ⟨hne, hv⟩ | ⟨p, c, d, hc⟩⟩ := hp
  · obtain ⟨c, hq, hcam⟩ := camino_bytes hne
    rw [hq] at hd
    obtain ⟨⟨fs', hcreate, hdev⟩, -⟩ := h.sinPadre hcam hd.padre hv hl
    have hproc : procesarPedido basura (Fsc.Operacion.create q).pedido s
        = some ({ s with fs := fs' }, trama 0 []) := by
      rw [Fsc.Operacion.pedido, procesarPedido, hcreate]
      exact con_error rfl
    refine cumplida_rechazo trivial hf hproc (hdev.sistema h) (fun _ => hdev.frescos) ?_
    rw [hdev.vista h]
    exact .sinPadre rfl hv
  · obtain ⟨fs', hcreate, h', hvista, hfrescos⟩ := h.create hc
    have hproc : procesarPedido basura (Fsc.Operacion.create q).pedido s
        = some ({ s with fs := fs' }, trama (tipoDe (Fsc.Operacion.create q).pedido)
          (bytesConSigno 4 0)) := by
      rw [Fsc.Operacion.pedido, procesarPedido, hcreate]
      exact con_result (p := .soloPath .create q.bytes) trivial 0
    obtain ⟨hpadre, hno⟩ := vista_creable hc
    refine cumplida_result trivial hf (by decide) (by decide) hproc h' (fun _ => hfrescos _) ?_
    rw [hvista, ← (partes_camino hc.camino).1]
    exact .create hpadre hno

/-- **MKDIR** adds an empty directory. -/
theorem llamar_mkdir (h : Sistema fijo s.fs) (hf : EnFormato (Fsc.Operacion.mkdir q).pedido)
    (hd : Directa s.fs q.nombres) (hp : Pide (.mkdir q) s) :
    Cumplida fijo basura (.mkdir q) s := by
  obtain ⟨hl, ⟨hne, hv⟩ | ⟨p, c, d, hc⟩⟩ := hp
  · obtain ⟨c, hq, hcam⟩ := camino_bytes hne
    rw [hq] at hd
    obtain ⟨-, fs', hmkdir, hdev⟩ := h.sinPadre hcam hd.padre hv hl
    have hproc : procesarPedido basura (Fsc.Operacion.mkdir q).pedido s
        = some ({ s with fs := fs' }, trama 0 []) := by
      rw [Fsc.Operacion.pedido, procesarPedido, hmkdir]
      exact con_error rfl
    refine cumplida_rechazo trivial hf hproc (hdev.sistema h) (fun _ => hdev.frescos) ?_
    rw [hdev.vista h]
    exact .sinPadre rfl hv
  · obtain ⟨fs', hmkdir, h', hvista, hfrescos⟩ := h.mkdir hc
    have hproc : procesarPedido basura (Fsc.Operacion.mkdir q).pedido s
        = some ({ s with fs := fs' }, trama (tipoDe (Fsc.Operacion.mkdir q).pedido)
          (bytesConSigno 4 0)) := by
      rw [Fsc.Operacion.pedido, procesarPedido, hmkdir]
      exact con_result (p := .soloPath .mkdir q.bytes) trivial 0
    obtain ⟨hpadre, hno⟩ := vista_creable hc.creable
    refine cumplida_result trivial hf (by decide) (by decide) hproc h' (fun _ => hfrescos _) ?_
    rw [hvista, ← (partes_camino hc.creable.camino).1]
    exact .mkdir hpadre hno

/-- The root is seen, so what is not there is elsewhere. -/
theorem no_raiz (h : Sistema fijo s.fs) (hv : vista s.fs q.nombres ≠ some .directorio) :
    q.nombres ≠ [] := by
  intro hq
  refine hv ?_
  rw [hq, vista_some (x := inodoRaiz) rfl, nodo, if_pos h.raiz.2]

/-- **UNLINK** takes a file away. -/
theorem llamar_unlink (h : Sistema fijo s.fs) (hf : EnFormato (Fsc.Operacion.unlink q).pedido)
    (hd : Directa s.fs q.nombres) (hp : Pide (.unlink q) s) :
    Cumplida fijo basura (.unlink q) s := by
  obtain ⟨c, hq, hcam⟩ := camino_bytes (no_raiz h hp)
  cases hv : vista s.fs q.nombres with
  | none =>
      have hunlink := (h.quitarAusente hcam (hq ▸ hd) (hq ▸ hv)).1
      have hproc : procesarPedido basura (Fsc.Operacion.unlink q).pedido s
          = some (s, trama 0 []) := by
        rw [Fsc.Operacion.pedido, procesarPedido, hunlink]
        exact con_error rfl
      exact cumplida_rechazo trivial hf hproc h (.refl _ s) (.ausente rfl hv)
  | some n =>
      cases n with
      | directorio => exact absurd hv hp
      | archivo datos =>
          obtain ⟨fs', hunlink, h', hvista, hfrescos⟩ := h.unlink hcam (hq ▸ hv)
          have hproc : procesarPedido basura (Fsc.Operacion.unlink q).pedido s
              = some ({ s with fs := fs' }, trama (tipoDe (Fsc.Operacion.unlink q).pedido)
                (bytesConSigno 4 0)) := by
            rw [Fsc.Operacion.pedido, procesarPedido, hunlink]
            exact con_result (p := .soloPath .unlink q.bytes) trivial 0
          refine cumplida_result trivial hf (by decide) (by decide) hproc h'
            (fun _ => hfrescos _) ?_
          rw [hvista, ← hq]
          exact .unlink hv

/-- **RMDIR** takes an empty directory away. -/
theorem llamar_rmdir (h : Sistema fijo s.fs) (hf : EnFormato (Fsc.Operacion.rmdir q).pedido)
    (hd : Directa s.fs q.nombres) (hp : Pide (.rmdir q) s) :
    Cumplida fijo basura (.rmdir q) s := by
  rcases hp with hv | ⟨p, c, hb⟩
  · have hno : vista s.fs q.nombres ≠ some .directorio := by
      rw [hv]
      exact (Option.some_ne_none _).symm
    obtain ⟨c, hq, hcam⟩ := camino_bytes (no_raiz h hno)
    have hrmdir := (h.quitarAusente hcam (hq ▸ hd) (hq ▸ hv)).2
    have hproc : procesarPedido basura (Fsc.Operacion.rmdir q).pedido s = some (s, trama 0 []) := by
      rw [Fsc.Operacion.pedido, procesarPedido, hrmdir]
      exact con_error rfl
    exact cumplida_rechazo trivial hf hproc h (.refl _ s) (.ausente rfl hv)
  · obtain ⟨hvacio, hlleno⟩ := h.rmdir hb
    obtain ⟨hq, -⟩ := partes_camino hb.camino
    have hv := hb.directorio
    rw [← hq] at hv hvacio hlleno
    by_cases hhay : ∃ e, vista s.fs (q.nombres ++ [e]) ≠ none
    · have hrmdir := hlleno hhay
      have hproc : procesarPedido basura (Fsc.Operacion.rmdir q).pedido s
          = some (s, trama (tipoDe (Fsc.Operacion.rmdir q).pedido)
            (bytesConSigno 4 (-enotempty))) := by
        rw [Fsc.Operacion.pedido, procesarPedido, hrmdir]
        exact con_result (p := .soloPath .rmdir q.bytes) trivial (-enotempty)
      obtain ⟨e, he⟩ := hhay
      exact cumplida_result trivial hf (by decide) (by decide) hproc h (.refl _ s)
        (.rmdirLleno hv he)
    · have hno : ∀ e, vista s.fs (q.nombres ++ [e]) = none := fun e =>
        by_contra fun he => hhay ⟨e, he⟩
      obtain ⟨fs', hrmdir, h', hvista, hfrescos⟩ := hvacio hno
      have hproc : procesarPedido basura (Fsc.Operacion.rmdir q).pedido s
          = some ({ s with fs := fs' }, trama (tipoDe (Fsc.Operacion.rmdir q).pedido)
            (bytesConSigno 4 0)) := by
        rw [Fsc.Operacion.pedido, procesarPedido, hrmdir]
        exact con_result (p := .soloPath .rmdir q.bytes) trivial 0
      refine cumplida_result trivial hf (by decide) (by decide) hproc h' (fun _ => hfrescos _) ?_
      rw [hvista]
      exact .rmdir hv hno

/-! ### Any of them -/

/-- With the cache up to date, READ finds its file so. -/
theorem leeFresco_de (h : Sistema fijo s.fs) (hf : Frescos s.fs s.cache) (hp : Pide op s) :
    LeeFresco op s := by
  cases op with
  | read q size off =>
      intro hsize x hx
      rcases hp hsize with hv | ⟨-, datos, hv, -⟩
      · rw [vista_some hx] at hv
        cases hv
      · obtain ⟨y, huso, hreg, hy, -⟩ := h.archivo hv
        obtain rfl := Option.some.inj (hy.symm.trans hx)
        exact hf y huso hreg
  | _ => trivial

/-- **ONE CALL** on a sound volume. -/
theorem Admisible.cumplida {m : Montado} (ha : Admisible op m) (h : Sistema fijo m.servidor.fs) :
    Cumplida fijo basura op m.servidor := by
  obtain ⟨hf, hd, hp, hfresca⟩ := ha
  cases op with
  | getattr q => exact llamar_getattr h hf hd
  | readdir q => exact llamar_readdir h hf hd hp
  | opn q => exact llamar_opn h hf hd
  | release q => exact llamar_release h hf
  | read q size off => exact llamar_read h hf hd hp hfresca
  | write q buf size off => exact llamar_write h hf hd hp
  | create q => exact llamar_create h hf hd hp
  | unlink q => exact llamar_unlink h hf hd hp
  | truncate q off => exact llamar_truncate h hf hd hp
  | rmdir q => exact llamar_rmdir h hf hd hp
  | mkdir q => exact llamar_mkdir h hf hd hp

end Llamadas

end Montaje
