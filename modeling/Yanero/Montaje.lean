import Yanero.RfsRechazarProofs
import Yanero.FscCacheProofs
import Yanero.NipcReaddirProofs

/-! # The mounted volume

    The whole way of a FUSE call: the operation of the client builds its packet,
    the bytes cross the socket, the server reads the request off them, a worker
    handles it on the image, and the client reads the answer off the bytes that
    come back.  One client calls one operation at a time, and memcached never
    has the client's keys, which it may always say.

    What this is for is said without any of it: `Hace` is a map from paths to
    files and directories, and what each call does to the map and returns. -/

namespace Montaje

open Guiones Bloques Palabras Fsc Rfs Arborescencia

/-! ## The system -/

/-- A thread alone with the server, from an order of its program on; `entrante`
    is what has come in over the socket and was not read. -/
def conversar (basura : Nat → UInt8) :
    Programa → Proceso → List UInt8 → Option (Proceso × List UInt8 × Resultado)
  | .fin r, s, entrante => some (s, entrante, r)
  | .haz (.bajarInfo _ _) k, s, entrante => conversar basura (k none) s entrante
  | .haz (.subirInfo _ _ _) k, s, entrante => conversar basura (k ()) s entrante
  | .haz (.borrarClave _ _) k, s, entrante => conversar basura (k ()) s entrante
  | .haz .semWait k, s, entrante => conversar basura (k ()) s entrante
  | .haz .semPost k, s, entrante => conversar basura (k ()) s entrante
  | .haz .obtenerSocket k, s, entrante => conversar basura (k (0 : Nat)) s entrante
  | .haz (.habilitarSocket _) k, s, entrante => conversar basura (k ()) s entrante
  | .haz (.enviar _ pedido) k, s, entrante => do
      let flujo ← pedido.enviar basura
      let (pedido, _) ← recibirPedido flujo
      let (s, rta) ← procesarPedido basura pedido s
      conversar basura (k ()) s (entrante ++ rta)
  | .haz (.recvHeader _) k, s, entrante =>
      match entrante with
      | tipo :: l₀ :: l₁ :: resto => conversar basura (k (tipo, valor [l₀, l₁])) s resto
      | _ => none
  | .haz (.recvPayload _ n) k, s, entrante =>
      if n ≤ entrante.length then conversar basura (k (entrante.take n)) s (entrante.drop n)
      else none
  | .haz (.liberarSinAsignar _) _, _, _ => none
  | .haz .indefinido _, _, _ => none

/-- The server, the socket, and what the calls have returned. -/
structure Montado where
  servidor : Proceso
  entrante : List UInt8 := []
  devuelto : List Resultado := []

/-- One call. -/
def llamar (basura : Nat → UInt8) (op : Fsc.Operacion) (m : Montado) : Option Montado := do
  let (servidor, entrante, r) ← conversar basura (op.programa basura) m.servidor m.entrante
  some ⟨servidor, entrante, m.devuelto ++ [r]⟩

/-! ## What it is for -/

/-- What is at each path. -/
abbrev Mapa := List (List UInt8) → Option Nodo

/-- The bytes of a READ; FUSE gets a zero for none. -/
def leidos (datos : List UInt8) : Resultado := if datos = [] then .valor 0 else .leido datos

/-- The path of an operation. -/
def ruta : Fsc.Operacion → Ruta
  | .getattr q => q
  | .readdir q => q
  | .opn q => q
  | .release q => q
  | .read q _ _ => q
  | .write q _ _ _ => q
  | .create q => q
  | .unlink q => q
  | .truncate q _ => q
  | .rmdir q => q
  | .mkdir q => q

/-- The operations that make something at their path. -/
def crea : Fsc.Operacion → Bool
  | .create _ => true
  | .mkdir _ => true
  | _ => false

/-- The operations that answer -1 when nothing is at their path. -/
def nombra : Fsc.Operacion → Bool
  | .getattr _ => false
  | .release _ => false
  | op => !crea op

/-- What a call may do to the map, and return. -/
inductive Hace : Fsc.Operacion → Mapa → Resultado → Mapa → Prop
  | getattr {q : Ruta} {v : Mapa} {n : Nodo} {modo links tam : Nat} : v q.nombres = some n →
      n.Atributos modo tam → Hace (.getattr q) v (.atributos (.getattr modo links tam)) v
  | getattrAusente {q : Ruta} {v : Mapa} : v q.nombres = none →
      Hace (.getattr q) v (.valor (-Fsc.enoent)) v
  | readdir {q : Ruta} {v : Mapa} {lista : List (List UInt8)} : v q.nombres = some .directorio →
      lista.Nodup → (∀ c, c ∈ lista ↔ Punto c ∨ v (q.nombres ++ [c]) ≠ none) →
      Hace (.readdir q) v (.nombres lista) v
  | opn {q : Ruta} {v : Mapa} {n : Nodo} : v q.nombres = some n → Hace (.opn q) v (.valor 0) v
  | release {q : Ruta} {v : Mapa} : Hace (.release q) v (.valor 0) v
  | read {q : Ruta} {v : Mapa} {datos : List UInt8} {size : UInt32} {off : Nat} :
      v q.nombres = some (.archivo datos) →
      Hace (.read q size off) v (leidos ((datos.drop off).take size.toNat)) v
  | readLargo {q : Ruta} {v : Mapa} {size : UInt32} {off : Int} : 65535 < size.toNat →
      Hace (.read q size off) v (.valor (-Fsc.enoent)) v
  | write {q : Ruta} {v : Mapa} {datos datos' buf : List UInt8} {size : UInt32} {off : Nat} :
      v q.nombres = some (.archivo datos) → Escribe off (buf.take size.toNat) datos datos' →
      Hace (.write q buf size off) v (.valor size.toNat)
        (Function.update v q.nombres (some (.archivo datos')))
  | writeLleno {q : Ruta} {v : Mapa} {datos buf : List UInt8} {size : UInt32} {off : Nat} :
      v q.nombres = some (.archivo datos) → datos.length < off + size.toNat →
      Hace (.write q buf size off) v (.valor (-enospc)) v
  | truncate {q : Ruta} {v : Mapa} {datos datos' : List UInt8} {off : Nat} :
      v q.nombres = some (.archivo datos) → Trunca off datos datos' →
      Hace (.truncate q off) v (.valor 0) (Function.update v q.nombres (some (.archivo datos')))
  | truncateLleno {q : Ruta} {v : Mapa} {datos : List UInt8} {off : Nat} :
      v q.nombres = some (.archivo datos) → datos.length < off →
      Hace (.truncate q off) v (.valor (-1)) v
  | create {q : Ruta} {v : Mapa} : v q.padre.nombres = some .directorio → v q.nombres = none →
      Hace (.create q) v (.valor 0) (Function.update v q.nombres (some (.archivo [])))
  | mkdir {q : Ruta} {v : Mapa} : v q.padre.nombres = some .directorio → v q.nombres = none →
      Hace (.mkdir q) v (.valor 0) (Function.update v q.nombres (some .directorio))
  | unlink {q : Ruta} {v : Mapa} {datos : List UInt8} : v q.nombres = some (.archivo datos) →
      Hace (.unlink q) v (.valor 0) (Function.update v q.nombres none)
  | rmdir {q : Ruta} {v : Mapa} : v q.nombres = some .directorio →
      (∀ c, v (q.nombres ++ [c]) = none) →
      Hace (.rmdir q) v (.valor 0) (Function.update v q.nombres none)
  | rmdirLleno {q : Ruta} {v : Mapa} {c : List UInt8} : v q.nombres = some .directorio →
      v (q.nombres ++ [c]) ≠ none → Hace (.rmdir q) v (.valor (-enotempty)) v
  -- what is not there
  | ausente {op : Fsc.Operacion} {v : Mapa} : nombra op → v (ruta op).nombres = none →
      Hace op v (.valor (-1)) v
  | sinPadre {op : Fsc.Operacion} {v : Mapa} : crea op → v (ruta op).padre.nombres = none →
      Hace op v (.valor (-1)) v

/-! ## What a call asks of the volume -/

/-- The names below a path fit the answer to READDIR: a byte for the size of
    each, and two for all of them with the dots. -/
def NombresCaben (v : Mapa) (q : List (List UInt8)) : Prop :=
  ∃ ns : List (List UInt8), (∀ c, v (q ++ [c]) ≠ none → c ∈ ns) ∧ (∀ c ∈ ns, c.length ≤ 254)
    ∧ Nipc.largoTotal ns + 7 ≤ 65535

/-- The kind of what is at the path, the range of a READ and the room that CREATE
    and MKDIR need. -/
def Pide : Fsc.Operacion → Proceso → Prop
  | .getattr _, _ => True
  | .opn _, _ => True
  | .release _, _ => True
  | .readdir q, s => vista s.fs q.nombres = none
      ∨ vista s.fs q.nombres = some .directorio ∧ NombresCaben (vista s.fs) q.nombres
  | .read q size off, s => size.toNat ≤ 65535 → vista s.fs q.nombres = none
      ∨ 0 ≤ off ∧ ∃ datos, vista s.fs q.nombres = some (.archivo datos)
        ∧ LecturaEntera s.fs.sb.blockSize datos.length off.toNat size.toNat
  | .write q _ _ off, s => 0 ≤ off ∧ vista s.fs q.nombres ≠ some .directorio
  | .truncate q off, s => 0 ≤ off ∧ vista s.fs q.nombres ≠ some .directorio
  | .create q, s => s.fs.HayInodoLibre ∧ (q.nombres ≠ [] ∧ vista s.fs q.padre.nombres = none
      ∨ ∃ p c d, Creable s.fs q.bytes p c d)
  | .mkdir q, s => s.fs.HayInodoLibre ∧ (q.nombres ≠ [] ∧ vista s.fs q.padre.nombres = none
      ∨ ∃ p c d, CreableDir s.fs q.bytes p c d)
  | .unlink q, s => vista s.fs q.nombres ≠ some .directorio
  | .rmdir q, s => vista s.fs q.nombres = none ∨ ∃ p c, Borrable s.fs q.bytes p c

/-- The file that READ reads is up to date in the cache. -/
def LeeFresco : Fsc.Operacion → Proceso → Prop
  | .read q size _, s => size.toNat ≤ 65535 → ∀ x,
      andar (nombresDe s.fs).hijo inodoRaiz q.nombres = some x → Fresca s.fs s.cache x
  | _, _ => True

/-- The changes to a file that leave it up to date in the cache: a WRITE from the
    first byte of a block, not past the end, and a TRUNCATE that takes no block. -/
def Alineada : Fsc.Operacion → Proceso → Prop
  | .write q _ _ off, s => ∀ datos, vista s.fs q.nombres = some (.archivo datos) →
      off.toNat % s.fs.sb.blockSize = 0 ∧ off.toNat ≤ datos.length
  | .truncate q off, s => ∀ datos, vista s.fs q.nombres = some (.archivo datos) →
      off.toNat ≤ cantBloques s.fs.sb.blockSize datos.length * s.fs.sb.blockSize
  | _, _ => True

/-- A request of the format, whose path goes through directories. -/
structure Admisible (op : Fsc.Operacion) (m : Montado) : Prop where
  formato : Nipc.EnFormato op.pedido
  directa : Directa m.servidor.fs (ruta op).nombres
  pide : Pide op m.servidor
  leeFresco : LeeFresco op m.servidor

/-- The same, with no word about the cache but that the changes are aligned. -/
structure AdmisibleAlineada (op : Fsc.Operacion) (m : Montado) : Prop where
  formato : Nipc.EnFormato op.pedido
  directa : Directa m.servidor.fs (ruta op).nombres
  pide : Pide op m.servidor
  alineada : Alineada op m.servidor

end Montaje
