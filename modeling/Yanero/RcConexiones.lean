import Yanero.RcClaves
import Yanero.Corridas

/-! # Several connections over one engine

    memcached calls the engine from several threads.  Each section a call runs
    under `sem_cache` is one step here, and so is each piece of `get_info` and
    `delete_one` that runs without it: the search by key, and the write of
    `stored = false`.  Between two sections of a call any step of another
    connection may come.

    A connection is in one `Fase` of its current call.  `vigentes` is a
    history variable: the key and length of every item whose `item_allocate`
    has returned, until the item is removed, evicted or flushed.

    The machine is given twice: over the table, whose slots own their keys
    (`paso`), and over the key area of `RcClaves` (`pasoPlano`). -/

namespace Rc

open Corridas

/-- Where a connection stands in its current call.  A handle is the position
    `pos` of its slot. -/
inductive Fase where
  /-- no call under way -/
  | libre
  /-- `item_allocate` between its placement and its creation section -/
  | colocada (key : Clave) (pos n : Nat)
  /-- `item_allocate` has returned; `data` is what the slot pointed at then -/
  | asignada (key : Clave) (pos n data : Nat)
  /-- `store_info` has returned -/
  | guardada (pos : Nat)
  /-- `get_info` after its search -/
  | hallada (pos : Nat)
  /-- `get_info` has returned -/
  | leida (pos : Nat)
  /-- `delete_one` after its search -/
  | borrando (pos : Nat)
  /-- `delete_one` after clearing `stored` -/
  | marcada (pos : Nat)
deriving DecidableEq

/-- The handle a phase may give back with `item_release`. -/
def Fase.asa : Fase → Option Nat
  | .asignada _ pos _ _ => some pos
  | .guardada pos => some pos
  | .leida pos => some pos
  | .marcada pos => some pos
  | _ => none

/-- The next step of a connection. -/
inductive Accion where
  | colocar (key : Clave) (n : Nat)
  | crear
  | copiar (valor : List UInt8)
  | guardar
  | soltar
  | buscar (key : Clave)
  | usar
  | borrar (key : Clave)
  | marcar
  | limpiar

/-- The engine, the phase of every connection, and the history. -/
structure Sistema where
  tabla : TableInfo
  fases : List Fase
  vigentes : List (Clave × Nat) := []

/-- The history without the items under some keys. -/
def sinClaves (ks : List Clave) (v : List (Clave × Nat)) : List (Clave × Nat) :=
  v.filter fun x => !ks.contains x.1

/-- The keys a placement from `t` to `t'` has removed: a stored item under its
    own key, and the evicted ones. -/
def desalojadas (t t' : TableInfo) (key : Clave) : List Clave :=
  (if (micacheSearchElement t key).isSome then [key] else []) ++
    t'.bitacora.drop t.bitacora.length

/-- `item_release` on the handle `pos` of connection `c`. -/
def soltarAsa (s : Sistema) (c pos : Nat) : Option Sistema :=
  let it := (s.tabla.elements.getD pos Particion.vacia).item
  (itemRelease s.tabla pos).map fun tabla =>
    { tabla := tabla
      fases := s.fases.set c .libre
      vigentes := if it.stored then s.vigentes else sinClaves [it.key] s.vigentes }

/-- One step of connection `c`; `none` when its call cannot make it. -/
def paso (cfg : Config) (a : Nat × Accion × Entorno) (s : Sistema) : Option Sistema :=
  let (c, accion, e) := a
  match accion, s.fases[c]? with
  | .colocar key n, some .libre =>
      if cfg.blockSizeMax < n then some s
      else
        (colocar cfg e s.tabla key n).map fun (tabla, pos) =>
          { tabla := tabla
            fases := s.fases.set c (.colocada key pos n)
            vigentes := sinClaves (desalojadas s.tabla tabla key) s.vigentes }
  | .crear, some (.colocada key pos n) =>
      let tabla := crear cfg e s.tabla key pos n
      let data := (tabla.elements.getD pos Particion.vacia).item.data
      some
        { tabla := tabla
          fases := s.fases.set c (.asignada key pos n data)
          vigentes := s.vigentes ++ [(key, n)] }
  | .copiar valor, some (.asignada _ pos n _) =>
      if valor.length = n then some { s with tabla := copiarValor s.tabla pos valor } else none
  | .guardar, some (.asignada _ pos _ _) =>
      some { s with tabla := storeInfo s.tabla pos, fases := s.fases.set c (.guardada pos) }
  | .soltar, some f => f.asa.bind (soltarAsa s c)
  | .buscar key, some .libre =>
      match micacheSearchElement s.tabla key with
      | none => some s
      | some pos => some { s with fases := s.fases.set c (.hallada pos) }
  | .usar, some (.hallada pos) =>
      let tabla := match cfg.algReemplazo with
        | .lru => lruGet e.relojGet s.tabla pos
        | .fifo => s.tabla
      some { s with tabla := tabla, fases := s.fases.set c (.leida pos) }
  | .borrar key, some .libre =>
      match micacheSearchElement s.tabla key with
      | none => some s
      | some pos => some { s with fases := s.fases.set c (.borrando pos) }
  | .marcar, some (.borrando pos) =>
      some
        { s with
          tabla := s.tabla.modificar pos fun p => { p with item := { p.item with stored := false } }
          fases := s.fases.set c (.marcada pos) }
  | .limpiar, some .libre =>
      some { s with tabla := micacheClean s.tabla, vigentes := [] }
  | _, _ => none

/-- `m` connections over a fresh cache. -/
def sistemaInicial (cfg : Config) (m : Nat) : Sistema :=
  { tabla := cacheInitialize cfg, fases := List.replicate m .libre }

/-- The phases of the connections other than `c`. -/
def Sistema.ajenas (s : Sistema) (c : Nat) : List Fase := s.fases.eraseIdx c

/-! ## Over the key area -/

/-- The engine with its key area, the phase of every connection, and the
    history. -/
structure SistemaPlano where
  plana : Plana
  fases : List Fase
  vigentes : List (Clave × Nat) := []

/-- The state as a comparison sees it, keys read from the area. -/
def SistemaPlano.actual (s : SistemaPlano) : Sistema :=
  { tabla := s.plana.actual, fases := s.fases, vigentes := s.vigentes }

/-- The state after a step that copies no key. -/
def SistemaPlano.con (s : SistemaPlano) (s' : Sistema) : SistemaPlano :=
  { plana := s.plana.con s'.tabla, fases := s'.fases, vigentes := s'.vigentes }

/-- One step of connection `c` over the key area. -/
def pasoPlano (cfg : Config) (a : Nat × Accion × Entorno) (s : SistemaPlano) :
    Option SistemaPlano :=
  let (c, accion, e) := a
  match accion, s.fases[c]? with
  | .colocar key n, some .libre =>
      if cfg.blockSizeMax < n then some s
      else
        (colocarPlano cfg e s.plana key n).map fun (p, pos) =>
          { plana := p
            fases := s.fases.set c (.colocada key pos n)
            vigentes := sinClaves (desalojadas s.plana.actual p.actual key) s.vigentes }
  | .crear, some (.colocada key pos n) =>
      let p := crearPlano cfg e s.plana key pos n
      let data := (p.tabla.elements.getD pos Particion.vacia).item.data
      some
        { plana := p
          fases := s.fases.set c (.asignada key pos n data)
          vigentes := s.vigentes ++ [(key, n)] }
  | _, _ => (paso cfg a s.actual).map s.con

/-- `m` connections over a fresh cache; the area holds what its memory held
    before. -/
def sistemaPlanoInicial (cfg : Config) (m : Nat) (claves : Nat → UInt8) : SistemaPlano :=
  { plana := planaInicial cfg claves, fases := List.replicate m .libre }

end Rc
