import Yanero.Bucles
import Yanero.Bytes

/-! # The descriptor table of the remote cache

    The data model of `miDiccionario.h` and `my_engine.h`, and the routines
    both memory schemes share: search and removal by key, cleaning, and the
    replacement algorithm.

    The array of descriptors is a list (`tableMaxSize` is its length), the
    memory the items live in is a flat byte map, and an address is a natural
    number, `0` being `NULL`.  A key is the list of the `nkey` bytes its slot
    holds: every routine that sets `nkey` copies exactly that many bytes.

    Byte counts are integers without bounds where the source has `int`: what is
    proved of a table is about runs whose sums stay in the range of `int`, which
    they do while the bytes of the slots add up to less than 2^31 (`EnInt`).
    `micacheCleanInt` is where a run can leave that range. -/

namespace Rc

open Bucles

/-- The `nkey` bytes of a key. -/
abbrev Clave := List UInt8

/-- `t_cache_item`. -/
structure CacheItem where
  key : Clave := []
  data : Nat := 0
  ndata : Nat := 0
  flags : Int := 0
  stored : Bool := false
  exptime : Nat := 0
deriving DecidableEq

/-- `t_array`: one slot of the table.  `ultimaVezUsada` is a clock reading. -/
structure Particion where
  item : CacheItem := {}
  ocupado : Bool := false
  bytesDisponibles : Int := 0
  bytesInutilizados : Int := 0
  ultimaVezUsada : Nat := 0
deriving DecidableEq

/-- A zero-filled slot. -/
def Particion.vacia : Particion := {}

/-- A slot counts as live when it is occupied or has free bytes. -/
def Particion.viva (s : Particion) : Bool := s.ocupado || s.bytesDisponibles != 0

/-- `t_table_info`, with the memory its items point into and the keys the
    replacement algorithm has logged. -/
structure TableInfo where
  elements : List Particion
  elementsAmount : Int := 0
  espacioLibre : Int := 0
  sizeChunk : Nat := 0
  memoria : Nat → UInt8 := fun _ => 0
  bitacora : List Clave := []

/-- `table_max_size`. -/
def TableInfo.tableMaxSize (self : TableInfo) : Nat := self.elements.length

/-- Read slot `i`; `fuera i` is what the memory past the table holds there. -/
def TableInfo.leer (fuera : Nat → Particion) (self : TableInfo) (i : Nat) : Particion :=
  self.elements.getD i (fuera i)

/-- Write slot `i`; a write past the table is lost. -/
def TableInfo.modificar (self : TableInfo) (i : Nat) (f : Particion → Particion) :
    TableInfo :=
  { self with elements := self.elements.modify i f }

/-! ## Configuration and surroundings -/

/-- `esqAdmMemoria`: `"particionesdinamicas"` or anything else. -/
inductive Esquema where
  | particionesDinamicas
  | buddySystem
deriving DecidableEq

/-- `algoritmobusqueda`: `"first_fit"` or anything else. -/
inductive AlgBusqueda where
  | firstFit
  | bestFit
deriving DecidableEq

/-- `algoritmoreemplazo`: `"lru"` or anything else. -/
inductive AlgReemplazo where
  | lru
  | fifo
deriving DecidableEq

/-- What `cache_initialize` reads and allocates: the scheme and its
    algorithms, the sizes, and the address `ptrdata` of the data area. -/
structure Config where
  esquema : Esquema
  algBusqueda : AlgBusqueda
  algReemplazo : AlgReemplazo
  frecuenciaCompactacion : Int
  blockSizeMax : Nat
  chunkSize : Nat
  ptrdata : Nat

/-- What one engine call meets outside the table: the memory past its end, the
    slot read as `elements[-1]` (one value for each block size it is read at),
    the successive clock readings of `lru`, the one of `lru_get`, and how many
    turns its loops are given. -/
structure Entorno where
  fuera : Nat → Particion
  antes : Int → Particion
  relojLru : Nat → Nat
  relojGet : Nat
  vueltas : Nat

/-! ## Search and removal by key -/

/-- Occupied, stored, and under this key. -/
def coincideStored (key : Clave) (s : Particion) : Bool :=
  s.ocupado && s.item.stored && s.item.key == key

/-- Occupied and under this key, stored or not. -/
def coincide (key : Clave) (s : Particion) : Bool :=
  s.ocupado && s.item.key == key

/-- `micache_search_element`: the first match, `none` for `-1`. -/
def micacheSearchElement (self : TableInfo) (key : Clave) : Option Nat :=
  self.elements.findIdx? (coincideStored key)

/-- The bytes a removed slot gives back. -/
def bytesLiberados (sizeChunk : Nat) (s : Particion) : Int :=
  if s.item.ndata < sizeChunk then sizeChunk else s.item.ndata + s.bytesInutilizados

/-- The slot `micache_remove_element` leaves behind. -/
def liberada (sizeChunk : Nat) (s : Particion) : Particion :=
  { s with
    ocupado := false
    ultimaVezUsada := 0
    bytesDisponibles := bytesLiberados sizeChunk s
    bytesInutilizados := 0
    item := { s.item with stored := false, ndata := 0 } }

/-- `micache_remove_element`, returning the data pointer.  The loop keeps the
    LAST match in `pos`; with no match `pos` is never assigned and the call
    has no defined result. -/
def micacheRemoveElement (self : TableInfo) (key : Clave) : Option (TableInfo × Nat) :=
  (ultimoIndice (coincide key) self.elements).map fun pos =>
    let s := self.elements.getD pos Particion.vacia
    ({ self.modificar pos (liberada self.sizeChunk) with
       espacioLibre := self.espacioLibre + bytesLiberados self.sizeChunk s },
     s.item.data)

/-- `micache_remove`. -/
def micacheRemove (self : TableInfo) (key : Clave) : Option TableInfo :=
  (micacheRemoveElement self key).map fun (self, data) =>
    if data = 0 then self else { self with elementsAmount := self.elementsAmount - 1 }

/-! ## Cleaning -/

/-- What one slot contributes to the free space in `micache_clean`. -/
def aporteClean (sizeChunk : Nat) (s : Particion) : Int :=
  if s.ocupado then
    if sizeChunk ≤ s.item.ndata then s.item.ndata + s.bytesInutilizados else sizeChunk
  else s.bytesDisponibles + s.bytesInutilizados

/-- What `micache_clean` leaves in one slot; `stored` keeps its value. -/
def limpiada (s : Particion) : Particion :=
  let s := if s.ocupado then
      { s with ocupado := false, ultimaVezUsada := 0, item := { s.item with ndata := 0 } }
    else s
  { s with bytesDisponibles := 0, bytesInutilizados := 0 }

/-- `micache_clean`. -/
def micacheClean (self : TableInfo) : TableInfo :=
  let espacioLibre := (self.elements.map (aporteClean self.sizeChunk)).sum
  let self := { self with elements := self.elements.map limpiada }
  { self.modificar 0 fun s =>
      { s with bytesDisponibles := espacioLibre, bytesInutilizados := 0 } with
    espacioLibre := espacioLibre
    elementsAmount := 0 }

/-- A sum that wraps as the 32 bits of an `int` do. -/
def enInt (n : Int) : Int := Int.bmod n (2 ^ 32)

/-- `micache_clean` with its `int espacioLibre`. -/
def micacheCleanInt (self : TableInfo) : TableInfo :=
  let espacioLibre :=
    self.elements.foldl (fun acum s => enInt (acum + aporteClean self.sizeChunk s)) 0
  let self := { self with elements := self.elements.map limpiada }
  { self.modificar 0 fun s =>
      { s with bytesDisponibles := espacioLibre, bytesInutilizados := 0 } with
    espacioLibre := espacioLibre
    elementsAmount := 0 }

/-! ## The replacement algorithm -/

/-- One turn of the loop of `lru`: keep the slot if it is stored and was used
    strictly before the best so far. -/
def masViejo (mejor : Nat × Option Clave) (s : Particion) : Nat × Option Clave :=
  if s.ocupado && s.item.stored && s.ultimaVezUsada < mejor.1 then
    (s.ultimaVezUsada, some s.item.key)
  else mejor

/-- The key `lru` picks at clock reading `ahora`; with no slot used before
    `ahora` it is never assigned. -/
def victima (ahora : Nat) (self : TableInfo) : Option Clave :=
  (self.elements.foldl masViejo (ahora, none)).2

/-- `lru`, called at clock reading `ahora`: remove the victim and return its
    key. -/
def lru (ahora : Nat) (self : TableInfo) : Option (TableInfo × Clave) :=
  match victima ahora self with
  | none => none
  | some key => (micacheRemove self key).map fun self => (self, key)

/-- The replacement step of both schemes: run `lru` and log the key. -/
def reemplazar (ahora : Nat) (self : TableInfo) : Option TableInfo :=
  (lru ahora self).map fun (self, key) =>
    { self with bitacora := self.bitacora ++ [key] }

/-- `lru_get` at clock reading `ahora`. -/
def lruGet (ahora : Nat) (self : TableInfo) (pos : Nat) : TableInfo :=
  self.modificar pos fun s => { s with ultimaVezUsada := ahora }

/-! ## Copying descriptors -/

/-- The field-by-field copy of `juntarParticionesVacias`,
    `desplazarUnoArriba` and `desplazarUnoAbajo`: the item fields other than
    `data` follow only when the source is occupied. -/
def copiarDescriptor (src dst : Particion) : Particion :=
  let dst := { dst with
    ocupado := src.ocupado
    bytesInutilizados := src.bytesInutilizados
    bytesDisponibles := src.bytesDisponibles
    item := { dst.item with data := src.item.data } }
  if dst.ocupado then
    { dst with
      ultimaVezUsada := src.ultimaVezUsada
      item := { dst.item with
        exptime := src.item.exptime
        flags := src.item.flags
        key := src.item.key
        stored := src.item.stored
        ndata := src.item.ndata } }
  else dst

end Rc
