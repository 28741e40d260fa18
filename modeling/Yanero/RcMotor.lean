import Yanero.RcParticiones
import Yanero.RcBuddy

/-! # The engine calls

    `my_engine.c`: initialisation, the two locked sections of `item_allocate`,
    and the other calls, then the complete operations the server builds from
    them and whole runs of such operations. -/

namespace Rc

open Bytes

/-- `cache_initialize` over a zero-filled table. -/
def cacheInitialize (cfg : Config) : TableInfo :=
  { elements := (List.replicate (cfg.blockSizeMax / cfg.chunkSize) Particion.vacia).modify 0
      fun s => { s with
        bytesDisponibles := cfg.blockSizeMax
        bytesInutilizados := 0
        item := { s.item with data := cfg.ptrdata } }
    espacioLibre := cfg.blockSizeMax
    sizeChunk := cfg.chunkSize }

/-! ## Sections under `sem_cache` -/

/-- The start of `item_allocate`: drop a stored item under the key. -/
def quitarPrevio (self : TableInfo) (key : Clave) : Option TableInfo :=
  match micacheSearchElement self key with
  | some _ => micacheRemove self key
  | none => some self

/-- The placement section of `item_allocate`: drop a stored item under the
    key, then find a slot. -/
def colocar (cfg : Config) (e : Entorno) (self : TableInfo) (key : Clave) (nbytes : Nat) :
    Option (TableInfo × Nat) :=
  (quitarPrevio self key).bind fun self =>
    match cfg.esquema with
    | .particionesDinamicas => compactacion cfg e nbytes e.vueltas 0 self
    | .buddySystem => buddysystem e nbytes e.vueltas 0 self

/-- The creation section of `item_allocate`. -/
def crear (cfg : Config) (e : Entorno) (self : TableInfo) (key : Clave) (pos nbytes : Nat) :
    TableInfo :=
  match cfg.esquema with
  | .particionesDinamicas =>
      micacheCreateElement e.fuera e.relojGet self key pos nbytes cfg.chunkSize
  | .buddySystem => buddyCreateElement e.relojGet self key pos nbytes

/-- `store_info` on the handle `&elements[pos].item`. -/
def storeInfo (self : TableInfo) (pos : Nat) : TableInfo :=
  self.modificar pos fun s => { s with item := { s.item with stored := true } }

/-- `item_release` on the handle `&elements[pos].item`. -/
def itemRelease (self : TableInfo) (pos : Nat) : Option TableInfo :=
  let it := (self.elements.getD pos Particion.vacia).item
  if it.stored then some self else micacheRemove self it.key

/-- The server copies the value through the handle. -/
def copiarValor (self : TableInfo) (pos : Nat) (valor : List UInt8) : TableInfo :=
  { self with memoria :=
      escribir self.memoria (self.elements.getD pos Particion.vacia).item.data valor }

/-- The value bytes `get_item_info` describes for a handle. -/
def getItemInfo (self : TableInfo) (pos : Nat) : List UInt8 :=
  let it := (self.elements.getD pos Particion.vacia).item
  leer self.memoria it.data it.ndata

/-- `get_info`: the handle, or `ENGINE_KEY_ENOENT`. -/
def getInfo (cfg : Config) (e : Entorno) (self : TableInfo) (key : Clave) :
    TableInfo × Option Nat :=
  match micacheSearchElement self key with
  | none => (self, none)
  | some pos =>
      match cfg.algReemplazo with
      | .lru => (lruGet e.relojGet self pos, some pos)
      | .fifo => (self, some pos)

/-- `delete_one`: `false` for `ENGINE_KEY_ENOENT`. -/
def deleteOne (self : TableInfo) (key : Clave) : Option (TableInfo × Bool) :=
  match micacheSearchElement self key with
  | none => some (self, false)
  | some pos =>
      (itemRelease (self.modificar pos fun s =>
        { s with item := { s.item with stored := false } }) pos).map (·, true)

/-! ## Complete operations -/

/-- The operations of a client. -/
inductive Op where
  | set (key : Clave) (valor : List UInt8)
  | get (key : Clave)
  | delete (key : Clave)
  | flushAll

/-- The answers of the engine. -/
inductive Respuesta where
  | success
  | valor (bytes : List UInt8)
  | keyEnoent
  | enomem
deriving DecidableEq

/-- A complete SET: `item_allocate`, copy of the value, `store_info`,
    `item_release`. -/
def opSet (cfg : Config) (e : Entorno) (self : TableInfo) (key : Clave)
    (valor : List UInt8) : Option (TableInfo × Respuesta) :=
  if cfg.blockSizeMax < valor.length then some (self, .enomem)
  else
    (colocar cfg e self key valor.length).bind fun (self, pos) =>
      let self := crear cfg e self key pos valor.length
      let self := copiarValor self pos valor
      (itemRelease (storeInfo self pos) pos).map (·, .success)

/-- A SET that the server gives up after `item_allocate`: `item_release`
    without `store_info`. -/
def opAbandonada (cfg : Config) (e : Entorno) (self : TableInfo) (key : Clave) (nbytes : Nat) :
    Option TableInfo :=
  if cfg.blockSizeMax < nbytes then some self
  else
    (colocar cfg e self key nbytes).bind fun (self, pos) =>
      itemRelease (crear cfg e self key pos nbytes) pos

/-- A complete GET: `get_info`, read of the value, `item_release`. -/
def opGet (cfg : Config) (e : Entorno) (self : TableInfo) (key : Clave) :
    Option (TableInfo × Respuesta) :=
  match getInfo cfg e self key with
  | (self, none) => some (self, .keyEnoent)
  | (self, some pos) => (itemRelease self pos).map (·, .valor (getItemInfo self pos))

/-- One complete operation; `none` when the call does not return. -/
def ejecutar (cfg : Config) (op : Op) (e : Entorno) (self : TableInfo) :
    Option (TableInfo × Respuesta) :=
  match op with
  | .set key valor => opSet cfg e self key valor
  | .get key => opGet cfg e self key
  | .delete key =>
      (deleteOne self key).map fun (self, hubo) =>
        (self, if hubo then .success else .keyEnoent)
  | .flushAll => some (micacheClean self, .success)

/-- The same, with the sum of `micache_clean` in an `int`. -/
def ejecutarInt (cfg : Config) (op : Op) (e : Entorno) (self : TableInfo) :
    Option (TableInfo × Respuesta) :=
  match op with
  | .flushAll => some (micacheCleanInt self, .success)
  | op => ejecutar cfg op e self

/-- The table after a complete operation. -/
def pasoInt (cfg : Config) (x : Op × Entorno) (self : TableInfo) : Option TableInfo :=
  (ejecutarInt cfg x.1 x.2 self).map Prod.fst

/-- A run of complete operations, one at a time. -/
def correr (cfg : Config) : List (Op × Entorno) → TableInfo → Option TableInfo
  | [], self => some self
  | (op, e) :: resto, self =>
      (ejecutar cfg op e self).bind fun (self, _) => correr cfg resto self

end Rc
