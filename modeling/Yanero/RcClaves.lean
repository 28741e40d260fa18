import Yanero.RcMotor

/-! # The key area

    `cache_initialize` gives slot `i` the key pointer `ptrkey + 60 * i`, and no
    routine changes it: a key is moved by copying `nkey` bytes from one cell
    to another.  This file models that area as the code has it, one flat
    buffer, with every write it receives, and the engine over it.

    Of the keys in the table itself only the length, `nkey`, counts here; the
    bytes a comparison sees are read from the area (`Plana.actual`).  Every
    routine either copies keys and compares none, or compares and copies none,
    so each is followed whole: its table by the routine itself, its area by
    the copies it makes, in order. -/

namespace Rc

open Bucles Bytes

/-- Where the key of slot `i` starts. -/
def celda (i : Nat) : Nat := 60 * i

/-- A write of key bytes: the slots and the area it met, the slot it is for
    and what it wrote. -/
structure EscrituraClave where
  elements : List Particion
  claves : Nat → UInt8
  slot : Nat
  bytes : List UInt8

/-- The bytes from `ptrkey` on, and the writes they have received. -/
structure AreaClaves where
  claves : Nat → UInt8 := fun _ => 0
  escrituras : List EscrituraClave := []

/-- `memcpy` of `bytes` to the key of `slot`, in a table with slots `es`. -/
def AreaClaves.escribir (a : AreaClaves) (es : List Particion) (slot : Nat)
    (bytes : List UInt8) : AreaClaves :=
  { claves := Bytes.escribir a.claves (celda slot) bytes
    escrituras := a.escrituras ++ [⟨es, a.claves, slot, bytes⟩] }

/-- `memcpy` of the `nkey` bytes of slot `src` to the key of slot `dst`. -/
def AreaClaves.copiar (a : AreaClaves) (es : List Particion) (dst src : Nat) : AreaClaves :=
  a.escribir es dst (leer a.claves (celda src) (es.getD src Particion.vacia).item.key.length)

/-- The key follows its descriptor only when the source is occupied. -/
def AreaClaves.copiarOcupada (a : AreaClaves) (es : List Particion) (dst src : Nat) :
    AreaClaves :=
  if (es.getD src Particion.vacia).ocupado then a.copiar es dst src else a

/-! ## The dynamic scheme -/

/-- `desplazarAbajo`. -/
def clavesDesplazarAbajo (self : TableInfo) (pos : Nat) (a : AreaClaves) : AreaClaves :=
  seguir (fun i es =>
      es.modify (self.tableMaxSize - 1 - i)
        (copiarTodo (es.getD (self.tableMaxSize - 1 - i - 1) Particion.vacia)))
    (fun i es a => a.copiar es (self.tableMaxSize - 1 - i) (self.tableMaxSize - 1 - i - 1))
    (self.tableMaxSize - 1 - pos) self.elements a

/-- `micache_create_element`. -/
def clavesMicacheCreate (fuera : Nat → Particion) (ahora : Nat) (self : TableInfo)
    (key : Clave) (pos sizeData sizeChunk : Nat) (a : AreaClaves) : AreaClaves :=
  let a := a.escribir self.elements pos key
  let self := self.modificar pos fun s =>
    { s with item := { s.item with key := key, ndata := sizeData }, ocupado := true }
  let self := lruGet ahora self pos
  let actual := self.leer fuera pos
  if (sizeData : Int) ≤ actual.bytesDisponibles then
    if (self.leer fuera (pos + 1)).ocupado
        ∧ (sizeChunk : Int) ≤ actual.bytesDisponibles - ocupa sizeChunk sizeData then
      clavesDesplazarAbajo self (pos + 1) a
    else a
  else a

/-- The merge of a hole. -/
def clavesUnirHueco (self : TableInfo) (posBytes cantVacios : Nat) (total : Int)
    (a : AreaClaves) : AreaClaves :=
  let es := self.elements.modify posBytes fun s => { s with bytesDisponibles := total }
  if 1 < cantVacios then
    let es := iterar (fun i es =>
        es.modify (posBytes + 1 + i) fun s => { s with ocupado := false, bytesDisponibles := 0 })
      (cantVacios - 1) es
    seguir (fun i es => juntarParticionesVacias es (posBytes + cantVacios + i) cantVacios)
      (fun i es a => a.copiarOcupada es (posBytes + cantVacios + i + 1 - cantVacios)
        (posBytes + cantVacios + i))
      (self.tableMaxSize - 1 - (posBytes + cantVacios)) es a
  else a

/-- `compactar`: `desplazarArriba` copies the key of every slot it moves. -/
def clavesCompactar (self : TableInfo) (pos : Nat) (a : AreaClaves) : AreaClaves :=
  let vacios := (self.elements.drop pos).takeWhile fun s => !s.ocupado
  let cantVacios := vacios.length
  let es := iterar (fun i es => es.modify (pos + i) fun s => { s with bytesDisponibles := 0 })
    cantVacios self.elements
  if self.tableMaxSize ≤ pos + cantVacios then a
  else
    let ocupados := (es.drop (pos + cantVacios)).takeWhile fun s => s.ocupado
    let cantOcupados := ocupados.length
    let es := iterar (fun i es =>
        es.modify (pos + cantVacios + i) fun s => { s with bytesInutilizados := 0 })
      cantOcupados es
    if self.tableMaxSize ≤ pos + cantVacios + cantOcupados ∧ cantVacios = 0 then a
    else
      seguir (fun i self => desplazarArriba self (pos + i) cantVacios)
        (fun i self a => a.copiar self.elements (pos + i) (pos + i + cantVacios))
        cantOcupados { self with elements := es } a

/-- The sweep of `compactacion`. -/
def clavesBarrer (fuera : Nat → Particion) : Nat → Nat → TableInfo → AreaClaves → AreaClaves
  | 0, _, _, a => a
  | vueltas + 1, i, self, a =>
      if (self.leer fuera i).ocupado then clavesBarrer fuera vueltas (i + 1) self a
      else
        match compactar self i with
        | (self', true) => clavesBarrer fuera vueltas (i + 1) self' (clavesCompactar self i a)
        | (_, false) => clavesCompactar self i a

/-! ## The buddy scheme -/

/-- `desplazarUnoArriba`. -/
def clavesDesplazarUnoArriba (self : TableInfo) (posHna : Nat) (a : AreaClaves) : AreaClaves :=
  seguir (fun i es =>
      (es.modify (posHna + i)
          (copiarDescriptor (es.getD (posHna + i + 1) Particion.vacia))).modify
        (posHna + i + 1) descartada)
    (fun i es a => a.copiarOcupada es (posHna + i) (posHna + i + 1))
    (self.tableMaxSize - 1 - posHna) self.elements a

/-- `desplazarUnoAbajo`: at slot `0` its extra turn copies the key of
    `elements[-1]`. -/
def clavesDesplazarUnoAbajo (e : Entorno) (self : TableInfo) (posAct : Nat) (freeBytes : Int)
    (a : AreaClaves) : AreaClaves :=
  let bajar := fun (i : Nat) (es : List Particion) =>
    es.modify (self.tableMaxSize - 1 - i)
      (copiarDescriptor (es.getD (self.tableMaxSize - 1 - i - 1) Particion.vacia))
  let a := seguir bajar
    (fun i es a => a.copiarOcupada es (self.tableMaxSize - 1 - i) (self.tableMaxSize - 1 - i - 1))
    (self.tableMaxSize - 1 - posAct) self.elements a
  let es := iterar bajar (self.tableMaxSize - 1 - posAct) self.elements
  if posAct = 0 then
    if (e.antes freeBytes).ocupado then a.escribir es posAct (e.antes freeBytes).item.key else a
  else a.copiarOcupada es posAct (posAct - 1)

/-- The inner loop of `buscarHueco`. -/
def clavesPartir (e : Entorno) (ndata : Nat) (i : Nat) :
    Nat → Int → TableInfo → AreaClaves → AreaClaves
  | 0, _, _, a => a
  | vueltas + 1, part, self, a =>
      if (ndata : Int) ≤ part then
        if (self.sizeChunk : Int) ≤ part then
          clavesPartir e ndata i vueltas (part.tdiv 2) (desplazarUnoAbajo e self i part)
            (clavesDesplazarUnoAbajo e self i part a)
        else clavesPartir e ndata i vueltas (-1) self a
      else a

/-- `buscarHueco`. -/
def clavesBuscarHueco (e : Entorno) (self : TableInfo) (ndata : Nat) (a : AreaClaves) :
    AreaClaves :=
  match huecoBuddy self ndata with
  | none => a
  | some i =>
      let freeBytes := (self.elements.getD i Particion.vacia).bytesDisponibles
      clavesPartir e ndata i e.vueltas (freeBytes.tdiv 2) self a

/-- The merge of two sisters. -/
def clavesUnirHermana (self : TableInfo) (arriba : Nat) (s : Particion) (a : AreaClaves) :
    AreaClaves :=
  clavesDesplazarUnoArriba (self.modificar (arriba + 1) fun h =>
    { h with
      bytesDisponibles := h.bytesDisponibles + s.bytesDisponibles
      item := { h.item with data := s.item.data } }) arriba a

/-- One turn of the `for` of `unirTodasLasHermanas`. -/
def clavesUnirTurno (fuera : Nat → Particion) (i : Nat) (p : Pasada) (a : AreaClaves) :
    AreaClaves :=
  let s := p.self.leer fuera i
  if !s.ocupado && s.bytesDisponibles != 0 then
    let c := p.acum.tdiv s.bytesDisponibles
    if c.tmod 2 = 0 then
      let h := p.self.leer fuera (i + 1)
      if !h.ocupado && h.bytesDisponibles == s.bytesDisponibles then
        clavesUnirHermana p.self i s a
      else a
    else
      let h := p.self.leer fuera (i - 1)
      if !h.ocupado && h.bytesDisponibles == s.bytesDisponibles then
        clavesUnirHermana p.self (i - 1) h a
      else a
  else a

/-- `unirTodasLasHermanas`. -/
def clavesUnirTodas (fuera : Nat → Particion) : Nat → TableInfo → AreaClaves → AreaClaves
  | 0, _, a => a
  | vueltas + 1, self, a =>
      let p := unirPasada fuera self
      let a := seguir (unirTurno fuera) (clavesUnirTurno fuera) self.tableMaxSize
        (⟨self, 0, false⟩ : Pasada) a
      if p.seUnieron then clavesUnirTodas fuera vueltas p.self a else a

/-! ## The engine over the key area -/

/-- The table and its key area. -/
structure Plana where
  tabla : TableInfo
  area : AreaClaves

/-- The table with the key bytes a comparison reads. -/
def Plana.actual (p : Plana) : TableInfo :=
  { p.tabla with elements := p.tabla.elements.mapIdx fun i s =>
      { s with item := { s.item with key := leer p.area.claves (celda i) s.item.key.length } } }

/-- A table over an area that holds `claves`. -/
def sobreArea (t : TableInfo) (claves : Nat → UInt8) : Plana :=
  { tabla := t, area := { claves := claves } }

/-- The table after a call that copies no key. -/
def Plana.con (p : Plana) (t : TableInfo) : Plana := { p with tabla := t }

/-- The search the configuration selects. -/
def buscarLugarPlano (alg : AlgBusqueda) (p : Plana) (sizeData : Nat) : Option (Plana × Nat) :=
  (hueco alg p.actual sizeData).map fun (pos, k, total) =>
    (⟨unirHueco p.actual pos k total, clavesUnirHueco p.actual pos k total p.area⟩, pos)

/-- The sweep of `compactacion`, from slot `0` on. -/
def barrerPlano (fuera : Nat → Particion) (vueltas : Nat) (p : Plana) : Option Plana :=
  (barrer fuera vueltas 0 p.actual).map fun t =>
    ⟨t, clavesBarrer fuera vueltas 0 p.actual p.area⟩

/-- `buscarHueco`. -/
def buscarHuecoPlano (e : Entorno) (p : Plana) (ndata : Nat) : Option (Option (Plana × Nat)) :=
  (buscarHueco e p.actual ndata).map fun r =>
    r.map fun (t, i) => (⟨t, clavesBuscarHueco e p.actual ndata p.area⟩, i)

/-- `unirTodasLasHermanas`. -/
def unirTodasPlano (fuera : Nat → Particion) (vueltas : Nat) (p : Plana) : Option Plana :=
  (unirTodasLasHermanas fuera vueltas p.actual).map fun t =>
    ⟨t, clavesUnirTodas fuera vueltas p.actual p.area⟩

/-- `compactacion`. -/
def compactacionPlana (cfg : Config) (e : Entorno) (nbytesData : Nat) :
    Nat → Nat → Plana → Option (Plana × Nat)
  | 0, _, _ => none
  | vueltas + 1, busquedasFallidas, p =>
      match buscarLugarPlano cfg.algBusqueda p nbytesData with
      | some r => some r
      | none =>
          let busquedasFallidas := busquedasFallidas + 1
          if (busquedasFallidas : Int) = cfg.frecuenciaCompactacion
            ∨ p.tabla.elementsAmount = 0 then
            (barrerPlano e.fuera e.vueltas p).bind
              (compactacionPlana cfg e nbytesData vueltas busquedasFallidas)
          else
            (reemplazar (e.relojLru busquedasFallidas) p.actual).bind fun t =>
              compactacionPlana cfg e nbytesData vueltas busquedasFallidas (p.con t)

/-- `buddysystem`. -/
def buddysystemPlano (e : Entorno) (nbytesData : Nat) :
    Nat → Nat → Plana → Option (Plana × Nat)
  | 0, _, _ => none
  | vueltas + 1, n, p =>
      (buscarHuecoPlano e p nbytesData).bind fun
        | some r => some r
        | none =>
            (unirTodasPlano e.fuera e.vueltas p).bind fun p =>
              (buscarHuecoPlano e p nbytesData).bind fun
                | some r => some r
                | none =>
                    if p.tabla.elementsAmount ≠ 0 then
                      (reemplazar (e.relojLru n) p.actual).bind fun t =>
                        buddysystemPlano e nbytesData vueltas (n + 1) (p.con t)
                    else buddysystemPlano e nbytesData vueltas (n + 1) p

/-- The placement section of `item_allocate`. -/
def colocarPlano (cfg : Config) (e : Entorno) (p : Plana) (key : Clave) (nbytes : Nat) :
    Option (Plana × Nat) :=
  (quitarPrevio p.actual key).bind fun t =>
    match cfg.esquema with
    | .particionesDinamicas => compactacionPlana cfg e nbytes e.vueltas 0 (p.con t)
    | .buddySystem => buddysystemPlano e nbytes e.vueltas 0 (p.con t)

/-- The creation section of `item_allocate`. -/
def crearPlano (cfg : Config) (e : Entorno) (p : Plana) (key : Clave) (pos nbytes : Nat) :
    Plana :=
  let self := p.actual
  { tabla := crear cfg e self key pos nbytes
    area :=
      match cfg.esquema with
      | .particionesDinamicas =>
          clavesMicacheCreate e.fuera e.relojGet self key pos nbytes cfg.chunkSize p.area
      | .buddySystem => p.area.escribir self.elements pos key }

/-- A complete SET. -/
def opSetPlano (cfg : Config) (e : Entorno) (p : Plana) (key : Clave) (valor : List UInt8) :
    Option (Plana × Respuesta) :=
  if cfg.blockSizeMax < valor.length then some (p, .enomem)
  else
    (colocarPlano cfg e p key valor.length).bind fun (p, pos) =>
      let p := crearPlano cfg e p key pos valor.length
      (itemRelease (storeInfo (copiarValor p.actual pos valor) pos) pos).map
        fun t => (p.con t, .success)

/-- A SET that is given up after `item_allocate`. -/
def opAbandonadaPlana (cfg : Config) (e : Entorno) (p : Plana) (key : Clave) (nbytes : Nat) :
    Option Plana :=
  if cfg.blockSizeMax < nbytes then some p
  else
    (colocarPlano cfg e p key nbytes).bind fun (p, pos) =>
      let p := crearPlano cfg e p key pos nbytes
      (itemRelease p.actual pos).map p.con

/-- One complete operation. -/
def ejecutarPlano (cfg : Config) (op : Op) (e : Entorno) (p : Plana) :
    Option (Plana × Respuesta) :=
  match op with
  | .set key valor => opSetPlano cfg e p key valor
  | .get key => (opGet cfg e p.actual key).map fun (t, r) => (p.con t, r)
  | .delete key =>
      (deleteOne p.actual key).map fun (t, hubo) =>
        (p.con t, if hubo then .success else .keyEnoent)
  | .flushAll => some (p.con (micacheClean p.actual), .success)

/-- A run of complete operations, one at a time. -/
def correrPlano (cfg : Config) : List (Op × Entorno) → Plana → Option Plana
  | [], p => some p
  | (op, e) :: resto, p =>
      (ejecutarPlano cfg op e p).bind fun (p, _) => correrPlano cfg resto p

/-- `cache_initialize`: the area holds what its memory held before. -/
def planaInicial (cfg : Config) (claves : Nat → UInt8) : Plana :=
  { tabla := cacheInitialize cfg, area := { claves := claves } }

end Rc
