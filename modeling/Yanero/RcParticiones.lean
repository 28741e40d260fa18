import Yanero.RcTabla

/-! # The dynamic-partition scheme

    `compactacion.c` and the creation routine of `miDiccionario.c`: the two
    searches and the merge of the hole they find, compaction, the placement
    loop, and the creation of an element with the split of its leftover. -/

namespace Rc

open Bucles Bytes

/-! ## Creating an element -/

/-- The copy of `desplazarAbajo`: every field, occupied or not. -/
def copiarTodo (src _dst : Particion) : Particion := src

/-- The bytes an item of `ndata` bytes takes: never less than a chunk. -/
def ocupa (sizeChunk ndata : Nat) : Nat := if ndata < sizeChunk then sizeChunk else ndata

/-- `desplazarAbajo`: open a free slot of `disponibles` bytes at `pos`. -/
def desplazarAbajo (self : TableInfo) (pos : Nat) (disponibles : Int) : TableInfo :=
  let es := iterar (fun i es =>
      es.modify (self.tableMaxSize - 1 - i)
        (copiarTodo (es.getD (self.tableMaxSize - 1 - i - 1) Particion.vacia)))
    (self.tableMaxSize - 1 - pos) self.elements
  let anterior := es.getD (pos - 1) Particion.vacia
  { self with
    elements := es.modify pos fun s =>
      { s with
        ocupado := false
        bytesDisponibles := disponibles
        bytesInutilizados := 0
        item := { s.item with
          data := anterior.item.data + ocupa self.sizeChunk anterior.item.ndata } } }

/-- The branches of `micache_create_element` for the bytes slot `pos` does not
    need: a slot of their own or the next free one when they make a chunk,
    unusable bytes of the item otherwise. -/
def repartirSobra (fuera : Nat → Particion) (self : TableInfo) (pos sizeData sizeChunk : Nat) :
    TableInfo :=
  let actual := self.leer fuera pos
  let disponibles := actual.bytesDisponibles - ocupa sizeChunk sizeData
  let self := { self with espacioLibre := self.espacioLibre - ocupa sizeChunk sizeData }
  if (self.leer fuera (pos + 1)).ocupado then
    if (sizeChunk : Int) ≤ disponibles then
      desplazarAbajo self (pos + 1) disponibles
    else
      self.modificar pos fun s => { s with bytesInutilizados := disponibles }
  else
    -- the next slot is moved up to the end of the item in every case
    let self := self.modificar (pos + 1) fun s =>
      { s with item := { s.item with data := actual.item.data + ocupa sizeChunk sizeData } }
    if (sizeChunk : Int) ≤ disponibles then
      self.modificar (pos + 1) fun s =>
        { s with bytesDisponibles := s.bytesDisponibles + disponibles }
    else
      self.modificar pos fun s => { s with bytesInutilizados := disponibles }

/-- `micache_create_element`, its `lru_get` at clock reading `ahora`. -/
def micacheCreateElement (fuera : Nat → Particion) (ahora : Nat) (self : TableInfo)
    (key : Clave) (pos sizeData sizeChunk : Nat) : TableInfo :=
  let self := self.modificar pos fun s =>
    { s with item := { s.item with key := key, ndata := sizeData }, ocupado := true }
  let self := lruGet ahora self pos
  let self :=
    if (sizeData : Int) ≤ (self.leer fuera pos).bytesDisponibles then
      repartirSobra fuera self pos sizeData sizeChunk
    else self
  { self.modificar pos fun s => { s with bytesDisponibles := 0 } with
    elementsAmount := self.elementsAmount + 1 }

/-! ## Searching a hole -/

/-- `juntarParticionesVacias`: slot `pos` goes up `cantVacios - 1` places. -/
def juntarParticionesVacias (es : List Particion) (pos cantVacios : Nat) :
    List Particion :=
  es.modify (pos + 1 - cantVacios) (copiarDescriptor (es.getD pos Particion.vacia))

/-- The merge both searches end with: the `cantVacios` free slots from
    `posBytes` on become one of `total` bytes, and the slots after them move
    up.  The last slot of the table is never moved. -/
def unirHueco (self : TableInfo) (posBytes cantVacios : Nat) (total : Int) : TableInfo :=
  let es := self.elements.modify posBytes fun s => { s with bytesDisponibles := total }
  if 1 < cantVacios then
    let es := iterar (fun i es =>
        es.modify (posBytes + 1 + i) fun s => { s with ocupado := false, bytesDisponibles := 0 })
      (cantVacios - 1) es
    let tope := self.tableMaxSize - 1
    let es := iterar (fun i es => juntarParticionesVacias es (posBytes + cantVacios + i) cantVacios)
      (tope - (posBytes + cantVacios)) es
    { self with elements := es }
  else
    { self with elements := es }

/-- The loop of `first_fit` from slot `i` on, with its accumulators
    (`pos_primero` counts with `cantVacios`).  A dead slot does not end a run. -/
def firstFitBuscar (sizeChunk sizeData : Nat) :
    List Particion → Nat → Int → Nat → Nat → Option (Nat × Nat × Int)
  | [], _, _, _, _ => none
  | s :: resto, i, libres, cantVacios, posBytes =>
      if s.ocupado then firstFitBuscar sizeChunk sizeData resto (i + 1) 0 0 posBytes
      else
        let hay := s.bytesDisponibles != 0
        let libres := if hay then libres + s.bytesDisponibles else libres
        let posBytes := if hay && cantVacios == 0 then i else posBytes
        let cantVacios := if hay then cantVacios + 1 else cantVacios
        if (sizeData : Int) ≤ libres ∧ (sizeChunk : Int) ≤ libres then
          some (posBytes, cantVacios, libres)
        else firstFitBuscar sizeChunk sizeData resto (i + 1) libres cantVacios posBytes

/-- `first_fit`; `none` for `-1`. -/
def firstFit (self : TableInfo) (sizeData : Nat) : Option (TableInfo × Nat) :=
  (firstFitBuscar self.sizeChunk sizeData self.elements 0 0 0 0).map
    fun (posBytes, cantVacios, libres) => (unirHueco self posBytes cantVacios libres, posBytes)

/-- The loop of `best_fit` from slot `i` on; `min` and, once set, `posmin`
    and `vaciosmin` are the best so far.  A dead slot ends a run. -/
def bestFitBuscar (sizeChunk sizeData : Nat) :
    List Particion → Nat → Int → Nat → Nat → Int → Option (Nat × Nat) →
      Option (Nat × Nat × Int)
  | [], _, _, _, _, min, mejor => mejor.map fun (posmin, vaciosmin) => (posmin, vaciosmin, min)
  | s :: resto, i, libres, cantVacios, posBytes, min, mejor =>
      if s.ocupado then bestFitBuscar sizeChunk sizeData resto (i + 1) 0 0 posBytes min mejor
      else if s.bytesDisponibles != 0 then
        let libres := libres + s.bytesDisponibles
        let posBytes := if cantVacios == 0 then i else posBytes
        let cantVacios := cantVacios + 1
        if (sizeData : Int) ≤ libres ∧ (sizeChunk : Int) ≤ libres ∧ libres < min then
          bestFitBuscar sizeChunk sizeData resto (i + 1) libres cantVacios posBytes
            libres (some (posBytes, cantVacios))
        else
          bestFitBuscar sizeChunk sizeData resto (i + 1) libres cantVacios posBytes min mejor
      else bestFitBuscar sizeChunk sizeData resto (i + 1) 0 0 posBytes min mejor

/-- `best_fit`; `none` for `-1`. -/
def bestFit (self : TableInfo) (sizeData : Nat) : Option (TableInfo × Nat) :=
  (bestFitBuscar self.sizeChunk sizeData self.elements 0 0 0 0
      (self.espacioLibre + 1) none).map
    fun (posmin, vaciosmin, min) => (unirHueco self posmin vaciosmin min, posmin)

/-- The hole the configured search chooses: its first slot, how many slots it
    has, and their bytes. -/
def hueco (alg : AlgBusqueda) (self : TableInfo) (sizeData : Nat) : Option (Nat × Nat × Int) :=
  match alg with
  | .firstFit => firstFitBuscar self.sizeChunk sizeData self.elements 0 0 0 0
  | .bestFit =>
      bestFitBuscar self.sizeChunk sizeData self.elements 0 0 0 0 (self.espacioLibre + 1) none

/-- The search the configuration selects. -/
def buscarLugar (alg : AlgBusqueda) (self : TableInfo) (sizeData : Nat) :
    Option (TableInfo × Nat) :=
  match alg with
  | .firstFit => firstFit self sizeData
  | .bestFit => bestFit self sizeData

/-! ## Compaction -/

/-- Where the partition after `s` starts, by the rule of `desplazarArriba` and
    `compactar`: the unusable bytes of `s` are not counted. -/
def comienzoSiguiente (sizeChunk : Nat) (s : Particion) : Nat :=
  s.item.data + (if sizeChunk < s.item.ndata then s.item.ndata else sizeChunk)

/-- `desplazarArriba`: move the descriptor `cantVacios` places up and its
    bytes right after the partition before it. -/
def desplazarArriba (self : TableInfo) (topos cantVacios : Nat) : TableInfo :=
  let dsdpos := topos + cantVacios
  let src := self.elements.getD dsdpos Particion.vacia
  let comienzo :=
    if topos = 0 then (self.elements.getD topos Particion.vacia).item.data
    else comienzoSiguiente self.sizeChunk (self.elements.getD (topos - 1) Particion.vacia)
  { self with
    elements :=
      (self.elements.modify topos fun _ =>
          { src with item := { src.item with data := comienzo } }).modify dsdpos fun s =>
        { s with ocupado := false, bytesInutilizados := 0, bytesDisponibles := 0 }
    memoria := mover self.memoria comienzo src.item.data src.item.ndata }

/-- `compactar` at a free slot `pos`: close the run of free slots that starts
    there by moving the occupied run after it up.  It returns `false` when the
    free run reaches the end of the table. -/
def compactar (self : TableInfo) (pos : Nat) : TableInfo × Bool :=
  let vacios := (self.elements.drop pos).takeWhile fun s => !s.ocupado
  let cantVacios := vacios.length
  let acum := (vacios.map (·.bytesDisponibles)).sum
  let es := iterar (fun i es => es.modify (pos + i) fun s => { s with bytesDisponibles := 0 })
    cantVacios self.elements
  if self.tableMaxSize ≤ pos + cantVacios then
    ({ self with elements := es.modify pos fun s =>
        { s with bytesDisponibles := acum, bytesInutilizados := 0 } }, false)
  else
    let ocupados := (es.drop (pos + cantVacios)).takeWhile fun s => s.ocupado
    let cantOcupados := ocupados.length
    let nuevos := (ocupados.map (·.bytesInutilizados)).sum
    let es := iterar (fun i es =>
        es.modify (pos + cantVacios + i) fun s => { s with bytesInutilizados := 0 })
      cantOcupados es
    if self.tableMaxSize ≤ pos + cantVacios + cantOcupados ∧ cantVacios = 0 then
      ({ self with elements := es }, false)
    else
      let self := iterar (fun i self => desplazarArriba self (pos + i) cantVacios)
        cantOcupados { self with elements := es }
      let posAux := pos + cantOcupados - 1
      let total := nuevos + acum
      if total < self.sizeChunk then
        (self.modificar posAux fun s => { s with bytesInutilizados := total }, true)
      else
        let ultimo := self.elements.getD posAux Particion.vacia
        (self.modificar (posAux + 1) fun s =>
          { s with
            bytesDisponibles := total
            item := { s.item with data := comienzoSiguiente self.sizeChunk ultimo } }, true)

/-- The sweep `for (i = 0; fin == true; i++)` of `compactacion`. -/
def barrer (fuera : Nat → Particion) : Nat → Nat → TableInfo → Option TableInfo
  | 0, _, _ => none
  | vueltas + 1, i, self =>
      if (self.leer fuera i).ocupado then barrer fuera vueltas (i + 1) self
      else
        match compactar self i with
        | (self, true) => barrer fuera vueltas (i + 1) self
        | (self, false) => some self

/-- The placement loop of `compactacion`, entered with `busquedasFallidas`
    failed searches; `none` when it does not end within its turns. -/
def compactacion (cfg : Config) (e : Entorno) (nbytesData : Nat) :
    Nat → Nat → TableInfo → Option (TableInfo × Nat)
  | 0, _, _ => none
  | vueltas + 1, busquedasFallidas, self =>
      match buscarLugar cfg.algBusqueda self nbytesData with
      | some r => some r
      | none =>
          let busquedasFallidas := busquedasFallidas + 1
          if (busquedasFallidas : Int) = cfg.frecuenciaCompactacion then
            (barrer e.fuera e.vueltas 0 self).bind
              (compactacion cfg e nbytesData vueltas busquedasFallidas)
          else if self.elementsAmount ≠ 0 then
            (reemplazar (e.relojLru busquedasFallidas) self).bind
              (compactacion cfg e nbytesData vueltas busquedasFallidas)
          else
            (barrer e.fuera e.vueltas 0 self).bind
              (compactacion cfg e nbytesData vueltas busquedasFallidas)

end Rc
