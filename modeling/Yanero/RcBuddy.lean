import Yanero.RcTabla

/-! # The buddy scheme

    `buddy.c`: creation, the two table shifts, the search that halves a block
    until it is tight, the merge of sister blocks, and the placement loop. -/

namespace Rc

open Bucles

/-- `buddy_create_element`, its `lru_get` at clock reading `ahora`. -/
def buddyCreateElement (ahora : Nat) (self : TableInfo) (key : Clave)
    (pos sizeData : Nat) : TableInfo :=
  let self := self.modificar pos fun s =>
    { s with item := { s.item with key := key, ndata := sizeData }, ocupado := true }
  let self := lruGet ahora self pos
  let self := self.modificar pos fun s =>
    { s with bytesInutilizados := s.bytesDisponibles - sizeData }
  let actual := self.elements.getD pos Particion.vacia
  let self := { self with espacioLibre := self.espacioLibre -
      (if sizeData < self.sizeChunk then (self.sizeChunk : Int)
       else sizeData + actual.bytesInutilizados) }
  { self.modificar pos fun s => { s with bytesDisponibles := 0 } with
    elementsAmount := self.elementsAmount + 1 }

/-- What `desplazarUnoArriba` leaves in a slot it has copied from. -/
def descartada (s : Particion) : Particion :=
  { s with ocupado := false, bytesInutilizados := 0, bytesDisponibles := 0 }

/-- `desplazarUnoArriba`: drop slot `posHna`, moving the ones after it up. -/
def desplazarUnoArriba (self : TableInfo) (posHna : Nat) : TableInfo :=
  let es := iterar (fun i es =>
      (es.modify (posHna + i)
          (copiarDescriptor (es.getD (posHna + i + 1) Particion.vacia))).modify
        (posHna + i + 1) descartada)
    (self.tableMaxSize - 1 - posHna) self.elements
  { self with elements := es }

/-- `desplazarUnoAbajo`: split slot `posAct` into two halves of `freeBytes`.
    The loop runs one turn too many: the last one copies the slot before
    `posAct` (`elements[-1]` when `posAct` is `0`) over `posAct` itself. -/
def desplazarUnoAbajo (e : Entorno) (self : TableInfo) (posAct : Nat) (freeBytes : Int) :
    TableInfo :=
  let es := iterar (fun i es =>
      es.modify (self.tableMaxSize - 1 - i)
        (copiarDescriptor (es.getD (self.tableMaxSize - 1 - i - 1) Particion.vacia)))
    (self.tableMaxSize - 1 - posAct) self.elements
  let previo := if posAct = 0 then e.antes freeBytes else es.getD (posAct - 1) Particion.vacia
  let es := es.modify posAct (copiarDescriptor previo)
  -- the two halves; the first takes its address back from the slot below
  let data := (es.getD (posAct + 1) (e.fuera (posAct + 1))).item.data
  let es := es.modify posAct fun s =>
    { s with bytesDisponibles := freeBytes, item := { s.item with data := data } }
  let es := es.modify (posAct + 1) fun s =>
    { s with ocupado := false, bytesDisponibles := freeBytes, bytesInutilizados := 0 }
  let es :=
    if posAct < self.tableMaxSize - 1 then
      es.modify (posAct + 1) fun s =>
        { s with item := { s.item with data := data + freeBytes.toNat } }
    else es
  { self with elements := es }

/-- The inner loop of `buscarHueco`: halve slot `i` while a half still holds
    `ndata` bytes and is at least a chunk. -/
def partir (e : Entorno) (ndata : Nat) (i : Nat) : Nat → Int → TableInfo → Option TableInfo
  | 0, _, _ => none
  | vueltas + 1, part, self =>
      if (ndata : Int) ≤ part then
        if (self.sizeChunk : Int) ≤ part then
          partir e ndata i vueltas (part.tdiv 2) (desplazarUnoAbajo e self i part)
        else partir e ndata i vueltas (-1) self
      else some self

/-- The first free slot with at least `ndata` bytes. -/
def huecoBuddy (self : TableInfo) (ndata : Nat) : Option Nat :=
  self.elements.findIdx? fun s => !s.ocupado && decide ((ndata : Int) ≤ s.bytesDisponibles)

/-- `buscarHueco`: the outer `none` is a loop that does not end within its
    turns, the inner one the result `-1`. -/
def buscarHueco (e : Entorno) (self : TableInfo) (ndata : Nat) :
    Option (Option (TableInfo × Nat)) :=
  match huecoBuddy self ndata with
  | none => some none
  | some i =>
      let freeBytes := (self.elements.getD i Particion.vacia).bytesDisponibles
      (partir e ndata i e.vueltas (freeBytes.tdiv 2) self).map fun self => some (self, i)

/-- What `unirTodasLasHermanas` adds to `acum` for an occupied slot. -/
def largoOcupada (sizeChunk : Nat) (s : Particion) : Int :=
  if sizeChunk ≤ s.item.ndata then s.item.ndata + s.bytesInutilizados else sizeChunk

/-- State of one pass of `unirTodasLasHermanas`. -/
structure Pasada where
  self : TableInfo
  acum : Int
  seUnieron : Bool

/-- The merge both branches of `unirTodasLasHermanas` make: of two sisters
    the lower one takes both lengths and the start of the upper one, `s` at
    slot `arriba`, which is then dropped. -/
def unirHermana (self : TableInfo) (arriba : Nat) (s : Particion) : TableInfo :=
  desplazarUnoArriba (self.modificar (arriba + 1) fun h =>
    { h with
      bytesDisponibles := h.bytesDisponibles + s.bytesDisponibles
      item := { h.item with data := s.item.data } }) arriba

/-- One turn of the `for` of `unirTodasLasHermanas`.  After a merge with the
    slot above, the slot that moved up to `i` is not looked at. -/
def unirTurno (fuera : Nat → Particion) (i : Nat) (p : Pasada) : Pasada :=
  let s := p.self.leer fuera i
  if !s.ocupado && s.bytesDisponibles != 0 then
    let c := p.acum.tdiv s.bytesDisponibles
    if c.tmod 2 = 0 then
      let h := p.self.leer fuera (i + 1)
      if !h.ocupado && h.bytesDisponibles == s.bytesDisponibles then
        let self := unirHermana p.self i s
        { self := self
          acum := p.acum + (self.leer fuera i).bytesDisponibles
          seUnieron := true }
      else { p with acum := p.acum + s.bytesDisponibles }
    else
      let h := p.self.leer fuera (i - 1)
      if !h.ocupado && h.bytesDisponibles == s.bytesDisponibles then
        { self := unirHermana p.self (i - 1) h
          acum := p.acum + s.bytesDisponibles
          seUnieron := true }
      else { p with acum := p.acum + s.bytesDisponibles }
  else if s.ocupado then { p with acum := p.acum + largoOcupada p.self.sizeChunk s }
  else p

/-- One pass over the table. -/
def unirPasada (fuera : Nat → Particion) (self : TableInfo) : Pasada :=
  iterar (unirTurno fuera) self.tableMaxSize ⟨self, 0, false⟩

/-- `unirTodasLasHermanas`: passes until one merges nothing. -/
def unirTodasLasHermanas (fuera : Nat → Particion) : Nat → TableInfo → Option TableInfo
  | 0, _ => none
  | vueltas + 1, self =>
      let p := unirPasada fuera self
      if p.seUnieron then unirTodasLasHermanas fuera vueltas p.self else some p.self

/-- `buddysystem`, entered for the `n`-th time; `none` when it does not end
    within its turns. -/
def buddysystem (e : Entorno) (nbytesData : Nat) :
    Nat → Nat → TableInfo → Option (TableInfo × Nat)
  | 0, _, _ => none
  | vueltas + 1, n, self =>
      (buscarHueco e self nbytesData).bind fun
        | some r => some r
        | none =>
            (unirTodasLasHermanas e.fuera e.vueltas self).bind fun self =>
              (buscarHueco e self nbytesData).bind fun
                | some r => some r
                | none =>
                    if self.elementsAmount ≠ 0 then
                      (reemplazar (e.relojLru n) self).bind
                        (buddysystem e nbytesData vueltas (n + 1))
                    else buddysystem e nbytesData vueltas (n + 1) self

end Rc
