import Yanero.RcMotor

/-! # The slots each routine touches

    For every routine of the dynamic scheme, the indices of the slots it reads
    or writes, in the order of its statements.  An index is an integer: the
    source computes them with `int`, and nothing keeps them inside the table. -/

namespace Rc

open Bucles

/-- `n` consecutive slots from `pos` on. -/
def tramo (pos n : Nat) : List Int := (List.range n).map fun i => ((pos + i : Nat) : Int)

/-! ## Creating an element -/

/-- `desplazarAbajo` at slot `pos` of a table of `maxSize` slots. -/
def indicesDesplazarAbajo (maxSize pos : Nat) : List Int :=
  (List.range (maxSize - 1 - pos)).flatMap (fun i : Nat =>
      [(maxSize : Int) - 1 - i, (maxSize : Int) - 1 - i - 1])
    ++ [(pos : Int), (pos : Int) - 1]

/-- `micache_create_element`: with room for the item it looks at the next
    slot. -/
def indicesCrear (fuera : Nat → Particion) (self : TableInfo) (pos sizeData sizeChunk : Nat) :
    List Int :=
  let disponibles := (self.leer fuera pos).bytesDisponibles
  (pos : Int) ::
    if (sizeData : Int) ≤ disponibles then
      ((pos : Int) + 1) ::
        if (self.leer fuera (pos + 1)).ocupado
            ∧ (sizeChunk : Int) ≤ disponibles - ocupa sizeChunk sizeData then
          indicesDesplazarAbajo self.tableMaxSize (pos + 1)
        else []
    else []

/-! ## Searching a hole -/

/-- `juntarParticionesVacias`. -/
def indicesJuntar (pos cantVacios : Nat) : List Int := [(pos : Int) - cantVacios + 1, (pos : Int)]

/-- The merge both searches end with. -/
def indicesUnirHueco (self : TableInfo) (posBytes cantVacios : Nat) : List Int :=
  (posBytes : Int) ::
    if 1 < cantVacios then
      tramo (posBytes + 1) (cantVacios - 1)
        ++ (List.range (self.tableMaxSize - 1 - (posBytes + cantVacios))).flatMap fun i =>
          indicesJuntar (posBytes + cantVacios + i) cantVacios
    else []

/-- The loop of `first_fit` from slot `i` on: it stops at the slot that makes
    the hole large enough. -/
def indicesFirstFit (sizeChunk sizeData : Nat) : List Particion → Nat → Int → List Int
  | [], _, _ => []
  | s :: resto, i, libres =>
      (i : Int) ::
        if s.ocupado then indicesFirstFit sizeChunk sizeData resto (i + 1) 0
        else
          let libres := if s.bytesDisponibles != 0 then libres + s.bytesDisponibles else libres
          if (sizeData : Int) ≤ libres ∧ (sizeChunk : Int) ≤ libres then []
          else indicesFirstFit sizeChunk sizeData resto (i + 1) libres

/-- The configured search and the merge of the hole it finds. -/
def indicesBuscar (alg : AlgBusqueda) (self : TableInfo) (sizeData : Nat) : List Int :=
  (match alg with
    | .firstFit => indicesFirstFit self.sizeChunk sizeData self.elements 0 0
    | .bestFit => tramo 0 self.tableMaxSize)
  ++ match hueco alg self sizeData with
    | some (posBytes, cantVacios, _) => indicesUnirHueco self posBytes cantVacios
    | none => []

/-! ## Compaction -/

/-- The free slots from `pos` on, up to an occupied one. -/
def vaciosDesde (self : TableInfo) (pos : Nat) : List Particion :=
  (self.elements.drop pos).takeWhile fun s => !s.ocupado

/-- The occupied slots from `pos` on, up to a free one. -/
def ocupadosDesde (self : TableInfo) (pos : Nat) : List Particion :=
  (self.elements.drop pos).takeWhile fun s => s.ocupado

/-- `desplazarArriba`: the slot before `topos` too, unless it is the first. -/
def indicesDesplazarArriba (topos cantVacios : Nat) : List Int :=
  [(topos : Int), (topos : Int) + cantVacios] ++ if topos = 0 then [] else [(topos : Int) - 1]

/-- `compactar`.  The test that ends its second loop reads the slot after the
    occupied run, also when the run reaches the end of the table. -/
def indicesCompactar (self : TableInfo) (pos : Nat) : List Int :=
  let vacios := vaciosDesde self pos
  let cantVacios := vacios.length
  if self.tableMaxSize ≤ pos + cantVacios then (pos : Int) :: tramo pos cantVacios
  else
    let ocupados := ocupadosDesde self (pos + cantVacios)
    let cantOcupados := ocupados.length
    let vistos := tramo pos (cantVacios + 1) ++ tramo (pos + cantVacios) cantOcupados
    if self.tableMaxSize ≤ pos + cantVacios + cantOcupados ∧ cantVacios = 0 then vistos
    else
      let total := (ocupados.map (·.bytesInutilizados)).sum + (vacios.map (·.bytesDisponibles)).sum
      let posAux := (pos : Int) + cantOcupados - 1
      vistos ++ ((pos : Int) + cantVacios + cantOcupados)
        :: (List.range cantOcupados).flatMap (fun i => indicesDesplazarArriba (pos + i) cantVacios)
        ++ if total < self.sizeChunk then [posAux] else [posAux, posAux + 1]

/-- The sweep of `compactacion`. -/
def indicesBarrer (fuera : Nat → Particion) : Nat → Nat → TableInfo → List Int
  | 0, _, _ => []
  | vueltas + 1, i, self =>
      (i : Int) ::
        if (self.leer fuera i).ocupado then indicesBarrer fuera vueltas (i + 1) self
        else
          indicesCompactar self i ++
            match compactar self i with
            | (self, true) => indicesBarrer fuera vueltas (i + 1) self
            | (_, false) => []

/-- The placement loop of `compactacion`. -/
def indicesCompactacion (cfg : Config) (e : Entorno) (nbytesData : Nat) :
    Nat → Nat → TableInfo → List Int
  | 0, _, _ => []
  | vueltas + 1, busquedasFallidas, self =>
      indicesBuscar cfg.algBusqueda self nbytesData ++
        match hueco cfg.algBusqueda self nbytesData with
        | some _ => []
        | none =>
            let busquedasFallidas := busquedasFallidas + 1
            if (busquedasFallidas : Int) = cfg.frecuenciaCompactacion ∨ self.elementsAmount = 0 then
              indicesBarrer e.fuera e.vueltas 0 self ++
                match barrer e.fuera e.vueltas 0 self with
                | some self => indicesCompactacion cfg e nbytesData vueltas busquedasFallidas self
                | none => []
            else
              match reemplazar (e.relojLru busquedasFallidas) self with
              | some self => indicesCompactacion cfg e nbytesData vueltas busquedasFallidas self
              | none => []

/-! ## Complete operations -/

/-- The slots the routines of the dynamic scheme touch in one operation: only
    a SET that is not refused calls them. -/
def indicesOp (cfg : Config) (op : Op) (e : Entorno) (self : TableInfo) : List Int :=
  match op with
  | .set key valor =>
      if cfg.blockSizeMax < valor.length then []
      else
        match quitarPrevio self key with
        | none => []
        | some self =>
            indicesCompactacion cfg e valor.length e.vueltas 0 self ++
              match compactacion cfg e valor.length e.vueltas 0 self with
              | some (self, pos) => indicesCrear e.fuera self pos valor.length cfg.chunkSize
              | none => []
  | .get _ | .delete _ | .flushAll => []

/-- Every slot the operation touches is one of the table. -/
def EnTabla (maxSize : Nat) (indices : List Int) : Prop :=
  ∀ i ∈ indices, 0 ≤ i ∧ i < maxSize

instance (maxSize : Nat) (indices : List Int) : Decidable (EnTabla maxSize indices) :=
  inferInstanceAs (Decidable (∀ i ∈ indices, 0 ≤ i ∧ i < maxSize))

end Rc
