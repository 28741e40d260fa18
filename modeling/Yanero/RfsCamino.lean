import Yanero.RfsReparto

/-! # The block map, one path at a time

    `Inode_leerBloque`, `Inode_asignarBloque` and `Inode_liberarBloque` spell
    out the four kinds of block index one by one.  Each of them is one
    procedure over the path of the index: the root `k` and the positions `ps`
    below it (`caminoBloque`).  Reading follows the path; assigning takes the
    blocks the path lacks, clears the new pointer blocks and links them from
    the top; releasing gives back the pointer blocks that held only this index
    and then the data block.

    The three equations at the end of the sections are what every later proof
    uses.  The two writers also become lists of disk accesses (`Acceso`), in the
    order of the source, for the runs in which other threads step in between. -/

namespace Rfs

open Arboles

/-- The root and the positions of a block index, with the source's widths;
    `none` past the three levels. -/
def caminoBloque (sb : Superblock) (nroBloque : Nat) : Option (Nat × List Nat) :=
  let p := sb.cantPunteros
  if nroBloque < 12 then some (nroBloque, [])
  else
    let nroBloque := nroBloque - 12
    if nroBloque < p then some (12, [nroBloque])
    else
      let nroBloque := nroBloque - p
      if nroBloque < u32 (p * p) then some (13, [nroBloque / p, nroBloque % p])
      else
        let nroBloque := resta32 nroBloque (u32 (p * p))
        if nroBloque < u32 (p * p * p) then
          some (14, [nroBloque / p / p, nroBloque / p % p, nroBloque % p])
        else none

/-- One access to the image inside an assignment or a release. -/
inductive Acceso where
  | liberar (bloque : Nat)
  | puntero (bloque pos bloqAbs : Nat)
  | inicializar (bloque : Nat)
  deriving DecidableEq, Repr

/-- What an access does: `Grupos_liberarBloqueEnBitmap`, `escribirPtroBloq`
    (`escribirCero` when the pointer is 0) or `inicializarBloqdePtros`. -/
def Acceso.aplicar (fs : Ext2) : Acceso → Ext2
  | .liberar bloque => liberarBloqueEnBitmap fs bloque
  | .puntero bloque pos bloqAbs => escribirPtroBloq fs bloque pos bloqAbs
  | .inicializar bloque => inicializarBloqdePtros fs bloque

/-! ## Reading -/

/-- Reading a block index follows its path. -/
theorem leerBloque_eq (fs : Ext2) (nroBloque : Nat) (inodo : Inode) :
    leerBloque fs nroBloque inodo =
      ((caminoBloque fs.sb nroBloque).map fun c =>
        nodo (buscarBloque fs) inodo.iBlock c.1 c.2).getD 0 := by
  simp only [leerBloque, caminoBloque]
  repeat' split
  all_goals rfl

/-! ## Assigning -/

/-- The pointer blocks already there below `bloque`; the last position of the
    path is not looked at. -/
def punterosBajo (fs : Ext2) (bloque : Nat) : List Nat → List Nat
  | [] => []
  | [_] => []
  | pos :: ps =>
      let siguiente := buscarBloque fs bloque pos
      if siguiente = 0 then [] else siguiente :: punterosBajo fs siguiente ps

/-- The pointer blocks of the path that the file already has. -/
def punterosViejos (fs : Ext2) (inodo : Inode) (k : Nat) (ps : List Nat) : List Nat :=
  if ps = [] then []
  else if inodo.iBlock k = 0 then []
  else inodo.iBlock k :: punterosBajo fs (inodo.iBlock k) ps

/-- The blocks the path lacks: the test of `s_free_blocks_count` is for these. -/
def faltan (ps viejos : List Nat) : Nat := ps.length + 1 - viejos.length

/-- `n` calls of `Grupos_pedirBloqueLibre`, one after another. -/
def pedirBloques : Nat → Ext2 → Ext2 × List Nat
  | 0, fs => (fs, [])
  | n + 1, fs =>
      let uno := pedirBloqueLibre fs
      let resto := pedirBloques n uno.1
      (resto.1, uno.2 :: resto.2)

/-- Link each block of a path to the next one. -/
def enlaces : List Nat → List Nat → List Acceso
  | b :: b' :: bs, pos :: ps => .puntero b pos b' :: enlaces (b' :: bs) ps
  | _, _ => []

/-- The writes of an assignment: clear the new pointer blocks, then link from
    the last old one down. -/
def escrituras (viejos nuevos ps : List Nat) : List Acceso :=
  nuevos.dropLast.map .inicializar ++
    enlaces ((viejos ++ nuevos).drop (viejos.length - 1)) (ps.drop (viejos.length - 1))

/-- The root of the path, when it is new. -/
def conRaiz (inodo : Inode) (k : Nat) (viejos nuevos : List Nat) : Inode :=
  if viejos = [] then inodo.conBloque k (nuevos.headD 0) else inodo

/-- An assignment over its path. -/
def asignarCamino (fs : Ext2) (inodo : Inode) (k : Nat) (ps : List Nat) :
    Option (Ext2 × Inode) :=
  let viejos := punterosViejos fs inodo k ps
  if fs.sb.sFreeBlocksCount < faltan ps viejos then none
  else
    let pedidos := pedirBloques (faltan ps viejos) fs
    some ((escrituras viejos pedidos.2 ps).foldl Acceso.aplicar pedidos.1,
      conRaiz inodo k viejos pedidos.2)

/-- One block first, then the rest. -/
theorem pedirBloques_succ (n : Nat) (fs : Ext2) :
    pedirBloques (n + 1) fs = ((pedirBloques n (pedirBloqueLibre fs).1).1,
      (pedirBloqueLibre fs).2 :: (pedirBloques n (pedirBloqueLibre fs).1).2) := by
  rw [pedirBloques]

/-- The take of a direct block. -/
theorem pedirBloques_uno (fs : Ext2) :
    pedirBloques 1 fs = ((pedirBloqueLibre fs).1, [(pedirBloqueLibre fs).2]) := by
  rw [pedirBloques_succ, pedirBloques]

/-- The takes of a new simple indirect path. -/
theorem pedirBloques_dos (fs : Ext2) :
    pedirBloques 2 fs = ((pedirBloqueLibre (pedirBloqueLibre fs).1).1,
      [(pedirBloqueLibre fs).2, (pedirBloqueLibre (pedirBloqueLibre fs).1).2]) := by
  rw [pedirBloques_succ, pedirBloques_uno]

/-- The takes of a new double indirect path. -/
theorem pedirBloques_tres (fs : Ext2) :
    pedirBloques 3 fs = ((pedirBloqueLibre (pedirBloqueLibre (pedirBloqueLibre fs).1).1).1,
      [(pedirBloqueLibre fs).2, (pedirBloqueLibre (pedirBloqueLibre fs).1).2,
        (pedirBloqueLibre (pedirBloqueLibre (pedirBloqueLibre fs).1).1).2]) := by
  rw [pedirBloques_succ, pedirBloques_dos]

/-- The takes of a new triple indirect path. -/
theorem pedirBloques_cuatro (fs : Ext2) :
    pedirBloques 4 fs =
      ((pedirBloqueLibre (pedirBloqueLibre (pedirBloqueLibre (pedirBloqueLibre fs).1).1).1).1,
      [(pedirBloqueLibre fs).2, (pedirBloqueLibre (pedirBloqueLibre fs).1).2,
        (pedirBloqueLibre (pedirBloqueLibre (pedirBloqueLibre fs).1).1).2,
        (pedirBloqueLibre (pedirBloqueLibre (pedirBloqueLibre
          (pedirBloqueLibre fs).1).1).1).2]) := by
  rw [pedirBloques_succ, pedirBloques_tres]

/-- An assignment whose path has its first pointer blocks already, and the
    blocks it is given. -/
theorem asignarCamino_de {fs fs' : Ext2} {inodo : Inode} {k n : Nat} {ps viejos nuevos : List Nat}
    (h : punterosViejos fs inodo k ps = viejos) (hn : faltan ps viejos = n)
    (hp : pedirBloques n fs = (fs', nuevos)) :
    asignarCamino fs inodo k ps =
      if fs.sb.sFreeBlocksCount < n then none
      else some ((escrituras viejos nuevos ps).foldl Acceso.aplicar fs',
        conRaiz inodo k viejos nuevos) := by
  subst h hn
  rw [asignarCamino, hp]

/-- A root that is zero has no pointer block below it. -/
theorem punterosViejos_cero (fs : Ext2) {inodo : Inode} {k : Nat} (ps : List Nat)
    (h : inodo.iBlock k = 0) : punterosViejos fs inodo k ps = [] := by
  unfold punterosViejos
  rw [if_pos h, ite_self]

/-- A root that is not zero is the first pointer block. -/
theorem punterosViejos_cons {fs : Ext2} {inodo : Inode} {k pos : Nat} {ps : List Nat}
    (h : inodo.iBlock k ≠ 0) : punterosViejos fs inodo k (pos :: ps) =
      inodo.iBlock k :: punterosBajo fs (inodo.iBlock k) (pos :: ps) := by
  unfold punterosViejos
  rw [if_neg (List.cons_ne_nil pos ps), if_neg h]

/-- The walk ends at the first pointer that is zero. -/
theorem punterosBajo_cero {fs : Ext2} {bloque pos pos2 : Nat} {ps : List Nat}
    (h : buscarBloque fs bloque pos = 0) : punterosBajo fs bloque (pos :: pos2 :: ps) = [] := by
  rw [punterosBajo, if_pos h]
  exact List.cons_ne_nil pos2 ps

/-- It goes on through one that is not. -/
theorem punterosBajo_cons {fs : Ext2} {bloque pos pos2 : Nat} {ps : List Nat}
    (h : buscarBloque fs bloque pos ≠ 0) : punterosBajo fs bloque (pos :: pos2 :: ps) =
      buscarBloque fs bloque pos :: punterosBajo fs (buscarBloque fs bloque pos) (pos2 :: ps) := by
  rw [punterosBajo, if_neg h]
  exact List.cons_ne_nil pos2 ps

/-- A path that had no block yet puts its first one in the inode. -/
theorem conRaiz_nil (inodo : Inode) (k b : Nat) (bs : List Nat) :
    conRaiz inodo k [] (b :: bs) = inodo.conBloque k b := rfl

/-- A path that had one leaves the inode alone. -/
theorem conRaiz_cons (inodo : Inode) (k v : Nat) (vs bs : List Nat) :
    conRaiz inodo k (v :: vs) bs = inodo := rfl

/-- The writes of each kind of path, spelled out. -/
theorem escrituras_directo (fs : Ext2) (b : Nat) :
    (escrituras [] [b] []).foldl Acceso.aplicar fs = fs := rfl

/-- Simple indirect, nothing there: `Inode_asignarBloque` clears the pointer block
    and links the data block. -/
theorem escrituras_simple (fs : Ext2) (b₁ b₂ pos : Nat) :
    (escrituras [] [b₁, b₂] [pos]).foldl Acceso.aplicar fs =
      escribirPtroBloq (inicializarBloqdePtros fs b₁) b₁ pos b₂ := rfl

/-- Simple indirect, the pointer block there: one link. -/
theorem escrituras_simple_dato (fs : Ext2) (v b pos : Nat) :
    (escrituras [v] [b] [pos]).foldl Acceso.aplicar fs = escribirPtroBloq fs v pos b := rfl

/-- Double indirect, nothing there: two pointer blocks are cleared and linked. -/
theorem escrituras_doble (fs : Ext2) (b₁ b₂ b₃ pos pos₂ : Nat) :
    (escrituras [] [b₁, b₂, b₃] [pos, pos₂]).foldl Acceso.aplicar fs =
      escribirPtroBloq (escribirPtroBloq
        (inicializarBloqdePtros (inicializarBloqdePtros fs b₁) b₂) b₁ pos b₂) b₂ pos₂ b₃ := rfl

/-- Double indirect, the first pointer block there. -/
theorem escrituras_doble_punteros (fs : Ext2) (v b₂ b₃ pos pos₂ : Nat) :
    (escrituras [v] [b₂, b₃] [pos, pos₂]).foldl Acceso.aplicar fs =
      escribirPtroBloq (escribirPtroBloq (inicializarBloqdePtros fs b₂) v pos b₂) b₂ pos₂ b₃ := rfl

/-- Double indirect, both pointer blocks there: one link. -/
theorem escrituras_doble_dato (fs : Ext2) (v v₂ b₃ pos pos₂ : Nat) :
    (escrituras [v, v₂] [b₃] [pos, pos₂]).foldl Acceso.aplicar fs =
      escribirPtroBloq fs v₂ pos₂ b₃ := rfl

/-- Triple indirect, nothing there: three pointer blocks are cleared and linked. -/
theorem escrituras_triple (fs : Ext2) (b₁ b₂ b₃ b₄ pos pos₂ pos₃ : Nat) :
    (escrituras [] [b₁, b₂, b₃, b₄] [pos, pos₂, pos₃]).foldl Acceso.aplicar fs =
      escribirPtroBloq (escribirPtroBloq (escribirPtroBloq
        (inicializarBloqdePtros (inicializarBloqdePtros (inicializarBloqdePtros fs b₁) b₂) b₃)
        b₁ pos b₂) b₂ pos₂ b₃) b₃ pos₃ b₄ := rfl

/-- Triple indirect, the first pointer block there. -/
theorem escrituras_triple_punteros (fs : Ext2) (v b₂ b₃ b₄ pos pos₂ pos₃ : Nat) :
    (escrituras [v] [b₂, b₃, b₄] [pos, pos₂, pos₃]).foldl Acceso.aplicar fs =
      escribirPtroBloq (escribirPtroBloq (escribirPtroBloq
        (inicializarBloqdePtros (inicializarBloqdePtros fs b₂) b₃) v pos b₂) b₂ pos₂ b₃)
        b₃ pos₃ b₄ := rfl

/-- Triple indirect, two pointer blocks there. -/
theorem escrituras_triple_simple (fs : Ext2) (v v₂ b₃ b₄ pos pos₂ pos₃ : Nat) :
    (escrituras [v, v₂] [b₃, b₄] [pos, pos₂, pos₃]).foldl Acceso.aplicar fs =
      escribirPtroBloq (escribirPtroBloq (inicializarBloqdePtros fs b₃) v₂ pos₂ b₃)
        b₃ pos₃ b₄ := rfl

/-- Triple indirect, all pointer blocks there: one link. -/
theorem escrituras_triple_dato (fs : Ext2) (v v₂ v₃ b₄ pos pos₂ pos₃ : Nat) :
    (escrituras [v, v₂, v₃] [b₄] [pos, pos₂, pos₃]).foldl Acceso.aplicar fs =
      escribirPtroBloq fs v₃ pos₃ b₄ := rfl

/-- **ASSIGNING A BLOCK INDEX** is the assignment over its path. -/
theorem asignarBloque_eq (fs : Ext2) (nroBloque : Nat) (inodo : Inode) :
    asignarBloque fs nroBloque inodo =
      (caminoBloque fs.sb nroBloque).elim (some (fs, inodo))
        fun c => asignarCamino fs inodo c.1 c.2 := by
  simp only [asignarBloque, caminoBloque]
  split
  · have hv : punterosViejos fs inodo nroBloque [] = [] := rfl
    have hf : faltan [] [] = 1 := rfl
    rw [Option.elim_some, asignarCamino_de hv hf (pedirBloques_uno fs), escrituras_directo,
      conRaiz_nil]
  · split
    · -- one level
      by_cases h12 : inodo.iBlock 12 = 0
      · have hv := punterosViejos_cero fs [nroBloque - 12] h12
        have hf : faltan [nroBloque - 12] [] = 2 := rfl
        rw [if_pos h12, Option.elim_some, asignarCamino_de hv hf (pedirBloques_dos fs),
          escrituras_simple, conRaiz_nil]
      · have hv : punterosViejos fs inodo 12 [nroBloque - 12] = [inodo.iBlock 12] :=
          punterosViejos_cons h12
        have hf : faltan [nroBloque - 12] [inodo.iBlock 12] = 1 := rfl
        rw [if_neg h12, Option.elim_some, asignarCamino_de hv hf (pedirBloques_uno fs),
          escrituras_simple_dato, conRaiz_cons]
    · split
      · -- two levels
        rw [Option.elim_some]
        generalize (nroBloque - 12 - fs.sb.cantPunteros) / fs.sb.cantPunteros = pos
        generalize (nroBloque - 12 - fs.sb.cantPunteros) % fs.sb.cantPunteros = pos₂
        by_cases h13 : inodo.iBlock 13 = 0
        · have hv := punterosViejos_cero fs [pos, pos₂] h13
          have hf : faltan [pos, pos₂] [] = 3 := rfl
          rw [if_pos h13, asignarCamino_de hv hf (pedirBloques_tres fs), escrituras_doble,
            conRaiz_nil]
        · rw [if_neg h13]
          by_cases hb : buscarBloque fs (inodo.iBlock 13) pos = 0
          · have hv : punterosViejos fs inodo 13 [pos, pos₂] = [inodo.iBlock 13] := by
              rw [punterosViejos_cons h13, punterosBajo_cero hb]
            have hf : faltan [pos, pos₂] [inodo.iBlock 13] = 2 := rfl
            rw [if_pos hb, asignarCamino_de hv hf (pedirBloques_dos fs),
              escrituras_doble_punteros, conRaiz_cons]
          · have hv : punterosViejos fs inodo 13 [pos, pos₂] =
                [inodo.iBlock 13, buscarBloque fs (inodo.iBlock 13) pos] := by
              rw [punterosViejos_cons h13, punterosBajo_cons hb, punterosBajo]
            have hf : faltan [pos, pos₂]
                [inodo.iBlock 13, buscarBloque fs (inodo.iBlock 13) pos] = 1 := rfl
            rw [if_neg hb, asignarCamino_de hv hf (pedirBloques_uno fs),
              escrituras_doble_dato, conRaiz_cons]
      · split
        · -- three levels
          rw [Option.elim_some]
          generalize resta32 (nroBloque - 12 - fs.sb.cantPunteros)
            (u32 (fs.sb.cantPunteros * fs.sb.cantPunteros)) = n
          generalize n / fs.sb.cantPunteros / fs.sb.cantPunteros = pos
          generalize n / fs.sb.cantPunteros % fs.sb.cantPunteros = pos₂
          generalize n % fs.sb.cantPunteros = pos₃
          by_cases h14 : inodo.iBlock 14 = 0
          · have hv := punterosViejos_cero fs [pos, pos₂, pos₃] h14
            have hf : faltan [pos, pos₂, pos₃] [] = 4 := rfl
            rw [if_pos h14, asignarCamino_de hv hf (pedirBloques_cuatro fs), escrituras_triple,
              conRaiz_nil]
          · rw [if_neg h14]
            by_cases hb : buscarBloque fs (inodo.iBlock 14) pos = 0
            · have hv : punterosViejos fs inodo 14 [pos, pos₂, pos₃] = [inodo.iBlock 14] := by
                rw [punterosViejos_cons h14, punterosBajo_cero hb]
              have hf : faltan [pos, pos₂, pos₃] [inodo.iBlock 14] = 3 := rfl
              rw [if_pos hb, asignarCamino_de hv hf (pedirBloques_tres fs),
                escrituras_triple_punteros, conRaiz_cons]
            · rw [if_neg hb]
              by_cases hb₂ :
                  buscarBloque fs (buscarBloque fs (inodo.iBlock 14) pos) pos₂ = 0
              · have hv : punterosViejos fs inodo 14 [pos, pos₂, pos₃] =
                    [inodo.iBlock 14, buscarBloque fs (inodo.iBlock 14) pos] := by
                  rw [punterosViejos_cons h14, punterosBajo_cons hb, punterosBajo_cero hb₂]
                have hf : faltan [pos, pos₂, pos₃]
                    [inodo.iBlock 14, buscarBloque fs (inodo.iBlock 14) pos] = 2 := rfl
                rw [if_pos hb₂, asignarCamino_de hv hf (pedirBloques_dos fs),
                  escrituras_triple_simple, conRaiz_cons]
              · have hv : punterosViejos fs inodo 14 [pos, pos₂, pos₃] =
                    [inodo.iBlock 14, buscarBloque fs (inodo.iBlock 14) pos,
                      buscarBloque fs (buscarBloque fs (inodo.iBlock 14) pos) pos₂] := by
                  rw [punterosViejos_cons h14, punterosBajo_cons hb, punterosBajo_cons hb₂,
                    punterosBajo]
                have hf : faltan [pos, pos₂, pos₃]
                    [inodo.iBlock 14, buscarBloque fs (inodo.iBlock 14) pos,
                      buscarBloque fs (buscarBloque fs (inodo.iBlock 14) pos) pos₂] = 1 := rfl
                rw [if_neg hb₂, asignarCamino_de hv hf (pedirBloques_uno fs),
                  escrituras_triple_dato, conRaiz_cons]
        · rfl

/-! ## Releasing -/

/-- The pointer blocks of a path, each with the position taken in it. -/
def bajada (fs : Ext2) (bloque : Nat) : List Nat → List (Nat × Nat)
  | [] => []
  | pos :: ps => (bloque, pos) :: bajada fs (buscarBloque fs bloque pos) ps

/-- Release pointer block `bloque`: clear the pointer to it in the block above
    and give it back, and go on with that one when it is left empty too. -/
def soltarPunteros (bloque : Nat) : List (Nat × Nat) → List Acceso
  | [] => [.liberar bloque]
  | (arriba, pos) :: resto =>
      .puntero arriba pos 0 :: .liberar bloque ::
        if pos = 0 then soltarPunteros arriba resto else []

/-- The accesses of a release: the pointer blocks that go with the index
    first, then the pointer to the data block and the data block. -/
def accesosLiberar (fs : Ext2) (inodo : Inode) (k : Nat) (ps : List Nat) : List Acceso :=
  match (bajada fs (inodo.iBlock k) ps).reverse with
  | [] => [.liberar (inodo.iBlock k)]
  | (bloque, pos) :: resto =>
      (if pos = 0 then soltarPunteros bloque resto else []) ++
        [.puntero bloque pos 0, .liberar (nodo (buscarBloque fs) inodo.iBlock k ps)]

/-- The root of the path goes with the first index below it. -/
def sinRaiz (inodo : Inode) (k : Nat) (ps : List Nat) : Inode :=
  if ps.all (· = 0) then inodo.conBloque k 0 else inodo

/-- A release over its path. -/
def liberarCamino (fs : Ext2) (inodo : Inode) (k : Nat) (ps : List Nat) : Ext2 × Inode :=
  ((accesosLiberar fs inodo k ps).foldl Acceso.aplicar fs, sinRaiz inodo k ps)

/-- The release of a direct block. -/
theorem liberarCamino_directo (fs : Ext2) (inodo : Inode) (k : Nat) :
    liberarCamino fs inodo k [] =
      (liberarBloqueEnBitmap fs (inodo.iBlock k), inodo.conBloque k 0) := rfl

/-- The release behind a simple indirect block, which goes with its first entry. -/
theorem liberarCamino_simple (fs : Ext2) (inodo : Inode) (k pos : Nat) :
    liberarCamino fs inodo k [pos] =
      if pos = 0 then
        (liberarBloqueEnBitmap (escribirCero (liberarBloqueEnBitmap fs (inodo.iBlock k))
          (inodo.iBlock k) pos) (buscarBloque fs (inodo.iBlock k) pos), inodo.conBloque k 0)
      else
        (liberarBloqueEnBitmap (escribirCero fs (inodo.iBlock k) pos)
          (buscarBloque fs (inodo.iBlock k) pos), inodo) := by
  have hn : nodo (buscarBloque fs) inodo.iBlock k [pos] =
    buscarBloque fs (inodo.iBlock k) pos := rfl
  have hb : (bajada fs (inodo.iBlock k) [pos]).reverse = [(inodo.iBlock k, pos)] := rfl
  rw [liberarCamino, accesosLiberar, hb, hn]
  generalize buscarBloque fs (inodo.iBlock k) pos = b₂
  by_cases h : pos = 0
  · simp [h, soltarPunteros, Acceso.aplicar, sinRaiz, escribirCero]
  · simp [h, Acceso.aplicar, sinRaiz, escribirCero]

/-- The release behind a double indirect block: a pointer block goes with its first
    entry. -/
theorem liberarCamino_doble (fs : Ext2) (inodo : Inode) (k pos pos₂ : Nat) {b₁ b₂ b₃ : Nat}
    (h₁ : inodo.iBlock k = b₁) (h₂ : buscarBloque fs b₁ pos = b₂)
    (h₃ : buscarBloque fs b₂ pos₂ = b₃) :
    liberarCamino fs inodo k [pos, pos₂] =
      if pos₂ = 0 then
        if pos = 0 then
          (liberarBloqueEnBitmap (escribirCero (liberarBloqueEnBitmap (liberarBloqueEnBitmap
            (escribirCero fs b₁ pos) b₂) b₁) b₂ pos₂) b₃, inodo.conBloque k 0)
        else
          (liberarBloqueEnBitmap (escribirCero (liberarBloqueEnBitmap
            (escribirCero fs b₁ pos) b₂) b₂ pos₂) b₃, inodo)
      else (liberarBloqueEnBitmap (escribirCero fs b₂ pos₂) b₃, inodo) := by
  have hn : nodo (buscarBloque fs) inodo.iBlock k [pos, pos₂] = b₃ := by
    rw [← h₃, ← h₂, ← h₁]
    rfl
  have hb : (bajada fs (inodo.iBlock k) [pos, pos₂]).reverse = [(b₂, pos₂), (b₁, pos)] := by
    rw [h₁, ← h₂]
    rfl
  rw [liberarCamino, accesosLiberar, hb, hn]
  by_cases hp₂ : pos₂ = 0
  · by_cases hp : pos = 0
    · simp [hp₂, hp, soltarPunteros, Acceso.aplicar, sinRaiz, escribirCero]
    · simp [hp₂, hp, soltarPunteros, Acceso.aplicar, sinRaiz, escribirCero]
  · simp [hp₂, Acceso.aplicar, sinRaiz, escribirCero]

/-- The release behind a triple indirect block, as the branches of the source have
    it. -/
theorem liberarCamino_triple (fs : Ext2) (inodo : Inode) (k pos pos₂ pos₃ : Nat)
    {b₁ b₂ b₃ b₄ : Nat} (h₁ : inodo.iBlock k = b₁) (h₂ : buscarBloque fs b₁ pos = b₂)
    (h₃ : buscarBloque fs b₂ pos₂ = b₃) (h₄ : buscarBloque fs b₃ pos₃ = b₄) :
    liberarCamino fs inodo k [pos, pos₂, pos₃] =
      if pos₃ = 0 then
        if pos₂ = 0 then
          if pos = 0 then
            (liberarBloqueEnBitmap (escribirCero (liberarBloqueEnBitmap (liberarBloqueEnBitmap
              (escribirCero (liberarBloqueEnBitmap (escribirCero fs b₂ pos₂) b₃) b₁ pos) b₂) b₁)
              b₃ pos₃) b₄, inodo.conBloque k 0)
          else
            (liberarBloqueEnBitmap (escribirCero (liberarBloqueEnBitmap (escribirCero
              (liberarBloqueEnBitmap (escribirCero fs b₂ pos₂) b₃) b₁ pos) b₂) b₃ pos₃) b₄, inodo)
        else
          (liberarBloqueEnBitmap (escribirCero (liberarBloqueEnBitmap
            (escribirCero fs b₂ pos₂) b₃) b₃ pos₃) b₄, inodo)
      else (liberarBloqueEnBitmap (escribirCero fs b₃ pos₃) b₄, inodo) := by
  have hn : nodo (buscarBloque fs) inodo.iBlock k [pos, pos₂, pos₃] = b₄ := by
    rw [← h₄, ← h₃, ← h₂, ← h₁]
    rfl
  have hb : (bajada fs (inodo.iBlock k) [pos, pos₂, pos₃]).reverse =
      [(b₃, pos₃), (b₂, pos₂), (b₁, pos)] := by
    rw [h₁, ← h₃, ← h₂]
    rfl
  rw [liberarCamino, accesosLiberar, hb, hn]
  by_cases hp₃ : pos₃ = 0
  · by_cases hp₂ : pos₂ = 0
    · by_cases hp : pos = 0
      · simp [hp₃, hp₂, hp, soltarPunteros, Acceso.aplicar, sinRaiz, escribirCero]
      · simp [hp₃, hp₂, hp, soltarPunteros, Acceso.aplicar, sinRaiz, escribirCero]
    · simp [hp₃, hp₂, soltarPunteros, Acceso.aplicar, sinRaiz, escribirCero]
  · simp [hp₃, Acceso.aplicar, sinRaiz, escribirCero]

/-- **RELEASING A BLOCK INDEX** is the release over its path. -/
theorem liberarBloque_eq (fs : Ext2) (nroBloque : Nat) (inodo : Inode) :
    liberarBloque fs nroBloque inodo =
      (caminoBloque fs.sb nroBloque).elim (fs, inodo)
        fun c => liberarCamino fs inodo c.1 c.2 := by
  by_cases h1 : nroBloque < 12
  · have hc : caminoBloque fs.sb nroBloque = some (nroBloque, []) := by
      rw [caminoBloque, if_pos h1]
    rw [hc, Option.elim_some, liberarCamino_directo, liberarBloque, if_pos h1]
  by_cases h2 : nroBloque - 12 < fs.sb.cantPunteros
  · have hc : caminoBloque fs.sb nroBloque = some (12, [nroBloque - 12]) := by
      rw [caminoBloque, if_neg h1, if_pos h2]
    rw [hc, Option.elim_some, liberarCamino_simple, liberarBloque, if_neg h1, if_pos h2]
    by_cases h : nroBloque - 12 = 0
    · simp only [if_pos h]
    · simp only [if_neg h]
  by_cases h3 : nroBloque - 12 - fs.sb.cantPunteros < u32 (fs.sb.cantPunteros * fs.sb.cantPunteros)
  · have hc : caminoBloque fs.sb nroBloque =
        some (13, [(nroBloque - 12 - fs.sb.cantPunteros) / fs.sb.cantPunteros,
          (nroBloque - 12 - fs.sb.cantPunteros) % fs.sb.cantPunteros]) := by
      rw [caminoBloque, if_neg h1, if_neg h2, if_pos h3]
    rw [hc, Option.elim_some, liberarCamino_doble fs inodo 13 _ _ rfl rfl rfl, liberarBloque,
      if_neg h1, if_neg h2, if_pos h3]
    generalize (nroBloque - 12 - fs.sb.cantPunteros) / fs.sb.cantPunteros = pos
    generalize (nroBloque - 12 - fs.sb.cantPunteros) % fs.sb.cantPunteros = pos₂
    by_cases hp₂ : pos₂ = 0
    · by_cases hp : pos = 0
      · simp only [if_pos hp₂, if_pos hp]
      · simp only [if_pos hp₂, if_neg hp]
    · simp only [if_neg hp₂]
  have hrest : ∀ n, resta32 (nroBloque - 12 - fs.sb.cantPunteros)
      (u32 (fs.sb.cantPunteros * fs.sb.cantPunteros)) = n → liberarBloque fs nroBloque inodo =
      (caminoBloque fs.sb nroBloque).elim (fs, inodo)
        fun c => liberarCamino fs inodo c.1 c.2 := by
    intro n hn
    by_cases h4 : n < u32 (fs.sb.cantPunteros * fs.sb.cantPunteros * fs.sb.cantPunteros)
    · have hc : caminoBloque fs.sb nroBloque =
          some (14, [n / fs.sb.cantPunteros / fs.sb.cantPunteros,
            n / fs.sb.cantPunteros % fs.sb.cantPunteros, n % fs.sb.cantPunteros]) := by
        rw [caminoBloque, if_neg h1, if_neg h2, if_neg h3, hn, if_pos h4]
      rw [hc, Option.elim_some, liberarCamino_triple fs inodo 14 _ _ _ rfl rfl rfl rfl,
        liberarBloque, if_neg h1, if_neg h2, if_neg h3, hn, if_pos h4]
      generalize n / fs.sb.cantPunteros / fs.sb.cantPunteros = pos
      generalize n / fs.sb.cantPunteros % fs.sb.cantPunteros = pos₂
      generalize n % fs.sb.cantPunteros = pos₃
      by_cases hp₃ : pos₃ = 0
      · by_cases hp₂ : pos₂ = 0
        · by_cases hp : pos = 0
          · simp only [if_pos hp₃, if_pos hp₂, if_pos hp]
          · simp only [if_pos hp₃, if_pos hp₂, if_neg hp]
        · simp only [if_pos hp₃, if_neg hp₂]
      · simp only [if_neg hp₃]
    · have hc : caminoBloque fs.sb nroBloque = none := by
        rw [caminoBloque, if_neg h1, if_neg h2, if_neg h3, hn, if_neg h4]
      rw [hc, Option.elim_none, liberarBloque, if_neg h1, if_neg h2, if_neg h3, hn, if_neg h4]
  exact hrest _ rfl

end Rfs
