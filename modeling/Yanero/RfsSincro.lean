import Yanero.Corridas
import Mathlib.Data.Fintype.Card
import Mathlib.Logic.Function.Basic

/-! # The registry of inode locks

    `sincro.c`: the list of nodes, one for each inode some thread works on,
    each with a count of threads and a read/write lock.  A node is found or
    created, and counted, under `mt_lista_inodos`; its lock is taken after the
    mutex is let go, through the pointer the section returned.

    The workers are a state machine: a section under the mutex is one action,
    and so is getting the lock.  `malloc` gives any address no node of the
    list has.  The count is a number of workers, far below the range of its
    `uint32_t`. -/

namespace Rfs

/-- `operacion`: `TIPOREAD` or `TIPOWRITE`. -/
inductive Operacion where
  | tipoRead
  | tipoWrite
deriving DecidableEq

/-- `pthread_rwlock_t`: shared readers or one writer. -/
structure RwLock where
  lectores : Nat := 0
  escritor : Bool := false
deriving DecidableEq

/-- The lock can be had now. -/
def RwLock.libre (self : RwLock) : Operacion → Bool
  | .tipoRead => !self.escritor
  | .tipoWrite => !self.escritor && self.lectores == 0

/-- `pthread_rwlock_rdlock` and `pthread_rwlock_wrlock`, once they return. -/
def RwLock.lock (self : RwLock) : Operacion → RwLock
  | .tipoRead => { self with lectores := self.lectores + 1 }
  | .tipoWrite => { self with escritor := true }

/-- `pthread_rwlock_unlock`. -/
def RwLock.unlock (self : RwLock) : RwLock :=
  if self.escritor then { self with escritor := false }
  else { self with lectores := self.lectores - 1 }

/-- `t_nodoInodo`, with the address `malloc` gave it. -/
structure NodoInodo where
  dir : Nat
  nroInodo : Nat
  cantHilos : Nat
  mtInodo : RwLock := {}
deriving DecidableEq

/-- Change the node at an address. -/
def enDir (lista : List NodoInodo) (dir : Nat) (f : NodoInodo → NodoInodo) : List NodoInodo :=
  lista.map fun nodo => if nodo.dir = dir then f nodo else nodo

/-- The section of `Sincro_monitorLock` under the mutex: the list and the
    address of the node. -/
def monitorLock (lista : List NodoInodo) (nroInodo dir : Nat) : List NodoInodo × Nat :=
  match lista.find? fun nodo => nodo.nroInodo == nroInodo with
  | some nodo =>
      (enDir lista nodo.dir fun nodo => { nodo with cantHilos := nodo.cantHilos + 1 }, nodo.dir)
  | none => (lista ++ [{ dir := dir, nroInodo := nroInodo, cantHilos := 1 }], dir)

/-- `Sincro_monitorUnlock`: the last thread drops the node as it is. -/
def monitorUnlock (lista : List NodoInodo) (nroInodo : Nat) : List NodoInodo :=
  match lista.find? fun nodo => nodo.nroInodo == nroInodo with
  | some nodo =>
      if nodo.cantHilos - 1 = 0 then lista.eraseP fun nodo => nodo.nroInodo == nroInodo
      else
        enDir lista nodo.dir fun nodo =>
          { nodo with cantHilos := nodo.cantHilos - 1, mtInodo := nodo.mtInodo.unlock }
  | none => lista

/-- Where a worker is: past the section of a `Sincro_monitorLock` and waiting
    for the lock at an address, and the locks it has. -/
structure Hilo where
  espera : Option (Nat × Operacion × Nat) := none
  tiene : Nat → Option Operacion := fun _ => none

/-- The worker entered `Sincro_monitorLock` of an inode and has not completed
    the matching unlock. -/
def Hilo.dentro (h : Hilo) (nroInodo : Nat) : Bool :=
  h.espera.any (fun e => e.1 == nroInodo) || (h.tiene nroInodo).isSome

/-- The list and the workers. -/
structure Registro (T : Type) where
  listaInodos : List NodoInodo := []
  hilos : T → Hilo := fun _ => {}

/-- What a worker does next. -/
inductive Turno (T : Type) where
  | entrar (t : T) (nroInodo : Nat) (operacion : Operacion) (dir : Nat)
  | tomar (t : T)
  | salir (t : T) (nroInodo : Nat)

/-- One action; `none` when the worker cannot take it now: it waits for a lock,
    it would lock an inode twice, `malloc` would give a used address, or it
    unlocks what it does not have. -/
def Registro.paso {T : Type} [DecidableEq T] (a : Turno T) (s : Registro T) :
    Option (Registro T) :=
  match a with
  | .entrar t nroInodo operacion dir =>
      if (s.hilos t).espera = none ∧ (s.hilos t).tiene nroInodo = none
          ∧ ∀ nodo ∈ s.listaInodos, nodo.dir ≠ dir then
        let (lista, dir) := monitorLock s.listaInodos nroInodo dir
        some { listaInodos := lista
               hilos := Function.update s.hilos t
                 { s.hilos t with espera := some (nroInodo, operacion, dir) } }
      else none
  | .tomar t =>
      match (s.hilos t).espera with
      | some (nroInodo, operacion, dir) =>
          match s.listaInodos.find? fun nodo => nodo.dir == dir with
          | some nodo =>
              if nodo.mtInodo.libre operacion then
                some { listaInodos := enDir s.listaInodos dir fun nodo =>
                         { nodo with mtInodo := nodo.mtInodo.lock operacion }
                       hilos := Function.update s.hilos t
                         { espera := none
                           tiene := Function.update (s.hilos t).tiene nroInodo
                             (some operacion) } }
              else none
          | none => none
      | none => none
  | .salir t nroInodo =>
      if (s.hilos t).espera = none ∧ (s.hilos t).tiene nroInodo ≠ none then
        some { listaInodos := monitorUnlock s.listaInodos nroInodo
               hilos := Function.update s.hilos t
                 { s.hilos t with tiene := Function.update (s.hilos t).tiene nroInodo none } }
      else none

end Rfs
