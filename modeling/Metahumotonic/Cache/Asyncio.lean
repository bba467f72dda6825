import Metahumotonic.Library.Run
import Metahumotonic.Library.Table
import Metahumotonic.Library.Positions
import Mathlib.Data.Int.Order.Basic

/-! The cache of the Python service (`app/cache.py`). Coroutines run one at a time, from
one suspension point to the next: a lock that is taken, or the producer. The table of the
locks is bounded like the store, so a lock may leave it while it is in use. -/
namespace Metahumotonic.Cache.Asyncio

open Library

structure Config where
  ttl : ℤ
  maxEntries : ℤ

def Config.cap (c : Config) : Nat := (max 1 c.maxEntries).toNat

/-- An `asyncio.Lock`: who is first in the queue goes on when the lock is released. -/
structure Lock where
  locked : Bool := false
  waiters : List Nat := []
  deriving DecidableEq, Repr

inductive Pc (A : Type u) (E : Type v) where
  | waiting (lock : Nat)
  | producing (lock : Nat)
  | unguarded
  | returned (result : Except E A)

/-- One call of `get_or_set`. -/
structure Call (A : Type u) (E : Type v) where
  key : String
  pc : Pc A E

/-- Beside the fields of the cache, the locks that were made, the calls, and for every key
the value that was produced last, with the time of it. -/
structure State (A : Type u) (E : Type v) where
  clock : ℤ := 0
  store : Table String (ℤ × A) := .empty
  locks : Table String Nat := .empty
  heap : List Lock := []
  calls : List (Call A E) := []
  made : Table String (ℤ × A) := .empty

section Fields

variable {α : Type w}

def moveToEnd (t : Table String α) (key : String) : Table String α :=
  match t.get? key with
  | some value => (t.erase key).set key value
  | none => t

/-- The oldest entries are popped while there are more than the cap. -/
def popOldest (cap : Nat) (t : Table String α) : Table String α where
  entries := t.entries.drop (t.size - cap)
  nodup := t.nodup.sublist ((List.drop_sublist _ _).map _)

def oldestKeys (cap : Nat) (t : Table String α) : List String := t.keys.take (t.size - cap)

end Fields

section Steps

variable {A : Type u} {E : Type v}

def fresh (c : Config) (key : String) (s : State A E) : Option A × State A E :=
  match s.store.get? key with
  | some hit =>
    if s.clock - hit.1 < c.ttl then (some hit.2, { s with store := moveToEnd s.store key })
    else (none, { s with store := s.store.erase key })
  | none => (none, s)

def lockFor (c : Config) (key : String) (s : State A E) : Nat × State A E :=
  match s.locks.get? key with
  | some lock => (lock, { s with locks := popOldest c.cap (moveToEnd s.locks key) })
  | none =>
    let lock := s.heap.length
    (lock,
      { s with
        heap := s.heap ++ [{}]
        locks := popOldest c.cap (moveToEnd (s.locks.set key lock) key) })

/-- The locks of the keys that are evicted go with them. -/
def evict (c : Config) (s : State A E) : State A E :=
  { s with
    store := popOldest c.cap s.store
    locks := (oldestKeys c.cap s.store).foldl Table.erase s.locks }

def State.setLock (s : State A E) (i : Nat) (lock : Lock) : State A E :=
  { s with heap := s.heap.set i lock }

/-- What a call does with its lock, up to the producer or to the end. -/
def critical (c : Config) (key : String) (i : Nat) (lock : Lock) (s : State A E) :
    Pc A E × State A E :=
  match fresh c key s with
  | (some value, s) => (.returned (.ok value), s.setLock i { lock with locked := false })
  | (none, s) => (.producing i, s.setLock i { lock with locked := true })

def State.pushCall (s : State A E) (call : Call A E) : State A E :=
  { s with calls := s.calls ++ [call] }

def State.setCall (s : State A E) (i : Nat) (call : Call A E) : State A E :=
  { s with calls := s.calls.set i call }

/-- A new call takes its lock if that is free and nobody waits for it, and queues otherwise. -/
def acquire (c : Config) (key : String) (i : Nat) (s : State A E) : State A E :=
  let lock := s.heap.getD i {}
  if lock.locked = false ∧ lock.waiters = [] then
    let (pc, s) := critical c key i lock s
    s.pushCall ⟨key, pc⟩
  else
    (s.setLock i { lock with waiters := lock.waiters ++ [s.calls.length] }).pushCall
      ⟨key, .waiting i⟩

/-- A call, up to its first suspension. -/
def getOrSet (c : Config) (key : String) (s : State A E) : State A E :=
  if c.ttl ≤ 0 then s.pushCall ⟨key, .unguarded⟩
  else
    match fresh c key s with
    | (some value, s) => s.pushCall ⟨key, .returned (.ok value)⟩
    | (none, s) =>
      let (i, s) := lockFor c key s
      acquire c key i s

/-- The first waiter of a lock that was released takes it. -/
def resume (c : Config) (s : State A E) (j : Nat) (call : Call A E) : Option (State A E) :=
  match call.pc with
  | .waiting i =>
    let lock := s.heap.getD i {}
    if lock.locked = false ∧ lock.waiters.head? = some j then
      let (pc, s) := critical c call.key i { lock with waiters := lock.waiters.tail } s
      some (s.setCall j { call with pc := pc })
    else none
  | _ => none

/-- The producer of a call ends. -/
def finish (c : Config) (s : State A E) (j : Nat) (call : Call A E) (result : Except E A) :
    Option (State A E) :=
  match call.pc with
  | .producing i =>
    let s := match result with
      | .ok value =>
        evict c
          { s with
            store := moveToEnd (s.store.set call.key (s.clock, value)) call.key
            made := s.made.set call.key (s.clock, value) }
      | .error _ => s
    some ((s.setLock i { s.heap.getD i {} with locked := false }).setCall j
      { call with pc := .returned result })
  | .unguarded => some (s.setCall j { call with pc := .returned result })
  | _ => none

end Steps

inductive Event (A : Type u) (E : Type v) where
  | tick (later : Nat)
  | call (key : String)
  | resume (call : Nat)
  | finish (call : Nat) (result : Except E A)

def advance {A : Type u} {E : Type v} (c : Config) (s : State A E) : Event A E → Option (State A E)
  | .tick later => some { s with clock := s.clock + later }
  | .call key => some (getOrSet c key s)
  | .resume j => s.calls[j]?.bind fun call => resume c s j call
  | .finish j result => s.calls[j]?.bind fun call => finish c s j call result

abbrev Step {A : Type u} {E : Type v} (c : Config) (s : State A E) (e : Event A E)
    (t : State A E) : Prop :=
  advance c s e = some t

end Metahumotonic.Cache.Asyncio
