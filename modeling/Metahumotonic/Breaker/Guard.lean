import Metahumotonic.Library.Run
import Mathlib.Order.Defs.LinearOrder
import Mathlib.Algebra.Order.Ring.Nat

/-! The circuit breaker (`ts/src/ports/Breaker.ts`, a port of `app/breaker.py`) and any number of
calls of `guard` over one breaker. The clock may be any linear order with an addition: milliseconds,
or seconds that are rounded. -/
namespace Metahumotonic.Breaker

open Library

/-! The reference `retryAfter` is all that a breaker holds. -/

section Cell

variable {Time : Type*} [LinearOrder Time] [Add Time] [Zero Time]

def DEFAULT_COOLDOWN_MILLIS : ℕ := 30000

def make : Time := 0

def isOpen (retryAfter now : Time) : Bool := now < retryAfter

def trip (cooldownMillis now : Time) : Time := now + cooldownMillis

def reset : Time := 0

end Cell

/-- How far a call of `guard` has come. -/
inductive Phase (A E : Type*) where
  | called
  | passed
  | running
  | failed (error : E)
  | succeeded (value : A)
  | whenOpen
  | returned (value : A)
  | died

/-- A call that was let through and has not settled. -/
def Phase.inFlight {A E : Type*} : Phase A E → Bool
  | passed | running | failed _ | succeeded _ => true
  | _ => false

/-- A call whose effect has started and that has not settled. -/
def Phase.underway {A E : Type*} : Phase A E → Bool
  | running | failed _ | succeeded _ => true
  | _ => false

/-- The atomic steps of a call. A defect or an interruption, which `Effect.either` does not catch,
ends the call where it stands. -/
inductive Act (A E : Type*) where
  | isOpen
  | start
  | finish (result : Except E A)
  | trip
  | reset
  | die

inductive Event (Time A E : Type*) where
  | tick (later : Time)
  | call
  | act (i : ℕ) (a : Act A E)

structure Service (Time A E : Type*) where
  now : Time
  retryAfter : Time
  calls : List (Phase A E)

section Guard

variable {Time A E : Type*} [LinearOrder Time] [Add Time] [Zero Time]

/-- The next step of `guard`: what it leaves in the reference, and how far the call then is. -/
def guard (cooldownMillis now retryAfter : Time) : Phase A E → Act A E → Option (Time × Phase A E)
  | .called, .isOpen => some (retryAfter, if isOpen retryAfter now then .whenOpen else .passed)
  | .passed, .start => some (retryAfter, .running)
  | .running, .finish (.error error) => some (retryAfter, .failed error)
  | .running, .finish (.ok value) => some (retryAfter, .succeeded value)
  | .failed _, .trip => some (trip cooldownMillis now, .whenOpen)
  | .succeeded value, .reset => some (reset, .returned value)
  | .called, .die | .passed, .die | .running, .die | .failed _, .die | .succeeded _, .die =>
    some (retryAfter, .died)
  | _, _ => none

namespace Service

def initial : Service Time A E := ⟨0, make, []⟩

def isOpen (s : Service Time A E) : Bool := Breaker.isOpen s.retryAfter s.now

def inFlight (s : Service Time A E) (i : ℕ) : Bool := s.calls[i]?.any Phase.inFlight

def advance (cooldownMillis : Time) (s : Service Time A E) : Event Time A E → Option
    (Service Time A E)
  | .tick later => if s.now ≤ later then some { s with now := later } else none
  | .call => some { s with calls := s.calls ++ [.called] }
  | .act i a =>
    s.calls[i]?.bind fun phase =>
      (guard cooldownMillis s.now s.retryAfter phase a).map fun (retryAfter, next) =>
        { s with retryAfter := retryAfter, calls := s.calls.set i next }

end Service

end Guard

end Metahumotonic.Breaker
