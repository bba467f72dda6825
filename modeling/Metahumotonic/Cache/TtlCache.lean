import Metahumotonic.Library.Run
import Metahumotonic.Library.Table
import Metahumotonic.Library.Positions
import Mathlib.Data.Int.Order.Basic
import Mathlib.Data.List.Sort

/-! The cache of the TypeScript service (`ts/src/ports/Cache.ts`). Any number of fibers are
in `get` at a time. Each operation on the shared state, on a deferred or on the clock is
one step, and between any two of them every other fiber may run. -/
namespace Metahumotonic.Cache

open Library

structure Options where
  ttlSeconds : ℤ
  maxEntries : Nat

def Options.ttlMillis (o : Options) : ℤ := max 0 o.ttlSeconds * 1000

structure Entry (A : Type u) where
  value : A
  expiresAtMillis : ℤ
  seq : Nat

/-- The state in the reference. A deferred is named by the fiber that made it. -/
structure State (A : Type u) where
  entries : Table String (Entry A) := .empty
  inFlight : Table String Nat := .empty
  seq : Nat := 0

section Cells

variable {A : Type u}

/-- The oldest insertions go until the entries are back under the cap. -/
def evict (cap : Nat) (entries : Table String (Entry A)) : Table String (Entry A) :=
  if cap < entries.size then
    let ordered := entries.entries.insertionSort fun a b => a.2.seq ≤ b.2.seq
    (ordered.take (entries.size - cap)).foldl (fun entries oldest => entries.erase oldest.1) entries
  else entries

def put (o : Options) (key : String) (value : A) (now : ℤ) (s : State A) : State A :=
  { s with
    entries := evict o.maxEntries (s.entries.set key ⟨value, now + o.ttlMillis, s.seq⟩)
    seq := s.seq + 1 }

theorem evict_subset {cap : Nat} {entries : Table String (Entry A)} {key : String} {entry : Entry A}
    (found : (evict cap entries).get? key = some entry) : entries.get? key = some entry := by
  have fewer : ∀ (gone : List (String × Entry A)) (entries : Table String (Entry A)),
      (gone.foldl (fun entries oldest => entries.erase oldest.1) entries).get? key = some entry →
        entries.get? key = some entry := by
    intro gone
    induction gone with
    | nil => exact fun _ found => found
    | cons oldest rest ih =>
      intro entries found
      exact ((Table.get?_erase _ _ _ _).mp (ih _ found)).1
  unfold evict at found
  split at found
  · exact fewer _ _ found
  · exact found

/-- An entry that is there after a put is the one that was put, or was there before. -/
theorem put_entries {o : Options} {s : State A} {key other : String} {value : A} {now : ℤ}
    {entry : Entry A}
    (found : (put o key value now s).entries.get? other = some entry) :
    (other = key ∧ entry.value = value) ∨ (other ≠ key ∧ s.entries.get? other = some entry) := by
  have kept := evict_subset found
  rw [Table.get?_set] at kept
  split at kept
  · rename_i same
    cases kept
    exact .inl ⟨same, rfl⟩
  · rename_i differs
    exact .inr ⟨differs, kept⟩

end Cells

/-- How an effect ends. -/
inductive Exit (A : Type u) (E : Type v) where
  | success (value : A)
  | failure (error : E)
  | interrupt
  deriving DecidableEq, Repr

inductive Completion (A : Type u) where
  | pending
  | succeeded (value : A)
  | interrupted
  deriving DecidableEq, Repr

/-- What a fiber in `get` does next. -/
inductive Pc (A : Type u) (E : Type v) where
  | start
  | read (now : ℤ)
  | claim
  | reread
  | await (other : Nat)
  | ready (claimed : Bool)
  | producing (claimed : Bool)
  | settled (value : A)
  | put (value : A) (now : ℤ)
  | complete (exit : Exit A E)
  | release (exit : Exit A E)
  | ended (exit : Exit A E)
  deriving DecidableEq, Repr

/-- One call of `get`: the deferred that it made, whether its fiber was interrupted, and how
its own effect ended, if it was run. -/
structure Fiber (A : Type u) (E : Type v) where
  key : String
  pc : Pc A E := .start
  deferred : Completion A := .pending
  interrupted : Bool := false
  produced : Option (Exit A E) := none
  deriving DecidableEq, Repr

structure Runtime (A : Type u) (E : Type v) where
  clock : ℤ := 0
  state : State A := {}
  fibers : List (Fiber A E) := []

inductive Event (A : Type u) (E : Type v) where
  | tick (millis : Nat)
  | get (key : String)
  | step (fiber : Nat)
  | finish (fiber : Nat) (exit : Exit A E)
  | interrupt (fiber : Nat)
  | stop (fiber : Nat)
  | invalidate (key : String)
  | clear
  deriving DecidableEq, Repr

section Steps

variable {A : Type u} {E : Type v}

/-- Where an interruption ends the fiber at once: before its effect runs, and not in the
finalizer after it. -/
def Pc.interruptible : Pc A E → Bool
  | .start | .read _ | .claim | .reread | .await _ | .ready _ => true
  | _ => false

def Pc.left : Pc A E → Bool
  | .ended _ => true
  | _ => false

def Runtime.write (s : Runtime A E) (i : Nat) (f : Fiber A E) : Runtime A E :=
  { s with fibers := s.fibers.set i f }

def Runtime.goto (s : Runtime A E) (i : Nat) (f : Fiber A E) (pc : Pc A E) : Runtime A E :=
  s.write i { f with pc := pc }

/-- The next operation of a fiber, if it can go on. -/
def Runtime.turn (o : Options) (s : Runtime A E) (i : Nat) (f : Fiber A E) : Option (Runtime A E) :=
  match f.pc with
  | .start => some (s.goto i f (if o.ttlMillis = 0 then .ready false else .read s.clock))
  | .read now =>
    match s.state.entries.get? f.key with
    | some hit =>
      some (s.goto i f (if now < hit.expiresAtMillis then .ended (.success hit.value) else .claim))
    | none => some (s.goto i f .claim)
  | .claim =>
    match s.state.inFlight.get? f.key with
    | some _ => some (s.goto i f .reread)
    | none =>
      some ({ s with state := { s.state with inFlight := s.state.inFlight.set f.key i } }.goto i f
        (.ready true))
  | .reread =>
    match s.state.inFlight.get? f.key with
    | some other => some (s.goto i f (.await other))
    | none => some (s.goto i f (.ready false))
  | .await other =>
    match s.fibers[other]?.map Fiber.deferred with
    | some (.succeeded value) => some (s.goto i f (.ended (.success value)))
    | some .interrupted => some (s.goto i f (.ended .interrupt))
    | _ => none
  | .ready claimed => some (s.goto i f (.producing claimed))
  | .settled value => some (s.goto i f (.put value s.clock))
  | .put value now =>
    some ({ s with state := put o f.key value now s.state }.goto i f (.complete (.success value)))
  | .complete exit =>
    let completion := match exit with
      | .success value => Completion.succeeded value
      | _ => Completion.interrupted
    some (s.write i { f with pc := .release exit, deferred := completion })
  | .release exit =>
    some ({ s with state := { s.state with inFlight := s.state.inFlight.erase f.key } }.goto i f
      (.ended exit))
  | .producing _ | .ended _ => none

/-- Where the finalizer of a claimed effect begins. -/
def Exit.finalizer : Exit A E → Pc A E
  | .success value => .settled value
  | exit => .complete exit

def Exit.interrupts : Exit A E → Bool
  | .interrupt => true
  | _ => false

/-- The effect of a fiber ends. It ends by interruption only if its fiber was interrupted. -/
def Runtime.finish (s : Runtime A E) (i : Nat) (f : Fiber A E) (exit : Exit A E) :
    Option (Runtime A E) :=
  match f.pc with
  | .producing claimed =>
    if exit.interrupts && !f.interrupted then none
    else
      some (s.write i
        { f with pc := if claimed then exit.finalizer else .ended exit, produced := some exit })
  | _ => none

def advance (o : Options) (s : Runtime A E) : Event A E → Option (Runtime A E)
  | .tick millis => some { s with clock := s.clock + millis }
  | .get key => some { s with fibers := s.fibers ++ [{ key := key }] }
  | .step i => s.fibers[i]?.bind fun f => s.turn o i f
  | .finish i exit => s.fibers[i]?.bind fun f => s.finish i f exit
  | .interrupt i => s.fibers[i]?.bind fun f =>
    if f.pc.left then none else some (s.write i { f with interrupted := true })
  | .stop i => s.fibers[i]?.bind fun f =>
    if f.interrupted ∧ f.pc.interruptible then some (s.goto i f (.ended .interrupt)) else none
  | .invalidate key =>
    some { s with state := { s.state with entries := s.state.entries.erase key } }
  | .clear => some { s with state := { s.state with entries := .empty } }

/-- What the next operation of a fiber does. -/
inductive Turned (o : Options) (s : Runtime A E) (i : Nat) (f : Fiber A E) :
    Runtime A E → Prop where
  | off (here : f.pc = .start) (zero : o.ttlMillis = 0) : Turned o s i f (s.goto i f (.ready false))
  | clocked (here : f.pc = .start) (some_ : o.ttlMillis ≠ 0) :
    Turned o s i f (s.goto i f (.read s.clock))
  | hit (now : ℤ) (entry : Entry A) (here : f.pc = .read now)
      (found : s.state.entries.get? f.key = some entry) (fresh : now < entry.expiresAtMillis) :
      Turned o s i f (s.goto i f (.ended (.success entry.value)))
  | missed (now : ℤ) (here : f.pc = .read now) : Turned o s i f (s.goto i f .claim)
  | refused (other : Nat) (here : f.pc = .claim)
    (taken : s.state.inFlight.get? f.key = some other) :
      Turned o s i f (s.goto i f .reread)
  | claimed (here : f.pc = .claim) (free : s.state.inFlight.get? f.key = none) :
      Turned o s i f
        ({ s with state := { s.state with inFlight := s.state.inFlight.set f.key i } }.goto i f
          (.ready true))
  | joined (other : Nat) (here : f.pc = .reread)
    (taken : s.state.inFlight.get? f.key = some other) :
      Turned o s i f (s.goto i f (.await other))
  | lost (here : f.pc = .reread) (free : s.state.inFlight.get? f.key = none) :
      Turned o s i f (s.goto i f (.ready false))
  | served (other : Nat) (g : Fiber A E) (value : A) (here : f.pc = .await other)
      (there : s.fibers[other]? = some g) (completed : g.deferred = .succeeded value) :
      Turned o s i f (s.goto i f (.ended (.success value)))
  | struck (other : Nat) (g : Fiber A E) (here : f.pc = .await other)
      (there : s.fibers[other]? = some g) (completed : g.deferred = .interrupted) :
      Turned o s i f (s.goto i f (.ended .interrupt))
  | began (claimed : Bool) (here : f.pc = .ready claimed) :
    Turned o s i f (s.goto i f (.producing claimed))
  | timed (value : A) (here : f.pc = .settled value) :
    Turned o s i f (s.goto i f (.put value s.clock))
  | stored (value : A) (now : ℤ) (here : f.pc = .put value now) :
      Turned o s i f
        ({ s with state := put o f.key value now s.state }.goto i f (.complete (.success value)))
  | succeeded (value : A) (here : f.pc = .complete (.success value)) :
      Turned o s i f (s.write i
        { f with pc := .release (.success value), deferred := .succeeded value })
  | broke (exit : Exit A E) (here : f.pc = .complete exit)
    (failed : ∀ value, exit ≠ .success value) :
      Turned o s i f (s.write i { f with pc := .release exit, deferred := .interrupted })
  | released (exit : Exit A E) (here : f.pc = .release exit) :
      Turned o s i f
        ({ s with state := { s.state with inFlight := s.state.inFlight.erase f.key } }.goto i f
        (.ended exit))

theorem turn_turned {o : Options} {s t : Runtime A E} {i : Nat} {f : Fiber A E}
    (turn : s.turn o i f = some t) : Turned o s i f t := by
  unfold Runtime.turn at turn
  split at turn
  · rename_i here
    cases Option.some.inj turn
    split
    · rename_i zero
      exact .off here zero
    · rename_i some_
      exact .clocked here some_
  · rename_i now here
    split at turn
    · rename_i entry found
      cases Option.some.inj turn
      split
      · rename_i fresh
        exact .hit now entry here found fresh
      · exact .missed now here
    · cases Option.some.inj turn
      exact .missed now here
  · rename_i here
    split at turn
    · rename_i other taken
      cases Option.some.inj turn
      exact .refused other here taken
    · rename_i free
      cases Option.some.inj turn
      exact .claimed here free
  · rename_i here
    split at turn
    · rename_i other taken
      cases Option.some.inj turn
      exact .joined other here taken
    · rename_i free
      cases Option.some.inj turn
      exact .lost here free
  · rename_i other here
    split at turn
    · rename_i value completed
      obtain ⟨g, there, completed⟩ := Option.map_eq_some_iff.mp completed
      cases Option.some.inj turn
      exact .served other g value here there completed
    · rename_i completed
      obtain ⟨g, there, completed⟩ := Option.map_eq_some_iff.mp completed
      cases Option.some.inj turn
      exact .struck other g here there completed
    · cases turn
  · rename_i claimed here
    cases Option.some.inj turn
    exact .began claimed here
  · rename_i value here
    cases Option.some.inj turn
    exact .timed value here
  · rename_i value now here
    cases Option.some.inj turn
    exact .stored value now here
  · rename_i exit here
    cases Option.some.inj turn
    cases exit with
    | success value => exact .succeeded value here
    | failure error => exact .broke _ here (by simp)
    | interrupt => exact .broke _ here (by simp)
  · rename_i exit here
    cases Option.some.inj turn
    exact .released exit here
  · cases turn
  · cases turn

abbrev Step (o : Options) (s : Runtime A E) (e : Event A E) (t : Runtime A E) : Prop :=
  advance o s e = some t

/-- What a step does. -/
inductive Stepped (o : Options) (s : Runtime A E) : Event A E → Runtime A E → Prop where
  | ticked (millis : Nat) : Stepped o s (.tick millis) { s with clock := s.clock + millis }
  | called (key : String) : Stepped o s (.get key) { s with fibers := s.fibers ++ [{ key := key }] }
  | turned (i : Nat) (f : Fiber A E) (there : s.fibers[i]? = some f) {t : Runtime A E}
      (turned : Turned o s i f t) : Stepped o s (.step i) t
  | finished (i : Nat) (f : Fiber A E) (there : s.fibers[i]? = some f) (claimed : Bool)
    (exit : Exit A E)
      (here : f.pc = .producing claimed) (own : exit = .interrupt → f.interrupted = true) :
      Stepped o s (.finish i exit)
        (s.write i { f with pc := if claimed then exit.finalizer else .ended exit, produced := some exit })
  | flagged (i : Nat) (f : Fiber A E) (there : s.fibers[i]? = some f) (inside : f.pc.left = false) :
      Stepped o s (.interrupt i) (s.write i { f with interrupted := true })
  | stopped (i : Nat) (f : Fiber A E) (there : s.fibers[i]? = some f) (flag : f.interrupted = true)
      (open_ : f.pc.interruptible = true) : Stepped o s (.stop i) (s.goto i f (.ended .interrupt))
  | invalidated (key : String) : Stepped o s (.invalidate key)
      { s with state := { s.state with entries := s.state.entries.erase key } }
  | cleared : Stepped o s .clear { s with state := { s.state with entries := .empty } }

theorem step_stepped {o : Options} {s t : Runtime A E} {e : Event A E} (step : Step o s e t) :
    Stepped o s e t := by
  cases e with
  | tick millis =>
    cases Option.some.inj step
    exact .ticked millis
  | get key =>
    cases Option.some.inj step
    exact .called key
  | step i =>
    obtain ⟨f, there, turn⟩ := Option.bind_eq_some_iff.mp step
    exact .turned i f there (turn_turned turn)
  | finish i exit =>
    obtain ⟨f, there, finish⟩ := Option.bind_eq_some_iff.mp step
    unfold Runtime.finish at finish
    split at finish
    · rename_i claimed here
      split at finish
      · cases finish
      · rename_i allowed
        cases Option.some.inj finish
        refine .finished i f there claimed exit here ?_
        rintro rfl
        simpa [Exit.interrupts] using allowed
    · cases finish
  | interrupt i =>
    obtain ⟨f, there, flag⟩ := Option.bind_eq_some_iff.mp step
    split at flag
    · cases flag
    · rename_i inside
      cases Option.some.inj flag
      exact .flagged i f there (Bool.eq_false_iff.mpr inside)
  | stop i =>
    obtain ⟨f, there, stop⟩ := Option.bind_eq_some_iff.mp step
    split at stop
    · rename_i possible
      cases Option.some.inj stop
      exact .stopped i f there possible.1 possible.2
    · cases stop
  | invalidate key =>
    cases Option.some.inj step
    exact .invalidated key
  | clear =>
    cases Option.some.inj step
    exact .cleared

end Steps

end Metahumotonic.Cache
