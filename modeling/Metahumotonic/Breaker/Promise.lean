import Metahumotonic.Breaker.Guard

/-! What the breaker promises (`ts/src/ports/Breaker.ts`, and the docstring of `app/breaker.py`):
after a failure it stays open for the cooldown, then allows one retry, and a success resets it. The
promise is stated of a record that is kept beside the service: of every trip, what has come after
it. -/
namespace Metahumotonic.Breaker

open Library

/-- A trip of the breaker, when effects have started since, which calls have been let through or
have started since, and whether one of these has reset the breaker. -/
structure Outage (Time : Type*) where
  since : Time
  starts : List Time := []
  retries : List ℕ := []
  recovered : Bool := false

structure Watched (Time A E : Type*) where
  service : Service Time A E
  outages : List (Outage Time)

section Record

variable {Time A E : Type*} [LinearOrder Time] [Add Time] [Zero Time]

namespace Outage

def letThrough (i : ℕ) (o : Outage Time) : Outage Time :=
  { o with retries := i :: o.retries }

def start (now : Time) (i : ℕ) (o : Outage Time) : Outage Time :=
  { o with starts := now :: o.starts, retries := i :: o.retries }

def recover (i : ℕ) (o : Outage Time) : Outage Time :=
  { o with recovered := o.recovered || o.retries.contains i }

def note (now : Time) (i : ℕ) (turnedAway : Bool) (o : Outage Time) : Act A E → Outage Time
  | .isOpen => if turnedAway then o else o.letThrough i
  | .start => o.start now i
  | .reset => o.recover i
  | _ => o

end Outage

namespace Watched

def initial : Watched Time A E := ⟨.initial, []⟩

/-- The record after an event, the latest trip first. -/
def record (w : Watched Time A E) : Event Time A E → List (Outage Time)
  | .tick _ | .call => w.outages
  | .act _ .trip => { since := w.service.now } :: w.outages
  | .act i a => w.outages.map fun o => o.note w.service.now i w.service.isOpen a

def advance (cooldown : Time) (w : Watched Time A E) (e : Event Time A E) :
    Option (Watched Time A E) :=
  (w.service.advance cooldown e).map fun service => ⟨service, w.record e⟩

abbrev Step (cooldown : Time) (w : Watched Time A E) (e : Event Time A E)
    (t : Watched Time A E) : Prop :=
  w.advance cooldown e = some t

/-- The record changes nothing that the service does. -/
theorem follow_service (cooldown : Time) (events : List (Event Time A E)) (w : Watched Time A E) :
    (follow (advance cooldown) w events).map Watched.service = follow (Service.advance cooldown)
      w.service events := by
  induction events generalizing w with
  | nil => rfl
  | cons e events ih =>
    simp only [follow, advance]
    cases w.service.advance cooldown e with
    | none => rfl
    | some service => exact ih ⟨service, w.record e⟩

/-- The calls in flight that were let through, or have started, after a trip from which the breaker
has not recovered. -/
def retrying (w : Watched Time A E) : List ℕ :=
  (w.outages.filter (!·.recovered)).flatMap fun o => o.retries.filter w.service.inFlight

/-- The breaker's promise: no effect starts before a trip has cooled down, one retry is in flight at
a time, and the breaker is open exactly while a trip from which it has not recovered is cooling
down. -/
structure Kept (cooldown : Time) (w : Watched Time A E) : Prop where
  cooled : ∀ o ∈ w.outages, ∀ u ∈ o.starts, o.since + cooldown ≤ u
  alone : ∀ i ∈ w.retrying, ∀ j ∈ w.retrying, i = j
  opened : w.service.isOpen = true ↔ ∃ o ∈ w.outages, o.recovered = false ∧
    w.service.now < o.since + cooldown

/-- A check lets no call through beside a retry, an effect starts only where a check would still let
it, and no success comes to an open breaker. -/
def Meets (w : Watched Time A E) : Event Time A E → Prop
  | .act _ .isOpen => w.service.isOpen = true ∨ w.retrying = []
  | .act i .start => w.service.isOpen = false ∧ ∀ j ∈ w.retrying, j = i
  | .act _ .reset => w.service.isOpen = false
  | _ => True

instance (w : Watched Time A E) : (e : Event Time A E) → Decidable (w.Meets e)
  | .tick _ | .call => inferInstanceAs (Decidable True)
  | .act _ .isOpen => inferInstanceAs (Decidable (w.service.isOpen = true ∨ w.retrying = []))
  | .act i .start =>
    inferInstanceAs (Decidable (w.service.isOpen = false ∧ ∀ j ∈ w.retrying, j = i))
  | .act _ .reset => inferInstanceAs (Decidable (w.service.isOpen = false))
  | .act _ (.finish _) | .act _ .trip | .act _ .die => inferInstanceAs (Decidable True)

/-- A call goes on to its next phase. -/
def turn (w : Watched Time A E) (i : ℕ) (phase : Phase A E) (retryAfter : Time)
    (outages : List (Outage Time)) :
    Watched Time A E :=
  ⟨⟨w.service.now, retryAfter, w.service.calls.set i phase⟩, outages⟩

/-- The steps of the service, one constructor a branch. -/
inductive Stepped (cooldown : Time) (w : Watched Time A E) : Event Time A E →
    Watched Time A E → Prop where
  | tick (later : Time) (on : w.service.now ≤ later) :
      Stepped cooldown w (.tick later) ⟨{ w.service with now := later }, w.outages⟩
  | call : Stepped cooldown w .call
    ⟨{ w.service with calls := w.service.calls ++ [.called] }, w.outages⟩
  | turnedAway (i : ℕ) (there : w.service.calls[i]? = some .called)
    (asked : w.service.isOpen = true) :
      Stepped cooldown w (.act i .isOpen) (w.turn i .whenOpen w.service.retryAfter w.outages)
  | passed (i : ℕ) (there : w.service.calls[i]? = some .called)
    (closed : w.service.isOpen = false) :
      Stepped cooldown w (.act i .isOpen) (w.turn i .passed w.service.retryAfter
        (w.outages.map (Outage.letThrough i)))
  | started (i : ℕ) (there : w.service.calls[i]? = some .passed) :
      Stepped cooldown w (.act i .start) (w.turn i .running w.service.retryAfter
        (w.outages.map (Outage.start w.service.now i)))
  | finished (i : ℕ) (result : Except E A) (phase : Phase A E)
    (there : w.service.calls[i]? = some .running) :
      Stepped cooldown w (.act i (.finish result)) (w.turn i phase w.service.retryAfter w.outages)
  | died (i : ℕ) (phase : Phase A E) (there : w.service.calls[i]? = some phase) :
      Stepped cooldown w (.act i .die) (w.turn i .died w.service.retryAfter w.outages)
  | tripped (i : ℕ) (error : E) (there : w.service.calls[i]? = some (.failed error)) :
      Stepped cooldown w (.act i .trip) (w.turn i .whenOpen (w.service.now + cooldown)
        ({ since := w.service.now } :: w.outages))
  | reset (i : ℕ) (value : A) (there : w.service.calls[i]? = some (.succeeded value)) :
      Stepped cooldown w (.act i .reset) (w.turn i (.returned value) 0
        (w.outages.map (Outage.recover i)))

end Watched

theorem guard_acts {cooldown now retryAfter after : Time} {phase next : Phase A E} {a : Act A E}
    (acted : guard cooldown now retryAfter phase a = some (after, next)) :
    (phase = .called ∧ a = .isOpen ∧ after = retryAfter ∧ next = if isOpen retryAfter now
      then .whenOpen else .passed) ∨
    (phase = .passed ∧ a = .start ∧ after = retryAfter ∧ next = .running) ∨
    (phase = .running ∧ (∃ result, a = .finish result) ∧ after = retryAfter) ∨
    ((∃ error, phase = .failed error) ∧ a = .trip ∧ after = now + cooldown ∧ next = .whenOpen) ∨
    (∃ value, phase = .succeeded value ∧ a = .reset ∧ after = 0 ∧ next = .returned value) ∨
    (a = .die ∧ after = retryAfter ∧ next = .died) := by
  unfold guard at acted
  split at acted <;> simp only [Option.some.injEq, Prod.mk.injEq, reduceCtorEq] at acted
  all_goals obtain ⟨rfl, rfl⟩ := acted
  all_goals simp [trip, reset]

end Record

section Flight

variable {Time A E : Type*}

def Service.underway (s : Service Time A E) (i : ℕ) : Bool := s.calls[i]?.any Phase.underway

namespace Watched

variable {w t : Watched Time A E} {i j : ℕ} {phase next : Phase A E} {after : Time}
    {outages : List (Outage Time)}

theorem mem_retrying :
    j ∈ w.retrying ↔ w.service.inFlight j = true ∧ ∃ o ∈ w.outages, o.recovered = false ∧
      j ∈ o.retries := by
  simp only [retrying, List.mem_flatMap, List.mem_filter, Bool.not_eq_true']
  constructor
  · rintro ⟨o, ⟨member, still⟩, retry, flying⟩
    exact ⟨flying, o, member, still, retry⟩
  · rintro ⟨flying, o, member, still, retry⟩
    exact ⟨o, ⟨member, still⟩, retry, flying⟩

theorem calls_turn (there : w.service.calls[i]? = some phase) :
    (w.turn i next after outages).service.calls[j]? = if j = i
      then some next else w.service.calls[j]? := by
  obtain ⟨inside, -⟩ := List.getElem?_eq_some_iff.mp there
  simp only [turn, List.getElem?_set, inside]
  split
  · rename_i same
    simp [same]
  · rename_i differs
    rw [if_neg fun same => differs same.symm]

/-- A call that goes on without an effect, or settles, adds none to the calls there are of a kind.
-/
theorem any_turn (f : Phase A E → Bool) (there : w.service.calls[i]? = some phase)
    (no_more : f next = true → f phase = true)
    (has : ((w.turn i next after outages).service.calls[j]?).any f = true) :
    (w.service.calls[j]?).any f = true := by
  rw [calls_turn there] at has
  split at has
  · rename_i same
    simpa [same, there] using no_more has
  · exact has

theorem mem_retrying_turn (there : w.service.calls[i]? = some phase)
    (no_more : next.inFlight = true → phase.inFlight = true)
    (records : ∀ o ∈ outages, o.recovered = false → ∀ k ∈ o.retries,
      ∃ p ∈ w.outages, p.recovered = false ∧ k ∈ p.retries)
    (member : j ∈ (w.turn i next after outages).retrying) : j ∈ w.retrying := by
  obtain ⟨flying, o, inside, still, retry⟩ := mem_retrying.mp member
  exact mem_retrying.mpr ⟨any_turn Phase.inFlight there no_more flying,
    records o inside still j retry⟩

/-- A call that is let through is alone exactly if no other call was retrying. -/
theorem alone_let_iff (next : Phase A E) (after : Time) (f : Outage Time → Outage Time)
    (there : w.service.calls[i]? = some phase)
    (flies : next.inFlight = true) (recovered : ∀ o, (f o).recovered = o.recovered)
    (retries : ∀ o, (f o).retries = i :: o.retries) :
    (∀ j ∈ (w.turn i next after (w.outages.map f)).retrying,
      ∀ k ∈ (w.turn i next after (w.outages.map f)).retrying, j = k) ↔ ∀ j ∈ w.retrying, j = i := by
  constructor
  · intro alone j member
    obtain ⟨flying, o, inside, still, retry⟩ := mem_retrying.mp member
    have kept : (f o).recovered = false := (recovered o).trans still
    have here := List.mem_map_of_mem (f := f) inside
    apply alone
    · refine mem_retrying.mpr ⟨?_, f o, here, kept, by simp [retries, retry]⟩
      rw [Service.inFlight, calls_turn there]
      split
      · exact flies
      · exact flying
    · refine mem_retrying.mpr ⟨?_, f o, here, kept, by simp [retries]⟩
      rw [Service.inFlight, calls_turn there, if_pos rfl]
      exact flies
  · intro only
    have same : ∀ j ∈ (w.turn i next after (w.outages.map f)).retrying, j = i := by
      intro j member
      obtain ⟨flying, o, inside, still, retry⟩ := mem_retrying.mp member
      obtain ⟨p, old, rfl⟩ := List.mem_map.mp inside
      rw [Service.inFlight, calls_turn there] at flying
      split at flying
      · assumption
      · rename_i differs
        rw [retries] at retry
        exact only j (mem_retrying.mpr
          ⟨flying, p, old, (recovered p).symm.trans still,
            (List.mem_cons.mp retry).resolve_left differs⟩)
    exact fun j first k second => (same j first).trans (same k second).symm

theorem any_called {calls : List (Phase A E)} {f : Phase A E → Bool} (none : f .called = false) :
    ((calls ++ [.called])[j]?).any f = (calls[j]?).any f := by
  rcases lt_trichotomy j calls.length with before | here | after
  · rw [List.getElem?_append_left before]
  · simp [here, none]
  · rw [List.getElem?_eq_none (by simpa [Nat.succ_le_iff] using after),
      List.getElem?_eq_none after.le]

end Watched

end Flight

section Promise

variable {Time A E : Type*} [LinearOrder Time] [Add Time] [Zero Time]

namespace Watched

variable {cooldown : Time} {w t : Watched Time A E} {e : Event Time A E} {i j : ℕ}

theorem stepped (step : w.Step cooldown e t) : Stepped cooldown w e t := by
  obtain ⟨service, advanced, rfl⟩ := Option.map_eq_some_iff.mp step
  cases e with
  | tick later =>
    simp only [Service.advance, Option.ite_none_right_eq_some] at advanced
    obtain ⟨on, same⟩ := advanced
    cases same
    exact .tick later on
  | call =>
    cases advanced
    exact .call
  | act i a =>
    simp only [Service.advance, Option.bind_eq_some_iff, Option.map_eq_some_iff] at advanced
    obtain ⟨phase, there, ⟨after, next⟩, acted, rfl⟩ := advanced
    rcases guard_acts acted with
      ⟨rfl, rfl, rfl, rfl⟩ | ⟨rfl, rfl, rfl, rfl⟩ | ⟨rfl, ⟨result, rfl⟩, rfl⟩ |
      ⟨⟨error, rfl⟩, rfl, rfl, rfl⟩ | ⟨value, rfl, rfl, rfl, rfl⟩ | ⟨rfl, rfl, rfl⟩
    · cases asked : w.service.isOpen with
      | true =>
        have away : Stepped cooldown w _ _ := .turnedAway i there asked
        simpa [turn, record, Outage.note, asked,
          show Breaker.isOpen _ _ = true from asked] using away
      | false =>
        have through : Stepped cooldown w _ _ := .passed i there asked
        simpa [turn, record, Outage.note, asked,
          show Breaker.isOpen _ _ = false from asked] using through
    · exact .started i there
    · have finished : Stepped cooldown w _ _ := .finished i result next there
      simpa [turn, record, Outage.note] using finished
    · exact .tripped i error there
    · exact .reset i value there
    · have died : Stepped cooldown w _ _ := .died i phase there
      simpa [turn, record, Outage.note] using died

end Watched

/-- What a record of a trip says of the service, in every run. -/
structure Outage.Sound (s : Service Time A E) (o : Outage Time) : Prop where
  past : o.since ≤ s.now
  begun : ∀ u ∈ o.starts, u ≤ s.now
  ran : ∀ i ∈ o.retries, s.underway i = true → o.starts ≠ []
  proven : o.recovered = true → o.starts ≠ []

/-- The reference holds zero, or the end of the latest trip's cooldown. -/
structure Watched.Sound (cooldown : Time) (w : Watched Time A E) : Prop where
  clock : 0 ≤ w.service.now
  recorded : ∀ o ∈ w.outages, o.Sound w.service
  latest : w.service.retryAfter = 0 ∨ ∃ o ∈ w.outages, o.recovered = false ∧
    w.service.retryAfter = o.since + cooldown ∧ ∀ p ∈ w.outages, p.since ≤ o.since

section Kept

variable {cooldown : Time} {w t : Watched Time A E} {e : Event Time A E} {i j : ℕ}

omit [Add Time] [Zero Time] in
theorem Outage.Sound.later {s s' : Service Time A E} {o : Outage Time} (sound : o.Sound s)
    (on : s.now ≤ s'.now) (fewer : ∀ i, s'.underway i = true → s.underway i = true) :
    o.Sound s' where
  past := sound.past.trans on
  begun u member := (sound.begun u member).trans on
  ran i member runs := sound.ran i member (fewer i runs)
  proven := sound.proven

/-- A change to every record that leaves the trips as they were leaves the latest as it was. -/
theorem latest_map {outages : List (Outage Time)} {retryAfter : Time}
    (f : Outage Time → Outage Time)
    (since : ∀ o, (f o).since = o.since) (recovered : ∀ o, (f o).recovered = o.recovered)
    (latest : retryAfter = 0 ∨ ∃ o ∈ outages, o.recovered = false ∧
      retryAfter = o.since + cooldown ∧ ∀ p ∈ outages, p.since ≤ o.since) :
    retryAfter = 0 ∨ ∃ o ∈ outages.map f, o.recovered = false ∧
      retryAfter = o.since + cooldown ∧ ∀ p ∈ outages.map f, p.since ≤ o.since := by
  rcases latest with zero | ⟨o, member, still, ends, last⟩
  · exact .inl zero
  · refine .inr ⟨f o, List.mem_map_of_mem member, (recovered o).trans still, by
      rw [ends, since], ?_⟩
    intro p inside
    obtain ⟨q, there, rfl⟩ := List.mem_map.mp inside
    rw [since, since]
    exact last q there

namespace Watched

theorem Sound.initial : Sound cooldown (initial : Watched Time A E) where
  clock := le_refl _
  recorded := nofun
  latest := .inl rfl

theorem Sound.kept (sound : w.Sound cooldown) (stepped : Stepped cooldown w e t) :
    t.Sound cooldown := by
  cases stepped with
  | tick later on =>
    exact ⟨sound.clock.trans on, fun o member => (sound.recorded o member).later on fun _ runs =>
      runs, sound.latest⟩
  | call =>
    refine ⟨sound.clock, fun o member => (sound.recorded o member).later le_rfl fun j runs =>
      ?_, sound.latest⟩
    rwa [Service.underway, any_called rfl] at runs
  | turnedAway i there asked =>
    exact ⟨sound.clock, fun o member =>
      (sound.recorded o member).later le_rfl fun j => any_turn Phase.underway there nofun,
        sound.latest⟩
  | passed i there closed =>
    refine ⟨sound.clock, fun o member => ?_, latest_map _ (fun _ => rfl)
      (fun _ => rfl) sound.latest⟩
    obtain ⟨p, inside, rfl⟩ := List.mem_map.mp member
    have old := sound.recorded p inside
    refine ⟨old.past, old.begun, fun j retry runs => ?_, old.proven⟩
    have ran := any_turn Phase.underway there (by nofun) runs
    rcases List.mem_cons.mp retry with rfl | earlier
    · simp [there, Phase.underway] at ran
    · exact old.ran j earlier ran
  | started i there =>
    refine ⟨sound.clock, fun o member => ?_, latest_map _ (fun _ => rfl)
      (fun _ => rfl) sound.latest⟩
    obtain ⟨p, inside, rfl⟩ := List.mem_map.mp member
    have old := sound.recorded p inside
    refine ⟨old.past, fun u start => ?_, fun _ _ _ => List.cons_ne_nil _ _, fun _ =>
      List.cons_ne_nil _ _⟩
    rcases List.mem_cons.mp start with rfl | earlier
    · exact le_rfl
    · exact old.begun u earlier
  | finished i result phase there =>
    exact ⟨sound.clock, fun o member =>
      (sound.recorded o member).later le_rfl fun j => any_turn Phase.underway there fun _ => rfl,
        sound.latest⟩
  | died i phase there =>
    exact ⟨sound.clock, fun o member =>
      (sound.recorded o member).later le_rfl fun j => any_turn Phase.underway there nofun,
        sound.latest⟩
  | tripped i error there =>
    refine ⟨sound.clock, fun o member =>
      ?_, .inr ⟨_, List.mem_cons_self, rfl, rfl, fun p member => ?_⟩⟩
    · rcases List.mem_cons.mp member with rfl | older
      · exact ⟨le_rfl, nofun, nofun, nofun⟩
      · exact (sound.recorded o older).later le_rfl fun j => any_turn Phase.underway there nofun
    · rcases List.mem_cons.mp member with rfl | older
      · exact le_rfl
      · exact (sound.recorded p older).past
  | reset i value there =>
    refine ⟨sound.clock, fun o member => ?_, .inl rfl⟩
    obtain ⟨p, inside, rfl⟩ := List.mem_map.mp member
    have old := sound.recorded p inside
    refine ⟨old.past, old.begun, fun j retry runs => ?_, fun proven => ?_⟩
    · exact old.ran j retry (any_turn Phase.underway there (by nofun) runs)
    · rcases Bool.or_eq_true_iff.mp proven with before | now
      · exact old.proven before
      · apply old.ran i (by simpa using now)
        simp [Service.underway, there, Phase.underway]

/-- While the breaker is closed, every trip from which it has not recovered has cooled down. -/
theorem Sound.opened_iff (sound : w.Sound cooldown) :
    (w.service.isOpen = true ↔ ∃ o ∈ w.outages, o.recovered = false ∧
      w.service.now < o.since + cooldown) ↔
      (w.service.isOpen = false → ∀ o ∈ w.outages, o.recovered = false →
        o.since + cooldown ≤ w.service.now) := by
  constructor
  · intro opened closed o member still
    by_contra cooling
    rw [opened.mpr ⟨o, member, still, not_le.mp cooling⟩] at closed
    cases closed
  · intro cold
    constructor
    · intro asked
      have before : w.service.now < w.service.retryAfter := of_decide_eq_true asked
      rcases sound.latest with zero | ⟨o, member, still, ends, -⟩
      · exact absurd (zero ▸ before) (not_lt.mpr sound.clock)
      · exact ⟨o, member, still, ends ▸ before⟩
    · rintro ⟨o, member, still, cooling⟩
      by_contra closed
      exact absurd (cold (Bool.not_eq_true _ ▸ closed) o member still) (not_le.mpr cooling)

theorem Kept.cold (sound : w.Sound cooldown) (kept : w.Kept cooldown) :
    w.service.isOpen = false → ∀ o ∈ w.outages, o.recovered = false →
      o.since + cooldown ≤ w.service.now :=
  sound.opened_iff.mp kept.opened

/-- A trip after which an effect has started has cooled down. -/
theorem Kept.elapsed (sound : w.Sound cooldown) (kept : w.Kept cooldown) {o : Outage Time}
    (member : o ∈ w.outages) (some_start : o.starts ≠ []) : o.since + cooldown ≤ w.service.now := by
  obtain ⟨u, start⟩ := List.exists_mem_of_ne_nil o.starts some_start
  exact (kept.cooled o member u start).trans ((sound.recorded o member).begun u start)

/-- The steps that let no call through keep the promise. -/
theorem Kept.settle (sound : t.Sound cooldown) (kept : w.Kept cooldown)
    (starts : ∀ o ∈ t.outages, o.starts = [] ∨ ∃ p ∈ w.outages, o.since = p.since ∧
      o.starts = p.starts)
    (fewer : ∀ j ∈ t.retrying, j ∈ w.retrying)
    (cold : t.service.isOpen = false → ∀ o ∈ t.outages, o.recovered = false →
      o.since + cooldown ≤ t.service.now) :
    t.Kept cooldown where
  cooled o member u start := by
    rcases starts o member with none | ⟨p, inside, since, same⟩
    · rw [none] at start
      cases start
    · exact since ▸ kept.cooled p inside u (same ▸ start)
  alone i first j second := kept.alone i (fewer i first) j (fewer j second)
  opened := sound.opened_iff.mpr cold

/-- A step from a state that keeps the promise keeps it exactly if it meets the condition. -/
theorem kept_iff_meets [AddRightMono Time] (sound : w.Sound cooldown) (kept : w.Kept cooldown)
    (stepped : Stepped cooldown w e t) : t.Kept cooldown ↔ w.Meets e := by
  have next := sound.kept stepped
  have cold := kept.cold sound
  cases stepped with
  | tick later on =>
    refine iff_of_true (kept.settle next (fun o member => .inr ⟨o, member, rfl, rfl⟩)
      (fun _ member => member) ?_) trivial
    intro closed o member still
    cases asked : w.service.isOpen with
    | false => exact (cold asked o member still).trans on
    | true =>
      have before : w.service.now < w.service.retryAfter := of_decide_eq_true asked
      rcases sound.latest with zero | ⟨p, -, -, ends, last⟩
      · exact absurd (zero ▸ before) (not_lt.mpr sound.clock)
      · have cooled : w.service.retryAfter ≤ later := not_lt.mp (of_decide_eq_false closed)
        exact (add_le_add_left (last o member) cooldown).trans (ends ▸ cooled)
  | call =>
    refine iff_of_true (kept.settle next (fun o member => .inr ⟨o, member, rfl, rfl⟩)
      (fun j member => ?_) cold) trivial
    rw [mem_retrying, Service.inFlight, any_called rfl] at member
    exact mem_retrying.mpr member
  | turnedAway i there asked =>
    refine iff_of_true (kept.settle next (fun o member => .inr ⟨o, member, rfl, rfl⟩)
      (fun j => ?_) cold) (.inl asked)
    exact mem_retrying_turn there nofun fun o member still k retry => ⟨o, member, still, retry⟩
  | passed i there closed =>
    have other : ∀ j ∈ w.retrying, j ≠ i := by
      rintro j member rfl
      have flying := (mem_retrying.mp member).1
      simp [Service.inFlight, there, Phase.inFlight] at flying
    have alone := alone_let_iff .passed w.service.retryAfter (Outage.letThrough i) there rfl
      (fun _ => rfl) (fun _ => rfl)
    constructor
    · intro after
      refine .inr (List.eq_nil_iff_forall_not_mem.mpr fun j member => ?_)
      exact other j member (alone.mp after.alone j member)
    · intro meets
      have none : w.retrying = [] := meets.resolve_left (by simp [closed])
      refine ⟨fun o member => ?_, alone.mpr (by simp [none]),
        next.opened_iff.mpr fun closed o member => ?_⟩
      · obtain ⟨p, old, rfl⟩ := List.mem_map.mp member
        exact kept.cooled p old
      · obtain ⟨p, old, rfl⟩ := List.mem_map.mp member
        exact cold closed p old
  | started i there =>
    have alone := alone_let_iff .running w.service.retryAfter
      (Outage.start w.service.now i) there rfl
      (fun _ => rfl) (fun _ => rfl)
    constructor
    · intro after
      refine ⟨?_, alone.mp after.alone⟩
      by_contra asked
      obtain ⟨o, member, -, cooling⟩ := kept.opened.mp (Bool.not_eq_false _ ▸ asked)
      exact absurd (after.cooled _ (List.mem_map_of_mem member) _ List.mem_cons_self)
        (not_le.mpr cooling)
    · rintro ⟨closed, only⟩
      refine ⟨fun o member u start => ?_, alone.mpr only,
        next.opened_iff.mpr fun closed o member => ?_⟩
      · obtain ⟨p, old, rfl⟩ := List.mem_map.mp member
        have cooled : p.since + cooldown ≤ w.service.now := by
          cases recovered : p.recovered with
          | false => exact cold closed p old recovered
          | true => exact kept.elapsed sound old ((sound.recorded p old).proven recovered)
        rcases List.mem_cons.mp start with rfl | earlier
        · exact cooled
        · exact kept.cooled p old u earlier
      · obtain ⟨p, old, rfl⟩ := List.mem_map.mp member
        exact cold closed p old
  | finished i result phase there =>
    refine iff_of_true (kept.settle next (fun o member => .inr ⟨o, member, rfl, rfl⟩)
      (fun j => ?_) cold) trivial
    exact mem_retrying_turn there (fun _ => rfl) fun o member still k retry =>
      ⟨o, member, still, retry⟩
  | died i phase there =>
    refine iff_of_true (kept.settle next (fun o member => .inr ⟨o, member, rfl, rfl⟩)
      (fun j => ?_) cold) trivial
    exact mem_retrying_turn there nofun fun o member still k retry => ⟨o, member, still, retry⟩
  | tripped i error there =>
    refine iff_of_true
      (kept.settle next (fun o member => ?_) (fun j => ?_) (fun closed o member still => ?_))
        trivial
    · rcases List.mem_cons.mp member with rfl | older
      · exact .inl rfl
      · exact .inr ⟨o, older, rfl, rfl⟩
    · refine mem_retrying_turn there nofun fun o member still k retry => ?_
      rcases List.mem_cons.mp member with rfl | older
      · cases retry
      · exact ⟨o, older, still, retry⟩
    · have cooled : w.service.now + cooldown ≤ w.service.now := not_lt.mp (of_decide_eq_false closed)
      rcases List.mem_cons.mp member with rfl | older
      · exact cooled
      · exact (add_le_add_left (sound.recorded o older).past cooldown).trans cooled
  | reset i value there =>
    constructor
    · intro after
      have closed := (after.cold next) (decide_eq_false (not_lt.mpr sound.clock))
      by_contra asked
      obtain ⟨o, member, still, cooling⟩ := kept.opened.mp (Bool.not_eq_false _ ▸ asked)
      have here := List.mem_map_of_mem (f := Outage.recover i) member
      cases retried : o.retries.contains i with
      | false => exact absurd (closed _ here (by rw [Outage.recover, still, retried]; rfl)) (not_le.mpr cooling)
      | true =>
        have ran := (sound.recorded o member).ran i (by simpa using retried)
          (by simp [Service.underway, there, Phase.underway])
        exact absurd (kept.elapsed sound member ran) (not_le.mpr cooling)
    · intro closed
      refine kept.settle next (fun o member => ?_) (fun j => ?_) (fun _ o member still => ?_)
      · obtain ⟨p, old, rfl⟩ := List.mem_map.mp member
        exact .inr ⟨p, old, rfl, rfl⟩
      · refine mem_retrying_turn there nofun fun o member still k retry => ?_
        obtain ⟨p, old, rfl⟩ := List.mem_map.mp member
        exact ⟨p, old, (Bool.or_eq_false_iff.mp still).1, retry⟩
      · obtain ⟨p, old, rfl⟩ := List.mem_map.mp member
        exact cold closed p old (Bool.or_eq_false_iff.mp still).1

end Watched

end Kept

namespace Watched

theorem sound_kept (cooldown : Time) (w : Watched Time A E) (e : Event Time A E)
    (t : Watched Time A E)
    (step : w.Step cooldown e t) (sound : w.Sound cooldown) : t.Sound cooldown :=
  sound.kept (stepped step)

theorem Kept.initial (cooldown : Time) : (Watched.initial : Watched Time A E).Kept cooldown where
  cooled := nofun
  alone := nofun
  opened := Sound.initial.opened_iff.mpr fun _ => nofun

/-- The promise is kept in every state of a run exactly if every step of the run meets the
condition. -/
theorem promise_kept_iff [AddRightMono Time] (cooldown : Time) {events : List (Event Time A E)}
    {w : Watched Time A E} (run : Path (Step cooldown) initial events w) :
    (∀ before after m, events = before ++ after → Path (Step cooldown) initial before m →
      m.Kept cooldown) ↔
      Path (fun w e t => w.Step cooldown e t ∧ w.Meets e) initial events w := by
  apply run.throughout_iff Meets (Sound cooldown) (Kept cooldown)
  · intro w e t u first second
    exact Option.some.inj (first.symm.trans second)
  · exact sound_kept cooldown
  · intro w e t step sound kept
    exact kept_iff_meets sound kept (stepped step)
  · exact Sound.initial
  · exact Kept.initial cooldown

end Watched

end Promise

section Runs

/-- A call fails, a second one is turned away, a third one succeeds once the cooldown is over, and a
fourth one starts at once. -/
def recovery : List (Event ℕ ℕ String) :=
  [.call, .act 0 .isOpen, .act 0 .start, .act 0 (.finish (.error "refused")),
    .act 0 .trip, .tick 10,
    .call, .act 1 .isOpen, .tick DEFAULT_COOLDOWN_MILLIS, .call, .act 2 .isOpen, .act 2 .start,
    .act 2 (.finish (.ok 7)), .act 2 .reset, .call, .act 3 .isOpen, .act 3 .start]

theorem recovery_kept : ∃ w : Watched ℕ ℕ String,
    Path (Watched.Step DEFAULT_COOLDOWN_MILLIS) .initial recovery w ∧
      w.Kept DEFAULT_COOLDOWN_MILLIS := by
  have ends : (follow
      (fun w e => if w.Meets e then Watched.advance DEFAULT_COOLDOWN_MILLIS w e else none)
      .initial recovery).isSome = true := by decide
  obtain ⟨w, followed⟩ := Option.isSome_iff_exists.mp ends
  have path := (path_guarded (Watched.advance DEFAULT_COOLDOWN_MILLIS)).mpr followed
  have run := path.mono fun _ _ _ step => step.1
  exact ⟨w, run, (Watched.promise_kept_iff DEFAULT_COOLDOWN_MILLIS run).mpr path recovery [] w
    (by simp) run⟩

/-- The first of two calls fails and trips the breaker. The second one, which started before,
succeeds and resets it, and a third one starts two milliseconds into the cooldown. -/
def staleSuccess : List (Event ℕ ℕ String) :=
  [.call, .call, .act 0 .isOpen, .act 1 .isOpen, .act 0 .start, .act 1 .start,
    .act 0 (.finish (.error "refused")), .act 0 .trip, .tick 1, .act 1 (.finish (.ok 7)),
      .act 1 .reset,
    .tick 2, .call, .act 2 .isOpen, .act 2 .start]

/-- A call that was let through starts after another one has tripped the breaker. -/
def lateStart : List (Event ℕ ℕ String) :=
  [.call, .call, .act 0 .isOpen, .act 1 .isOpen, .act 0 .start, .act 0 (.finish (.error "refused")),
    .act 0 .trip, .tick 1, .act 1 .start]

/-- Two calls are let through once the cooldown is over. -/
def twoRetries : List (Event ℕ ℕ String) :=
  [.call, .act 0 .isOpen, .act 0 .start, .act 0 (.finish (.error "refused")), .act 0 .trip,
    .tick DEFAULT_COOLDOWN_MILLIS, .call, .call, .act 1 .isOpen, .act 1 .start, .act 2 .isOpen,
      .act 2 .start]

theorem promise_broken :
    (∃ w : Watched ℕ ℕ String, Path (Watched.Step DEFAULT_COOLDOWN_MILLIS) .initial staleSuccess w ∧
      ¬ w.Kept DEFAULT_COOLDOWN_MILLIS) ∧
    (∃ w : Watched ℕ ℕ String, Path (Watched.Step DEFAULT_COOLDOWN_MILLIS) .initial lateStart w ∧
      ¬ w.Kept DEFAULT_COOLDOWN_MILLIS) ∧
    (∃ w : Watched ℕ ℕ String, Path (Watched.Step DEFAULT_COOLDOWN_MILLIS) .initial twoRetries w ∧
      ¬ w.Kept DEFAULT_COOLDOWN_MILLIS) := by
  refine ⟨⟨_, (path_iff_follow _).mpr rfl, fun kept => ?_⟩,
    ⟨_, (path_iff_follow _).mpr rfl, fun kept => ?_⟩,
    ⟨_, (path_iff_follow _).mpr rfl, fun kept => ?_⟩⟩
  · exact absurd (kept.cooled _ (.head _) _ (.head _)) (by decide)
  · exact absurd (kept.cooled _ (.head _) _ (.head _)) (by decide)
  · exact absurd (kept.alone 1 (by decide) 2 (by decide)) (by decide)

end Runs

end Metahumotonic.Breaker
