import Metahumotonic.Cache.TtlCache

/-! Who holds the in-flight slot of a key, and when an effect may start. The claim of the
slot is atomic, but the read that found no entry lies before it, and the read that looks
for the other's deferred lies after it: a fiber that ends in between makes one more effect
run. -/
namespace Metahumotonic.Cache

open Library

variable {A : Type u} {E : Type v} {o : Options} {s t : Runtime A E} {i : Nat} {f : Fiber A E}

/-- From the claim of the slot to its release. -/
def Pc.claims : Pc A E → Bool
  | .ready claimed | .producing claimed => claimed
  | .settled _ | .put _ _ | .complete _ | .release _ => true
  | _ => false

/-- The fiber that claimed a key has its slot. -/
def Owners (s : Runtime A E) : Prop :=
  ∀ i f, s.fibers[i]? = some f → f.pc.claims = true → s.state.inFlight.get? f.key = some i

/-- A fiber that moves without claiming or releasing a slot. -/
theorem Owners.write (owners : Owners s) {f' : Fiber A E} (there : s.fibers[i]? = some f)
    (fibers : t.fibers = s.fibers.set i f') (inFlight : t.state.inFlight = s.state.inFlight)
    (key : f'.key = f.key) (claims : f'.pc.claims = true → f.pc.claims = true) : Owners t := by
  intro j g found claiming
  rw [fibers, getElem?_set_iff there] at found
  rw [inFlight]
  rcases found with ⟨rfl, rfl⟩ | ⟨_, found⟩
  · rw [key]
    exact owners j f there (claims claiming)
  · exact owners j g found claiming

theorem Owners.turn (owners : Owners s) (there : s.fibers[i]? = some f) (turned : Turned o s i f t) :
    Owners t := by
  cases turned with
  | off here _ | clocked here _ | hit _ _ here _ _ | missed _ here | refused _ here _ | joined _ here _
  | lost here _ | served _ _ _ here _ _ | struck _ _ here _ _ =>
    exact owners.write there rfl rfl rfl fun claims => (Bool.false_ne_true claims).elim
  | began claimed here | timed _ here | stored _ _ here | succeeded _ here | broke _ here _ =>
    exact owners.write there rfl rfl rfl fun claims => by rw [here]; exact claims
  | claimed here free =>
    intro j g found claiming
    rcases (getElem?_set_iff there).mp found with ⟨rfl, rfl⟩ | ⟨_, found⟩
    · exact Table.get?_set_self _ _ _
    · have taken := owners j g found claiming
      have other : g.key ≠ f.key := by
        intro same
        rw [same, free] at taken
        cases taken
      exact (Table.get?_set_ne _ _ other).trans taken
  | released exit here =>
    intro j g found claiming
    rcases (getElem?_set_iff there).mp found with ⟨rfl, rfl⟩ | ⟨different, found⟩
    · cases claiming
    · have taken := owners j g found claiming
      have other : g.key ≠ f.key := by
        intro same
        have own := owners i f there (by rw [here]; rfl)
        rw [same, own] at taken
        exact different (Option.some.inj taken).symm
      exact (Table.get?_erase _ _ _ _).mpr ⟨taken, other⟩

theorem Owners.step (owners : Owners s) {e : Event A E} (stepped : Stepped o s e t) : Owners t := by
  cases stepped with
  | ticked _ | invalidated _ | cleared => exact owners
  | called key =>
    intro j g found claiming
    rcases getElem?_concat_iff.mp found with ⟨_, rfl⟩ | ⟨_, old⟩
    · cases claiming
    · exact owners j g old claiming
  | turned i f there turned => exact owners.turn there turned
  | finished i f there claimed exit here own =>
    refine owners.write there rfl rfl rfl fun claims => ?_
    cases claimed with
    | true => rw [here]; rfl
    | false => cases claims
  | flagged i f there _ => exact owners.write there rfl rfl rfl fun claims => claims
  | stopped i f there _ _ =>
    exact owners.write there rfl rfl rfl fun claims => (Bool.false_ne_true claims).elim

section SingleFlight

/-- No entry of the key is fresh. -/
def Stale (s : Runtime A E) (key : String) : Prop :=
  ∀ entry ∈ s.state.entries.get? key, entry.expiresAtMillis ≤ s.clock

/-- An effect starts only if no entry of its key is fresh and no other effect for the key is
in flight. -/
def StartsAlone (s : Runtime A E) : Event A E → Prop
  | .step i => ∀ f ∈ s.fibers[i]?, ∀ claimed, f.pc = .ready claimed →
      Stale s f.key ∧ ∀ g ∈ s.fibers, g.key = f.key → ∀ other, g.pc ≠ .producing other
  | _ => True

/-- No other fiber ends between the reads of a fiber and its claim: when the slot is claimed
there is still no fresh entry, and when it could not be claimed it is still taken. -/
def Undisturbed (s : Runtime A E) : Event A E → Prop
  | .step i => ∀ f ∈ s.fibers[i]?,
      (f.pc = .claim → s.state.inFlight.get? f.key = none → Stale s f.key) ∧
      (f.pc = .reread → s.state.inFlight.get? f.key ≠ none)
  | _ => True

/-- In a run without such a disturbance every effect is run under a claim, and there is no
fresh entry until it has run. -/
structure Sole (s : Runtime A E) : Prop where
  owners : Owners s
  claimed : ∀ (i : Nat) (f : Fiber A E) (claimed : Bool), s.fibers[i]? = some f →
    f.pc = .ready claimed ∨ f.pc = .producing claimed →
    claimed = true
  stale : ∀ (i : Nat) (f : Fiber A E), s.fibers[i]? = some f → f.pc = .ready true → Stale s f.key

theorem Stale.mono {key : String} (stale : Stale s key) (clock : s.clock ≤ t.clock)
    (entries : ∀ entry, t.state.entries.get? key = some entry →
      s.state.entries.get? key = some entry) :
    Stale t key :=
  fun entry found => (stale entry (entries entry found)).trans clock

/-- A fiber that moves to no effect of its own. -/
theorem Sole.write (sole : Sole s) {f' : Fiber A E} (there : s.fibers[i]? = some f)
    (fibers : t.fibers = s.fibers.set i f') (owners : Owners t)
    (claimed : ∀ claimed, f'.pc = .ready claimed ∨ f'.pc = .producing claimed → claimed = true)
    (stale : f'.pc = .ready true → Stale t f'.key)
    (still : ∀ (j : Nat) (g : Fiber A E), j ≠ i → s.fibers[j]? = some g → g.pc = .ready true →
      Stale s g.key → Stale t g.key) :
    Sole t := by
  refine ⟨owners, ?_, ?_⟩
  · intro j g flag found
    rw [fibers, getElem?_set_iff there] at found
    rcases found with ⟨rfl, rfl⟩ | ⟨_, found⟩
    · exact claimed flag
    · exact sole.claimed j g flag found
  · intro j g found ready
    rw [fibers, getElem?_set_iff there] at found
    rcases found with ⟨rfl, rfl⟩ | ⟨other, found⟩
    · exact stale ready
    · exact still j g other found ready (sole.stale j g found ready)

theorem Sole.turn (sole : Sole s) (enabled : o.ttlMillis ≠ 0) (there : s.fibers[i]? = some f)
    (quiet : Undisturbed s (.step i : Event A E)) (turned : Turned o s i f t) : Sole t := by
  have owners := sole.owners.turn there turned
  have quiet := quiet f there
  cases turned with
  | off here zero => exact absurd zero enabled
  | lost here free => exact absurd free (quiet.2 here)
  | clocked here _ | hit _ _ here _ _ | missed _ here | refused _ here _ | joined _ here _
  | served _ _ _ here _ _ | struck _ _ here _ _ | timed _ here | succeeded _ here | broke _ here _
  | released _ here =>
    refine sole.write there rfl owners ?_ ?_ fun _ _ _ _ _ stale => stale
    · simp
    · simp
  | began claimed here =>
    refine sole.write there rfl owners ?_ ?_ fun _ _ _ _ _ stale => stale
    · rintro flag (ready | producing)
      · cases ready
      · cases producing
        exact sole.claimed i f claimed there (.inl here)
    · simp
  | claimed here free =>
    refine sole.write there rfl owners ?_ ?_ fun _ _ _ _ _ stale => stale
    · simp
    · exact fun _ => quiet.1 here free
  | stored value now here =>
    refine sole.write there rfl owners ?_ ?_ ?_
    · simp
    · simp
    · intro j g other found ready stale
      have own := sole.owners i f there (by rw [here]; rfl)
      have others := sole.owners j g found (by rw [ready]; rfl)
      have different : g.key ≠ f.key := by
        intro same
        rw [same, own] at others
        exact other (Option.some.inj others).symm
      refine stale.mono le_rfl fun entry found => ?_
      rcases put_entries found with same | old
      · exact absurd same.1 different
      · exact old.2

theorem Sole.step (sole : Sole s) (enabled : o.ttlMillis ≠ 0) {e : Event A E}
    (quiet : Undisturbed s e)
    (stepped : Stepped o s e t) : Sole t := by
  have owners := sole.owners.step stepped
  cases stepped with
  | ticked millis =>
    refine ⟨owners, sole.claimed, fun i f there ready => ?_⟩
    refine (sole.stale i f there ready).mono ?_ fun _ found => found
    exact Int.le_add_of_nonneg_right (Int.natCast_nonneg millis)
  | invalidated key =>
    refine ⟨owners, sole.claimed, fun i f there ready => ?_⟩
    refine (sole.stale i f there ready).mono le_rfl fun entry found => ?_
    exact ((Table.get?_erase _ _ _ _).mp found).1
  | cleared =>
    refine ⟨owners, sole.claimed, fun i f there ready => ?_⟩
    refine (sole.stale i f there ready).mono le_rfl fun entry found => ?_
    cases found
  | called key =>
    refine ⟨owners, ?_, ?_⟩
    · intro i f flag there running
      rcases getElem?_concat_iff.mp there with ⟨_, rfl⟩ | ⟨_, old⟩
      · simp at running
      · exact sole.claimed i f flag old running
    · intro i f there ready
      rcases getElem?_concat_iff.mp there with ⟨_, rfl⟩ | ⟨_, old⟩
      · cases ready
      · exact sole.stale i f old ready
  | turned i f there turned => exact sole.turn enabled there quiet turned
  | finished i f there claimed exit here own =>
    refine sole.write there rfl owners ?_ ?_ fun _ _ _ _ _ stale => stale
    · cases claimed <;> cases exit <;> simp [Exit.finalizer]
    · cases claimed <;> cases exit <;> simp [Exit.finalizer]
  | flagged i f there _ =>
    exact sole.write there rfl owners (fun flag running => sole.claimed i f flag there running)
      (sole.stale i f there) fun _ _ _ _ _ stale => stale
  | stopped i f there _ _ =>
    refine sole.write there rfl owners ?_ ?_ fun _ _ _ _ _ stale => stale
    · simp
    · simp

theorem Sole.initial : Sole ({} : Runtime A E) where
  owners := by simp [Owners]
  claimed i f claimed there := by simp at there
  stale i f there := by simp at there

theorem Sole.starts_alone (sole : Sole s) (e : Event A E) : StartsAlone s e := by
  cases e with
  | step i =>
    intro f there claimed ready
    cases sole.claimed i f claimed there (.inl ready)
    refine ⟨sole.stale i f there ready, ?_⟩
    intro g member same other producing
    obtain ⟨j, found⟩ := List.getElem?_of_mem member
    cases sole.claimed j g other found (.inr producing)
    have own := sole.owners i f there (by rw [ready]; rfl)
    have others := sole.owners j g found (by rw [producing]; rfl)
    rw [same, own] at others
    cases others
    rw [there] at found
    cases found
    rw [ready] at producing
    cases producing
  | _ => trivial

/-- In a run in which no fiber ends between the reads of another and its claim, every effect
starts alone, on a miss. -/
theorem single_flight (o : Options) (ttl : 0 < o.ttlSeconds) {events : List (Event A E)}
    {s : Runtime A E}
    (run : Path (fun s e t => Step o s e t ∧ Undisturbed s e) {} events s) :
    Path (fun s e t => Step o s e t ∧ StartsAlone s e) {} events s := by
  have enabled : o.ttlMillis ≠ 0 := by
    unfold Options.ttlMillis
    omega
  apply run.mono_of_invariant Sole _ _ Sole.initial
  · intro s e t step sole
    exact sole.step enabled step.2 (step_stepped step.1)
  · intro s e t sole step
    exact ⟨step.1, sole.starts_alone e⟩

section Sample

instance (s : Runtime A E) (key : String) : Decidable (Stale s key) :=
  inferInstanceAs (Decidable (∀ entry ∈ s.state.entries.get? key, entry.expiresAtMillis ≤ s.clock))

instance [DecidableEq A] [DecidableEq E] (s : Runtime A E) : ∀ e, Decidable (StartsAlone s e)
  | .step i => inferInstanceAs (Decidable (∀ f ∈ s.fibers[i]?, ∀ claimed, f.pc = .ready claimed →
      Stale s f.key ∧ ∀ g ∈ s.fibers, g.key = f.key → ∀ other, g.pc ≠ .producing other))
  | .tick _ | .get _ | .finish _ _ | .interrupt _ | .stop _ | .invalidate _ | .clear =>
    .isTrue trivial

instance [DecidableEq A] [DecidableEq E] (s : Runtime A E) : ∀ e, Decidable (Undisturbed s e)
  | .step i => inferInstanceAs (Decidable (∀ f ∈ s.fibers[i]?,
      (f.pc = .claim → s.state.inFlight.get? f.key = none → Stale s f.key) ∧
      (f.pc = .reread → s.state.inFlight.get? f.key ≠ none)))
  | .tick _ | .get _ | .finish _ _ | .interrupt _ | .stop _ | .invalidate _ | .clear =>
    .isTrue trivial

def sampleOptions : Options := ⟨60, 8⟩

/-- The second fiber finds the slot taken, and gets the value of the first one. -/
def joinEvents : List (Event Nat String) :=
  [.get "k", .get "k", .step 0, .step 0, .step 0, .step 0, .step 1, .step 1, .step 1, .step 1,
    .finish 0 (.success 7), .step 0, .step 0, .step 0, .step 1, .step 0]

theorem single_flight_sample :
    ∃ s, Path (fun s e t => Step sampleOptions s e t ∧ StartsAlone s e) {}
    joinEvents s := by
  have quiet : (follow (fun s e => if Undisturbed s e then advance sampleOptions s e else none) {}
      joinEvents).isSome = true := by
    decide
  obtain ⟨s, ended⟩ := Option.isSome_iff_exists.mp quiet
  exact ⟨s, single_flight sampleOptions (by decide) ((path_guarded _).mpr ended)⟩

/-- The first fiber reads that there is no entry. Before its claim the second one reads,
claims, stores a value and releases the slot. -/
def overtakenEvents : List (Event Nat String) :=
  [.get "k", .get "k", .step 0, .step 0, .step 1, .step 1, .step 1, .step 1, .finish 1 (.success 7),
    .step 1, .step 1, .step 1, .step 1, .step 0, .step 0]

/-- The effect of the first fiber is run although the entry is fresh. -/
theorem effect_may_start_on_a_hit : ∃ s, Path (Step sampleOptions) {} overtakenEvents s ∧
    ¬ Path (fun s e t => Step sampleOptions s e t ∧ StartsAlone s e) {} overtakenEvents s := by
  have runs : (follow (advance sampleOptions) {} overtakenEvents).isSome = true := by decide
  have stuck : (follow (fun s e => if StartsAlone s e then advance sampleOptions s e else none) {}
      overtakenEvents).isNone = true := by
    decide
  obtain ⟨s, ended⟩ := Option.isSome_iff_exists.mp runs
  refine ⟨s, (path_iff_follow _).mpr ended, fun alone => ?_⟩
  rw [path_guarded, Option.isNone_iff_eq_none.mp stuck] at alone
  cases alone

end Sample

end SingleFlight

end Metahumotonic.Cache
