import Metahumotonic.Cache.SingleFlight

/-! What a call of `get` ends with. A fiber that waits for the deferred of another one ends
as that deferred does, and a producer that fails or is interrupted interrupts it. -/
namespace Metahumotonic.Cache

open Library

variable {A : Type u} {E : Type v} {o : Options} {s t : Runtime A E} {i : Nat} {f : Fiber A E}

/-- The effect of a fiber with this key ended with this value. -/
def Produced (s : Runtime A E) (key : String) (value : A) : Prop :=
  ∃ g ∈ s.fibers, g.key = key ∧ g.produced = some (.success value)

/-- A fiber that was not interrupted does not end by interruption, it fails only as its own
effect did, and it succeeds with the value of an effect for its key. -/
def Isolated (s : Runtime A E) : Prop :=
  ∀ f ∈ s.fibers, match f.pc with
    | .ended .interrupt => f.interrupted = true
    | .ended (.failure error) => f.produced = some (.failure error)
    | .ended (.success value) => Produced s f.key value
    | _ => True

/-- A fiber that goes on after it has waited was interrupted itself, or the effect that it
waited for has succeeded. -/
def Spared (s : Runtime A E) : Event A E → Prop
  | .step i => ∀ f ∈ s.fibers[i]?, ∀ other, f.pc = .await other → f.interrupted = false →
      ∀ g ∈ s.fibers[other]?, ∃ value, g.produced = some (.success value)
  | _ => True

section Outcomes

/-- What is known of the outcome of the own effect. -/
def Pc.outcome : Pc A E → Option (Exit A E) → Prop
  | .settled value, produced | .put value _, produced => produced = some (.success value)
  | .complete exit, produced | .release exit, produced => produced = some exit
  | .ended _, _ => True
  | _, produced => produced = none

structure Fiber.Consistent (f : Fiber A E) : Prop where
  outcome : f.pc.outcome f.produced
  flagged : f.produced = some .interrupt → f.interrupted = true
  succeeded : ∀ value, f.deferred = .succeeded value → f.produced = some (.success value)
  broke : f.deferred = .interrupted → ∃ exit, f.produced = some exit ∧
    ∀ value, exit ≠ .success value

/-- Where the values come from, and whom a fiber waits for. -/
structure Told (s : Runtime A E) : Prop where
  consistent : ∀ f ∈ s.fibers, f.Consistent
  entries : ∀ key entry, s.state.entries.get? key = some entry → Produced s key entry.value
  slots : ∀ (key : String) (i : Nat), s.state.inFlight.get? key = some i →
    ∃ g, s.fibers[i]? = some g ∧ g.key = key
  awaits : ∀ f ∈ s.fibers, ∀ other, f.pc = .await other → ∃ g, s.fibers[other]? = some g ∧
    g.key = f.key
  values : ∀ f ∈ s.fibers, ∀ value, f.pc = .ended (.success value) → Produced s f.key value

/-- The fibers keep their keys, and what their effects ended with. -/
def Grows (s t : Runtime A E) : Prop :=
  ∀ (i : Nat) (f : Fiber A E), s.fibers[i]? = some f → ∃ f', t.fibers[i]? = some f' ∧
    f'.key = f.key ∧
    ∀ exit, f.produced = some exit → f'.produced = some exit

theorem Grows.produced (grows : Grows s t) {key : String} {value : A}
    (produced : Produced s key value) :
    Produced t key value := by
  obtain ⟨g, member, rfl, made⟩ := produced
  obtain ⟨j, there⟩ := List.getElem?_of_mem member
  obtain ⟨g', still, key, kept⟩ := grows j g there
  exact ⟨g', List.mem_of_getElem? still, key, kept _ made⟩

theorem Grows.keyed (grows : Grows s t) {key : String} {i : Nat}
    (named : ∃ g, s.fibers[i]? = some g ∧ g.key = key) : ∃ g, t.fibers[i]? = some g ∧
      g.key = key := by
  obtain ⟨g, there, rfl⟩ := named
  obtain ⟨g', still, key, _⟩ := grows i g there
  exact ⟨g', still, key⟩

theorem Grows.write {f' : Fiber A E} (there : s.fibers[i]? = some f)
    (fibers : t.fibers = s.fibers.set i f') (key : f'.key = f.key)
    (kept : ∀ exit, f.produced = some exit → f'.produced = some exit) : Grows s t := by
  intro j g found
  by_cases same : j = i
  · subst same
    rw [there] at found
    cases found
    refine ⟨f', ?_, key, kept⟩
    rw [fibers]
    exact (getElem?_set_iff there).mpr (.inl ⟨rfl, rfl⟩)
  · refine ⟨g, ?_, rfl, fun _ made => made⟩
    rw [fibers]
    exact (getElem?_set_iff there).mpr (.inr ⟨same, found⟩)

theorem mem_write {f' g : Fiber A E} (there : s.fibers[i]? = some f)
    (member : g ∈ s.fibers.set i f') :
    g = f' ∨ g ∈ s.fibers := by
  obtain ⟨j, found⟩ := List.getElem?_of_mem member
  rcases (getElem?_set_iff there).mp found with ⟨_, same⟩ | ⟨_, old⟩
  · exact .inl same
  · exact .inr (List.mem_of_getElem? old)

/-- One fiber moves, and the reference may change with it. -/
theorem Told.write (told : Told s) {f' : Fiber A E} (there : s.fibers[i]? = some f)
    (fibers : t.fibers = s.fibers.set i f') (key : f'.key = f.key)
    (kept : ∀ exit, f.produced = some exit → f'.produced = some exit) (consistent : f'.Consistent)
    (entries : ∀ key entry, t.state.entries.get? key = some entry →
      s.state.entries.get? key = some entry ∨ Produced s key entry.value)
    (slots : ∀ key j, t.state.inFlight.get? key = some j →
      s.state.inFlight.get? key = some j ∨ (j = i ∧ key = f.key))
    (awaits : ∀ other, f'.pc = .await other → ∃ g, s.fibers[other]? = some g ∧ g.key = f.key)
    (values : ∀ value, f'.pc = .ended (.success value) →
      Produced s f.key value ∨ f'.produced = some (.success value)) : Told t := by
  have grows := Grows.write there fibers key kept
  refine ⟨?_, ?_, ?_, ?_, ?_⟩
  · intro g member
    rcases mem_write there (fibers ▸ member) with rfl | old
    · exact consistent
    · exact told.consistent g old
  · intro key entry found
    rcases entries key entry found with old | new
    · exact grows.produced (told.entries key entry old)
    · exact grows.produced new
  · intro key' j found
    rcases slots key' j found with old | ⟨rfl, rfl⟩
    · exact grows.keyed (told.slots key' j old)
    · exact grows.keyed ⟨f, there, rfl⟩
  · intro g member other waits
    rcases mem_write there (fibers ▸ member) with rfl | old
    · rw [key]
      exact grows.keyed (awaits other waits)
    · exact grows.keyed (told.awaits g old other waits)
  · intro g member value ended
    rcases mem_write there (fibers ▸ member) with rfl | old
    · rw [key]
      rcases values value ended with before | own
      · exact grows.produced before
      · exact ⟨g, member, key, own⟩
    · exact grows.produced (told.values g old value ended)

theorem Told.turn (told : Told s) (there : s.fibers[i]? = some f) (turned : Turned o s i f t) :
    Told t := by
  have self := List.mem_of_getElem? there
  have own := told.consistent f self
  have outcome := own.outcome
  have made : ∀ exit : Exit A E, f.produced = some exit → f.produced = some exit :=
    fun _ same => same
  have old : ∀ key entry, s.state.entries.get? key = some entry →
      s.state.entries.get? key = some entry ∨ Produced s key entry.value :=
        fun _ _ found => .inl found
  have taken : ∀ key j, s.state.inFlight.get? key = some j →
      s.state.inFlight.get? key = some j ∨ (j = i ∧ key = f.key) := fun _ _ found => .inl found
  cases turned with
  | off here _ | clocked here _ | missed _ here | refused _ here _ | lost here _ | began _ here
  | timed _ here =>
    rw [here] at outcome
    refine told.write there rfl rfl made ⟨outcome, own.flagged, own.succeeded, own.broke⟩
      old taken ?_ ?_
    · simp
    · simp
  | struck other g here found completed =>
    refine told.write there rfl rfl made ⟨trivial, own.flagged, own.succeeded, own.broke⟩
      old taken ?_ ?_
    · simp
    · simp
  | hit now entry here found fresh =>
    refine told.write there rfl rfl made ⟨trivial, own.flagged, own.succeeded, own.broke⟩
      old taken ?_ ?_
    · simp
    · rintro value ended
      cases ended
      exact .inl (told.entries f.key entry found)
  | served other g value here found completed =>
    refine told.write there rfl rfl made ⟨trivial, own.flagged, own.succeeded, own.broke⟩
      old taken ?_ ?_
    · simp
    · rintro value' ended
      cases ended
      have member := List.mem_of_getElem? found
      obtain ⟨g', same, key⟩ := told.awaits f self other here
      cases Option.some.inj (found.symm.trans same)
      exact .inl ⟨g, member, key, (told.consistent g member).succeeded value completed⟩
  | joined other here found =>
    rw [here] at outcome
    refine told.write there rfl rfl made ⟨outcome, own.flagged, own.succeeded, own.broke⟩
      old taken ?_ ?_
    · rintro other' waits
      cases waits
      exact told.slots f.key other found
    · simp
  | claimed here free =>
    rw [here] at outcome
    refine told.write there rfl rfl made ⟨outcome, own.flagged, own.succeeded, own.broke⟩
      old ?_ ?_ ?_
    · intro key j found
      by_cases same : key = f.key
      · subst same
        exact .inr ⟨(Option.some.inj (found.symm.trans (Table.get?_set_self _ _ _))), rfl⟩
      · exact .inl ((Table.get?_set_ne _ _ same).symm.trans found)
    · simp
    · simp
  | stored value now here =>
    rw [here] at outcome
    refine told.write there rfl rfl made ⟨outcome, own.flagged, own.succeeded, own.broke⟩
      ?_ taken ?_ ?_
    · intro key entry found
      rcases put_entries found with ⟨rfl, rfl⟩ | ⟨_, before⟩
      · exact .inr ⟨f, self, rfl, outcome⟩
      · exact .inl before
    · simp
    · simp
  | succeeded value here =>
    rw [here] at outcome
    refine told.write there rfl rfl made ⟨outcome, own.flagged, ?_, ?_⟩ old taken ?_ ?_
    · rintro value' completed
      cases completed
      exact outcome
    · simp
    · simp
    · simp
  | broke exit here failed =>
    rw [here] at outcome
    refine told.write there rfl rfl made ⟨outcome, own.flagged, ?_, ?_⟩ old taken ?_ ?_
    · simp
    · exact fun _ => ⟨exit, outcome, failed⟩
    · simp
    · simp
  | released exit here =>
    rw [here] at outcome
    refine told.write there rfl rfl made ⟨trivial, own.flagged, own.succeeded, own.broke⟩
      old ?_ ?_ ?_
    · intro key j found
      exact .inl ((Table.get?_erase _ _ _ _).mp found).1
    · simp
    · rintro value ended
      cases ended
      exact .inl ⟨f, self, rfl, outcome⟩

theorem Told.step (told : Told s) {e : Event A E} (stepped : Stepped o s e t) : Told t := by
  cases stepped with
  | ticked millis => exact ⟨told.consistent, told.entries, told.slots, told.awaits, told.values⟩
  | invalidated key =>
    refine ⟨told.consistent, ?_, told.slots, told.awaits, told.values⟩
    intro key' entry found
    exact told.entries key' entry ((Table.get?_erase _ _ _ _).mp found).1
  | cleared =>
    refine ⟨told.consistent, ?_, told.slots, told.awaits, told.values⟩
    intro key entry found
    cases found
  | called key =>
    have grows : Grows s { s with fibers := s.fibers ++ [{ key := key }] } := by
      intro j g found
      have inside := (List.getElem?_eq_some_iff.mp found).1
      exact ⟨g, (List.getElem?_append_left inside).trans found, rfl, fun _ made => made⟩
    refine ⟨?_, ?_, ?_, ?_, ?_⟩
    · intro g member
      rcases List.mem_append.mp member with old | new
      · exact told.consistent g old
      · cases List.mem_singleton.mp new
        exact ⟨rfl, by simp, by simp, by simp⟩
    · intro key' entry found
      exact grows.produced (told.entries key' entry found)
    · intro key' j found
      exact grows.keyed (told.slots key' j found)
    · intro g member other waits
      rcases List.mem_append.mp member with old | new
      · exact grows.keyed (told.awaits g old other waits)
      · cases List.mem_singleton.mp new
        cases waits
    · intro g member value ended
      rcases List.mem_append.mp member with old | new
      · exact grows.produced (told.values g old value ended)
      · cases List.mem_singleton.mp new
        cases ended
  | turned i f there turned => exact told.turn there turned
  | finished i f there claimed exit here own =>
    have before := told.consistent f (List.mem_of_getElem? there)
    have none_ : f.produced = none := by
      have outcome := before.outcome
      rwa [here] at outcome
    have fresh : ∀ exit : Exit A E, f.produced ≠ some exit := fun _ made => by
      rw [none_] at made
      cases made
    refine told.write there rfl rfl (fun exit made => absurd made (fresh exit)) ⟨?_, ?_, ?_, ?_⟩
      (fun _ _ found => .inl found) (fun _ _ found => .inl found) ?_ ?_
    · cases claimed with
      | true => cases exit <;> rfl
      | false => trivial
    · intro made
      exact own (Option.some.inj made)
    · intro value completed
      exact absurd (before.succeeded value completed) (fresh _)
    · intro broken
      obtain ⟨exit, made, _⟩ := before.broke broken
      exact absurd made (fresh exit)
    · cases claimed <;> cases exit <;> simp [Exit.finalizer]
    · intro value ended
      cases claimed with
      | true => cases exit <;> simp [Exit.finalizer] at ended
      | false =>
        cases ended
        exact .inr rfl
  | flagged i f there inside =>
    have own := told.consistent f (List.mem_of_getElem? there)
    refine told.write there rfl rfl (fun _ same => same)
      ⟨own.outcome, fun _ => rfl, own.succeeded, own.broke⟩
      (fun _ _ found => .inl found) (fun _ _ found => .inl found)
      (told.awaits f (List.mem_of_getElem? there)) ?_
    intro value ended
    have ended : f.pc = .ended (.success value) := ended
    rw [ended] at inside
    cases inside
  | stopped i f there flag open_ =>
    have own := told.consistent f (List.mem_of_getElem? there)
    refine told.write there rfl rfl (fun _ same => same)
      ⟨trivial, own.flagged, own.succeeded, own.broke⟩
      (fun _ _ found => .inl found) (fun _ _ found => .inl found) ?_ ?_
    · simp
    · simp

end Outcomes

section Isolation

/-- How a fiber that was not interrupted may end other than with a value. -/
def Fiber.blameless (f : Fiber A E) : Prop :=
  match f.pc with
  | .ended .interrupt => f.interrupted = true
  | .ended (.failure error) => f.produced = some (.failure error)
  | _ => True

theorem blameless_inside (inside : f.pc.left = false) : f.blameless := by
  unfold Fiber.blameless
  split
  · rename_i ended
    rw [ended] at inside
    cases inside
  · rename_i ended
    rw [ended] at inside
    cases inside
  · trivial

/-- A fiber that has not ended is blameless, and where it goes decides if it stays so. -/
theorem blameless_write {f' : Fiber A E} (there : s.fibers[i]? = some f)
    (inside : f.pc.left = false)
    (fibers : t.fibers = s.fibers.set i f') :
    (∀ g ∈ t.fibers, g.blameless) ↔ (∀ g ∈ s.fibers, g.blameless) ∧ f'.blameless := by
  have free := blameless_inside inside
  rw [fibers]
  constructor
  · intro all
    refine ⟨fun g member => ?_, all f' ?_⟩
    · obtain ⟨j, found⟩ := List.getElem?_of_mem member
      by_cases same : j = i
      · subst same
        cases Option.some.inj (there.symm.trans found)
        exact free
      · exact all g (List.mem_of_getElem? ((getElem?_set_iff there).mpr (.inr ⟨same, found⟩)))
    · exact List.mem_of_getElem? ((getElem?_set_iff there).mpr (.inl ⟨rfl, rfl⟩))
  · rintro ⟨all, new⟩ g member
    rcases mem_write there member with rfl | old
    · exact new
    · exact all g old

theorem blameless_turn (told : Told s) (there : s.fibers[i]? = some f) (turned : Turned o s i f t) :
    (∀ g ∈ t.fibers, g.blameless) ↔ (∀ g ∈ s.fibers, g.blameless) ∧
      Spared s (.step i : Event A E) := by
  have self := List.mem_of_getElem? there
  have own := told.consistent f self
  have spared : (∀ other, f.pc ≠ .await other) → Spared s (.step i : Event A E) := by
    intro free f' same other waits
    cases Option.some.inj (there.symm.trans same)
    exact absurd waits (free other)
  cases turned with
  | off here _ | clocked here _ | missed _ here | refused _ here _ | lost here _ | began _ here
  | timed _ here | hit _ _ here _ _ | joined _ here _ | claimed here _ | stored _ _ here
  | succeeded _ here | broke _ here _ =>
    rw [blameless_write there (by rw [here]; rfl) rfl]
    apply and_congr_right'
    exact iff_of_true trivial (spared (by simp [here]))
  | served other g value here found completed =>
    rw [blameless_write there (by rw [here]; rfl) rfl]
    apply and_congr_right'
    refine iff_of_true trivial ?_
    intro f' same other' waits _ g' found'
    cases Option.some.inj (there.symm.trans same)
    cases here.symm.trans waits
    cases Option.some.inj (found.symm.trans found')
    exact ⟨value, (told.consistent g (List.mem_of_getElem? found)).succeeded value completed⟩
  | struck other g here found completed =>
    rw [blameless_write there (by rw [here]; rfl) rfl]
    apply and_congr_right'
    obtain ⟨exit, made, failed⟩ := (told.consistent g (List.mem_of_getElem? found)).broke completed
    constructor
    · intro flag f' same other' waits unflagged
      cases Option.some.inj (there.symm.trans same)
      have flag : f.interrupted = true := flag
      rw [unflagged] at flag
      cases flag
    · intro spared
      by_contra unflagged
      obtain ⟨value, succeeded⟩ :=
        spared f there other here (Bool.eq_false_iff.mpr unflagged) g found
      exact failed value (Option.some.inj (made.symm.trans succeeded))
  | released exit here =>
    rw [blameless_write there (by rw [here]; rfl) rfl]
    apply and_congr_right'
    refine iff_of_true ?_ (spared (by simp [here]))
    have outcome := own.outcome
    rw [here] at outcome
    cases exit with
    | success value => trivial
    | failure error => exact outcome
    | interrupt => exact own.flagged outcome

theorem blameless_step (told : Told s) {e : Event A E} (stepped : Stepped o s e t) :
    (∀ g ∈ t.fibers, g.blameless) ↔ (∀ g ∈ s.fibers, g.blameless) ∧ Spared s e := by
  cases stepped with
  | ticked millis => exact (and_iff_left trivial).symm
  | invalidated key => exact (and_iff_left trivial).symm
  | cleared => exact (and_iff_left trivial).symm
  | called key =>
    simp [Fiber.blameless, Spared, or_imp, forall_and]
  | turned i f there turned => exact blameless_turn told there turned
  | finished i f there claimed exit here own =>
    rw [blameless_write there (by rw [here]; rfl) rfl]
    apply and_congr_right'
    refine iff_of_true ?_ trivial
    cases claimed with
    | true => cases exit <;> trivial
    | false =>
      cases exit with
      | success value => trivial
      | failure error => rfl
      | interrupt => exact own rfl
  | flagged i f there inside =>
    rw [blameless_write there inside rfl]
    apply and_congr_right'
    exact iff_of_true (blameless_inside inside) trivial
  | stopped i f there flag open_ =>
    have inside : f.pc.left = false := by
      cases pc : f.pc with
      | ended exit =>
        rw [pc] at open_
        cases open_
      | _ => rfl
    rw [blameless_write there inside rfl]
    apply and_congr_right'
    exact iff_of_true flag trivial

/-- The values need no condition. -/
theorem isolated_iff_blameless (told : Told s) : Isolated s ↔ ∀ f ∈ s.fibers, f.blameless := by
  constructor
  · intro isolated f member
    have own := isolated f member
    unfold Fiber.blameless
    split at own <;> simp_all
  · intro blameless f member
    have own := blameless f member
    unfold Fiber.blameless at own
    split
    · rename_i ended
      simpa only [ended] using own
    · rename_i error ended
      simpa only [ended] using own
    · rename_i value ended
      exact told.values f member value ended
    · trivial

theorem Told.initial : Told ({} : Runtime A E) :=
  ⟨List.forall_mem_nil _, by simp, by simp, List.forall_mem_nil _, List.forall_mem_nil _⟩

theorem told_kept (s : Runtime A E) (e : Event A E) (t : Runtime A E) (step : Step o s e t)
    (told : Told s) : Told t :=
  told.step (step_stepped step)

/-- In a run every waiter is isolated exactly if each one goes on from an effect that has
succeeded. -/
theorem waiters_isolated_iff (o : Options) {events : List (Event A E)} {s : Runtime A E}
    (run : Path (Step o) {} events s) :
    Isolated s ↔ Path (fun s e t => Step o s e t ∧ Spared s e) {} events s := by
  have whole := run.kept_iff Spared Told (fun s => ∀ f ∈ s.fibers, f.blameless)
    (fun _ _ _ _ step step' => Option.some.inj (step.symm.trans step')) told_kept
    (fun _ _ _ step told => blameless_step told (step_stepped step)) Told.initial
  rw [isolated_iff_blameless (run.invariant Told told_kept Told.initial), whole]
  exact and_iff_right (List.forall_mem_nil _)

section Sample

/-- The second fiber waits for the first one, and the effect of the first one fails. -/
def struckEvents : List (Event Nat String) :=
  [.get "k", .get "k", .step 0, .step 0, .step 0, .step 0, .step 1, .step 1, .step 1, .step 1,
    .finish 0 (.failure "down"), .step 0, .step 1]

theorem struck_run : ∃ s, Path (Step sampleOptions) {} struckEvents s ∧
    s.fibers[1]? = some { key := "k", pc := .ended .interrupt, interrupted := false } := by
  have computed : (follow (advance sampleOptions) {} struckEvents).map (fun s => s.fibers[1]?) =
      some (some { key := "k", pc := .ended .interrupt, interrupted := false }) := by
    decide
  obtain ⟨s, ended, fiber⟩ := Option.map_eq_some_iff.mp computed
  exact ⟨s, (path_iff_follow _).mpr ended, fiber⟩

theorem waiters_isolated_sample : ∃ s, Path (Step sampleOptions) {} struckEvents s ∧
    (Isolated s ↔ Path (fun s e t => Step sampleOptions s e t ∧ Spared s e) {} struckEvents s) := by
  obtain ⟨s, run, _⟩ := struck_run
  exact ⟨s, run, waiters_isolated_iff sampleOptions run⟩

/-- A waiter that was not interrupted ends by interruption. -/
theorem waiter_may_be_interrupted : ∃ s, Path (Step sampleOptions) {} struckEvents s ∧
    ¬ Isolated s := by
  obtain ⟨s, run, fiber⟩ := struck_run
  refine ⟨s, run, fun isolated => ?_⟩
  have flag := isolated _ (List.mem_of_getElem? fiber)
  exact absurd flag Bool.false_ne_true

end Sample

end Isolation

end Metahumotonic.Cache
