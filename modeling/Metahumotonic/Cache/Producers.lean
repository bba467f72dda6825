import Metahumotonic.Cache.LockTable

/-! What every suspension point of the Python cache meets: the bounds of both tables, what a
waiter is handed, and, while no key has two locks in use, one producer for each key. -/
namespace Metahumotonic.Cache.Asyncio

open Library

variable {A : Type u} {E : Type v} {c : Config} {s t : State A E}

section Bounds

def Bounded (c : Config) (s : State A E) : Prop := s.store.size ≤ c.cap ∧ s.locks.size ≤ c.cap

/-- What is in the store is what was produced last. -/
def Latest (s : State A E) : Prop := ∀ key hit, s.store.get? key = some hit →
    s.made.get? key = some hit

/-- The store only loses entries, and the table of the locks stays in its bound. -/
structure Shrinks (c : Config) (s t : State A E) : Prop where
  store : t.store.size ≤ s.store.size
  locks : s.locks.size ≤ c.cap → t.locks.size ≤ c.cap
  subset : ∀ k v, t.store.get? k = some v → s.store.get? k = some v
  made : t.made = s.made

theorem Shrinks.bounded (shrinks : Shrinks c s t) (bounded : Bounded c s) : Bounded c t :=
  ⟨Nat.le_trans shrinks.store bounded.1, shrinks.locks bounded.2⟩

theorem Shrinks.latest (shrinks : Shrinks c s t) (latest : Latest s) : Latest t := by
  intro key hit found
  rw [shrinks.made]
  exact latest key hit (shrinks.subset key hit found)

theorem Shrinks.trans {m : State A E} (first : Shrinks c s m) (second : Shrinks c m t) :
    Shrinks c s t where
  store := Nat.le_trans second.store first.store
  locks small := second.locks (first.locks small)
  subset k v found := first.subset k v (second.subset k v found)
  made := second.made.trans first.made

theorem fresh_shrinks (c : Config) (key : String) (s : State A E) :
    Shrinks c s (fresh c key s).2 := by
  rcases fresh_cases c key s with ⟨hit, _, _, same⟩ | ⟨store, same, small, subset, _⟩
  · rw [same]
    exact ⟨size_moveToEnd _ _, fun small => small, fun k v found => by simpa using found, rfl⟩
  · rw [same]
    exact ⟨small, fun small => small, subset, rfl⟩

theorem lockFor_shrinks (c : Config) (key : String) (s : State A E) :
    Shrinks c s (lockFor c key s).2 := by
  unfold lockFor
  split
  · exact ⟨Nat.le_refl _, fun _ => size_popOldest _ _, fun _ _ found => found, rfl⟩
  · exact ⟨Nat.le_refl _, fun _ => size_popOldest _ _, fun _ _ found => found, rfl⟩

theorem critical_shrinks (c : Config) (key : String) (i : Nat) (lock : Lock) (s : State A E) :
    Shrinks c s (critical c key i lock s).2 := by
  rcases critical_cases c key i lock s with ⟨hit, _, _, same⟩ | ⟨store, same, small, subset, _⟩
  · rw [same]
    exact ⟨size_moveToEnd _ _, fun small => small, fun k v found => by simpa using found, rfl⟩
  · rw [same]
    exact ⟨small, fun small => small, subset, rfl⟩

theorem acquire_shrinks (c : Config) (key : String) (i : Nat) (s : State A E) :
    Shrinks c s (acquire c key i s) := by
  unfold acquire
  dsimp only
  split
  · have inner := critical_shrinks c key i (s.heap.getD i {}) s
    exact ⟨inner.store, inner.locks, inner.subset, inner.made⟩
  · exact ⟨Nat.le_refl _, fun small => small, fun _ _ found => found, rfl⟩

theorem getOrSet_shrinks (c : Config) (key : String) (s : State A E) :
    Shrinks c s (getOrSet c key s) := by
  unfold getOrSet
  split
  · exact ⟨Nat.le_refl _, fun small => small, fun _ _ found => found, rfl⟩
  · have look := fresh_shrinks c key s
    split
    · rename_i value m found
      rw [found] at look
      exact ⟨look.store, look.locks, look.subset, look.made⟩
    · rename_i m found
      rw [found] at look
      exact (look.trans (lockFor_shrinks c key m)).trans (acquire_shrinks c key _ _)

theorem resume_shrinks {j : Nat} {call : Call A E} (step : resume c s j call = some t) :
    Shrinks c s t := by
  unfold resume at step
  split at step
  · rename_i i waits
    dsimp only at step
    split at step
    · cases Option.some.inj step
      have inner := critical_shrinks c call.key i
        { s.heap.getD i {} with waiters := (s.heap.getD i {}).waiters.tail } s
      exact ⟨inner.store, inner.locks, inner.subset, inner.made⟩
    · cases step
  · cases step

theorem size_erased (gone : List String) (locks : Table String Nat) :
    (gone.foldl Table.erase locks).size ≤ locks.size := by
  induction gone generalizing locks with
  | nil => exact Nat.le_refl _
  | cons key rest ih => exact Nat.le_trans (ih _) (size_erase locks key)

/-- A producer that ends leaves the bounds, and the store with what was produced last. -/
theorem finish_keeps {j : Nat} {call : Call A E} {result : Except E A} (bounded : Bounded c s)
    (latest : Latest s) (step : finish c s j call result = some t) : Bounded c t ∧ Latest t := by
  unfold finish at step
  split at step
  · cases result with
    | error error =>
      cases Option.some.inj step
      exact ⟨bounded, latest⟩
    | ok value =>
      cases Option.some.inj step
      refine ⟨⟨size_popOldest _ _, Nat.le_trans (size_erased _ _) bounded.2⟩, ?_⟩
      intro key hit found
      have stored := get?_popOldest found
      rw [get?_moveToEnd, Table.get?_set] at stored
      show (s.made.set call.key (s.clock, value)).get? key = some hit
      rw [Table.get?_set]
      split at stored
      · rename_i same
        rw [if_pos same]
        exact stored
      · rename_i other
        rw [if_neg other]
        exact latest key hit stored
  · cases Option.some.inj step
    exact ⟨bounded, latest⟩
  · cases step

theorem bounds_step (bounded : Bounded c s) (latest : Latest s) {e : Event A E}
    (step : Step c s e t) :
    Bounded c t ∧ Latest t := by
  cases e with
  | tick later =>
    cases Option.some.inj step
    exact ⟨bounded, latest⟩
  | call key =>
    cases Option.some.inj step
    have shrinks := getOrSet_shrinks c key s
    exact ⟨shrinks.bounded bounded, shrinks.latest latest⟩
  | resume j =>
    obtain ⟨call, there, step⟩ := Option.bind_eq_some_iff.mp step
    have shrinks := resume_shrinks step
    exact ⟨shrinks.bounded bounded, shrinks.latest latest⟩
  | finish j result =>
    obtain ⟨call, there, step⟩ := Option.bind_eq_some_iff.mp step
    exact finish_keeps bounded latest step

end Bounds

section SingleFlight

def Pc.runs : Pc A E → Bool
  | .producing _ | .unguarded => true
  | _ => false

/-- At most one producer of a key is running. -/
def Exclusive (s : State A E) : Prop :=
  ∀ j j' call call', s.At j call → s.At j' call' → call.key = call'.key →
    call.pc.runs = true → call'.pc.runs = true → j = j'

/-- A waiter that gets the lock returns what was produced last for its key, if that is fresh
and still in the store. -/
def HandsOver (c : Config) (s : State A E) : Prop :=
  ∀ j call i t time value, s.At j call → call.pc = .waiting i → Step c s (.resume j : Event A E) t →
    s.made.get? call.key = some (time, value) → s.clock - time < c.ttl →
      s.store.get? call.key ≠ none →
    t.At j { call with pc := .returned (.ok value) }

theorem Guarded.producing (guarded : Guarded s) {j : Nat} {call : Call A E} (there : s.At j call)
    (runs : call.pc.runs = true) : ∃ i, call.pc = .producing i := by
  cases pc : call.pc with
  | producing i => exact ⟨i, rfl⟩
  | unguarded => exact absurd pc (guarded.guarded j call there)
  | waiting i =>
    rw [pc] at runs
    cases runs
  | returned result =>
    rw [pc] at runs
    cases runs

theorem Guarded.exclusive (guarded : Guarded s) : Exclusive s := by
  intro j j' call call' there there' same runs runs'
  obtain ⟨i, producing⟩ := guarded.producing there runs
  obtain ⟨i', producing'⟩ := guarded.producing there' runs'
  have lock := guarded.same j j' call call' i i' there there' same (by rw [producing]; rfl)
    (by rw [producing']; rfl)
  subst lock
  exact guarded.sole j j' call call' i there there' producing producing'

theorem Latest.hands_over (latest : Latest s) : HandsOver c s := by
  intro j call i t time value there waits step made young stored
  obtain ⟨hit, found⟩ := Option.ne_none_iff_exists'.mp stored
  have last : hit = (time, value) := Option.some.inj ((latest call.key hit found).symm.trans made)
  subst last
  obtain ⟨call', there', step⟩ := Option.bind_eq_some_iff.mp step
  cases Option.some.inj (there.symm.trans there')
  unfold resume at step
  rw [waits] at step
  dsimp only at step
  split at step
  · cases Option.some.inj step
    rcases critical_cases c call.key i
        { s.heap.getD i {} with waiters := (s.heap.getD i {}).waiters.tail } s with
      ⟨hit, found', _, same⟩ | ⟨store, _, _, _, old⟩
    · cases Option.some.inj (found.symm.trans found')
      rw [same]
      exact getElem?_set_iff there |>.mpr (.inl ⟨rfl, rfl⟩)
    · exact absurd young (old _ found)
  · cases step

/-- In a run in which no key has two locks in use, at most one producer of a key is running at
a time, waiters are handed what was produced, and both tables stay in their bound. -/
theorem one_producer_at_a_time (c : Config) (ttl : 0 < c.ttl) {events : List (Event A E)}
    {s : State A E}
    (run : Path (fun s e t => Step c s e t ∧ Unsplit c s e) {} events s) :
    Exclusive s ∧ HandsOver c s ∧ Bounded c s := by
  have kept := run.invariant (fun s => Guarded s ∧ Bounded c s ∧ Latest s) (fun s e t step held =>
    ⟨held.1.step ttl step.2 step.1, bounds_step held.2.1 held.2.2 step.1⟩) ?_
  · exact ⟨kept.1.exclusive, kept.2.2.hands_over, kept.2.1⟩
  · refine ⟨?_, ?_, ?_⟩
    · constructor <;> simp [State.At]
    · exact ⟨Nat.zero_le _, Nat.zero_le _⟩
    · intro key hit found
      cases found

section Sample

instance (c : Config) (s : State A E) : ∀ e, Decidable (Unsplit c s e)
  | .call key => inferInstanceAs
    (Decidable ((fresh c key s).1.isNone = true → s.locks.get? key = none →
      ∀ call ∈ s.calls, call.key = key → call.pc.lock = none))
  | .tick _ | .resume _ | .finish _ _ => .isTrue trivial

def oneEntry : Config := ⟨60, 1⟩

/-- The second call waits for the first one and is handed its value. -/
def handedEvents : List (Event Nat String) := [.call "a", .call "a", .finish 0 (.ok 7), .resume 1]

theorem one_producer_sample : ∃ s, Path (fun s e t => Step oneEntry s e t ∧ Unsplit oneEntry s e) {}
    handedEvents s ∧ Exclusive s ∧ HandsOver oneEntry s ∧ Bounded oneEntry s := by
  have unsplit : (follow (fun s e => if Unsplit oneEntry s e then advance oneEntry s e else none) {}
      handedEvents).isSome = true := by
    decide
  obtain ⟨s, ended⟩ := Option.isSome_iff_exists.mp unsplit
  have run := (path_guarded _).mpr ended
  exact ⟨s, run, one_producer_at_a_time oneEntry (by decide) run⟩

/-- The call for another key takes the lock of the first call out of the table. -/
def splitEvents : List (Event Nat String) := [.call "a", .call "b", .call "a"]

/-- Two producers of one key run. -/
theorem producers_may_overlap : ∃ s, Path (Step oneEntry) {} splitEvents s ∧ ¬ Exclusive s := by
  have computed : (follow (advance oneEntry) {} splitEvents).map
      (fun s => s.calls.map fun call => (call.key, call.pc.runs)) =
      some [("a", true), ("b", true), ("a", true)] := by
    decide
  obtain ⟨s, ended, calls⟩ := Option.map_eq_some_iff.mp computed
  refine ⟨s, (path_iff_follow _).mpr ended, fun exclusive => ?_⟩
  have at_ : ∀ j : Nat, (s.calls[j]?).map (fun call : Call Nat String => (call.key, call.pc.runs)) =
      [("a", true), ("b", true), ("a", true)][j]? := by
    intro j
    rw [← calls, List.getElem?_map]
  obtain ⟨first, there, same⟩ := Option.map_eq_some_iff.mp (at_ 0)
  obtain ⟨third, there', same'⟩ := Option.map_eq_some_iff.mp (at_ 2)
  obtain ⟨key, runs⟩ := Prod.mk.inj same
  obtain ⟨key', runs'⟩ := Prod.mk.inj same'
  exact absurd (exclusive 0 2 first third there there' (key.trans key'.symm) runs runs') (by decide)

end Sample

end SingleFlight



end Metahumotonic.Cache.Asyncio
