import Metahumotonic.Cache.Asyncio

/-! Who may produce. The lock of a key keeps its calls apart as long as they all use the
same lock, and the table of the locks forgets one when too many keys are asked for. -/
namespace Metahumotonic.Cache.Asyncio

open Library

variable {A : Type u} {E : Type v} {c : Config} {s t : State A E}

section Tables

variable {α : Type w} {table : Table String α}

@[simp] theorem get?_moveToEnd (table : Table String α) (key k : String) :
    (moveToEnd table key).get? k = table.get? k := by
  unfold moveToEnd
  split
  · rename_i value found
    rw [Table.get?_set]
    by_cases same : k = key
    · subst same
      simp [found]
    · apply Option.ext
      intro v
      simp [same, Table.get?_erase]
  · rfl

theorem get?_popOldest {cap : Nat} {k : String} {v : α}
    (found : (popOldest cap table).get? k = some v) :
    table.get? k = some v := by
  rw [← Table.mem_entries] at found ⊢
  exact List.mem_of_mem_drop found

theorem size_popOldest (cap : Nat) (table : Table String α) : (popOldest cap table).size ≤ cap := by
  simp only [popOldest, Table.size, List.length_drop]
  omega

theorem size_erase (table : Table String α) (key : String) : (table.erase key).size ≤ table.size :=
  List.length_filter_le _ _

theorem size_moveToEnd (table : Table String α) (key : String) :
    (moveToEnd table key).size ≤ table.size := by
  unfold moveToEnd
  split
  · rename_i value found
    have absent : key ∉ (table.erase key).keys := by
      rw [Table.not_mem_keys]
      apply Option.eq_none_iff_forall_ne_some.mpr
      intro v there
      exact ((Table.get?_erase _ _ _ _).mp there).2 rfl
    have fewer : (table.erase key).size < table.size := by
      apply List.length_filter_lt_length_iff_exists.mpr
      exact ⟨(key, value), (Table.mem_entries _ _ _).mpr found, by simp⟩
    rw [Table.size_set_new _ _ absent]
    exact fewer
  · exact Nat.le_refl _

end Tables

section Locks

def Pc.lock : Pc A E → Option Nat
  | .waiting i | .producing i => some i
  | _ => none

def lockAt (heap : List Lock) (i : Nat) : Lock := heap.getD i {}

theorem lockAt_set {heap : List Lock} {i : Nat} (inside : i < heap.length) (lock : Lock) (k : Nat) :
    lockAt (heap.set i lock) k = if k = i then lock else lockAt heap k := by
  unfold lockAt
  rw [List.getD_eq_getElem?_getD, List.getElem?_set, List.getD_eq_getElem?_getD]
  by_cases same : i = k
  · subst same
    simp [inside]
  · simp [same, Ne.symm same]

def State.At (s : State A E) (j : Nat) (call : Call A E) : Prop := s.calls[j]? = some call

/-- All calls of a key that are inside use one lock, which is the one in the table if the
table has one, and a lock that is held has one holder. -/
structure Guarded (s : State A E) : Prop where
  guarded : ∀ j call, s.At j call → call.pc ≠ .unguarded
  inside : ∀ j call i, s.At j call → call.pc.lock = some i → i < s.heap.length
  listed : ∀ key i, s.locks.get? key = some i → i < s.heap.length
  same : ∀ j j' call call' i i', s.At j call → s.At j' call' → call.key = call'.key →
    call.pc.lock = some i → call'.pc.lock = some i' → i = i'
  table : ∀ key i j call i', s.locks.get? key = some i → s.At j call → call.key = key →
    call.pc.lock = some i' → i' = i
  locked : ∀ j call i, s.At j call → call.pc = .producing i → (lockAt s.heap i).locked = true
  sole : ∀ j j' call call' i, s.At j call → s.At j' call' → call.pc = .producing i →
    call'.pc = .producing i → j = j'

/-- One call is new or moves, and it uses the lock of its key or none. -/
theorem Guarded.place (guarded : Guarded s) {j : Nat} {call : Call A E}
    (places : ∀ k x, t.At k x ↔ (k = j ∧ x = call) ∨ (k ≠ j ∧ s.At k x))
    (length : t.heap.length = s.heap.length)
    (locks : ∀ key i, t.locks.get? key = some i → s.locks.get? key = some i)
    (bare : call.pc ≠ .unguarded) (inside : ∀ i, call.pc.lock = some i → i < s.heap.length)
    (own : ∀ i, call.pc.lock = some i → ∀ k x i', k ≠ j → s.At k x → x.key = call.key →
      x.pc.lock = some i' → i' = i)
    (listed : ∀ i, call.pc.lock = some i → ∀ i', s.locks.get? call.key = some i' → i' = i)
    (held : ∀ k x i, k ≠ j → s.At k x → x.pc = .producing i → (lockAt t.heap i).locked = true)
    (mine : ∀ i, call.pc = .producing i → (lockAt t.heap i).locked = true ∧
      ∀ k x, k ≠ j → s.At k x → x.pc ≠ .producing i) : Guarded t := by
  refine ⟨?_, ?_, ?_, ?_, ?_, ?_, ?_⟩
  · intro k x there
    rcases (places k x).mp there with ⟨_, rfl⟩ | ⟨_, old⟩
    · exact bare
    · exact guarded.guarded k x old
  · intro k x i there uses
    rw [length]
    rcases (places k x).mp there with ⟨_, rfl⟩ | ⟨_, old⟩
    · exact inside i uses
    · exact guarded.inside k x i old uses
  · intro key i found
    rw [length]
    exact guarded.listed key i (locks key i found)
  · intro k k' x x' i i' there there' key uses uses'
    rcases (places k x).mp there with ⟨_, rfl⟩ | ⟨other, old⟩
    · rcases (places k' x').mp there' with ⟨_, rfl⟩ | ⟨other', old'⟩
      · exact Option.some.inj (uses.symm.trans uses')
      · exact (own i uses k' x' i' other' old' key.symm uses').symm
    · rcases (places k' x').mp there' with ⟨_, rfl⟩ | ⟨other', old'⟩
      · exact own i' uses' k x i other old key uses
      · exact guarded.same k k' x x' i i' old old' key uses uses'
  · intro key i k x i' found there same uses
    have before := locks key i found
    rcases (places k x).mp there with ⟨_, rfl⟩ | ⟨_, old⟩
    · subst same
      exact (listed i' uses i before).symm
    · exact guarded.table key i k x i' before old same uses
  · intro k x i there producing
    rcases (places k x).mp there with ⟨_, rfl⟩ | ⟨other, old⟩
    · exact (mine i producing).1
    · exact held k x i other old producing
  · intro k k' x x' i there there' producing producing'
    rcases (places k x).mp there with ⟨rfl, rfl⟩ | ⟨other, old⟩
    · rcases (places k' x').mp there' with ⟨rfl, rfl⟩ | ⟨other', old'⟩
      · rfl
      · exact absurd producing' ((mine i producing).2 k' x' other' old')
    · rcases (places k' x').mp there' with ⟨rfl, rfl⟩ | ⟨other', old'⟩
      · exact absurd producing ((mine i producing').2 k x other old)
      · exact guarded.sole k k' x x' i old old' producing producing'

/-- The locks, their table and the calls are all that counts. -/
theorem Guarded.frame (guarded : Guarded s) (heap : t.heap = s.heap) (calls : t.calls = s.calls)
    (locks : ∀ key i, t.locks.get? key = some i → s.locks.get? key = some i) : Guarded t := by
  have same : ∀ j call, t.At j call → s.At j call := by
    intro j call there
    rwa [State.At, calls] at there
  refine ⟨?_, ?_, ?_, ?_, ?_, ?_, ?_⟩
  · exact fun j call there => guarded.guarded j call (same j call there)
  · exact fun j call i there uses => heap ▸ guarded.inside j call i (same j call there) uses
  · exact fun key i found => heap ▸ guarded.listed key i (locks key i found)
  · exact fun j j' call call' i i' there there' =>
      guarded.same j j' call call' i i' (same j call there) (same j' call' there')
  · exact fun key i j call i' found there =>
      guarded.table key i j call i' (locks key i found) (same j call there)
  · exact fun j call i there producing => heap ▸ guarded.locked j call i
      (same j call there) producing
  · exact fun j j' call call' i there there' =>
      guarded.sole j j' call call' i (same j call there) (same j' call' there')

theorem at_push {call : Call A E} (calls : t.calls = s.calls ++ [call]) (k : Nat) (x : Call A E) :
    t.At k x ↔ (k = s.calls.length ∧ x = call) ∨ (k ≠ s.calls.length ∧ s.At k x) := by
  rw [State.At, calls, getElem?_concat_iff]
  rfl

theorem at_set {j : Nat} {call old : Call A E} (there : s.At j old)
    (calls : t.calls = s.calls.set j call)
    (k : Nat) (x : Call A E) : t.At k x ↔ (k = j ∧ x = call) ∨ (k ≠ j ∧ s.At k x) := by
  rw [State.At, calls, getElem?_set_iff there]
  rfl

/-- What a look at the store finds, and what it leaves of the store. -/
theorem fresh_cases (c : Config) (key : String) (s : State A E) :
    (∃ hit, s.store.get? key = some hit ∧ s.clock - hit.1 < c.ttl ∧
      fresh c key s = (some hit.2, { s with store := moveToEnd s.store key })) ∨
    (∃ store, fresh c key s = (none, { s with store := store }) ∧ store.size ≤ s.store.size ∧
      (∀ k v, store.get? k = some v → s.store.get? k = some v) ∧
      ∀ hit, s.store.get? key = some hit → ¬ s.clock - hit.1 < c.ttl) := by
  unfold fresh
  cases found : s.store.get? key with
  | none => exact .inr ⟨s.store, rfl, Nat.le_refl _, fun _ _ same => same, by simp⟩
  | some hit =>
    by_cases young : s.clock - hit.1 < c.ttl
    · exact .inl ⟨hit, rfl, young, if_pos young⟩
    · refine .inr ⟨s.store.erase key, if_neg young, size_erase _ _, ?_, ?_⟩
      · intro k v there
        exact ((Table.get?_erase _ _ _ _).mp there).1
      · intro other same
        cases same
        exact young

/-- The lock of a key: the one that its calls use. -/
structure LockOf (s : State A E) (key : String) (i : Nat) : Prop where
  inside : i < s.heap.length
  own : ∀ k x i', s.At k x → x.key = key → x.pc.lock = some i' → i' = i
  listed : ∀ i', s.locks.get? key = some i' → i' = i

theorem Guarded.lockFor (guarded : Guarded s) (key : String)
    (unsplit : s.locks.get? key = none → ∀ j call, s.At j call → call.key = key →
      call.pc.lock = none) :
    Guarded (lockFor c key s).2 ∧ LockOf (lockFor c key s).2 key (lockFor c key s).1 ∧
      (lockFor c key s).2.calls = s.calls := by
  unfold Asyncio.lockFor
  cases found : s.locks.get? key with
  | some i =>
    have fewer : ∀ k i', (popOldest c.cap (moveToEnd s.locks key)).get? k = some i' →
        s.locks.get? k = some i' := by
      intro k i' there
      simpa using get?_popOldest there
    refine ⟨guarded.frame rfl rfl fewer, ⟨guarded.listed key i found, ?_, ?_⟩, rfl⟩
    · exact fun k x i' there => guarded.table key i k x i' found there
    · intro i' there
      exact Option.some.inj ((fewer key i' there).symm.trans found)
  | none =>
    have fewer : ∀ k i', (popOldest c.cap (moveToEnd (s.locks.set key s.heap.length) key)).get?
        k = some i' →
        (k = key ∧ i' = s.heap.length) ∨ s.locks.get? k = some i' := by
      intro k i' there
      have before := get?_popOldest there
      rw [get?_moveToEnd, Table.get?_set] at before
      split at before
      · rename_i same
        exact .inl ⟨same, (Option.some.inj before).symm⟩
      · exact .inr before
    have unused := unsplit found
    have longer : ∀ i, i < s.heap.length → i < (s.heap ++ [({} : Lock)]).length := by
      intro i inside
      rw [List.length_append]
      exact Nat.lt_add_right _ inside
    have kept : ∀ i, i < s.heap.length → lockAt (s.heap ++ [({} : Lock)]) i = lockAt s.heap i := by
      intro i inside
      unfold lockAt
      rw [List.getD_eq_getElem?_getD, List.getElem?_append_left inside, List.getD_eq_getElem?_getD]
    refine ⟨⟨guarded.guarded, ?_, ?_, guarded.same, ?_, ?_, guarded.sole⟩, ⟨?_, ?_, ?_⟩, rfl⟩
    · intro j call i there uses
      exact longer i (guarded.inside j call i there uses)
    · intro k i there
      rcases fewer k i there with ⟨_, rfl⟩ | before
      · simp
      · exact longer i (guarded.listed k i before)
    · intro k i j call i' there at_ same uses
      rcases fewer k i there with ⟨rfl, rfl⟩ | before
      · rw [unused j call at_ same] at uses
        cases uses
      · exact guarded.table k i j call i' before at_ same uses
    · intro j call i there producing
      have inside := guarded.inside j call i there (by rw [producing]; rfl)
      exact (kept i inside).symm ▸ guarded.locked j call i there producing
    · simp
    · intro k x i' there same uses
      rw [unused k x there same] at uses
      cases uses
    · intro i' there
      rcases fewer key i' there with ⟨_, same⟩ | before
      · exact same
      · rw [found] at before
        cases before

/-- Who holds the lock returns what is fresh, or produces. -/
theorem critical_cases (c : Config) (key : String) (i : Nat) (lock : Lock) (s : State A E) :
    (∃ hit, s.store.get? key = some hit ∧ s.clock - hit.1 < c.ttl ∧
      critical c key i lock s = (.returned (.ok hit.2),
        { s with store := moveToEnd s.store key, heap :=
          s.heap.set i { lock with locked := false } })) ∨
    (∃ store, critical c key i lock s = (.producing i,
        { s with store := store, heap := s.heap.set i { lock with locked := true } }) ∧
      store.size ≤ s.store.size ∧ (∀ k v, store.get? k = some v → s.store.get? k = some v) ∧
      ∀ hit, s.store.get? key = some hit → ¬ s.clock - hit.1 < c.ttl) := by
  unfold critical
  rcases fresh_cases c key s with ⟨hit, found, young, same⟩ | ⟨store, same, rest⟩
  · rw [same]
    exact .inl ⟨hit, found, young, rfl⟩
  · rw [same]
    exact .inr ⟨store, rfl, rest⟩

/-- A call takes a lock that is free. -/
theorem Guarded.takes (guarded : Guarded s) {j i : Nat} {key : String} {lock : Lock}
    (free : (lockAt s.heap i).locked = false) (inside : i < s.heap.length)
    (own : ∀ k x i', k ≠ j → s.At k x → x.key = key → x.pc.lock = some i' → i' = i)
    (listed : ∀ i', s.locks.get? key = some i' → i' = i)
    (places : ∀ k x, t.At k x ↔
      (k = j ∧ x = ⟨key, (critical c key i lock s).1⟩) ∨ (k ≠ j ∧ s.At k x))
    (heap : t.heap = (critical c key i lock s).2.heap) (locks : t.locks = s.locks) : Guarded t := by
  have unheld : ∀ k x, s.At k x → x.pc ≠ .producing i := by
    intro k x there producing
    have locked := guarded.locked k x i there producing
    rw [free] at locked
    cases locked
  have others : ∀ (new : Lock) k x i', s.At k x → x.pc = .producing i' →
      (lockAt (s.heap.set i new) i').locked = true := by
    intro new k x i' there producing
    have differs : i' ≠ i := by
      rintro rfl
      exact unheld k x there producing
    rw [lockAt_set inside, if_neg differs]
    exact guarded.locked k x i' there producing
  rcases critical_cases c key i lock s with ⟨hit, _, _, same⟩ | ⟨store, same, _⟩
  · rw [same] at places heap
    refine guarded.place places ?_ ?_ ?_ ?_ ?_ ?_ ?_ ?_
    · rw [heap, List.length_set]
    · exact fun _ _ found => locks ▸ found
    · simp
    · simp [Pc.lock]
    · simp [Pc.lock]
    · simp [Pc.lock]
    · exact fun k x i' _ there producing => heap ▸ others _ k x i' there producing
    · simp
  · rw [same] at places heap
    refine guarded.place places ?_ ?_ ?_ ?_ ?_ ?_ ?_ ?_
    · rw [heap, List.length_set]
    · exact fun _ _ found => locks ▸ found
    · simp
    · rintro i' uses
      cases uses
      exact inside
    · rintro i' uses
      cases uses
      exact own
    · rintro i' uses
      cases uses
      exact listed
    · exact fun k x i' _ there producing => heap ▸ others _ k x i' there producing
    · rintro i' producing
      cases producing
      refine ⟨?_, fun k x _ there => unheld k x there⟩
      rw [heap, lockAt_set inside, if_pos rfl]

theorem critical_frame (c : Config) (key : String) (i : Nat) (lock : Lock) (s : State A E) :
    (critical c key i lock s).2.calls = s.calls ∧ (critical c key i lock s).2.locks = s.locks := by
  rcases critical_cases c key i lock s with ⟨hit, _, _, same⟩ | ⟨store, same, _⟩
  · rw [same]
    exact ⟨rfl, rfl⟩
  · rw [same]
    exact ⟨rfl, rfl⟩

theorem Guarded.acquire (guarded : Guarded s) {key : String} {i : Nat} (lockOf : LockOf s key i) :
    Guarded (acquire c key i s) := by
  unfold Asyncio.acquire
  dsimp only
  split
  · rename_i free
    have frame := critical_frame c key i (s.heap.getD i {}) s
    refine guarded.takes (c := c) (j := s.calls.length) free.1 lockOf.inside
      (fun k x i' _ there => lockOf.own k x i' there) lockOf.listed ?_ rfl frame.2
    apply at_push
    exact congrArg (· ++ _) frame.1
  · refine guarded.place (at_push rfl) ?_ (fun _ _ found => found) ?_ ?_ ?_ ?_ ?_ ?_
    · exact List.length_set
    · simp
    · rintro i' uses
      cases uses
      exact lockOf.inside
    · rintro i' uses k x i'' _ there
      cases uses
      exact lockOf.own k x i'' there
    · rintro i' uses
      cases uses
      exact lockOf.listed
    · intro k x i' _ there producing
      have locked := guarded.locked k x i' there producing
      show (lockAt (s.heap.set i _) i').locked = true
      rw [lockAt_set lockOf.inside]
      split
      · rename_i same
        exact same ▸ locked
      · exact locked
    · simp

/-- A call finds no lock for its key in the table only when no call of the key is inside. -/
def Unsplit (c : Config) (s : State A E) : Event A E → Prop
  | .call key => (fresh c key s).1.isNone = true → s.locks.get? key = none →
      ∀ call ∈ s.calls, call.key = key → call.pc.lock = none
  | _ => True

theorem Guarded.call (guarded : Guarded s) (ttl : 0 < c.ttl) {key : String}
    (unsplit : Unsplit c s (.call key : Event A E)) : Guarded (getOrSet c key s) := by
  unfold getOrSet
  rw [if_neg (Int.not_le.mpr ttl)]
  rcases fresh_cases c key s with ⟨hit, _, _, same⟩ | ⟨store, same, _⟩
  · rw [same]
    refine guarded.place (at_push rfl) rfl (fun _ _ found => found) ?_ ?_ ?_ ?_ ?_ ?_
    · simp
    · simp [Pc.lock]
    · simp [Pc.lock]
    · simp [Pc.lock]
    · exact fun k x i _ there producing => guarded.locked k x i there producing
    · simp
  · have unsplit := unsplit (by rw [same]; rfl)
    rw [same]
    have looked : Guarded { s with store := store } := guarded.frame rfl rfl fun _ _ found => found
    obtain ⟨found, lockOf, _⟩ := looked.lockFor (c := c) key fun absent j call there =>
      unsplit absent call (List.mem_of_getElem? there)
    exact found.acquire lockOf

theorem Guarded.resume (guarded : Guarded s) {j : Nat} {call : Call A E} (there : s.At j call)
    (step : resume c s j call = some t) : Guarded t := by
  unfold Asyncio.resume at step
  split at step
  · rename_i i waits
    dsimp only at step
    split at step
    · rename_i free
      cases Option.some.inj step
      have uses : call.pc.lock = some i := by rw [waits]; rfl
      have frame := critical_frame c call.key i
        { s.heap.getD i {} with waiters := (s.heap.getD i {}).waiters.tail } s
      refine guarded.takes (c := c) (j := j) free.1 (guarded.inside j call i there uses) ?_ ?_
        ?_ rfl frame.2
      · intro k x i' _ at_ same uses'
        exact guarded.same k j x call i' i at_ there same uses' uses
      · intro i' found
        exact (guarded.table call.key i' j call i found there rfl uses).symm
      · apply at_set there
        exact congrArg (List.set · j _) frame.1
    · cases step
  · cases step

theorem evict_locks {key : String} {i : Nat} (found : (evict c s).locks.get? key = some i) :
    s.locks.get? key = some i := by
  have fewer : ∀ (gone : List String) (locks : Table String Nat),
      (gone.foldl Table.erase locks).get? key = some i → locks.get? key = some i := by
    intro gone
    induction gone with
    | nil => exact fun _ same => same
    | cons k rest ih =>
      intro locks there
      exact ((Table.get?_erase _ _ _ _).mp (ih _ there)).1
  exact fewer _ _ found

theorem Guarded.finish (guarded : Guarded s) {j : Nat} {call : Call A E} {result : Except E A}
    (there : s.At j call) (step : finish c s j call result = some t) : Guarded t := by
  unfold Asyncio.finish at step
  split at step
  · rename_i i producing
    have inside := guarded.inside j call i there (by rw [producing]; rfl)
    have parts : t.calls = s.calls.set j { call with pc := .returned result } ∧
        (∃ lock, t.heap = s.heap.set i lock) ∧
        ∀ key i', t.locks.get? key = some i' → s.locks.get? key = some i' := by
      cases Option.some.inj step
      cases result with
      | ok value =>
        let stored : State A E :=
          { s with
            store := moveToEnd (s.store.set call.key (s.clock, value)) call.key
            made := s.made.set call.key (s.clock, value) }
        exact ⟨rfl, ⟨_, rfl⟩, fun key i' found => evict_locks (s := stored) found⟩
      | error error => exact ⟨rfl, ⟨_, rfl⟩, fun key i' found => found⟩
    obtain ⟨calls, ⟨lock, heap⟩, locks⟩ := parts
    refine guarded.place (at_set there calls) ?_ locks ?_ ?_ ?_ ?_ ?_ ?_
    · rw [heap, List.length_set]
    · simp
    · simp [Pc.lock]
    · simp [Pc.lock]
    · simp [Pc.lock]
    · intro k x i' other at_ producing'
      have differs : i' ≠ i := by
        rintro rfl
        exact other (guarded.sole k j x call i' at_ there producing' producing)
      rw [heap, lockAt_set inside, if_neg differs]
      exact guarded.locked k x i' at_ producing'
    · simp
  · rename_i bare
    exact absurd bare (guarded.guarded j call there)
  · cases step

theorem Guarded.step (guarded : Guarded s) (ttl : 0 < c.ttl) {e : Event A E}
    (unsplit : Unsplit c s e)
    (step : Step c s e t) : Guarded t := by
  cases e with
  | tick later =>
    cases Option.some.inj step
    exact guarded.frame rfl rfl fun _ _ found => found
  | call key =>
    cases Option.some.inj step
    exact guarded.call ttl unsplit
  | resume j =>
    obtain ⟨call, there, step⟩ := Option.bind_eq_some_iff.mp step
    exact guarded.resume there step
  | finish j result =>
    obtain ⟨call, there, step⟩ := Option.bind_eq_some_iff.mp step
    exact guarded.finish there step

end Locks

end Metahumotonic.Cache.Asyncio
