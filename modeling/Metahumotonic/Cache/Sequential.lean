import Mathlib.Algebra.Order.Group.Basic
import Mathlib.Algebra.Order.Group.Int
import Metahumotonic.Cache.TtlCache
import Metahumotonic.Library.Eviction
import Mathlib.Algebra.Order.Ring.Int

/-! The cache of the TypeScript service when each command completes before the next one starts
(`get` of `ts/src/ports/Cache.ts` in one piece). Time is any ordered group. Beside the cache
stands a log of what became of the productions, which the code does not keep. -/
namespace Metahumotonic.Cache.Sequential

open Library

universe u v w

structure Options (τ : Type w) where
  ttlSeconds : τ
  maxEntries : ℕ

def Options.ttlMillis {τ : Type w} [AddMonoid τ] [LinearOrder τ] (o : Options τ) : τ :=
  1000 • max 0 o.ttlSeconds

structure Entry (τ : Type w) (A : Type u) where
  value : A
  expiresAtMillis : τ
  seq : ℕ
  deriving DecidableEq, Repr

structure State (τ : Type w) (A : Type u) where
  entries : Table String (Entry τ A) := .empty
  /-- The keys whose producers run. -/
  inFlight : List String := []
  seq : ℕ := 0

/-- A run of a producer: how it ends and how long it takes. -/
structure Production (τ : Type w) (A : Type u) (E : Type v) [Zero τ] [LE τ] where
  exit : Exit A E
  elapsed : τ
  forward : 0 ≤ elapsed

inductive Command (τ : Type w) (A : Type u) (E : Type v) [Zero τ] [LE τ] where
  | get (key : String) (produce : Production τ A E)
  | invalidate (key : String)
  | clear
  | adjust (millis : τ) (forward : 0 ≤ millis)

inductive Reply (A : Type u) (E : Type v) where
  | hit (value : A)
  | produced (exit : Exit A E)
  /-- The call waits for a run that another one claimed. -/
  | waits
  | done
  deriving DecidableEq, Repr

/-- What is done to the productions of a key. -/
inductive Happened (τ : Type w) (A : Type u) where
  | written (key : String) (value : A) (at_ : τ)
  | invalidated (key : String)
  | cleared
  deriving DecidableEq, Repr

structure Machine (τ : Type w) (A : Type u) where
  clock : τ
  state : State τ A := {}
  /-- The latest first. -/
  log : List (Happened τ A) := []

variable {τ : Type w} {A : Type u} {E : Type v} [AddCommGroup τ] [LinearOrder τ]
    [IsOrderedAddMonoid τ]

def put (o : Options τ) (key : String) (value : A) (now : τ) (s : State τ A) : State τ A :=
  { s with
    entries := (s.entries.set key ⟨value, now + o.ttlMillis, s.seq⟩).dropLeast Entry.seq
      o.maxEntries
    seq := s.seq + 1 }

/-- `get` on a miss, the key claimed: the producer runs, its value is stored, the claim released. -/
def produce (o : Options τ) (key : String) (p : Production τ A E) (m : Machine τ A) :
    Reply A E × Machine τ A :=
  let claimed := { m.state with inFlight := key :: m.state.inFlight }
  let clock := m.clock + p.elapsed
  match p.exit with
  | .success value =>
    let stored := put o key value clock claimed
    (.produced p.exit,
      { clock, state := { stored with inFlight := stored.inFlight.erase key }
        log := .written key value clock :: m.log })
  | exit => (.produced exit,
    { m with clock, state := { claimed with inFlight := claimed.inFlight.erase key } })

def get (o : Options τ) (key : String) (p : Production τ A E) (m : Machine τ A) :
    Reply A E × Machine τ A :=
  if o.ttlMillis = 0 then (.produced p.exit, { m with clock := m.clock + p.elapsed })
  else
    match (m.state.entries.get? key).filter fun hit => m.clock < hit.expiresAtMillis with
    | some hit => (.hit hit.value, m)
    | none => if key ∈ m.state.inFlight then (.waits, m) else produce o key p m

def handle (o : Options τ) (m : Machine τ A) : Command τ A E → Reply A E × Machine τ A
  | .get key p => get o key p m
  | .invalidate key =>
    (.done, { m with
      state := { m.state with entries := m.state.entries.erase key }
      log := .invalidated key :: m.log })
  | .clear => (.done, { m with
      state := { m.state with entries := .empty }
      log := .cleared :: m.log })
  | .adjust millis _ => (.done, { m with clock := m.clock + millis })

/-! The reference: which productions stand is told by the log alone. -/

/-- The keys whose productions a cache of so many places holds after a log, the latest written
first. What was written longest ago makes room for a production that is one too many. -/
def held (maxEntries : ℕ) : List (Happened τ A) → List String
  | [] => []
  | .written key _ _ :: log => (key :: (held maxEntries log).erase key).take maxEntries
  | .invalidated key :: log => (held maxEntries log).erase key
  | .cleared :: _ => []

/-- The latest production of a key and when it was written. -/
def latest (key : String) : List (Happened τ A) → Option (A × τ)
  | [] => none
  | .written k value at_ :: log => if k = key then some (value, at_) else latest key log
  | .invalidated _ :: log => latest key log
  | .cleared :: log => latest key log

/-- The latest production of a key, unless the key was invalidated, cleared or evicted since. -/
def standing (maxEntries : ℕ) (key : String) (log : List (Happened τ A)) : Option (A × τ) :=
  if key ∈ held maxEntries log then latest key log else none

/-- What one command does, next to the log. -/
structure Faithful (o : Options τ) (m : Machine τ A) (c : Command τ A E) : Prop where
  hit : ∀ key p, c = .get key p → ∀ value, (handle o m c).1 = .hit value ↔
    ∃ at_, standing o.maxEntries key m.log = some (value, at_) ∧ m.clock - at_ < o.ttlMillis
  missed : ∀ key p, c = .get key p →
    (¬ ∃ value at_, standing o.maxEntries key m.log = some (value, at_) ∧
      m.clock - at_ < o.ttlMillis) →
    (handle o m c).1 = .produced p.exit
  failed : ∀ key p, c = .get key p → (∀ value, p.exit ≠ .success value) →
    (handle o m c).2.state = m.state ∧ (handle o m c).2.log = m.log
  size : (handle o m c).2.state.entries.size ≤ o.maxEntries
  /-- A production is stored, and of the entries as many go as are too many: those that were
  written before all the others. -/
  stores : ∀ key p value, c = .get key p → (handle o m c).1 = .produced (.success value) →
    let entries := m.state.entries.set key ⟨value, m.clock + p.elapsed + o.ttlMillis, m.state.seq⟩
    (handle o m c).2.log = .written key value (m.clock + p.elapsed) :: m.log ∧
      (handle o m c).2.state.entries.size = min o.maxEntries entries.size ∧
      ∀ k, (handle o m c).2.state.entries.get? k =
        if k ∈ (key :: (held o.maxEntries m.log).erase key).take o.maxEntries then entries.get? k
        else none
  /-- What a production evicts was written before everything it leaves, and expires no later. -/
  evicts : ∀ key p value, c = .get key p →
    (handle o m c).1 = .produced (.success value) → ∀ k e j f,
    (m.state.entries.set key ⟨value, m.clock + p.elapsed + o.ttlMillis, m.state.seq⟩).get?
      k = some e →
    (handle o m c).2.state.entries.get? k = none → (handle o m c).2.state.entries.get? j = some f →
      e.seq < f.seq ∧ e.expiresAtMillis ≤ f.expiresAtMillis

/-- The entries are the standing productions; they expire in the order in which they were written.
-/
structure Tracks (o : Options τ) (m : Machine τ A) : Prop where
  idle : m.state.inFlight = []
  held : ∀ k, k ∈ held o.maxEntries m.log ↔ ∃ e, m.state.entries.get? k = some e
  falling : (Sequential.held o.maxEntries m.log).Pairwise fun j k =>
    ∀ f e, m.state.entries.get? j = some f → m.state.entries.get? k = some e → e.seq < f.seq
  latest : ∀ key e, m.state.entries.get? key = some e →
    ∃ at_, latest key m.log = some (e.value, at_) ∧ e.expiresAtMillis = at_ + o.ttlMillis
  size : m.state.entries.size ≤ o.maxEntries
  past : ∀ key e, m.state.entries.get? key = some e →
    e.seq < m.state.seq ∧ e.expiresAtMillis ≤ m.clock + o.ttlMillis
  order : ∀ k e j f, m.state.entries.get? k = some e → m.state.entries.get? j = some f →
    e.seq ≤ f.seq →
    e.expiresAtMillis ≤ f.expiresAtMillis ∧ (e.seq = f.seq → k = j)

theorem ttlMillis_pos {o : Options τ} (ttl : 0 < o.ttlSeconds) : 0 < o.ttlMillis := by
  rw [Options.ttlMillis, max_eq_right ttl.le]
  exact nsmul_pos ttl (by decide)

omit [LinearOrder τ] [IsOrderedAddMonoid τ] [AddCommGroup τ] in
theorem held_nodup (maxEntries : ℕ) (log : List (Happened τ A)) : (held maxEntries log).Nodup := by
  induction log with
  | nil => exact List.nodup_nil
  | cons what log ih =>
    cases what with
    | written key value at_ =>
      refine ((List.nodup_cons.mpr ⟨?_, ih.erase key⟩).sublist (List.take_sublist _ _))
      rw [ih.mem_erase_iff]
      exact fun both => both.1 rfl
    | invalidated key => exact ih.erase key
    | cleared => exact List.nodup_nil

omit [LinearOrder τ] [IsOrderedAddMonoid τ] [AddCommGroup τ] in
theorem held_cons_nodup (maxEntries : ℕ) (key : String) (log : List (Happened τ A)) :
    (key :: (held maxEntries log).erase key).Nodup := by
  refine List.nodup_cons.mpr ⟨?_, (held_nodup maxEntries log).erase key⟩
  rw [(held_nodup maxEntries log).mem_erase_iff]
  exact fun both => both.1 rfl

variable {o : Options τ} {m : Machine τ A}

/-- The entries with the new one, before any is evicted. -/
theorem Tracks.order_set (tracks : Tracks o m) (key : String) (value : A) {now : τ}
    (later : m.clock ≤ now) :
    ∀ k e j f, (m.state.entries.set key ⟨value, now + o.ttlMillis, m.state.seq⟩).get? k = some e →
      (m.state.entries.set key ⟨value, now + o.ttlMillis, m.state.seq⟩).get? j = some f →
        e.seq ≤ f.seq →
        e.expiresAtMillis ≤ f.expiresAtMillis ∧ (e.seq = f.seq → k = j) := by
  intro k e j f first second before
  rw [Table.get?_set] at first second
  split_ifs at first second with here there there
  · cases first
    cases second
    exact ⟨le_rfl, fun _ => here.trans there.symm⟩
  · cases first
    exact absurd (tracks.past j f second).1 (Nat.not_lt.mpr before)
  · cases second
    obtain ⟨old, early⟩ := tracks.past k e first
    exact ⟨early.trans (add_le_add later le_rfl), fun same =>
      absurd old (by rw [same]; exact Nat.lt_irrefl _)⟩
  · exact tracks.order k e j f first second before

omit [IsOrderedAddMonoid τ] in
/-- The keys of the entries with the new one, the latest written first. -/
theorem Tracks.keys_set (tracks : Tracks o m) (key : String) (value : A) (now : τ) (k : String) :
    k ∈ key :: (Sequential.held o.maxEntries m.log).erase key ↔
      ∃ e, (m.state.entries.set key ⟨value, now + o.ttlMillis, m.state.seq⟩).get? k = some e := by
  rw [List.mem_cons, (held_nodup _ _).mem_erase_iff, tracks.held, Table.get?_set]
  split_ifs with here
  · exact iff_of_true (.inl here) ⟨_, rfl⟩
  · rw [or_iff_right here, and_iff_right here]

omit [IsOrderedAddMonoid τ] in
theorem Tracks.falling_set (tracks : Tracks o m) (key : String) (value : A) (now : τ) :
    (key :: (Sequential.held o.maxEntries m.log).erase key).Pairwise fun j k => ∀ f e,
      (m.state.entries.set key ⟨value, now + o.ttlMillis, m.state.seq⟩).get? j = some f →
      (m.state.entries.set key ⟨value, now + o.ttlMillis, m.state.seq⟩).get? k = some e →
        e.seq < f.seq := by
  have distinct := held_nodup o.maxEntries m.log
  refine List.pairwise_cons.mpr ⟨fun k member f e first second => ?_, ?_⟩
  · have other : k ≠ key := (distinct.mem_erase_iff.mp member).1
    rw [Table.get?_set_self] at first
    rw [Table.get?_set_ne _ _ other] at second
    cases first
    exact (tracks.past k e second).1
  · refine (tracks.falling.sublist List.erase_sublist).imp_of_mem fun {j k} left right below f e
      first second => ?_
    rw [Table.get?_set_ne _ _ (distinct.mem_erase_iff.mp left).1] at first
    rw [Table.get?_set_ne _ _ (distinct.mem_erase_iff.mp right).1] at second
    exact below f e first second

omit [IsOrderedAddMonoid τ] in
/-- A put leaves the entries that were written last, as many as there are places. -/
theorem Tracks.get?_put (tracks : Tracks o m) (key : String) (value : A) (now : τ) (k : String) :
    (put o key value now m.state).entries.get? k =
      if k ∈ (key :: (Sequential.held o.maxEntries m.log).erase key).take o.maxEntries then
        (m.state.entries.set key ⟨value, now + o.ttlMillis, m.state.seq⟩).get? k
      else none :=
  Table.get?_dropLeast_take (held_cons_nodup _ _ _) (tracks.keys_set key value now)
    (tracks.falling_set key value now) k

/-- The machine after a production that was stored at a time. -/
def stored (o : Options τ) (key : String) (value : A) (now : τ) (m : Machine τ A) :
    Machine τ A where
  clock := now
  state := put o key value now m.state
  log := .written key value now :: m.log

omit [IsOrderedAddMonoid τ] in
theorem Tracks.held_stored (tracks : Tracks o m) (key : String) (value : A) (now : τ) (k : String) :
    k ∈ Sequential.held o.maxEntries (stored o key value now m).log ↔
      ∃ e, (stored o key value now m).state.entries.get? k = some e := by
  change k ∈ (key :: (Sequential.held o.maxEntries m.log).erase key).take o.maxEntries ↔
    ∃ e, (put o key value now m.state).entries.get? k = some e
  rw [tracks.get?_put]
  split_ifs with kept
  · exact iff_of_true kept ((tracks.keys_set key value now k).mp (List.mem_of_mem_take kept))
  · exact iff_of_false kept (by simp)

omit [IsOrderedAddMonoid τ] in
theorem Tracks.size_stored (tracks : Tracks o m) (key : String) (value : A) (now : τ) :
    (put o key value now m.state).entries.size = min o.maxEntries
      (m.state.entries.set key ⟨value, now + o.ttlMillis, m.state.seq⟩).size := by
  have distinct := held_cons_nodup o.maxEntries key m.log
  have after : (put o key value now m.state).entries.size =
      ((key :: (Sequential.held o.maxEntries m.log).erase key).take o.maxEntries).length :=
    Table.size_of_keys _ (distinct.sublist (List.take_sublist _ _)) fun k =>
      (Table.mem_keys _ k).trans (tracks.held_stored key value now k).symm
  have before : (m.state.entries.set key ⟨value, now + o.ttlMillis, m.state.seq⟩).size =
      (key :: (Sequential.held o.maxEntries m.log).erase key).length :=
    Table.size_of_keys _ distinct fun k =>
      (Table.mem_keys _ k).trans (tracks.keys_set key value now k).symm
  rw [after, before, List.length_take]

theorem Tracks.stored (tracks : Tracks o m) (key : String) (value : A) {now : τ}
    (later : m.clock ≤ now) :
    Tracks o (stored o key value now m) where
  idle := tracks.idle
  held := tracks.held_stored key value now
  falling := by
    refine ((tracks.falling_set key value now).sublist (List.take_sublist _ _)).imp
      fun below f e first second => ?_
    exact below f e (Table.get?_of_dropLeast first) (Table.get?_of_dropLeast second)
  latest := by
    intro k e kept
    have there := Table.get?_of_dropLeast kept
    change ∃ at_, (if key = k then some (value, now) else Sequential.latest k m.log) = _ ∧ _
    rw [Table.get?_set] at there
    split_ifs at there with here
    · cases there
      exact ⟨now, if_pos here.symm, rfl⟩
    · rw [if_neg (Ne.symm here)]
      exact tracks.latest k e there
  size := Table.size_dropLeast _ _ _
  past := by
    intro k e kept
    have there := Table.get?_of_dropLeast kept
    rw [Table.get?_set] at there
    split_ifs at there with here
    · cases there
      exact ⟨Nat.lt_succ_self _, le_rfl⟩
    · obtain ⟨old, early⟩ := tracks.past k e there
      exact ⟨Nat.lt_succ_of_lt old, early.trans (add_le_add later le_rfl)⟩
  order := fun k e j f first second =>
    tracks.order_set key value later k e j f (Table.get?_of_dropLeast first)
      (Table.get?_of_dropLeast second)

theorem Tracks.wait (tracks : Tracks o m) {now : τ} (later : m.clock ≤ now) :
    Tracks o { m with clock := now } where
  idle := tracks.idle
  held := tracks.held
  falling := tracks.falling
  latest := tracks.latest
  size := tracks.size
  past := fun key e there =>
    ⟨(tracks.past key e there).1, (tracks.past key e there).2.trans (add_le_add later le_rfl)⟩
  order := tracks.order

omit [IsOrderedAddMonoid τ] in
theorem produce_eq (o : Options τ) (key : String) (p : Production τ A E) (m : Machine τ A) :
    produce o key p m = (.produced p.exit,
      match p.exit with
      | .success value => stored o key value (m.clock + p.elapsed) m
      | _ => { m with clock := m.clock + p.elapsed }) := by
  unfold produce
  cases p.exit with
  | success value => simp [stored, put]
  | failure error => simp
  | interrupt => simp

theorem later_of (m : Machine τ A) (p : Production τ A E) : m.clock ≤ m.clock + p.elapsed :=
  le_add_of_nonneg_right p.forward

theorem Tracks.produce (tracks : Tracks o m) (key : String) (p : Production τ A E) :
    Tracks o (produce o key p m).2 := by
  rw [produce_eq]
  cases p.exit with
  | success value => exact tracks.stored key value (later_of m p)
  | failure error => exact tracks.wait (later_of m p)
  | interrupt => exact tracks.wait (later_of m p)

/-- The entry that a get finds fresh is the standing production, written less than the time to live
ago. -/
theorem Tracks.fresh_iff (tracks : Tracks o m) (key : String) (value : A) :
    ((m.state.entries.get? key).filter fun hit => m.clock < hit.expiresAtMillis).map Entry.value =
      some value ↔
      ∃ at_, standing o.maxEntries key m.log = some (value, at_) ∧ m.clock - at_ < o.ttlMillis := by
  have listed := tracks.held key
  rw [standing]
  cases there : m.state.entries.get? key with
  | none =>
    rw [there] at listed
    have gone : key ∉ Sequential.held o.maxEntries m.log := fun member => nomatch listed.mp member
    simp [gone]
  | some e =>
    have member := listed.mpr ⟨e, there⟩
    obtain ⟨at_, written, expires⟩ := tracks.latest key e there
    have fresh : m.clock < e.expiresAtMillis ↔ m.clock - at_ < o.ttlMillis := by
      rw [expires, sub_lt_iff_lt_add']
    rw [if_pos member, written, Option.filter_some]
    by_cases early : m.clock < e.expiresAtMillis
    · simp [early, fresh.mp early]
    · have stale : ¬ m.clock - at_ < o.ttlMillis := fun recent => early (fresh.mpr recent)
      simp [early, stale]

/-- A get answers from the entries, or runs its producer. -/
theorem Tracks.get_cases (tracks : Tracks o m) (enabled : o.ttlMillis ≠ 0) (key : String)
    (p : Production τ A E) :
    (∃ value, (∃ at_, standing o.maxEntries key m.log = some (value, at_) ∧
      m.clock - at_ < o.ttlMillis) ∧
        get o key p m = (.hit value, m)) ∨
      ((¬ ∃ value at_, standing o.maxEntries key m.log = some (value, at_) ∧
        m.clock - at_ < o.ttlMillis) ∧
        get o key p m = Sequential.produce o key p m) := by
  have fresh := tracks.fresh_iff key
  unfold get
  rw [if_neg enabled]
  cases found : (m.state.entries.get? key).filter fun hit => m.clock < hit.expiresAtMillis with
  | some hit =>
    rw [found] at fresh
    exact .inl ⟨hit.value, (fresh hit.value).mp rfl, rfl⟩
  | none =>
    rw [found] at fresh
    have free : key ∉ m.state.inFlight := by simp [tracks.idle]
    refine .inr ⟨?_, if_neg free⟩
    rintro ⟨value, recent⟩
    cases (fresh value).mpr recent

theorem Tracks.handle (tracks : Tracks o m) (enabled : o.ttlMillis ≠ 0) (c : Command τ A E) :
    Tracks o (handle o m c).2 := by
  cases c with
  | get key p =>
    change Tracks o (get o key p m).2
    rcases tracks.get_cases enabled key p with ⟨value, -, answered⟩ | ⟨-, ran⟩
    · rw [answered]
      exact tracks
    · rw [ran]
      exact tracks.produce key p
  | invalidate key =>
    have kept : ∀ k e, (m.state.entries.erase key).get? k = some e →
        m.state.entries.get? k = some e :=
      fun k e found => ((Table.get?_erase _ _ _ _).mp found).1
    have distinct := held_nodup o.maxEntries m.log
    refine ⟨tracks.idle, fun k => ?_, ?_, fun k e there => tracks.latest k e (kept k e there), ?_,
      fun k e there => tracks.past k e (kept k e there),
      fun k e j f first second => tracks.order k e j f (kept k e first) (kept j f second)⟩
    · change k ∈ (Sequential.held o.maxEntries m.log).erase key ↔
        ∃ e, (m.state.entries.erase key).get? k = some e
      rw [distinct.mem_erase_iff, tracks.held, Table.get?_erase_eq]
      split_ifs with here
      · exact iff_of_false (fun both => both.1 here) (by simp)
      · exact and_iff_right here
    · exact (tracks.falling.sublist List.erase_sublist).imp fun below f e first second =>
        below f e (kept _ f first) (kept _ e second)
    · exact (List.length_filter_le _ _).trans tracks.size
  | clear =>
    have none_ : ∀ k e, ¬ (Table.empty : Table String (Entry τ A)).get? k = some e := by
      intro k e found
      cases found
    exact ⟨tracks.idle, fun k => iff_of_false List.not_mem_nil fun found =>
      found.elim (none_ k), .nil,
      fun k e found => absurd found (none_ k e), Nat.zero_le _, fun k e found =>
        absurd found (none_ k e),
      fun k e _ _ found => absurd found (none_ k e)⟩
  | adjust millis forward => exact tracks.wait (le_add_of_nonneg_right forward)

theorem Tracks.faithful (tracks : Tracks o m) (enabled : o.ttlMillis ≠ 0) (c : Command τ A E) :
    Faithful o m c := by
  refine ⟨?_, ?_, ?_, (tracks.handle enabled c).size, ?_, ?_⟩
  · rintro key p rfl value
    change (get o key p m).1 = _ ↔ _
    rcases tracks.get_cases enabled key p with ⟨v, ⟨at_, written, recent⟩, answered⟩ | ⟨stale, ran⟩
    · rw [answered, written]
      constructor
      · rintro ⟨⟩
        exact ⟨at_, rfl, recent⟩
      · rintro ⟨_, ⟨⟩, -⟩
        rfl
    · rw [ran, produce_eq]
      exact iff_of_false nofun fun recent => stale ⟨value, recent⟩
  · rintro key p rfl stale
    change (get o key p m).1 = _
    rcases tracks.get_cases enabled key p with ⟨v, recent, -⟩ | ⟨-, ran⟩
    · exact absurd ⟨v, recent⟩ stale
    · rw [ran, produce_eq]
  · rintro key p rfl broke
    change (get o key p m).2.state = _ ∧ (get o key p m).2.log = _
    rcases tracks.get_cases enabled key p with ⟨v, -, answered⟩ | ⟨-, ran⟩
    · rw [answered]
      exact ⟨rfl, rfl⟩
    · rw [ran, produce_eq]
      cases exit : p.exit with
      | success value => exact absurd exit (broke value)
      | failure error => exact ⟨rfl, rfl⟩
      | interrupt => exact ⟨rfl, rfl⟩
  · rintro key p value rfl reply
    change (get o key p m).1 = _ at reply
    change (get o key p m).2.log = _ ∧ (get o key p m).2.state.entries.size = _ ∧
      ∀ k, (get o key p m).2.state.entries.get? k = _
    rcases tracks.get_cases enabled key p with ⟨v, -, answered⟩ | ⟨-, ran⟩
    · rw [answered] at reply
      cases reply
    · rw [ran, produce_eq] at reply ⊢
      have exit : p.exit = .success value := Reply.produced.inj reply
      rw [exit]
      exact ⟨rfl, tracks.size_stored key value _, tracks.get?_put key value _⟩
  · rintro key p value rfl reply k e j f there gone kept
    change (get o key p m).1 = _ at reply
    change (get o key p m).2.state.entries.get? k = none at gone
    change (get o key p m).2.state.entries.get? j = some f at kept
    rcases tracks.get_cases enabled key p with ⟨v, -, answered⟩ | ⟨-, ran⟩
    · rw [answered] at reply
      cases reply
    · rw [ran, produce_eq] at reply gone kept
      have exit : p.exit = .success value := Reply.produced.inj reply
      rw [exit] at gone kept
      have ranked : e.seq ≤ f.seq := Table.dropLeast_order there gone kept
      have last := Table.get?_of_dropLeast kept
      obtain ⟨expires, alone⟩ := tracks.order_set key value (later_of m p) k e j f there last ranked
      refine ⟨lt_of_le_of_ne ranked fun same => ?_, expires⟩
      rw [alone same, kept] at gone
      cases gone

/-- Used by one command after the other, the cache is faithful at every command of every run. -/
theorem sequential_cache_faithful (o : Options τ) (ttl : 0 < o.ttlSeconds) (start : τ)
    (commands : List (Command τ A E)) (c : Command τ A E) :
    Faithful o (serve (handle o) ({ clock := start } : Machine τ A) commands).2 c := by
  have enabled : o.ttlMillis ≠ 0 := (ttlMillis_pos ttl).ne'
  have initial : Tracks o ({ clock := start } : Machine τ A) :=
    ⟨rfl, fun _ => iff_of_false List.not_mem_nil nofun, List.Pairwise.nil, nofun, Nat.zero_le _,
      nofun, nofun⟩
  have tracks := serve_invariant (handle (E := E) o) (fun _ => True) (Tracks o)
    (fun m c _ tracks => tracks.handle enabled c) commands (fun _ _ => trivial) _ initial
  exact tracks.faithful enabled c

/-- One entry fits: the production of another key evicts the first one. -/
def sampleCommands : List (Command ℤ ℕ String) :=
  [.get "a" ⟨.success 7, 0, le_rfl⟩, .adjust 1000 (by decide), .get "b" ⟨.success 8, 5, by decide⟩]

theorem sequential_cache_sample :
    Faithful ⟨60, 1⟩ (serve (handle ⟨60, 1⟩) ({ clock := 0 } : Machine ℤ ℕ) sampleCommands).2
      (.get "a" ⟨.failure "down", 3, by decide⟩ : Command ℤ ℕ String) :=
  sequential_cache_faithful ⟨60, 1⟩ (by decide) 0 sampleCommands
    (.get "a" ⟨.failure "down", 3, by decide⟩)

end Metahumotonic.Cache.Sequential
