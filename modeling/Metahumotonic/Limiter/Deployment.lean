import Metahumotonic.Library.Run
import Metahumotonic.Limiter.RateLimiter
import Mathlib.Data.List.Perm.Subperm

/-! Both runtimes against one key of one Redis (`mhb:rl:<key>`). A Python call sends its
transaction and, if it is denied, a removal of its member in a second round trip; a
TypeScript call is one script. Redis runs them in any order, under one clock. -/
namespace Metahumotonic.Limiter

open Library SortedSet

/-- The key that both runtimes use; the other surfaces of the TypeScript service have keys
of their own. -/
def sharedKey (key : String) : String := "mhb:rl:" ++ key

def pythonMember (now : ℤ) (uuid : String) : String := toString now ++ "-" ++ uuid

structure Call where
  member : String
  now : ℤ
  allowed : Bool
  deriving DecidableEq, Repr

/-- The calls are the ones that Redis answered, the latest first; outstanding are the
members of denied calls whose removal has not been run. -/
structure Deployment where
  clock : ℤ := 0
  redis : Redis := .empty
  calls : List Call := []
  outstanding : List String := []

inductive Event where
  | python (uuid : String) (now : ℤ)
  | zrem (member : String) (now : ℤ)
  | typescript (uuid : String) (now : ℤ)
  deriving DecidableEq, Repr

def Event.now : Event → ℤ
  | .python _ now | .zrem _ now | .typescript _ now => now

/-- The event is a call that gets its answer. -/
def Event.answers : Event → Bool
  | .python _ _ | .typescript _ _ => true
  | .zrem _ _ => false

/-- The event is one of the Python service. -/
def Event.isPython : Event → Bool
  | .python _ _ | .zrem _ _ => true
  | .typescript _ _ => false

variable (p : Policy) (key : String)

def Deployment.shared (d : Deployment) : SortedSet := d.redis.at (sharedKey key)

/-- A member is unique to its call. -/
def Deployment.fresh (d : Deployment) (member : String) : Bool :=
  decide (member ∉ d.calls.map Call.member)

def Deployment.step (d : Deployment) : Event → Option Deployment
  | .python uuid now =>
    let member := pythonMember now uuid
    if d.clock ≤ now ∧ d.fresh member then
      let (count, z) := pipeline p (d.shared key) now member
      let allowed := !decide (p.maxEvents < count)
      some
        { clock := now
          redis := d.redis.set (sharedKey key) z
          calls := ⟨member, now, allowed⟩ :: d.calls
          outstanding := if allowed then d.outstanding else member :: d.outstanding }
    else none
  | .zrem member now =>
    if d.clock ≤ now ∧ member ∈ d.outstanding then
      some
        { d with
          clock := now
          redis := d.redis.set (sharedKey key) (((d.shared key).live now).zrem member)
          outstanding := d.outstanding.erase member }
    else none
  | .typescript uuid now =>
    if d.clock ≤ now ∧ d.fresh uuid then
      let (decision, z) := slidingWindow p (d.shared key) now uuid
      some
        { d with
          clock := now
          redis := d.redis.set (sharedKey key) z
          calls := ⟨uuid, now, decision.allowed⟩ :: d.calls }
    else none

/-- The call holds a place in the set: it was allowed, or its removal is outstanding. -/
def Deployment.holds (d : Deployment) (c : Call) : Bool := c.allowed || decide
    (c.member ∈ d.outstanding)

/-- The places held in the window that ends now. -/
def Deployment.held (d : Deployment) (now : ℤ) : Nat :=
  d.calls.countP fun c => decide (now - p.windowMillis < c.now) && d.holds c

/-- What the set says about the calls so far. -/
structure Mirrors (d : Deployment) : Prop where
  started : 0 ≤ d.clock
  distinct : (d.calls.map Call.member).Nodup
  past : ∀ c ∈ d.calls, 0 ≤ c.now ∧ c.now ≤ d.clock
  denied : ∀ c ∈ d.calls, c.member ∈ d.outstanding → c.allowed = false
  called : ∀ m ∈ d.outstanding, m ∈ d.calls.map Call.member
  once : d.outstanding.Nodup
  known : ∀ m a, (d.shared key).scores.get? m = some a → ∃ c ∈ d.calls, c.member = m ∧ c.now = a
  recent : ∀ c ∈ d.calls, d.clock - p.windowMillis < c.now →
    ((d.shared key).scores.get? c.member = some c.now ↔ d.holds c = true)
  outlives : (d.shared key).Outlives p.windowMillis

/-- What a step does to the calls, and to what the set has of the window that ends now. -/
inductive Moved (d : Deployment) (e : Event) (d' : Deployment) : Prop where
  | answered (c : Call) (waits : Bool) (asked : e.answers = true) (time : e.now = c.now)
      (later : d.clock ≤ c.now)
      (new : c.member ∉ d.calls.map Call.member) (clock : d'.clock = c.now)
      (calls : d'.calls = c :: d.calls)
      (outstanding : d'.outstanding = if waits then c.member :: d.outstanding else d.outstanding)
      (denied : waits = true → c.allowed = false)
      (verdict : c.allowed = true ↔ d.held p c.now < p.maxEvents)
      (scores : ∀ m a, (d'.shared key).scores.get? m = some a ↔
        ((c.allowed || waits) = true ∧ m = c.member ∧ a = c.now) ∨
          ((d.shared key).scores.get? m = some a ∧ c.now - p.windowMillis < a))
      (outlives : (d'.shared key).Outlives p.windowMillis)
  | removed (member : String) (now : ℤ) (silent : e.answers = false) (later : d.clock ≤ now)
      (waiting : member ∈ d.outstanding) (clock : d'.clock = now) (calls : d'.calls = d.calls)
      (outstanding : d'.outstanding = d.outstanding.erase member)
      (scores : ∀ m a, now - p.windowMillis < a → ((d'.shared key).scores.get? m = some a ↔
        (d.shared key).scores.get? m = some a ∧ m ≠ member))
      (fewer : ∀ m a, (d'.shared key).scores.get? m = some a →
        (d.shared key).scores.get? m = some a)
      (outlives : (d'.shared key).Outlives p.windowMillis)

variable {p key} {d d' : Deployment}

theorem shared_set (d : Deployment) (z : SortedSet) (calls : List Call) (now : ℤ)
    (outstanding : List String) :
    (Deployment.mk now (d.redis.set (sharedKey key) z) calls outstanding).shared key = z := by
  simp [Deployment.shared, Redis.at]

/-- The members that a block finds in its window. -/
theorem Mirrors.mem_recent (mirrors : Mirrors p key d) {now : ℤ} (later : d.clock ≤ now)
    (m : String) :
    (∃ a, (d.shared key).scores.get? m = some a ∧ now - p.windowMillis < a) ↔
      ∃ c ∈ d.calls, (now - p.windowMillis < c.now ∧ d.holds c = true) ∧ c.member = m := by
  constructor
  · rintro ⟨a, found, recent⟩
    obtain ⟨c, member, rfl, rfl⟩ := mirrors.known m a found
    have holds := (mirrors.recent c member (by omega)).mp found
    exact ⟨c, member, ⟨recent, holds⟩, rfl⟩
  · rintro ⟨c, member, ⟨recent, holds⟩, rfl⟩
    exact ⟨c.now, (mirrors.recent c member (by omega)).mpr holds, recent⟩

theorem Mirrors.size_recent (mirrors : Mirrors p key d) {now : ℤ} (later : d.clock ≤ now)
    {scores : Table String ℤ}
    (kept : ∀ m a, scores.get? m = some a ↔
      (d.shared key).scores.get? m = some a ∧ now - p.windowMillis < a) :
    scores.size = d.held p now := by
  have distinct : ((d.calls.filter fun c =>
      decide (now - p.windowMillis < c.now) && d.holds c).map Call.member).Nodup :=
    mirrors.distinct.sublist (List.filter_sublist.map _)
  rw [scores.size_of_keys distinct, List.length_map, Deployment.held, List.countP_eq_length_filter]
  intro m
  simp only [Table.mem_keys, kept, mirrors.mem_recent later, List.mem_map, List.mem_filter,
    Bool.and_eq_true, decide_eq_true_eq, and_assoc]

theorem Mirrors.nonneg (mirrors : Mirrors p key d) {m : String} {a : ℤ}
    (found : (d.shared key).scores.get? m = some a) : 0 ≤ a ∧ a ≤ d.clock := by
  obtain ⟨c, member, rfl, rfl⟩ := mirrors.known m a found
  exact mirrors.past c member

theorem Mirrors.unknown (mirrors : Mirrors p key d) {m : String}
    (new : m ∉ d.calls.map Call.member) (a : ℤ) :
    (d.shared key).scores.get? m ≠ some a := by
  intro found
  obtain ⟨c, member, rfl, _⟩ := mirrors.known m a found
  exact new (List.mem_map_of_mem member)

/-- A block adds its member to what is left of its window. -/
theorem Mirrors.added (mirrors : Mirrors p key d) {now : ℤ} {member : String} {y : SortedSet}
    (new : member ∉ d.calls.map Call.member)
    (kept : ∀ m a, y.scores.get? m = some a ↔
      (d.shared key).scores.get? m = some a ∧ now - p.windowMillis < a) (m : String) (a : ℤ) :
    (y.zadd now member).scores.get? m = some a ↔
      (m = member ∧ a = now) ∨
      ((d.shared key).scores.get? m = some a ∧ now - p.windowMillis < a) := by
  rw [← kept, zadd, Table.get?_set]
  by_cases own : m = member
  · subst own
    have unknown : y.scores.get? m ≠ some a := by
      intro found
      exact mirrors.unknown new a ((kept m a).mp found).1
    simp [unknown, eq_comm]
  · simp [own]

theorem Mirrors.added_outlives (mirrors : Mirrors p key d) {now milliseconds : ℤ} {member : String}
    {y : SortedSet} (later : d.clock ≤ now) (new : member ∉ d.calls.map Call.member)
    (kept : ∀ m a, y.scores.get? m = some a ↔
      (d.shared key).scores.get? m = some a ∧ now - p.windowMillis < a)
    (long : p.windowMillis ≤ milliseconds) :
    Outlives p.windowMillis ((y.zadd now member).pexpire now milliseconds) := by
  apply pexpire_outlives _ long
  intro m a found
  rcases (mirrors.added new kept m a).mp found with own | old
  · omega
  · have := mirrors.nonneg old.1
    omega

theorem Mirrors.python (mirrors : Mirrors p key d) {uuid : String} {now : ℤ}
    (step : d.step p key (.python uuid now) = some d') :
    Moved p key d (.python uuid now) d' := by
  simp only [Deployment.step, Deployment.fresh, decide_eq_true_eq] at step
  split at step
  · rename_i possible
    obtain ⟨later, new⟩ := possible
    generalize pythonMember now uuid = member at new step
    have kept := get?_recent mirrors.outlives now (some 0)
      fun m a found => by simpa using (mirrors.nonneg found).1
    have absent : member ∉ (((d.shared key).live now).zremrangebyscore (some 0)
        (now - p.windowMillis)).scores.keys := by
      rw [Table.mem_keys]
      rintro ⟨a, found⟩
      exact mirrors.unknown new a ((kept member a).mp found).1
    have count : (pipeline p (d.shared key) now member).1 = d.held p now + 1 := by
      rw [← mirrors.size_recent later kept]
      exact Table.size_set_new _ _ absent
    cases Option.some.inj step
    refine .answered ⟨member, now, !decide (p.maxEvents < (pipeline p (d.shared key) now member).1)⟩
      (decide (p.maxEvents < (pipeline p (d.shared key) now member).1)) rfl rfl later new rfl rfl
        ?_ ?_ ?_ ?_ ?_
    · by_cases full : p.maxEvents < (pipeline p (d.shared key) now member).1 <;> simp [full]
    · intro waits
      simp only [waits, Bool.not_true]
    · simp only [count, Bool.not_eq_true', decide_eq_false_iff_not]
      omega
    · intro m a
      rw [shared_set]
      simp only [pipeline, expire, pexpire_scores, Bool.not_or_self, true_and]
      exact mirrors.added new kept m a
    · rw [shared_set]
      apply mirrors.added_outlives later new kept
      simp only [Policy.windowMillis]
      omega
  · cases step

theorem Mirrors.typescript (mirrors : Mirrors p key d) {uuid : String} {now : ℤ}
    (step : d.step p key (.typescript uuid now) = some d') :
    Moved p key d (.typescript uuid now) d' := by
  simp only [Deployment.step, Deployment.fresh, decide_eq_true_eq] at step
  split at step
  · rename_i possible
    obtain ⟨later, new⟩ := possible
    have kept := get?_recent mirrors.outlives now none fun _ _ _ => rfl
    have count := mirrors.size_recent later kept
    cases Option.some.inj step
    by_cases full : p.maxEvents ≤ d.held p now
    · have denied : (slidingWindow p (d.shared key) now uuid).1.allowed = false ∧
          (slidingWindow p (d.shared key) now uuid).2 =
            ((d.shared key).live now).zremrangebyscore none (now - p.windowMillis) := by
        simp only [slidingWindow, zcard, count, if_pos full, and_self]
      refine .answered ⟨uuid, now, _⟩ false rfl rfl later new rfl rfl rfl
        (absurd · Bool.false_ne_true) ?_ ?_ ?_
      · simp only [denied.1, Bool.false_eq_true, false_iff]
        omega
      · intro m a
        rw [shared_set, denied.2, denied.1]
        simpa using kept m a
      · rw [shared_set, denied.2]
        exact mirrors.outlives.recent none now _
    · have allowed : (slidingWindow p (d.shared key) now uuid).1.allowed = true ∧
          (slidingWindow p (d.shared key) now uuid).2 =
            ((((d.shared key).live now).zremrangebyscore none (now - p.windowMillis)).zadd now
              uuid).pexpire
              now p.windowMillis := by
        simp only [slidingWindow, zcard, count, if_neg full, and_self]
      refine .answered ⟨uuid, now, _⟩ false rfl rfl later new rfl rfl rfl
        (absurd · Bool.false_ne_true) ?_ ?_ ?_
      · simp only [allowed.1, true_iff]
        omega
      · intro m a
        rw [shared_set, allowed.2, allowed.1, pexpire_scores]
        simpa using mirrors.added new kept m a
      · rw [shared_set, allowed.2]
        exact mirrors.added_outlives later new kept le_rfl
  · cases step

theorem Mirrors.zrem (mirrors : Mirrors p key d) {member : String} {now : ℤ}
    (step : d.step p key (.zrem member now) = some d') :
    Moved p key d (.zrem member now) d' := by
  simp only [Deployment.step] at step
  split at step
  · rename_i possible
    cases Option.some.inj step
    refine .removed member now rfl possible.1 possible.2 rfl rfl rfl ?_ ?_ ?_
    · intro m a recent
      rw [shared_set, get?_zrem, get?_live mirrors.outlives recent]
    · intro m a found
      rw [shared_set, get?_zrem] at found
      exact live_subset found.1
    · rw [shared_set]
      exact (mirrors.outlives.live now).zrem member
  · cases step

theorem Mirrors.moved (mirrors : Mirrors p key d) {e : Event} (step : d.step p key e = some d') :
    Moved p key d e d' := by
  cases e with
  | python uuid now => exact mirrors.python step
  | zrem member now => exact mirrors.zrem step
  | typescript uuid now => exact mirrors.typescript step

theorem Mirrors.initial : Mirrors p key {} where
  started := le_rfl
  distinct := List.nodup_nil
  past := List.forall_mem_nil _
  denied := List.forall_mem_nil _
  called := List.forall_mem_nil _
  once := List.nodup_nil
  known m a found := by
    simp [Deployment.shared, Redis.at, SortedSet.empty] at found
  recent := List.forall_mem_nil _
  outlives := by
    simp [Deployment.shared, Redis.at, empty_outlives]

theorem Mirrors.turn (mirrors : Mirrors p key d) {e : Event} (moved : Moved p key d e d') :
    Mirrors p key d' := by
  have started := mirrors.started
  cases moved with
  | answered c waits asked time later new clock calls outstanding denied verdict scores outlives =>
    have others : ∀ c' ∈ d.calls, c'.member ≠ c.member := by
      intro c' member same
      exact new (same ▸ List.mem_map_of_mem member)
    have outside : c.member ∉ d.outstanding := fun waiting => new (mirrors.called _ waiting)
    have waiting : ∀ c' ∈ d.calls, c'.member ∈ d'.outstanding ↔ c'.member ∈ d.outstanding := by
      intro c' member
      rw [outstanding]
      split
      · simp [others c' member]
      · rfl
    refine ⟨?_, ?_, ?_, ?_, ?_, ?_, ?_, ?_, outlives⟩
    · omega
    · rw [calls, List.map_cons, List.nodup_cons]
      exact ⟨new, mirrors.distinct⟩
    · rw [calls, clock]
      intro c' member
      rcases List.mem_cons.mp member with rfl | old
      · omega
      · have := mirrors.past c' old
        omega
    · rw [calls]
      intro c' member waits'
      rcases List.mem_cons.mp member with rfl | old
      · apply denied
        by_contra stays
        rw [outstanding, if_neg stays] at waits'
        exact outside waits'
      · exact mirrors.denied c' old ((waiting c' old).mp waits')
    · rw [calls, outstanding]
      intro m member
      rw [List.map_cons, List.mem_cons]
      split at member
      · exact (List.mem_cons.mp member).imp_right (mirrors.called m)
      · exact .inr (mirrors.called m member)
    · rw [outstanding]
      split
      · exact List.nodup_cons.mpr ⟨outside, mirrors.once⟩
      · exact mirrors.once
    · rw [calls]
      intro m a found
      rcases (scores m a).mp found with ⟨_, rfl, rfl⟩ | ⟨before, _⟩
      · exact ⟨c, List.mem_cons_self, rfl, rfl⟩
      · obtain ⟨c', member, same⟩ := mirrors.known m a before
        exact ⟨c', List.mem_cons_of_mem c member, same⟩
    · rw [calls, clock]
      intro c' member recent
      rcases List.mem_cons.mp member with rfl | old
      · have none_ := mirrors.unknown new c'.now
        have waits_iff : c'.member ∈ d'.outstanding ↔ waits = true := by
          rw [outstanding]
          cases waits <;> simp [outside]
        simp [scores, none_, Deployment.holds, waits_iff]
      · have before := mirrors.recent c' old (by omega)
        simp only [scores, others c' old, false_and, and_false, false_or, recent, and_true, before,
          Deployment.holds, waiting c' old]
  | removed member now silent later waiting clock calls outstanding scores fewer outlives =>
    have still : ∀ m, m ∈ d'.outstanding ↔ m ≠ member ∧ m ∈ d.outstanding := by
      intro m
      rw [outstanding, mirrors.once.mem_erase_iff]
    refine ⟨?_, calls ▸ mirrors.distinct, ?_, ?_, ?_, ?_, ?_, ?_, outlives⟩
    · omega
    · rw [calls, clock]
      intro c here
      have := mirrors.past c here
      omega
    · rw [calls]
      intro c here waits
      exact mirrors.denied c here ((still _).mp waits).2
    · rw [calls]
      intro m waits
      exact mirrors.called m ((still m).mp waits).2
    · rw [outstanding]
      exact mirrors.once.erase member
    · rw [calls]
      intro m a found
      exact mirrors.known m a (fewer m a found)
    · rw [calls, clock]
      intro c here recent
      have before := mirrors.recent c here (by omega)
      rw [scores _ _ recent, before]
      simp only [Deployment.holds, Bool.or_eq_true, decide_eq_true_eq, still]
      by_cases own : c.member = member
      · have := mirrors.denied c here (own ▸ waiting)
        simp [own, this]
      · simp [own]

theorem Mirrors.step (mirrors : Mirrors p key d) {e : Event} (step : d.step p key e = some d') :
    Mirrors p key d' :=
  mirrors.turn (mirrors.moved step)

end Metahumotonic.Limiter
