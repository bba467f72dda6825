import Metahumotonic.Library.Run
import Metahumotonic.Limiter.RateLimiter
import Mathlib.Data.List.Perm.Basic

/-! The window that a process keeps against the script in Redis. They differ only in the
hit that lies exactly one window back, which the process still counts. -/
namespace Metahumotonic.Limiter

open Library SortedSet

variable {p : Policy} {clock now : ℤ} {hits : List ℤ} {z : SortedSet}

/-- The hits of the half-open window that ends now. -/
def recent (p : Policy) (now : ℤ) (times : List ℤ) : List ℤ :=
  times.filter (now - p.windowMillis < ·)

/-- The hits that the process counts. -/
def kept (p : Policy) (now : ℤ) (times : List ℤ) : List ℤ :=
  times.filter (now - p.windowMillis ≤ ·)

/-- The hit exactly one window back does not matter: there is none, or there is room. -/
def Unambiguous (p : Policy) (hits : Hits) (check : Check) : Prop :=
  check.now - p.windowMillis ∈ hits.of check.key →
    (kept p check.now (hits.of check.key)).length < p.maxEvents

/-- The two back ends have the same hits of one key in the window that ends now. -/
structure Agrees (p : Policy) (clock : ℤ) (hits : List ℤ) (z : SortedSet) : Prop where
  bounded : hits.length ≤ p.maxEvents
  sorted : hits.Pairwise (· ≤ ·)
  past : ∀ a ∈ hits, a ≤ clock
  known : ∀ m a, z.scores.get? m = some a → a ≤ clock
  outlives : z.Outlives p.windowMillis
  same : (recent p clock z.scores.values).Perm (recent p clock hits)

theorem Agrees.initial (p : Policy) (clock : ℤ) : Agrees p clock [] SortedSet.empty where
  bounded := Nat.zero_le _
  sorted := List.Pairwise.nil
  past := List.forall_mem_nil _
  known _ _ found := by simp [SortedSet.empty] at found
  outlives := empty_outlives _
  same := List.Perm.refl _

theorem recent_recent (times : List ℤ) (later : clock ≤ now) :
    recent p now (recent p clock times) = recent p now times := by
  rw [recent, recent, List.filter_filter, recent]
  apply List.filter_congr
  intro a _
  by_cases inside : now - p.windowMillis < a
  · have : clock - p.windowMillis < a := by omega
    simp [inside, this]
  · simp [inside]

theorem Agrees.later (agrees : Agrees p clock hits z) (later : clock ≤ now) :
    Agrees p now hits z where
  bounded := agrees.bounded
  sorted := agrees.sorted
  past a member := (agrees.past a member).trans later
  known m a found := (agrees.known m a found).trans later
  outlives := agrees.outlives
  same := by
    have fewer := agrees.same.filter (now - p.windowMillis < ·)
    have left := recent_recent (p := p) z.scores.values later
    have right := recent_recent (p := p) hits later
    simp only [recent] at left right fewer ⊢
    rwa [left, right] at fewer

/-- What the script leaves of a set that outlives its window. -/
theorem recent_values (outlives : z.Outlives p.windowMillis) :
    ((z.live now).zremrangebyscore none (now - p.windowMillis)).scores.values.Perm
    (recent p now z.scores.values) := by
  have perm := Table.values_perm
    (s := ((z.live now).zremrangebyscore none (now - p.windowMillis)).scores)
    (t := z.scores.filter fun entry => decide (now - p.windowMillis < entry.2)) fun m a => by
      rw [get?_recent outlives now none fun _ _ _ => rfl, Table.get?_filter, decide_eq_true_eq]
  apply perm.trans
  have values : (z.scores.filter fun entry => decide (now - p.windowMillis < entry.2)).values =
      recent p now z.scores.values := by
    simp only [Table.values, Table.filter, recent, List.filter_map]
    rfl
  rw [values]

/-- What the script finds in its window. -/
theorem Agrees.found (agrees : Agrees p now hits z) :
    ((z.live now).zremrangebyscore none (now - p.windowMillis)).scores.values.Perm
      (recent p now hits) :=
  (recent_values agrees.outlives).trans agrees.same

theorem head_of_perm {times sorted : List ℤ} (perm : times.Perm sorted)
    (order : sorted.Pairwise (· ≤ ·)) :
    times.min? = sorted.head? := by
  cases sorted with
  | nil => rw [perm.eq_nil, List.min?_nil, List.head?_nil]
  | cons first rest =>
    rw [List.head?_cons, List.min?_eq_some_iff]
    refine ⟨perm.mem_iff.mpr List.mem_cons_self, fun b member => ?_⟩
    rcases List.mem_cons.mp (perm.mem_iff.mp member) with rfl | later
    · exact le_rfl
    · exact List.rel_of_pairwise_cons order later

/-- Without a hit exactly one window back both look at the same hits. -/
theorem kept_eq_recent (none_ : now - p.windowMillis ∉ hits) :
    kept p now hits = recent p now hits := by
  apply List.filter_congr
  intro a member
  have differs : now - p.windowMillis ≠ a := fun same => none_ (same ▸ member)
  by_cases inside : now - p.windowMillis < a
  · simp [inside, inside.le]
  · have : ¬ now - p.windowMillis ≤ a := by omega
    simp [inside, this]

theorem recent_le_kept : (recent p now hits).length ≤ (kept p now hits).length := by
  rw [recent, kept, ← List.countP_eq_length_filter, ← List.countP_eq_length_filter]
  apply List.countP_mono_left
  intro a _ inside
  simp only [decide_eq_true_eq] at inside ⊢
  omega

theorem recent_lt_kept (edge : now - p.windowMillis ∈ hits) :
    (recent p now hits).length < (kept p now hits).length := by
  have sublist : (recent p now hits).Sublist (kept p now hits) := by
    apply List.monotone_filter_right
    intro a inside
    simp only [decide_eq_true_eq] at inside ⊢
    omega
  apply Nat.lt_of_le_of_ne sublist.length_le
  intro same
  have whole := sublist.eq_of_length same
  have counted : now - p.windowMillis ∈ kept p now hits :=
    List.mem_filter.mpr ⟨edge, decide_eq_true le_rfl⟩
  rw [← whole] at counted
  simp [recent] at counted

/-- One more hit on both sides. -/
theorem Agrees.allow (agrees : Agrees p now hits z) {member : String}
    (absent : member ∉ z.scores.keys)
    (room : (kept p now hits).length < p.maxEvents) :
    Agrees p now (kept p now hits ++ [now])
      ((((z.live now).zremrangebyscore none (now - p.windowMillis)).zadd now member).pexpire now
        p.windowMillis) := by
  have content := get?_recent agrees.outlives now none fun _ _ _ => rfl
  have found := agrees.found
  generalize (z.live now).zremrangebyscore none (now - p.windowMillis) = y at content found
  have new : member ∉ y.scores.keys := by
    rw [Table.mem_keys]
    rintro ⟨a, there⟩
    exact absent ((Table.mem_keys _ _).mpr ⟨a, ((content member a).mp there).1⟩)
  have past : ∀ m a, (y.zadd now member).scores.get? m = some a → a ≤ now := by
    intro m a there
    rw [zadd, Table.get?_set] at there
    split at there
    · exact (Option.some.inj there).ge
    · exact agrees.known m a ((content m a).mp there).1
  refine ⟨?_, ?_, ?_, ?_, ?_, ?_⟩
  · rw [List.length_append, List.length_singleton]
    exact room
  · apply List.pairwise_append.mpr
    refine ⟨agrees.sorted.filter _, List.pairwise_singleton _ _, ?_⟩
    intro a old b last
    rw [List.mem_singleton.mp last]
    exact agrees.past a (List.mem_filter.mp old).1
  · intro a either
    rcases List.mem_append.mp either with old | last
    · exact agrees.past a (List.mem_filter.mp old).1
    · exact (List.mem_singleton.mp last).le
  · simpa only [pexpire_scores] using past
  · exact pexpire_outlives _ le_rfl past
  · have both : recent p now (kept p now hits ++ [now]) = recent p now hits ++
        recent p now [now] := by
      simp only [recent, kept, List.filter_append, List.filter_filter]
      congr 1
      apply List.filter_congr
      intro a _
      by_cases inside : now - p.windowMillis < a
      · simp [inside, inside.le]
      · simp [inside]
    have set : (y.zadd now member).scores.values = y.scores.values ++ [now] :=
      Table.values_set_new _ _ new
    rw [both, pexpire_scores, set, recent, List.filter_append]
    apply List.Perm.append _ (List.Perm.refl _)
    have again := found.filter (now - p.windowMillis < ·)
    rwa [show (recent p now hits).filter (now - p.windowMillis < ·) = recent p now hits from
      recent_recent hits le_rfl] at again

/-- A denial leaves on both sides what was counted. -/
theorem Agrees.deny (agrees : Agrees p now hits z) (same : kept p now hits = recent p now hits) :
    Agrees p now (kept p now hits) ((z.live now).zremrangebyscore none (now - p.windowMillis)) := by
  have content := get?_recent agrees.outlives now none fun _ _ _ => rfl
  refine ⟨?_, agrees.sorted.filter _, ?_, ?_, agrees.outlives.recent _ _ _, ?_⟩
  · exact (List.length_filter_le _ _).trans agrees.bounded
  · intro a member
    exact agrees.past a (List.mem_filter.mp member).1
  · intro m a there
    exact agrees.known m a ((content m a).mp there).1
  · rw [same]
    exact agrees.found.filter _

section Steps

variable {table : Hits} {redis : Redis} {check : Check}

theorem inProcess_full (full : p.maxEvents ≤ (kept p check.now (table.of check.key)).length) :
    inProcess p table check =
      (⟨false, retryAfter ((kept p check.now (table.of check.key)).headD check.now)
        p.windowMillis check.now⟩,
        table.set check.key (kept p check.now (table.of check.key))) :=
  if_pos full

theorem inProcess_room (room : (kept p check.now (table.of check.key)).length < p.maxEvents) :
    inProcess p table check =
      (⟨true, 0⟩, table.set check.key (kept p check.now (table.of check.key) ++ [check.now])) :=
  if_neg (Nat.not_le_of_lt room)

variable (agrees : Agrees p check.now (table.of check.key) (redis.at check.key))

include agrees

theorem Agrees.card : ((((redis.at check.key).live check.now).zremrangebyscore none
    (check.now - p.windowMillis)).zcard) = (recent p check.now (table.of check.key)).length := by
  have perm := agrees.found.length_eq
  rwa [Table.values, List.length_map] at perm

theorem Agrees.scripted_full
    (full : p.maxEvents ≤ (recent p check.now (table.of check.key)).length) :
    scripted p redis check =
      (⟨false, retryAfter ((recent p check.now (table.of check.key)).headD check.now)
        p.windowMillis check.now⟩,
        redis.set check.key (((redis.at check.key).live check.now).zremrangebyscore none
          (check.now - p.windowMillis))) := by
  have oldest := head_of_perm agrees.found (agrees.sorted.filter _)
  simp only [scripted, slidingWindow, agrees.card, if_pos full, lowest, oldest,
    ← List.headD_eq_head?_getD]

theorem Agrees.scripted_room
    (room : (recent p check.now (table.of check.key)).length < p.maxEvents) :
    scripted p redis check =
      (⟨true, 0⟩, redis.set check.key (((((redis.at check.key).live check.now).zremrangebyscore none
        (check.now - p.windowMillis)).zadd check.now check.member).pexpire check.now
          p.windowMillis)) := by
  simp only [scripted, slidingWindow, agrees.card, if_neg (Nat.not_le_of_lt room)]

/-- The back ends decide a check alike exactly if the hit one window back does not matter. -/
theorem Agrees.answer : (inProcess p table check).1 = (scripted p redis check).1 ↔
    Unambiguous p table check := by
  by_cases room : (kept p check.now (table.of check.key)).length < p.maxEvents
  · rw [inProcess_room room, agrees.scripted_room (recent_le_kept.trans_lt room)]
    exact iff_of_true rfl fun _ => room
  · by_cases edge : check.now - p.windowMillis ∈ table.of check.key
    · have fewer : (recent p check.now (table.of check.key)).length < p.maxEvents := by
        have := recent_lt_kept edge
        have : (kept p check.now (table.of check.key)).length ≤ (table.of check.key).length :=
          List.length_filter_le _ _
        have := agrees.bounded
        omega
      rw [inProcess_full (Nat.le_of_not_lt room), agrees.scripted_room fewer]
      apply iff_of_false
      · intro same
        cases congrArg Decision.allowed same
      · intro unambiguous
        exact room (unambiguous edge)
    · have same := kept_eq_recent edge
      have full : p.maxEvents ≤ (recent p check.now (table.of check.key)).length := by
        rw [← same]
        exact Nat.le_of_not_lt room
      rw [inProcess_full (Nat.le_of_not_lt room), agrees.scripted_full full, same]
      exact iff_of_true rfl fun there => absurd there edge

/-- A check on which they agree leaves the same hits of its key. -/
theorem Agrees.next (absent : check.member ∉ (redis.at check.key).scores.keys)
    (unambiguous : Unambiguous p table check) :
    Agrees p check.now ((inProcess p table check).2.of check.key)
      ((scripted p redis check).2.at check.key) := by
  by_cases room : (kept p check.now (table.of check.key)).length < p.maxEvents
  · rw [inProcess_room room, agrees.scripted_room (recent_le_kept.trans_lt room)]
    simpa [Hits.of, Redis.at] using agrees.allow absent room
  · have same := kept_eq_recent fun edge => room (unambiguous edge)
    have full : p.maxEvents ≤ (recent p check.now (table.of check.key)).length := by
      rw [← same]
      exact Nat.le_of_not_lt room
    rw [inProcess_full (Nat.le_of_not_lt room), agrees.scripted_full full]
    simpa [Hits.of, Redis.at] using agrees.deny same

end Steps

section Runs

/-- Both back ends before the checks that are still to come. -/
structure Paired (p : Policy) (table : Hits) (redis : Redis) (rest : List Check) : Prop where
  ordered : (rest.map Check.now).Pairwise (· ≤ ·)
  unique : (rest.map Check.member).Nodup
  agrees : ∀ check ∈ rest.head?, ∀ key, Agrees p check.now (table.of key) (redis.at key)
  unused : ∀ key, ∀ m ∈ (redis.at key).scores.keys, m ∉ rest.map Check.member

variable {table : Hits} {redis : Redis} {check : Check} {rest : List Check}

theorem inProcess_other {key : String} (other : key ≠ check.key) :
    (inProcess p table check).2.of key = table.of key := by
  unfold inProcess
  dsimp only
  split <;> simp [Hits.of, other]

theorem scripted_other {key : String} (other : key ≠ check.key) :
    (scripted p redis check).2.at key = redis.at key := by
  simp [scripted, Redis.at, other]

theorem scripted_own : (scripted p redis check).2.at check.key =
    (slidingWindow p (redis.at check.key) check.now check.member).2 := by
  simp [scripted, Redis.at]

/-- The script adds no other member than its own. -/
theorem slidingWindow_members {member m : String}
    (there : m ∈ (slidingWindow p z now member).2.scores.keys) : m ∈ z.scores.keys ∨
      m = member := by
  have still : ∀ a, ((z.live now).zremrangebyscore none (now - p.windowMillis)).scores.get?
      m = some a →
      m ∈ z.scores.keys := by
    intro a found
    exact (Table.mem_keys _ _).mpr ⟨a, live_subset ((get?_zremrangebyscore _ _ _ _ _).mp found).1⟩
  obtain ⟨a, found⟩ := (Table.mem_keys _ _).mp there
  by_cases full : p.maxEvents ≤ ((z.live now).zremrangebyscore none (now - p.windowMillis)).zcard
  · simp only [slidingWindow, if_pos full] at found
    exact .inl (still a found)
  · simp only [slidingWindow, if_neg full, pexpire_scores, zadd, Table.get?_set] at found
    split at found
    · rename_i own
      exact .inr own
    · exact .inl (still a found)

theorem scripted_members {key m : String}
    (there : m ∈ ((scripted p redis check).2.at key).scores.keys) :
    m ∈ (redis.at key).scores.keys ∨ m = check.member := by
  by_cases here : key = check.key
  · subst here
    rw [scripted_own] at there
    exact slidingWindow_members there
  · rw [scripted_other here] at there
    exact .inl there

theorem Paired.next (paired : Paired p table redis (check :: rest))
    (unambiguous : Unambiguous p table check) :
    Paired p (inProcess p table check).2 (scripted p redis check).2 rest := by
  have ordered := List.pairwise_cons.mp paired.ordered
  have unique := List.nodup_cons.mp paired.unique
  have here := paired.agrees check rfl
  refine ⟨ordered.2, unique.2, ?_, ?_⟩
  · intro following first key
    have later : check.now ≤ following.now := by
      apply ordered.1
      exact List.mem_map_of_mem (List.mem_of_mem_head? first)
    by_cases own : key = check.key
    · subst own
      have absent : check.member ∉ (redis.at check.key).scores.keys := by
        intro present
        exact paired.unused _ _ present List.mem_cons_self
      exact ((here check.key).next absent unambiguous).later later
    · rw [inProcess_other own, scripted_other own]
      exact (here key).later later
  · intro key m member again
    rcases scripted_members member with old | rfl
    · exact paired.unused key m old (List.mem_cons_of_mem _ again)
    · exact unique.1 again

/-- The back ends answer a list of checks alike exactly if no check depends on a hit that
lies exactly one window back. -/
theorem back_ends_agree_iff (p : Policy) (checks : List Check)
    (ordered : (checks.map Check.now).Pairwise (· ≤ ·)) (unique : (checks.map Check.member).Nodup) :
    (serve (inProcess p) .empty checks).1 = (serve (scripted p) .empty checks).1 ↔
      ∀ before check after, checks = before ++ check :: after →
        Unambiguous p (serve (inProcess p) .empty before).2 check := by
  apply serve_agree_iff (inProcess p) (scripted p) (Unambiguous p) (Paired p)
  · intro table redis check rest paired
    exact (paired.agrees check rfl check.key).answer
  · intro table redis check rest paired unambiguous
    exact paired.next unambiguous
  · refine ⟨ordered, unique, ?_, ?_⟩
    · intro check _ key
      exact Agrees.initial p check.now
    · intro key m member
      simp [Redis.at, SortedSet.empty] at member

/-- Two checks exactly one window apart. -/
def edgeChecks : List Check := [⟨"k", 0, "a"⟩, ⟨"k", 1000, "b"⟩]

def edgePolicy : Policy := ⟨1, 1, Nat.le_refl 1, Nat.le_refl 1⟩

theorem back_ends_agree_sample :
    (serve (inProcess edgePolicy) .empty edgeChecks).1 =
    (serve (scripted edgePolicy) .empty edgeChecks).1 ↔
      ∀ before check after, edgeChecks = before ++ check :: after →
        Unambiguous edgePolicy (serve (inProcess edgePolicy) .empty before).2 check :=
  back_ends_agree_iff edgePolicy edgeChecks (by decide) (by decide)

/-- The process denies what the script allows. -/
theorem back_ends_may_differ :
    (edgeChecks.map Check.now).Pairwise (· ≤ ·) ∧ (edgeChecks.map Check.member).Nodup ∧
      (serve (inProcess edgePolicy) .empty edgeChecks).1 = [⟨true, 0⟩, ⟨false, 1⟩] ∧
      (serve (scripted edgePolicy) .empty edgeChecks).1 = [⟨true, 0⟩, ⟨true, 0⟩] := by
  decide

end Runs

end Metahumotonic.Limiter
