import Metahumotonic.Limiter.InProcess

/-! The hint of a denial: when a check of the key is allowed again if none is made before. -/
namespace Metahumotonic.Limiter

open Library SortedSet

/-- Checks of other keys, and one of the key at a given time. -/
structure Waits (c : Check) (others : List Check) (again : Check) (wait : ℤ) : Prop where
  others : ∀ o ∈ others, o.key ≠ c.key
  key : again.key = c.key
  now : again.now = c.now + 1000 * wait

/-- What follows a denied check: a check after the seconds of its hint is allowed, one a second
earlier is not. -/
structure HonestHint {S : Type} (limiter : S → Check → Decision × S) (s : S)
    (c : Check) : Prop where
  honest : ∀ others again, Waits c others again (limiter s c).1.retryAfterSeconds →
    (limiter (serve limiter (limiter s c).2 others).2 again).1.allowed = true
  tight : ∀ others again, 2 ≤ (limiter s c).1.retryAfterSeconds →
    Waits c others again ((limiter s c).1.retryAfterSeconds - 1) →
    (limiter (serve limiter (limiter s c).2 others).2 again).1.allowed = false

/-- The oldest allowed check of the window came a whole number of seconds ago, less than the window.
-/
def OnTheSecond (p : Policy) (checks : List Check) (c : Check) : Prop :=
  ∃ oldest, (kept p c.now (admitted p c.key checks)).head? = some oldest ∧
    c.now - oldest < p.windowMillis ∧
    1000 ∣ c.now - oldest

section
variable {p : Policy} {now oldest : ℤ} {table : Hits} {redis : Redis} {c : Check}
    {checks others : List Check}
  {z : SortedSet}

/-! The seconds of a hint, from the oldest hit. -/

theorem hint_covers (oldest now : ℤ) :
    oldest + p.windowMillis ≤ now + 1000 * retryAfter oldest p.windowMillis now := by
  rw [retryAfter]
  omega

theorem hint_late (two : 2 ≤ retryAfter oldest p.windowMillis now) :
    now + 1000 * (retryAfter oldest p.windowMillis now - 1) < oldest + p.windowMillis := by
  rw [retryAfter] at two ⊢
  omega

theorem hint_meets_iff (recent : now - p.windowMillis ≤ oldest) :
    now + 1000 * retryAfter oldest p.windowMillis now = oldest + p.windowMillis ↔
      now - oldest < p.windowMillis ∧ 1000 ∣ now - oldest := by
  have within : now - p.windowSeconds * 1000 ≤ oldest := recent
  rw [retryAfter]
  simp only [Policy.windowMillis]
  omega

/-! The window of the process. -/

theorem serve_other (quiet : ∀ o ∈ others, o.key ≠ c.key) :
    (serve (inProcess p) table others).2.of c.key = table.of c.key := by
  induction others generalizing table with
  | nil => rfl
  | cons o rest ih =>
    rw [serve, ih fun later member => quiet later (List.mem_cons_of_mem _ member)]
    exact inProcess_other (quiet o List.mem_cons_self).symm

/-- The check after a denial counts what the denied one counted. -/
theorem again_allowed_iff (denied : (inProcess p table c).1.allowed = false)
    {again : Check} {wait : ℤ}
    (waits : Waits c others again wait) :
    (inProcess p (serve (inProcess p) (inProcess p table c).2 others).2 again).1.allowed = true ↔
      (kept p (c.now + 1000 * wait) (kept p c.now (table.of c.key))).length < p.maxEvents := by
  have left : (serve (inProcess p) (inProcess p table c).2 others).2.of again.key = kept p c.now
      (table.of c.key) := by
    rw [waits.key, serve_other waits.others]
    rcases inProcess_cases p table c with ⟨-, -, left⟩ | ⟨-, allowed, -⟩
    · exact left
    · rw [allowed] at denied
      cases denied
  rcases inProcess_cases p (serve (inProcess p) (inProcess p table c).2 others).2 again with
    ⟨full, refused, -⟩ | ⟨room, allowed, -⟩
  · rw [left, waits.now] at full
    exact iff_of_false (by simp [refused]) (Nat.not_lt_of_le full)
  · rw [left, waits.now] at room
    exact iff_of_true allowed room

/-- A list that is full has room again once its least element is dropped. -/
theorem room_iff {L : List ℤ} {limit : Nat} {keep : ℤ → Bool} (full : L.length = limit)
    (there : oldest ∈ L)
    (least : ∀ a ∈ L, keep a = false → keep oldest = false) :
    (L.filter keep).length < limit ↔ keep oldest = false := by
  rw [← full, List.length_filter_lt_length_iff_exists]
  constructor
  · rintro ⟨a, member, dropped⟩
    exact least a member (by simpa using dropped)
  · intro dropped
    exact ⟨oldest, there, by simp [dropped]⟩

theorem process_again_iff (ordered : ((checks ++ [c]).map Check.now).Pairwise (· ≤ ·))
    (denied : (verdict p checks c).allowed = false) : ∃ oldest,
    (kept p c.now (admitted p c.key checks)).head? = some oldest ∧ c.now - p.windowMillis ≤ oldest ∧
      (verdict p checks c).retryAfterSeconds = retryAfter oldest p.windowMillis c.now ∧
      ∀ others again wait, Waits c others again wait →
        ((inProcess p (serve (inProcess p) (inProcess p (serve (inProcess p) .empty checks).2 c).2
          others).2 again).1.allowed =
          true ↔ oldest + p.windowMillis < c.now + 1000 * wait) := by
  rw [List.map_append, List.pairwise_append] at ordered
  have retains := retains_run p checks ordered.1 c.key c.now fun check member =>
    ordered.2.2 check.now (List.mem_map_of_mem member) c.now (by simp)
  have same := retains.same c.now le_rfl
  rcases inProcess_cases p (serve (inProcess p) .empty checks).2 c with
    ⟨full, -, -⟩ | ⟨-, allowed, -⟩
  · have past : ∀ a ∈ kept p c.now ((serve (inProcess p) .empty checks).2.of c.key), a ≤ c.now := by
      intro a member
      rw [same] at member
      exact retains.past a (List.mem_filter.mp member).1
    obtain ⟨oldest, first, recent, -, hint⟩ := denied_hint full past
    refine ⟨oldest, same ▸ first, recent, hint, fun others again wait waits => ?_⟩
    rw [again_allowed_iff denied waits, kept]
    have exact_ := Nat.le_antisymm retains.deny.bounded full
    have sorted : (kept p c.now ((serve (inProcess p) .empty checks).2.of c.key)).Pairwise
        (· ≤ ·) := by
      rw [same]
      exact retains.sorted.filter _
    rw [room_iff exact_ (List.mem_of_mem_head? first)]
    · rw [decide_eq_false_iff_not]
      omega
    · intro a member dropped
      have least : oldest ≤ a := by
        obtain ⟨rest, split⟩ := List.head?_eq_some_iff.mp first
        rw [split] at member sorted
        rcases List.mem_cons.mp member with rfl | later
        · exact le_rfl
        · exact List.rel_of_pairwise_cons sorted later
      rw [decide_eq_false_iff_not] at dropped ⊢
      omega
  · rw [verdict, allowed] at denied
    cases denied

/-- The process keeps a hit to the end of its window, so it denies a check that comes when the hint
says exactly there. -/
theorem process_honest_iff (ordered : ((checks ++ [c]).map Check.now).Pairwise (· ≤ ·))
    (denied : (verdict p checks c).allowed = false) :
    HonestHint (inProcess p) (serve (inProcess p) .empty checks).2 c ↔
      ¬ OnTheSecond p checks c := by
  obtain ⟨oldest, first, recent, hint, again_⟩ := process_again_iff ordered denied
  have covers := hint_covers (p := p) oldest c.now
  have meets := hint_meets_iff recent
  change (inProcess p (serve (inProcess p) .empty checks).2 c).1.retryAfterSeconds = _ at hint
  have second : OnTheSecond p checks c ↔ c.now - oldest < p.windowMillis ∧
      1000 ∣ c.now - oldest := by
    rw [OnTheSecond, first]
    simp
  rw [second, ← meets]
  constructor
  · intro hinted same
    have comes : Waits c [] ⟨c.key, c.now + 1000 * retryAfter oldest p.windowMillis c.now, ""⟩
        (retryAfter oldest p.windowMillis c.now) := ⟨nofun, rfl, rfl⟩
    have allowed := (again_ _ _ _ comes).mp (hinted.honest _ _ (hint ▸ comes))
    omega
  · intro apart
    constructor
    · intro others again waits
      rw [hint] at waits
      rw [again_ others again _ waits]
      omega
    · intro others again two waits
      rw [hint] at two waits
      rw [← Bool.not_eq_true, again_ others again _ waits]
      have late := hint_late two
      omega

/-! The set of a key in Redis. -/

structure Holds (p : Policy) (clock : ℤ) (z : SortedSet) : Prop where
  known : ∀ m a, z.scores.get? m = some a → a ≤ clock
  outlives : z.Outlives p.windowMillis
  bounded : z.scores.values.length ≤ p.maxEvents

/-- What the script counts at a time. -/
def counted (p : Policy) (now : ℤ) (z : SortedSet) : SortedSet :=
  (z.live now).zremrangebyscore none (now - p.windowMillis)

theorem values_length (z : SortedSet) : z.zcard = z.scores.values.length := by
  simp [zcard, Table.size, Table.values]

theorem slidingWindow_cases (p : Policy) (z : SortedSet) (now : ℤ) (member : String) :
    (p.maxEvents ≤ (counted p now z).scores.values.length ∧
      slidingWindow p z now member =
        (⟨false, retryAfter ((counted p now z).lowest.getD now) p.windowMillis now⟩,
          counted p now z)) ∨
    ((counted p now z).scores.values.length < p.maxEvents ∧ slidingWindow p z now member =
        (⟨true, 0⟩, ((counted p now z).zadd now member).pexpire now p.windowMillis)) := by
  rw [← values_length]
  by_cases full : p.maxEvents ≤ (counted p now z).zcard
  · exact .inl ⟨full, if_pos full⟩
  · exact .inr ⟨Nat.lt_of_not_le full, if_neg full⟩

theorem Holds.initial (p : Policy) (clock : ℤ) : Holds p clock .empty where
  known m a found := by simp [SortedSet.empty] at found
  outlives := empty_outlives _
  bounded := Nat.zero_le _

theorem Holds.later {clock : ℤ} (holds : Holds p clock z) (later : clock ≤ now) :
    Holds p now z where
  known m a found := (holds.known m a found).trans later
  outlives := holds.outlives
  bounded := holds.bounded

theorem Holds.counted (holds : Holds p now z) : Holds p now (counted p now z) where
  known m a found := holds.known m a (live_subset ((get?_zremrangebyscore _ _ _ _ _).mp found).1)
  outlives := holds.outlives.recent _ _ _
  bounded := by
    have perm : (Limiter.counted p now z).scores.values.Perm (recent p now z.scores.values) :=
      recent_values holds.outlives
    exact perm.length_eq.trans_le ((List.length_filter_le _ _).trans holds.bounded)

theorem Holds.step (holds : Holds p now z) (member : String) :
    Holds p now (slidingWindow p z now member).2 := by
  rcases slidingWindow_cases p z now member with ⟨-, same⟩ | ⟨room, same⟩
  · rw [same]
    exact holds.counted
  · rw [same]
    have known : ∀ m a, ((Limiter.counted p now z).zadd now member).scores.get? m = some a →
        a ≤ now := by
      intro m a found
      rw [zadd, Table.get?_set] at found
      split at found
      · exact (Option.some.inj found).ge
      · exact holds.counted.known m a found
    refine ⟨by simpa only [pexpire_scores] using known, pexpire_outlives _ le_rfl known, ?_⟩
    rw [pexpire_scores, ← values_length]
    rw [← values_length] at room
    by_cases listed : member ∈ (Limiter.counted p now z).scores.keys
    · have same_keys : ∀ m, m ∈ ((Limiter.counted p now z).zadd now member).scores.keys ↔
          m ∈ (Limiter.counted p now z).scores.keys := by
        intro m
        rw [zadd, Table.mem_keys_set]
        exact or_iff_right_of_imp fun own => own ▸ listed
      have size := Table.size_of_keys _ (Limiter.counted p now z).scores.keys_nodup same_keys
      rw [Table.keys, List.length_map] at size
      exact size.trans_le room.le
    · rw [zcard, zadd, Table.size_set_new _ _ listed]
      exact room

theorem holds_run (p : Policy) (before : List Check)
    (ordered : (before.map Check.now).Pairwise (· ≤ ·)) (key : String)
    (clock : ℤ) (past : ∀ check ∈ before, check.now ≤ clock) :
    Holds p clock ((serve (scripted p) .empty before).2.at key) := by
  induction before using List.reverseRecOn generalizing clock with
  | nil => exact Holds.initial p clock
  | append_singleton before check ih =>
    rw [List.map_append, List.pairwise_append] at ordered
    have here : check.now ≤ clock := past check (by simp)
    have holds := ih ordered.1 check.now fun c member =>
      ordered.2.2 c.now (List.mem_map_of_mem member) check.now (by simp)
    refine Holds.later ?_ here
    rw [serve_append]
    change Holds p check.now ((scripted p (serve (scripted p) .empty before).2 check).2.at key)
    by_cases own : key = check.key
    · subst own
      rw [scripted_own]
      exact holds.step check.member
    · rw [scripted_other own]
      exact holds

theorem script_other (quiet : ∀ o ∈ others, o.key ≠ c.key) :
    (serve (scripted p) redis others).2.at c.key = redis.at c.key := by
  induction others generalizing redis with
  | nil => rfl
  | cons o rest ih =>
    rw [serve, ih fun later member => quiet later (List.mem_cons_of_mem _ member)]
    exact scripted_other (quiet o List.mem_cons_self).symm

theorem scripted_answer (p : Policy) (redis : Redis) (c : Check) :
    (scripted p redis c).1 = (slidingWindow p (redis.at c.key) c.now c.member).1 := rfl

/-- The script drops a hit at the end of its window, so its hint is exact. -/
theorem script_honest (ordered : ((checks ++ [c]).map Check.now).Pairwise (· ≤ ·))
    (denied : (scripted p (serve (scripted p) .empty checks).2 c).1.allowed = false) :
    HonestHint (scripted p) (serve (scripted p) .empty checks).2 c := by
  rw [List.map_append, List.pairwise_append] at ordered
  have holds := holds_run p checks ordered.1 c.key c.now fun check member =>
    ordered.2.2 check.now (List.mem_map_of_mem member) c.now (by simp)
  have left : (scripted p (serve (scripted p) .empty checks).2 c).2.at c.key =
      (slidingWindow p ((serve (scripted p) .empty checks).2.at c.key) c.now c.member).2 :=
        scripted_own
  have answer := scripted_answer p (serve (scripted p) .empty checks).2 c
  generalize (serve (scripted p) .empty checks).2 = redis at *
  rcases slidingWindow_cases p (redis.at c.key) c.now c.member with ⟨full, same⟩ | ⟨-, same⟩
  · rw [same] at left answer
    have held := holds.counted
    generalize counted p c.now (redis.at c.key) = z at full left answer held
    obtain ⟨oldest, lowest⟩ : ∃ oldest, z.lowest = some oldest := by
      rw [lowest, ← Option.isSome_iff_exists, List.isSome_min?_iff]
      rintro empty
      rw [empty, List.length_nil] at full
      exact absurd p.maxEvents_pos (by omega)
    obtain ⟨there, least⟩ := List.min?_eq_some_iff.mp lowest
    rw [lowest, Option.getD_some] at answer
    have hint : (scripted p redis c).1.retryAfterSeconds = retryAfter oldest p.windowMillis
        c.now := by rw [answer]
    have exact_ := Nat.le_antisymm held.bounded full
    have again_ : ∀ others again wait, Waits c others again wait →
        ((scripted p (serve (scripted p) (scripted p redis c).2 others).2 again).1.allowed = true ↔
          oldest + p.windowMillis ≤ c.now + 1000 * wait) := by
      intro others again wait waits
      have value : (serve (scripted p) (scripted p redis c).2 others).2.at again.key = z := by
        rw [waits.key, script_other waits.others, left]
      have perm : (counted p again.now z).scores.values.Perm (recent p again.now z.scores.values) :=
        recent_values held.outlives
      have room : (counted p again.now z).scores.values.length < p.maxEvents ↔
          oldest + p.windowMillis ≤ c.now + 1000 * wait := by
        rw [perm.length_eq, recent, room_iff exact_ there, decide_eq_false_iff_not, waits.now]
        · omega
        · intro a member dropped
          have low := least a member
          rw [decide_eq_false_iff_not] at dropped ⊢
          omega
      rw [← room, scripted_answer, value]
      rcases slidingWindow_cases p z again.now again.member with ⟨whole, same⟩ | ⟨free, same⟩
      · rw [same]
        exact iff_of_false Bool.false_ne_true (Nat.not_lt_of_le whole)
      · rw [same]
        exact iff_of_true rfl free
    constructor
    · intro others again waits
      rw [hint] at waits
      exact (again_ others again _ waits).mpr (hint_covers oldest c.now)
    · intro others again two waits
      rw [hint] at two waits
      rw [← Bool.not_eq_true, again_ others again _ waits]
      exact Int.not_le.mpr (hint_late two)
  · rw [answer, same] at denied
    cases denied

end

/-- Both limiters give an honest and tight hint exactly if the process was not asked on the second.
-/
theorem retry_after_honest_iff (p : Policy) (checks : List Check) (c : Check)
    (ordered : ((checks ++ [c]).map Check.now).Pairwise (· ≤ ·)) :
    (((verdict p checks c).allowed = false →
      HonestHint (inProcess p) (serve (inProcess p) .empty checks).2 c) ∧
      ((scripted p (serve (scripted p) .empty checks).2 c).1.allowed = false →
        HonestHint (scripted p) (serve (scripted p) .empty checks).2 c)) ↔
    ((verdict p checks c).allowed = false → ¬ OnTheSecond p checks c) := by
  rw [and_iff_left (script_honest ordered)]
  exact imp_congr_right fun denied => process_honest_iff ordered denied

theorem retry_after_honest_sample :
    (((verdict edgePolicy [⟨"k", 0, "a"⟩] ⟨"k", 400, "b"⟩).allowed = false →
        HonestHint (inProcess edgePolicy) (serve (inProcess edgePolicy) .empty [⟨"k", 0, "a"⟩]).2
          ⟨"k", 400, "b"⟩) ∧
      ((scripted edgePolicy (serve (scripted edgePolicy) .empty [⟨"k", 0, "a"⟩]).2
        ⟨"k", 400, "b"⟩).1.allowed = false →
        HonestHint (scripted edgePolicy) (serve (scripted edgePolicy) .empty [⟨"k", 0, "a"⟩]).2
          ⟨"k", 400, "b"⟩)) ↔
    ((verdict edgePolicy [⟨"k", 0, "a"⟩] ⟨"k", 400, "b"⟩).allowed = false →
      ¬ OnTheSecond edgePolicy [⟨"k", 0, "a"⟩] ⟨"k", 400, "b"⟩) :=
  retry_after_honest_iff edgePolicy [⟨"k", 0, "a"⟩] ⟨"k", 400, "b"⟩ (by decide)

/-- One event a second. The second check is denied with a hint of one second, and so is one that
comes a second later. -/
theorem hint_may_be_early :
    (([⟨"k", 0, "a"⟩, ⟨"k", 0, "b"⟩] : List Check).map Check.now).Pairwise (· ≤ ·) ∧
      verdict edgePolicy [⟨"k", 0, "a"⟩] ⟨"k", 0, "b"⟩ = ⟨false, 1⟩ ∧
      ¬ HonestHint (inProcess edgePolicy) (serve (inProcess edgePolicy) .empty [⟨"k", 0, "a"⟩]).2
        ⟨"k", 0, "b"⟩ := by
  refine ⟨by decide, by decide, fun hinted => ?_⟩
  have hint : (inProcess edgePolicy (serve (inProcess edgePolicy) .empty [⟨"k", 0, "a"⟩]).2
      ⟨"k", 0, "b"⟩).1 = ⟨false, 1⟩ := by
    decide
  have allowed := hinted.honest [] ⟨"k", 1000, "c"⟩ ⟨nofun, rfl, by rw [hint]; rfl⟩
  revert allowed
  decide

end Metahumotonic.Limiter
