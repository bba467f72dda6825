import Metahumotonic.Library.Window
import Metahumotonic.Limiter.BackEnds
import Mathlib.Algebra.Order.Group.Int

/-! The window that a process keeps, against the history of its decisions. What the table holds
of a key is as good as every check of it that was ever allowed. -/
namespace Metahumotonic.Limiter

open Library

/-- The decision on a check that comes after others. -/
def verdict (p : Policy) (before : List Check) (check : Check) : Decision :=
  (inProcess p (serve (inProcess p) .empty before).2 check).1

def decisions (p : Policy) (checks : List Check) : List (Check × Decision) :=
  checks.zip (serve (inProcess p) .empty checks).1

/-- The times of the checks of a key that were allowed. -/
def admitted (p : Policy) (key : String) (checks : List Check) : List ℤ :=
  ((decisions p checks).filter fun c => c.1.key == key && c.2.allowed).map fun c => c.1.now

/-- How many of the times lie in the closed window that ends now. -/
def inside (p : Policy) (now : ℤ) (times : List ℤ) : Nat :=
  times.countP fun a => decide (now - p.windowMillis ≤ a ∧ a ≤ now)

/-- The sliding window, told by the history of decisions alone. -/
structure SlidingWindow (p : Policy) (checks : List Check) : Prop where
  exact : ∀ before check after, checks = before ++ check :: after →
    ((verdict p before check).allowed = true ↔ inside p check.now (admitted p check.key before) <
      p.maxEvents)
  bounded : ∀ key t, inside p t (admitted p key checks) ≤ p.maxEvents
  silent : ∀ before check after, checks = before ++ check :: after →
    (verdict p before check).allowed = false →
    (serve (inProcess p) (serve (inProcess p) .empty (before ++ [check])).2 after).1 =
      (serve (inProcess p) (serve (inProcess p) .empty before).2 after).1
  alone : ∀ key, ((decisions p checks).filter (·.1.key == key)).map Prod.snd =
    (serve (inProcess p) .empty (checks.filter (·.key == key))).1
  hint : ∀ before check after, checks = before ++ check :: after →
    (verdict p before check).allowed = false →
    1 ≤ (verdict p before check).retryAfterSeconds ∧ (verdict p before check).retryAfterSeconds ≤
      p.windowSeconds

section
variable {p : Policy} {key : String} {clock now : ℤ} {hits log : List ℤ} {table : Hits}
    {before checks : List Check}
  {check : Check}

theorem serve_length {S A R : Type} (step : S → A → R × S) (s : S) (requests : List A) :
    (serve step s requests).1.length = requests.length := by
  induction requests generalizing s with
  | nil => rfl
  | cons a rest ih => simp only [serve, List.length_cons, ih]

theorem decisions_snoc (p : Policy) (before : List Check) (check : Check) :
    decisions p (before ++ [check]) = decisions p before ++ [(check, verdict p before check)] := by
  have same : before.length = (serve (inProcess p) Table.empty before).1.length :=
    (serve_length _ _ _).symm
  rw [decisions, serve_append, List.zip_append same]
  rfl

theorem admitted_snoc (p : Policy) (key : String) (before : List Check) (check : Check) :
    admitted p key (before ++ [check]) = admitted p key before ++
      if check.key = key ∧ (verdict p before check).allowed = true then [check.now] else [] := by
  rw [admitted, decisions_snoc, List.filter_append, List.map_append]
  congr 1
  split
  · rename_i both
    simp [both]
  · rename_i other
    have out : (check.key == key && (verdict p before check).allowed) = false := by
      rwa [Bool.eq_false_iff, ne_eq, Bool.and_eq_true, beq_iff_eq]
    simp [out]

/-- What a check does to the hits of its key. -/
theorem inProcess_cases (p : Policy) (table : Hits) (check : Check) :
    (p.maxEvents ≤ (kept p check.now (table.of check.key)).length ∧
      (inProcess p table check).1.allowed = false ∧
      (inProcess p table check).2.of check.key = kept p check.now (table.of check.key)) ∨
    ((kept p check.now (table.of check.key)).length < p.maxEvents ∧
      (inProcess p table check).1.allowed = true ∧
      (inProcess p table check).2.of check.key = kept p check.now (table.of check.key) ++
      [check.now]) := by
  by_cases full : p.maxEvents ≤ (kept p check.now (table.of check.key)).length
  · left
    rw [inProcess_full full]
    exact ⟨full, rfl, by simp [Hits.of]⟩
  · right
    rw [inProcess_room (Nat.lt_of_not_le full)]
    exact ⟨Nat.lt_of_not_le full, rfl, by simp [Hits.of]⟩

/-- From the clock on the hits of a key count as its whole log does. -/
structure Retains (p : Policy) (clock : ℤ) (hits log : List ℤ) : Prop where
  same : ∀ now, clock ≤ now → kept p now hits = kept p now log
  past : ∀ a ∈ log, a ≤ clock
  sorted : log.Pairwise (· ≤ ·)
  bounded : hits.length ≤ p.maxEvents

theorem Retains.initial (p : Policy) (clock : ℤ) : Retains p clock [] [] where
  same _ _ := rfl
  past := List.forall_mem_nil _
  sorted := List.Pairwise.nil
  bounded := Nat.zero_le _

theorem Retains.later (retains : Retains p clock hits log) (later : clock ≤ now) :
    Retains p now hits log where
  same next after := retains.same next (later.trans after)
  past a member := (retains.past a member).trans later
  sorted := retains.sorted
  bounded := retains.bounded

theorem kept_kept (times : List ℤ) (later : clock ≤ now) :
    kept p now (kept p clock times) = kept p now times := by
  rw [kept, kept, List.filter_filter, kept]
  apply List.filter_congr
  intro a _
  by_cases recent : now - p.windowMillis ≤ a
  · have earlier : clock - p.windowMillis ≤ a := by omega
    simp [recent, earlier]
  · simp [recent]

theorem Retains.deny (retains : Retains p now hits log) : Retains p now (kept p now hits) log where
  same next after := by rw [kept_kept hits after, retains.same next after]
  past := retains.past
  sorted := retains.sorted
  bounded := (List.length_filter_le _ _).trans retains.bounded

theorem Retains.allow (retains : Retains p now hits log)
    (room : (kept p now hits).length < p.maxEvents) :
    Retains p now (kept p now hits ++ [now]) (log ++ [now]) where
  same next after := by
    have split : ∀ times, kept p next (times ++ [now]) = kept p next times ++ kept p next [now] :=
      fun times => List.filter_append _ _
    rw [split, split, retains.deny.same next after]
  past a member := by
    rcases List.mem_append.mp member with old | last
    · exact retains.past a old
    · exact (List.mem_singleton.mp last).le
  sorted := by
    apply List.pairwise_append.mpr
    refine ⟨retains.sorted, List.pairwise_singleton _ _, ?_⟩
    intro a old b last
    rw [List.mem_singleton.mp last]
    exact retains.past a old
  bounded := by
    rw [List.length_append, List.length_singleton]
    exact room

/-- After checks at nondecreasing times, every key retains its log. -/
theorem retains_run (p : Policy) (before : List Check)
    (ordered : (before.map Check.now).Pairwise (· ≤ ·)) (key : String)
    (clock : ℤ) (past : ∀ check ∈ before, check.now ≤ clock) :
    Retains p clock ((serve (inProcess p) .empty before).2.of key) (admitted p key before) := by
  induction before using List.reverseRecOn generalizing clock with
  | nil => exact Retains.initial p clock
  | append_singleton before check ih =>
    rw [List.map_append, List.pairwise_append] at ordered
    have here : check.now ≤ clock := past check (by simp)
    have earlier : ∀ c ∈ before, c.now ≤ check.now := by
      intro c member
      exact ordered.2.2 c.now (List.mem_map_of_mem member) check.now (by simp)
    have retains := ih ordered.1 check.now earlier
    refine Retains.later ?_ here
    rw [serve_append, admitted_snoc]
    change Retains p check.now
        ((inProcess p (serve (inProcess p) .empty before).2 check).2.of key) _
    by_cases own : check.key = key
    · subst own
      rcases inProcess_cases p (serve (inProcess p) .empty before).2 check with
        ⟨-, denied, left⟩ | ⟨room, allowed, left⟩
      · have refused : ¬ (check.key = check.key ∧ (verdict p before check).allowed = true) := by
          simp [verdict, denied]
        rw [left, if_neg refused, List.append_nil]
        exact retains.deny
      · rw [left, if_pos ⟨rfl, allowed⟩]
        exact retains.allow room
    · rw [inProcess_other fun same => own same.symm, if_neg fun both => own both.1, List.append_nil]
      exact retains

/-- The whole log is in the past, so the closed window is what the process keeps. -/
theorem inside_eq (past : ∀ a ∈ log, a ≤ now) : inside p now log = (kept p now log).length := by
  rw [inside, kept, ← List.countP_eq_length_filter]
  apply List.countP_congr
  intro a member
  simp [past a member]

theorem verdict_iff (ordered : ((before ++ [check]).map Check.now).Pairwise (· ≤ ·)) :
    (verdict p before check).allowed = true ↔ inside p check.now (admitted p check.key before) <
      p.maxEvents := by
  rw [List.map_append, List.pairwise_append] at ordered
  have retains := retains_run p before ordered.1 check.key check.now fun c member =>
    ordered.2.2 c.now (List.mem_map_of_mem member) check.now (by simp)
  rw [inside_eq retains.past, ← retains.same check.now le_rfl]
  rcases inProcess_cases p (serve (inProcess p) .empty before).2 check with
    ⟨full, denied, -⟩ | ⟨room, allowed, -⟩
  · exact iff_of_false (by simp [verdict, denied]) (Nat.not_lt_of_le full)
  · exact iff_of_true allowed room

theorem inside_eq_within (t : ℤ) (times : List ℤ) : inside p t times = within
    (p.windowMillis + 1) t times := by
  apply List.countP_congr
  intro a _
  rw [decide_eq_true_eq, decide_eq_true_eq]
  omega

/-- No closed window is ever fuller than the policy says. -/
theorem admitted_sparse (ordered : (checks.map Check.now).Pairwise (· ≤ ·)) (key : String) :
    Sparse p.maxEvents (p.windowMillis + 1) (admitted p key checks).reverse := by
  induction checks using List.reverseRecOn with
  | nil => exact Sparse.nil _ _
  | append_singleton before check ih =>
    have whole := ordered
    rw [List.map_append, List.pairwise_append] at ordered
    rw [admitted_snoc]
    split
    · rename_i both
      obtain ⟨rfl, allowed⟩ := both
      have retains := retains_run p before ordered.1 check.key check.now fun c member =>
        ordered.2.2 c.now (List.mem_map_of_mem member) check.now (by simp)
      rw [List.reverse_append]
      apply (ih ordered.1).cons
      · intro a member
        exact retains.past a (List.mem_reverse.mp member)
      · have room := (verdict_iff whole).mp allowed
        rw [inside_eq_within] at room
        rwa [within, List.countP_reverse]
    · rw [List.append_nil]
      exact ih ordered.1

/-- Tables that agree on what every key keeps from now on decide alike. -/
structure Alike (p : Policy) (table other : Hits) (rest : List Check) : Prop where
  ordered : (rest.map Check.now).Pairwise (· ≤ ·)
  same : ∀ check ∈ rest, ∀ key, kept p check.now (table.of key) = kept p check.now (other.of key)

theorem Alike.next {other : Hits} {rest : List Check}
    (alike : Alike p table other (check :: rest)) :
    (inProcess p table check).1 = (inProcess p other check).1 ∧
      Alike p (inProcess p table check).2 (inProcess p other check).2 rest := by
  have here := alike.same check List.mem_cons_self check.key
  have ordered := List.pairwise_cons.mp alike.ordered
  refine ⟨?_, ordered.2, fun later member key => ?_⟩
  · by_cases full : p.maxEvents ≤ (kept p check.now (table.of check.key)).length
    · rw [inProcess_full full, inProcess_full (here ▸ full), here]
    · have room := Nat.lt_of_not_le full
      rw [inProcess_room room, inProcess_room (here ▸ room)]
  · by_cases own : key = check.key
    · subst own
      rcases inProcess_cases p table check with ⟨full, -, left⟩ | ⟨room, -, left⟩
      · rcases inProcess_cases p other check with ⟨-, -, right⟩ | ⟨room, -, -⟩
        · rw [left, right, here]
        · exact absurd room (Nat.not_lt_of_le (here ▸ full))
      · rcases inProcess_cases p other check with ⟨full, -, -⟩ | ⟨-, -, right⟩
        · exact absurd room (Nat.not_lt_of_le (here ▸ full))
        · rw [left, right, here]
    · rw [inProcess_other own, inProcess_other own]
      exact alike.same later (List.mem_cons_of_mem _ member) key

theorem Alike.answers {other : Hits} {rest : List Check} (alike : Alike p table other rest) :
    (serve (inProcess p) table rest).1 = (serve (inProcess p) other rest).1 := by
  induction rest generalizing table other with
  | nil => rfl
  | cons check rest ih => simp only [serve, alike.next.1, ih alike.next.2]

theorem alike_of_denied {after : List Check}
    (ordered : ((check :: after).map Check.now).Pairwise (· ≤ ·))
    (denied : (inProcess p table check).1.allowed = false) :
    Alike p (inProcess p table check).2 table after := by
  have later := List.pairwise_cons.mp ordered
  refine ⟨later.2, fun next member key => ?_⟩
  by_cases own : key = check.key
  · subst own
    rcases inProcess_cases p table check with ⟨-, -, left⟩ | ⟨-, allowed, -⟩
    · rw [left, kept_kept _ (later.1 next.now (List.mem_map_of_mem member))]
    · rw [allowed] at denied
      cases denied
  · rw [inProcess_other own]

/-- What is decided on a key depends on what the table holds of it. -/
theorem alone_run (p : Policy) (key : String) (checks : List Check) (table other : Hits)
    (same : table.of key = other.of key) :
    ((checks.zip (serve (inProcess p) table checks).1).filter (·.1.key == key)).map Prod.snd =
      (serve (inProcess p) other (checks.filter (·.key == key))).1 := by
  induction checks generalizing table other with
  | nil => rfl
  | cons check rest ih =>
    by_cases own : check.key = key
    · subst own
      have first : (inProcess p table check).1 = (inProcess p other check).1 ∧
          (inProcess p table check).2.of check.key = (inProcess p other check).2.of check.key := by
        rw [inProcess, inProcess, same]
        dsimp only
        split <;> simp [Hits.of]
      simp only [serve, List.zip_cons_cons, List.filter_cons, beq_self_eq_true, if_true,
        List.map_cons, first.1,
        ih _ _ first.2]
    · have out : (check.key == key) = false := beq_false_of_ne own
      simp only [serve, List.zip_cons_cons, List.filter_cons, out, Bool.false_eq_true, if_false]
      exact ih _ _ ((inProcess_other fun it => own it.symm).trans same)

/-- The oldest hit lies in the window, so the hint is at most the window. -/
theorem retryAfter_bounds {oldest : ℤ} (recent : now - p.windowMillis ≤ oldest)
    (past : oldest ≤ now) :
    1 ≤ retryAfter oldest p.windowMillis now ∧
      retryAfter oldest p.windowMillis now ≤ p.windowSeconds := by
  have long := p.windowSeconds_pos
  have within : now - p.windowSeconds * 1000 ≤ oldest := recent
  rw [retryAfter]
  simp only [Policy.windowMillis]
  omega

theorem denied_hint (full : p.maxEvents ≤ (kept p check.now (table.of check.key)).length)
    (past : ∀ a ∈ kept p check.now (table.of check.key), a ≤ check.now) :
    ∃ oldest, (kept p check.now (table.of check.key)).head? = some oldest ∧
      check.now - p.windowMillis ≤ oldest ∧
      oldest ≤ check.now ∧ (inProcess p table check).1.retryAfterSeconds = retryAfter oldest
        p.windowMillis check.now := by
  rw [inProcess_full full]
  cases held : kept p check.now (table.of check.key) with
  | nil =>
    rw [held, List.length_nil] at full
    exact absurd p.maxEvents_pos (by omega)
  | cons oldest rest =>
    have member : oldest ∈ kept p check.now (table.of check.key) := held ▸ List.mem_cons_self
    have recent := of_decide_eq_true (List.mem_filter.mp member).2
    exact ⟨oldest, rfl, recent, past oldest member, rfl⟩

theorem sliding_window_exact (p : Policy) (checks : List Check)
    (ordered : (checks.map Check.now).Pairwise (· ≤ ·)) :
    SlidingWindow p checks where
  exact := by
    rintro before check after rfl
    have start : ((before ++ [check]).map Check.now).Pairwise (· ≤ ·) := by
      rw [List.append_cons, List.map_append] at ordered
      exact (List.pairwise_append.mp ordered).1
    exact verdict_iff start
  bounded key t := by
    have sparse := admitted_sparse (p := p) ordered key t
    rwa [within, List.countP_reverse, ← within, ← inside_eq_within] at sparse
  silent := by
    rintro before check after rfl denied
    rw [serve_append]
    refine (alike_of_denied ?_ denied).answers
    rw [List.map_append] at ordered
    exact (List.pairwise_append.mp ordered).2.1
  alone key := alone_run p key checks _ _ rfl
  hint := by
    rintro before check after rfl denied
    rw [List.map_append, List.pairwise_append] at ordered
    have retains := retains_run p before ordered.1 check.key check.now fun c member =>
      ordered.2.2 c.now (List.mem_map_of_mem member) check.now (by simp)
    rcases inProcess_cases p (serve (inProcess p) .empty before).2 check with
      ⟨full, -, -⟩ | ⟨-, allowed, -⟩
    · obtain ⟨oldest, -, recent, past, hint⟩ := denied_hint full fun a member => by
        rw [retains.same check.now le_rfl] at member
        exact retains.past a (List.mem_filter.mp member).1
      rw [verdict, hint]
      exact retryAfter_bounds recent past
    · rw [verdict, allowed] at denied
      cases denied

theorem sliding_window_sample : SlidingWindow edgePolicy edgeChecks :=
  sliding_window_exact edgePolicy edgeChecks (by decide)

end
end Metahumotonic.Limiter
