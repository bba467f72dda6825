import Mathlib.Algebra.BigOperators.Group.Finset.Basic
import Mathlib.Algebra.Order.BigOperators.Group.Finset
import Mathlib.Logic.Relation
import Mathlib.Algebra.Order.Ring.Nat

/-! A loop over a stack of pending items. An item is taken from the top, may change
the state and pushes further items. The loop is bounded by fuel; a potential that
every turn lowers says how much is enough. -/
namespace Metahumotonic.Library

section Work

variable {σ α : Type*}

/-- The top of the stack is the head of the list, so what is pushed last is taken first. -/
def work (turn : σ → α → σ × List α) : Nat → List α → σ → σ
  | 0, _, s => s
  | _ + 1, [], s => s
  | fuel + 1, a :: stack, s => work turn fuel ((turn s a).2.reverse ++ stack) (turn s a).1

variable {turn : σ → α → σ × List α}

/-- The loop without a bound on its turns. -/
inductive WorkEnds (turn : σ → α → σ × List α) : List α → σ → σ → Prop
  | empty (s : σ) : WorkEnds turn [] s s
  | turn (a : α) (stack : List α) (s final : σ)
      (rest : WorkEnds turn ((turn s a).2.reverse ++ stack) (turn s a).1 final) :
      WorkEnds turn (a :: stack) s final

/-- With enough fuel the loop ends where it would end without a bound. -/
theorem work_ends (I : List α → σ → Prop) (potential : List α → σ → Nat)
    (kept : ∀ a stack s, I (a :: stack) s → I ((turn s a).2.reverse ++ stack) (turn s a).1)
    (lower : ∀ a stack s, I (a :: stack) s →
      potential ((turn s a).2.reverse ++ stack) (turn s a).1 < potential (a :: stack) s)
    (fuel : Nat) (stack : List α) (s : σ) (initial : I stack s)
      (enough : potential stack s ≤ fuel) :
    WorkEnds turn stack s (work turn fuel stack s) := by
  induction fuel generalizing stack s with
  | zero =>
    cases stack with
    | nil => exact .empty s
    | cons a rest =>
      have less := lower a rest s initial
      omega
  | succ fuel ih =>
    cases stack with
    | nil => exact .empty s
    | cons a rest =>
      have less := lower a rest s initial
      exact .turn a rest s _ (ih _ _ (kept a rest s initial) (by omega))

/-- What every turn keeps holds where the loop ends. -/
theorem WorkEnds.invariant {I : List α → σ → Prop}
    (kept : ∀ a stack s, I (a :: stack) s → I ((turn s a).2.reverse ++ stack) (turn s a).1)
    {stack : List α} {s final : σ} (ends : WorkEnds turn stack s final) (initial : I stack s) :
    I [] final := by
  induction ends with
  | empty s => exact initial
  | turn a stack s final _ ih => exact ih (kept a stack s initial)

/-- With enough fuel the loop empties the stack, and keeps what every turn keeps. -/
theorem work_invariant (I : List α → σ → Prop) (potential : List α → σ → Nat)
    (kept : ∀ a stack s, I (a :: stack) s → I ((turn s a).2.reverse ++ stack) (turn s a).1)
    (lower : ∀ a stack s, I (a :: stack) s →
      potential ((turn s a).2.reverse ++ stack) (turn s a).1 < potential (a :: stack) s)
    (fuel : Nat) (stack : List α) (s : σ) (initial : I stack s)
      (enough : potential stack s ≤ fuel) :
    I [] (work turn fuel stack s) :=
  (work_ends I potential kept lower fuel stack s initial enough).invariant kept initial

/-- Turns that cannot be told apart on the items of a closed set give the same loop. -/
theorem work_congr {other : σ → α → σ × List α} (inside : α → Prop)
    (same : ∀ s a, inside a → turn s a = other s a)
    (closed : ∀ s a, inside a → ∀ b ∈ (turn s a).2, inside b)
    (fuel : Nat) (stack : List α) (all : ∀ a ∈ stack, inside a) (s : σ) :
    work turn fuel stack s = work other fuel stack s := by
  induction fuel generalizing stack s with
  | zero => rfl
  | succ fuel ih =>
    cases stack with
    | nil => rfl
    | cons a rest =>
      have here := all a List.mem_cons_self
      simp only [work, ← same s a here]
      refine ih _ (fun b member => ?_) _
      rcases List.mem_append.mp member with pushed | old
      · exact closed s a here b (List.mem_reverse.mp pushed)
      · exact all b (List.mem_cons_of_mem _ old)

end Work

/-- Items of a lower rank weigh less than one item together, if there are not too many. -/
theorem weights_lt {α : Type*} {base bound : Nat} {rank : α → Nat} {items : List α}
    (few : items.length ≤ base)
    (lower : ∀ a ∈ items, rank a < bound) :
    (items.map fun a => (base + 1) ^ rank a).sum < (base + 1) ^ bound := by
  have total : (items.map fun a => (base + 1) ^ rank a).sum * (base + 1) ≤ items.length *
      (base + 1) ^ bound := by
    clear few
    induction items with
    | nil => simp
    | cons a rest ih =>
      have tail := ih fun other member => lower other (List.mem_cons_of_mem _ member)
      have head : (base + 1) ^ rank a * (base + 1) ≤ (base + 1) ^ bound := by
        rw [← Nat.pow_succ]
        exact Nat.pow_le_pow_right (Nat.succ_pos _) (lower a List.mem_cons_self)
      rw [List.map_cons, List.sum_cons, List.length_cons, Nat.add_mul, Nat.add_mul, Nat.one_mul]
      omega
  have positive : 0 < (base + 1) ^ bound := Nat.pow_pos (Nat.succ_pos _)
  apply Nat.lt_of_mul_lt_mul_right (a := base + 1)
  calc (items.map fun a => (base + 1) ^ rank a).sum * (base + 1)
      ≤ base * (base + 1) ^ bound := total.trans (Nat.mul_le_mul_right _ few)
    _ < (base + 1) ^ bound * (base + 1) := by
      rw [Nat.mul_succ, Nat.mul_comm]
      omega

section Reach

variable {α : Type*} [DecidableEq α] (next : α → List α)

/-- Take an item that was not seen before and push its successors. -/
def visit (seen : Finset α) (a : α) : Finset α × List α :=
  if a ∈ seen then (seen, []) else (insert a seen, next a)

/-- What can be reached from the items on the stack, these included. -/
def reach (fuel : Nat) (stack : List α) : Finset α := work (visit next) fuel stack ∅

/-- Pending items, and the successors of the items that may still be seen. -/
def unseen (domain : Finset α) (stack : List α) (seen : Finset α) : Nat :=
  stack.length + ∑ a ∈ domain \ seen, (next a).length

theorem unseen_insert {domain seen : Finset α} {a : α} (inside : a ∈ domain) (fresh : a ∉ seen) :
    (∑ b ∈ domain \ insert a seen, (next b).length) + (next a).length =
      ∑ b ∈ domain \ seen, (next b).length := by
  have member : a ∈ domain \ seen := Finset.mem_sdiff.mpr ⟨inside, fresh⟩
  rw [← Finset.sum_erase_add _ _ member]
  congr 2
  ext b
  simp only [Finset.mem_sdiff, Finset.mem_insert, Finset.mem_erase, not_or]
  constructor
  · rintro ⟨here, other, unseen⟩
    exact ⟨other, here, unseen⟩
  · rintro ⟨other, here, unseen⟩
    exact ⟨here, other, unseen⟩

theorem unseen_turn {domain : Finset α} {a : α} {stack : List α} {seen : Finset α}
    (inside : a ∈ domain) :
    unseen next domain ((visit next seen a).2.reverse ++ stack) (visit next seen a).1 <
      unseen next domain (a :: stack) seen := by
  unfold unseen visit
  by_cases old : a ∈ seen
  · simp [old]
  · have moved := unseen_insert next inside old
    simp only [old, if_false, List.length_append, List.length_reverse, List.length_cons]
    omega

/-- The search ends. -/
theorem reach_ends (domain : Finset α) (roots : List α)
    (closed : ∀ a ∈ domain, ∀ b ∈ next a, b ∈ domain)
    (inside : ∀ a ∈ roots, a ∈ domain) {fuel : Nat} (enough : unseen next domain roots ∅ ≤ fuel) :
    WorkEnds (visit next) roots ∅ (reach next fuel roots) := by
  refine work_ends (fun stack _ => ∀ a ∈ stack, a ∈ domain) (unseen next domain) ?_ ?_ fuel roots ∅
    inside enough
  · intro a stack seen pending b member
    rcases List.mem_append.mp member with pushed | waiting
    · have edge := List.mem_reverse.mp pushed
      unfold visit at edge
      split at edge
      · cases edge
      · exact closed a (pending a List.mem_cons_self) b edge
    · exact pending b (List.mem_cons_of_mem _ waiting)
  · intro a stack seen pending
    exact unseen_turn next (pending a List.mem_cons_self)

/-- The loop finds exactly what can be reached from its roots. -/
theorem mem_reach (domain : Finset α) (roots : List α)
    (closed : ∀ a ∈ domain, ∀ b ∈ next a, b ∈ domain) (inside : ∀ a ∈ roots, a ∈ domain)
    {fuel : Nat}
    (enough : unseen next domain roots ∅ ≤ fuel) (x : α) :
    x ∈ reach next fuel roots ↔ ∃ root ∈ roots, Relation.ReflTransGen (fun a b => b ∈ next a)
      root x := by
  let I : List α → Finset α → Prop := fun stack seen =>
    (∀ a ∈ stack, a ∈ domain ∧ ∃ root ∈ roots,
      Relation.ReflTransGen (fun a b => b ∈ next a) root a) ∧
    (∀ a ∈ seen, ∃ root ∈ roots, Relation.ReflTransGen (fun a b => b ∈ next a) root a) ∧
    (∀ root ∈ roots, root ∈ seen ∨ root ∈ stack) ∧
    ∀ a ∈ seen, ∀ b ∈ next a, b ∈ seen ∨ b ∈ stack
  have final : I [] (reach next fuel roots) := by
    refine work_invariant I (unseen next domain) ?_ ?_ fuel roots ∅ ?_ enough
    · rintro a stack seen ⟨pending, found, start, covered⟩
      have here := pending a List.mem_cons_self
      unfold visit
      by_cases old : a ∈ seen
      · simp only [old, if_true, List.reverse_nil, List.nil_append]
        refine ⟨fun b member => pending b (List.mem_cons_of_mem _ member), found, ?_, ?_⟩
        · intro root member
          rcases start root member with known | waiting
          · exact .inl known
          · rcases List.mem_cons.mp waiting with rfl | later
            · exact .inl old
            · exact .inr later
        · intro b known c edge
          rcases covered b known c edge with done | waiting
          · exact .inl done
          · rcases List.mem_cons.mp waiting with rfl | later
            · exact .inl old
            · exact .inr later
      · simp only [old, if_false]
        refine ⟨?_, ?_, ?_, ?_⟩
        · intro b member
          rcases List.mem_append.mp member with pushed | waiting
          · have edge := List.mem_reverse.mp pushed
            obtain ⟨root, from_, path⟩ := here.2
            exact ⟨closed a here.1 b edge, root, from_, path.tail edge⟩
          · exact pending b (List.mem_cons_of_mem _ waiting)
        · intro b member
          rcases Finset.mem_insert.mp member with rfl | known
          · exact here.2
          · exact found b known
        · intro root member
          rcases start root member with known | waiting
          · exact .inl (Finset.mem_insert_of_mem known)
          · rcases List.mem_cons.mp waiting with rfl | later
            · exact .inl (Finset.mem_insert_self _ _)
            · exact .inr (List.mem_append_right _ later)
        · intro b member c edge
          rcases Finset.mem_insert.mp member with rfl | known
          · exact .inr (List.mem_append_left _ (List.mem_reverse.mpr edge))
          · rcases covered b known c edge with done | waiting
            · exact .inl (Finset.mem_insert_of_mem done)
            · rcases List.mem_cons.mp waiting with rfl | later
              · exact .inl (Finset.mem_insert_self _ _)
              · exact .inr (List.mem_append_right _ later)
    · rintro a stack seen ⟨pending, _⟩
      exact unseen_turn next (pending a List.mem_cons_self).1
    · exact ⟨fun a member => ⟨inside a member, a, member, .refl⟩, nofun, fun root member =>
        .inr member,
        nofun⟩
  obtain ⟨_, found, start, covered⟩ := final
  constructor
  · exact found x
  · rintro ⟨root, member, path⟩
    induction path with
    | refl =>
      rcases start root member with known | waiting
      · exact known
      · cases waiting
    | tail _ edge ih =>
      rcases covered _ ih _ edge with done | waiting
      · exact done
      · cases waiting

end Reach

end Metahumotonic.Library
