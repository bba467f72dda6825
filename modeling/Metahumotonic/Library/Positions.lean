import Mathlib.Data.List.Basic

/-! What stands at each position of a list in which one position was overwritten, or which
got one more element; how many elements meet a test. -/
namespace Metahumotonic.Library

variable {α : Type u} {l : List α} {i j : Nat} {old new x : α}

theorem getElem?_set_iff (there : l[i]? = some old) :
    (l.set i new)[j]? = some x ↔ (j = i ∧ x = new) ∨ (j ≠ i ∧ l[j]? = some x) := by
  have inside : i < l.length := (List.getElem?_eq_some_iff.mp there).1
  rw [List.getElem?_set]
  by_cases same : i = j
  · subst same
    simp [inside, eq_comm]
  · simp [same, Ne.symm same]

theorem getElem?_concat_iff :
    (l ++ [new])[j]? = some x ↔ (j = l.length ∧ x = new) ∨ (j ≠ l.length ∧ l[j]? = some x) := by
  rw [List.getElem?_append]
  by_cases before : j < l.length
  · have differs : j ≠ l.length := Nat.ne_of_lt before
    rw [if_pos before]
    simp only [differs, false_and, ne_eq, not_false_eq_true, true_and, false_or]
  · have beyond : l[j]? = none := List.getElem?_eq_none (Nat.le_of_not_lt before)
    rw [if_neg before, beyond]
    by_cases last : j = l.length
    · simp [last, eq_comm]
    · have after : ([new] : List α)[j - l.length]? = none := by
        apply List.getElem?_eq_none
        simp only [List.length_singleton]
        omega
      simp [last, after]

/-- A place in a list with one more element is a place in the list or the last one. -/
theorem split_snoc {xs before after : List α} {x y : α} (split : xs ++ [x] = before ++ y :: after) :
    (before = xs ∧ y = x ∧ after = []) ∨ ∃ rest, xs = before ++ y :: rest := by
  rcases List.eq_nil_or_concat after with rfl | ⟨rest, last, rfl⟩
  · obtain ⟨rfl, same⟩ := List.append_inj' split rfl
    obtain ⟨rfl, _⟩ := List.cons.inj same
    exact .inl ⟨rfl, rfl, rfl⟩
  · rw [List.concat_eq_append, ← List.cons_append, ← List.append_assoc] at split
    exact .inr ⟨rest, (List.append_inj' split rfl).1⟩

/-- A stronger test is met as often only where the weaker one is never met alone. -/
theorem countP_eq_iff {p q : α → Bool} {xs : List α} (weaker : ∀ x ∈ xs, q x = true → p x = true) :
    xs.countP p = xs.countP q ↔ ∀ x ∈ xs, p x = true → q x = true := by
  induction xs with
  | nil => simp
  | cons x rest ih =>
    have tail := ih fun y inside => weaker y (List.mem_cons_of_mem _ inside)
    have le : rest.countP q ≤ rest.countP p := List.countP_mono_left fun y inside =>
      weaker y (List.mem_cons_of_mem _ inside)
    have first := weaker x List.mem_cons_self
    rw [List.countP_cons, List.countP_cons, List.forall_mem_cons, ← tail]
    cases px : p x <;> cases qx : q x <;> simp_all
    omega

end Metahumotonic.Library
