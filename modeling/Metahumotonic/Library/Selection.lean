import Mathlib.Data.List.Induction
import Mathlib.Data.List.MinMax
import Mathlib.Data.List.Sort
import Metahumotonic.Library.Table

/-! Selecting the item with the largest key: by a loop that keeps the best item of each group, or
as the head of a list that was sorted. Where no two items share a key, the order of the list does
not matter. -/
namespace Metahumotonic.Library

variable {α γ κ : Type*} [LinearOrder κ] {key : α → κ} {l l' : List α}

theorem argmax_eq_some_of_distinct (distinct : ∀ a ∈ l, ∀ b ∈ l, key a = key b → a = b) {m : α} :
    l.argmax key = some m ↔ m ∈ l ∧ ∀ a ∈ l, key a ≤ key m := by
  constructor
  · intro found
    exact ⟨List.argmax_mem found, fun a member => List.le_of_mem_argmax member found⟩
  · rintro ⟨member, greatest⟩
    obtain ⟨n, found⟩ : ∃ n, l.argmax key = some n := by
      apply Option.ne_none_iff_exists'.mp
      rw [ne_eq, List.argmax_eq_none]
      exact List.ne_nil_of_mem member
    have here := List.argmax_mem found
    have same := distinct n here m member
      (le_antisymm (greatest n here) (List.le_of_mem_argmax member found))
    rw [found, same]

theorem argmax_perm (distinct : ∀ a ∈ l, ∀ b ∈ l, key a = key b → a = b) (perm : l.Perm l') :
    l.argmax key = l'.argmax key := by
  have distinct' : ∀ a ∈ l', ∀ b ∈ l', key a = key b → a = b :=
    fun a ha b hb => distinct a (perm.mem_iff.mpr ha) b (perm.mem_iff.mpr hb)
  ext m
  rw [argmax_eq_some_of_distinct distinct, argmax_eq_some_of_distinct distinct']
  simp only [perm.mem_iff]

/-- The first item of a list is selected if no other is larger. -/
theorem argmax_of_head (key : α → κ) {a : α} {rest : List α}
    (greatest : ∀ b ∈ rest, key b ≤ key a) : (a :: rest).argmax key = some a := by
  rw [List.argmax_cons]
  cases found : rest.argmax key with
  | none => rfl
  | some b => exact if_neg (not_lt.mpr (greatest b (List.argmax_mem found)))

/-- A stable sort by descending key begins with the first item of the largest key. -/
theorem head?_insertionSort (key : α → κ) (l : List α) :
    (l.insertionSort fun a b => key b ≤ key a).head? = l.argmax key := by
  induction l with
  | nil => rfl
  | cons a rest ih =>
    rw [List.argmax_cons, ← ih, List.insertionSort_cons]
    cases sorted : rest.insertionSort fun a b => key b ≤ key a with
    | nil => rfl
    | cons b tail =>
      simp only [List.orderedInsert_cons, List.head?_cons]
      by_cases above : key b ≤ key a
      · rw [if_pos above, if_neg (not_lt.mpr above), List.head?_cons]
      · rw [if_neg above, if_pos (not_le.mp above), List.head?_cons]

/-- Sorting by a relation that on these items is the order of their keys. -/
theorem pairwise_insertionSort_of_key {r : α → α → Prop} [DecidableRel r] (key : α → κ)
    (agree : ∀ a ∈ l, ∀ b ∈ l, r a b ↔ key a ≤ key b) : (l.insertionSort r).Pairwise fun a b =>
      key a ≤ key b := by
  have same : (l.insertionSort r).map id = (l.map id).insertionSort fun a b => key a ≤ key b :=
    List.map_insertionSort _ _ id l agree
  rw [List.map_id, List.map_id] at same
  rw [same]
  have : Std.Total fun a b : α => key a ≤ key b := ⟨fun a b => le_total _ _⟩
  have : IsTrans α fun a b => key a ≤ key b := ⟨fun _ _ _ => le_trans⟩
  exact List.pairwise_insertionSort _ l

variable [DecidableEq γ]

/-- For each group the best item so far; an item replaces one with a smaller key. -/
def keepBest (group : α → γ) (key : α → κ) (items : List α) : Table γ α :=
  items.foldl (fun best item =>
    match best.get? (group item) with
    | none => best.set (group item) item
    | some previous => if key previous < key item then best.set (group item) item
      else best) Table.empty

theorem get?_keepBest (group : α → γ) (key : α → κ) (items : List α) (g : γ) :
    (keepBest group key items).get? g = (items.filter fun item => group item = g).argmax key := by
  induction items using List.reverseRecOn with
  | nil => rfl
  | append_singleton items item ih =>
    have step : keepBest group key (items ++ [item]) =
        match (keepBest group key items).get? (group item) with
        | none => (keepBest group key items).set (group item) item
        | some previous =>
          if key previous < key item then (keepBest group key items).set (group item) item
          else keepBest group key items := by
      rw [keepBest, List.foldl_append]
      rfl
    rw [step, List.filter_append]
    by_cases here : group item = g
    · subst here
      have one : ([item].filter fun other => group other = group item) = [item] := by simp
      rw [one, List.argmax_concat, ← ih]
      cases found : (keepBest group key items).get? (group item) with
      | none => exact Table.get?_set_self _ _ _
      | some previous =>
        by_cases better : key previous < key item
        · simp only [if_pos better]
          exact Table.get?_set_self _ _ _
        · simp only [if_neg better]
          exact found
    · have none_ : ([item].filter fun other => group other = g) = [] := by simp [here]
      rw [none_, List.append_nil, ← ih]
      cases (keepBest group key items).get? (group item) with
      | none => exact Table.get?_set_ne _ _ (Ne.symm here)
      | some previous =>
        by_cases better : key previous < key item
        · simp only [if_pos better]
          exact Table.get?_set_ne _ _ (Ne.symm here)
        · simp only [if_neg better]

end Metahumotonic.Library
