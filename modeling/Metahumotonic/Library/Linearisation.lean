import Mathlib.Data.Fintype.Pigeonhole
import Mathlib.Data.List.Lex
import Mathlib.Data.List.Sort
import Mathlib.Logic.Relation
import Metahumotonic.Library.Positions

/-! Orders of finitely many items in which every item comes after those that it
needs. An order that always takes the least of the items that are ready is the least
of them all, and items that are never ready reach a cycle. -/
namespace Metahumotonic.Library

variable {α : Type*} {needs : α → α → Prop} {items order other : List α}

def NeedsFirst (needs : α → α → Prop) (order : List α) : Prop :=
  ∀ before item after, order = before ++ item :: after → ∀ need, needs item need → need ∈ before

structure Linearises (needs : α → α → Prop) (items order : List α) : Prop where
  perm : order.Perm items
  first : NeedsFirst needs order

/-- An item that may come next. -/
def Ready (needs : α → α → Prop) (items before : List α) (item : α) : Prop :=
  item ∈ items ∧ item ∉ before ∧ ∀ need, needs item need → need ∈ before

/-- The next item is always one of the least that are ready. -/
def Greedy (le : α → α → Prop) (needs : α → α → Prop) (items order : List α) : Prop :=
  ∀ before item after, order = before ++ item :: after →
    ∀ rival, Ready needs items before rival → le item rival

section NeedsFirst

theorem NeedsFirst.snoc (first : NeedsFirst needs order) {item : α}
    (ready : ∀ need, needs item need → need ∈ order) :
    NeedsFirst needs (order ++ [item]) := by
  intro before other after split need edge
  rcases split_snoc split with ⟨rfl, rfl, _⟩ | ⟨rest, inner⟩
  · exact ready need edge
  · exact first before other rest inner need edge

theorem NeedsFirst.closed (first : NeedsFirst needs order) {item need : α} (here : item ∈ order)
    (edge : needs item need) : need ∈ order := by
  obtain ⟨before, after, split⟩ := List.append_of_mem here
  rw [split]
  exact List.mem_append_left _ (first before item after split need edge)

theorem NeedsFirst.path (first : NeedsFirst needs order) {item need : α} (here : item ∈ order)
    (path : Relation.ReflTransGen needs item need) : need ∈ order := by
  induction path with
  | refl => exact here
  | tail _ edge ih => exact first.closed ih edge

theorem NeedsFirst.position [DecidableEq α] (first : NeedsFirst needs order) {item need : α}
    (here : item ∈ order)
    (edge : needs item need) : order.idxOf need < order.idxOf item := by
  obtain ⟨before, after, split, fresh⟩ := List.eq_append_cons_of_mem here
  have earlier := first before item after split need edge
  rw [split, List.idxOf_append_of_mem earlier, List.idxOf_append_of_notMem fresh,
    List.idxOf_cons_self]
  exact List.idxOf_lt_length_of_mem earlier

/-- What is ordered needs nothing that needs it. -/
theorem NeedsFirst.no_cycle (first : NeedsFirst needs order) {item : α} (here : item ∈ order) :
    ¬ Relation.TransGen needs item item := by
  classical
  have lower : ∀ need, Relation.TransGen needs item need → order.idxOf need < order.idxOf item := by
    intro need path
    induction path with
    | single edge => exact first.position here edge
    | tail path edge ih =>
      exact (first.position (first.path here path.to_reflTransGen) edge).trans ih
  exact fun cycle => Nat.lt_irrefl _ (lower item cycle)

end NeedsFirst

theorem Greedy.snoc {le : α → α → Prop} (greedy : Greedy le needs items order) {item : α}
    (least : ∀ rival, Ready needs items order rival → le item rival) :
    Greedy le needs items (order ++ [item]) := by
  intro before other after split rival ready
  rcases split_snoc split with ⟨rfl, rfl, _⟩ | ⟨rest, inner⟩
  · exact least rival ready
  · exact greedy before other rest inner rival ready

/-- Finitely many items that all need one of them reach a cycle. -/
theorem reaches_cycle (stuck : Finset α)
    (next : ∀ item ∈ stuck, ∃ need ∈ stuck, needs item need) {item : α}
    (here : item ∈ stuck) :
    ∃ c, Relation.ReflTransGen needs item c ∧ Relation.TransGen needs c c := by
  choose! step inside edge using next
  have stays : ∀ n, step^[n] item ∈ stuck := by
    intro n
    induction n with
    | zero => exact here
    | succ n ih =>
      rw [Function.iterate_succ_apply']
      exact inside _ ih
  have walk : ∀ m n, Relation.ReflTransGen needs (step^[m] item) (step^[m + n] item) := by
    intro m n
    induction n with
    | zero => exact .refl
    | succ n ih =>
      rw [← Nat.add_assoc, Function.iterate_succ_apply']
      exact ih.tail (edge _ (stays _))
  -- two of the visited items are the same one
  obtain ⟨m, n, apart, same⟩ : ∃ m n, m ≠ n ∧ step^[m] item = step^[n] item := by
    obtain ⟨m, n, apart, same⟩ :=
      Finite.exists_ne_map_eq_of_infinite fun n => (⟨step^[n] item, stays n⟩ : {x // x ∈ stuck})
    exact ⟨m, n, apart, congrArg Subtype.val same⟩
  have cycle : ∀ m n, m < n → step^[m] item = step^[n] item →
      ∃ c, Relation.ReflTransGen needs item c ∧ Relation.TransGen needs c c := by
    intro m n less same
    refine ⟨step^[m] item, by simpa using walk 0 m, ?_⟩
    have onward := walk (m + 1) (n - (m + 1))
    rw [Nat.add_sub_cancel' less, ← same, Function.iterate_succ_apply'] at onward
    exact Relation.TransGen.head' (edge _ (stays m)) onward
  rcases Nat.lt_or_gt_of_ne apart with less | more
  · exact cycle m n less same
  · exact cycle n m more same.symm

/-- The first place where another order differs takes an item that was ready too. -/
theorem Greedy.least {β : Type*} [LinearOrder β] {key : α → β} (injective : Function.Injective key)
    (greedy : Greedy (fun a b => key a ≤ key b) needs items order)
    (mine : Linearises needs items order)
    (distinct : items.Nodup) (theirs : Linearises needs items other) :
    order.map key ≤ other.map key := by
  have suffixes : ∀ rest before left, order = before ++ rest → other = before ++ left →
      rest.map key ≤ left.map key := by
    intro rest
    induction rest with
    | nil =>
      intro before left _ _
      cases left with
      | nil => exact le_rfl
      | cons rival left => exact le_of_lt .nil
    | cons item rest ih =>
      intro before left split split'
      cases left with
      | nil =>
        have lengths := (mine.perm.trans theirs.perm.symm).length_eq
        rw [split, split'] at lengths
        simp at lengths
      | cons rival left =>
        by_cases same : item = rival
        · subst same
          exact List.cons_le_cons _
            (ih (before ++ [item]) left (by simpa using split) (by simpa using split'))
        · have ready : Ready needs items before rival := by
            refine ⟨theirs.perm.subset (by simp [split']), fun member => ?_,
              theirs.first before rival left split'⟩
            have apart := theirs.perm.nodup_iff.mpr distinct
            rw [split', List.nodup_append] at apart
            exact apart.2.2 rival member rival List.mem_cons_self rfl
          have least := greedy before item rest split rival ready
          exact le_of_lt (.rel (lt_of_le_of_ne least fun equal => same (injective equal)))
  exact suffixes order [] other rfl rfl

end Metahumotonic.Library
