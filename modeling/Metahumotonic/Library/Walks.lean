import Mathlib.Data.List.Chain
import Mathlib.Data.List.Nodup
import Mathlib.Logic.Relation

/-! Walks along a relation: lists of items of which each is related to the next. The transitive
closure relates the ends of the walks of one step or more. -/
namespace Metahumotonic.Library

variable {α : Type*} {R : α → α → Prop} {a b : α}

/-- What lies between the ends of a walk of at least one step. -/
def IsWalk (R : α → α → Prop) (a : α) (between : List α) (b : α) : Prop := List.IsChain R
    (a :: (between ++ [b]))

theorem isWalk_transGen {between : List α} (walk : IsWalk R a between b) :
    Relation.TransGen R a b := by
  induction between generalizing a with
  | nil => exact .single (List.isChain_pair.mp walk)
  | cons c rest ih =>
    obtain ⟨edge, later⟩ := List.isChain_cons_cons.mp walk
    exact .head edge (ih later)

theorem transGen_isWalk (path : Relation.TransGen R a b) : ∃ between, IsWalk R a between b := by
  induction path using Relation.TransGen.head_induction_on with
  | single edge => exact ⟨[], List.isChain_pair.mpr edge⟩
  | @head c d edge _ ih =>
    obtain ⟨between, walk⟩ := ih
    exact ⟨d :: between, List.isChain_cons_cons.mpr ⟨edge, walk⟩⟩

theorem isWalk_iff : (∃ between, IsWalk R a between b) ↔ Relation.TransGen R a b :=
  ⟨fun ⟨_, walk⟩ => isWalk_transGen walk, transGen_isWalk⟩

/-- What lies between two visits of an item can be left out. -/
theorem isWalk_cut {before inside after : List α} {c : α}
    (walk : IsWalk R a (before ++ c :: (inside ++ c :: after)) b) :
    IsWalk R a (before ++ c :: after) b := by
  simp only [IsWalk, List.append_assoc, List.cons_append] at walk ⊢
  obtain ⟨first, rest⟩ := List.isChain_cons_split.mp walk
  obtain ⟨_, last⟩ := List.isChain_cons_split.mp rest
  exact List.isChain_cons_split.mpr ⟨first, last⟩

theorem isWalk_return {before after : List α} (walk : IsWalk R a (before ++ a :: after) b) :
    IsWalk R a after b := by
  simp only [IsWalk, List.append_assoc, List.cons_append] at walk ⊢
  exact (List.isChain_cons_split.mp walk).2

theorem twice_split {items : List α} (repeats : ¬ items.Nodup) :
    ∃ before c inside after, items = before ++ c :: (inside ++ c :: after) := by
  induction items with
  | nil => exact absurd List.nodup_nil repeats
  | cons first rest ih =>
    by_cases again : first ∈ rest
    · obtain ⟨inside, after, rfl⟩ := List.append_of_mem again
      exact ⟨[], first, inside, after, rfl⟩
    · obtain ⟨before, c, inside, after, rfl⟩ := ih fun distinct =>
        repeats (List.nodup_cons.mpr ⟨again, distinct⟩)
      exact ⟨first :: before, c, inside, after, rfl⟩

/-- A closed walk contains a cycle through its ends, which visits no item twice. -/
theorem exists_cycle {between : List α} (walk : IsWalk R a between a) :
    ∃ cycle, (a :: cycle).Nodup ∧ IsWalk R a cycle a := by
  induction fewer : between.length using Nat.strong_induction_on generalizing between with
  | _ n shorter =>
    subst fewer
    by_cases returns : a ∈ between
    · obtain ⟨before, after, rfl⟩ := List.append_of_mem returns
      refine shorter after.length ?_ (isWalk_return walk) rfl
      simp only [List.length_append, List.length_cons]
      omega
    · by_cases distinct : between.Nodup
      · exact ⟨between, List.nodup_cons.mpr ⟨returns, distinct⟩, walk⟩
      · obtain ⟨before, c, inside, after, rfl⟩ := twice_split distinct
        refine shorter (before ++ c :: after).length ?_ (isWalk_cut walk) rfl
        simp only [List.length_append, List.length_cons]
        omega

end Metahumotonic.Library
