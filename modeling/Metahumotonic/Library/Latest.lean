import Mathlib.Order.Basic
import Mathlib.Data.List.Basic
import Mathlib.Order.Lattice

/-! The running maximum of a list with gaps, kept while the list is read. -/
namespace Metahumotonic.Library

section
variable {α : Type*} [LinearOrder α]

/-- Keeps what is there unless something later comes. -/
def later (last next : Option α) : Option α :=
  match next, last with
  | none, last => last
  | some x, none => some x
  | some x, some kept => if kept < x then some x else some kept

def latest (xs : List (Option α)) : Option α := xs.foldl later none

theorem foldl_later_some {xs : List (Option α)} {kept : α} :
    ∃ m, xs.foldl later (some kept) = some m ∧ (m = kept ∨ some m ∈ xs) ∧ kept ≤ m ∧
      ∀ x, some x ∈ xs → x ≤ m := by
  induction xs generalizing kept with
  | nil => exact ⟨kept, rfl, .inl rfl, le_refl kept, nofun⟩
  | cons next rest ih =>
    obtain ⟨start, step, from_, above, beyond⟩ : ∃ start, later (some kept) next = some start ∧
        (start = kept ∨ some start = next) ∧ kept ≤ start ∧ ∀ x, some x = next → x ≤ start := by
      cases next with
      | none => exact ⟨kept, rfl, .inl rfl, le_refl kept, nofun⟩
      | some x =>
        unfold later
        by_cases less : kept < x
        · exact ⟨x, if_pos less, .inr rfl, less.le, by rintro y ⟨⟩; exact le_refl x⟩
        · exact ⟨kept, if_neg less, .inl rfl, le_refl kept, by rintro y ⟨⟩; exact not_lt.mp less⟩
    obtain ⟨m, done, member, up, bound⟩ := @ih start
    refine ⟨m, by rw [List.foldl_cons, step, done], ?_, above.trans up, ?_⟩
    · rcases member with rfl | inside
      · rcases from_ with rfl | here
        · exact .inl rfl
        · exact .inr (here ▸ List.mem_cons_self)
      · exact .inr (List.mem_cons_of_mem _ inside)
    · intro x inside
      rcases List.mem_cons.mp inside with here | there
      · exact (beyond x here).trans up
      · exact bound x there

theorem latest_cases (xs : List (Option α)) :
    (latest xs = none ∧ ∀ x, some x ∉ xs) ∨
      ∃ m, latest xs = some m ∧ some m ∈ xs ∧ ∀ x, some x ∈ xs → x ≤ m := by
  induction xs with
  | nil => exact .inl ⟨rfl, nofun⟩
  | cons next rest ih =>
    cases next with
    | none =>
      have skip : latest (none :: rest) = latest rest := rfl
      rw [skip]
      simpa using ih
    | some x =>
      obtain ⟨m, done, member, up, bound⟩ := @foldl_later_some α _ rest x
      refine .inr ⟨m, done, ?_, ?_⟩
      · rcases member with rfl | inside
        · exact List.mem_cons_self
        · exact List.mem_cons_of_mem _ inside
      · intro y inside
        rcases List.mem_cons.mp inside with same | there
        · cases same
          exact up
        · exact bound y there

/-- The latest entry is the one that no entry exceeds. -/
theorem latest_eq_some_iff {xs : List (Option α)} {m : α} :
    latest xs = some m ↔ some m ∈ xs ∧ ∀ x, some x ∈ xs → x ≤ m := by
  rcases latest_cases xs with ⟨nothing, empty⟩ | ⟨n, found, member, bound⟩
  · rw [nothing]
    exact iff_of_false nofun fun both => empty m both.1
  · rw [found, Option.some.injEq]
    constructor
    · rintro rfl
      exact ⟨member, bound⟩
    · rintro ⟨inside, beyond⟩
      exact le_antisymm (beyond n member) (bound m inside)

theorem latest_eq_none_iff {xs : List (Option α)} : latest xs = none ↔ ∀ x, some x ∉ xs := by
  rcases latest_cases xs with ⟨nothing, empty⟩ | ⟨n, found, member, bound⟩
  · exact iff_of_true nothing empty
  · rw [found]
    exact iff_of_false nofun fun empty => empty n member

theorem latest_perm {xs ys : List (Option α)} (same : xs.Perm ys) : latest xs = latest ys := by
  rcases latest_cases ys with ⟨nothing, empty⟩ | ⟨m, found, member, bound⟩
  · rw [nothing, latest_eq_none_iff]
    exact fun x inside => empty x (same.subset inside)
  · rw [found, latest_eq_some_iff]
    exact ⟨same.symm.subset member, fun x inside => bound x (same.subset inside)⟩

end

end Metahumotonic.Library
