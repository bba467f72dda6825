import Mathlib.Data.List.Sort
import Mathlib.Data.List.Nodup
import Mathlib.Data.List.Perm.Subperm

/-! The items of a list with the largest keys, and what is left of them when the list is put
together from parts of which each was cut before. -/
namespace Metahumotonic.Library

variable {α κ : Type*} [LinearOrder κ] (key : α → κ)

/-- `out` are the first `k` items of `all` by descending key. -/
structure Newest (k : Nat) (all out : List α) : Prop where
  sorted : out.Pairwise fun a b => key b < key a
  within : ∀ a ∈ out, a ∈ all
  size : out.length = min k all.length
  beyond : ∀ b ∈ all, b ∉ out → ∀ a ∈ out, key b < key a

variable {key} {k m : Nat} {all out other part cut : List α}

theorem Newest.nodup (newest : Newest key k all out) : out.Nodup :=
  newest.sorted.imp fun less same => absurd less (by rw [same]; exact lt_irrefl _)

/-- A list sorted by descending key, cut after `k` items. -/
theorem newest_take {sorted : List α} (descending : sorted.Pairwise fun a b => key b < key a)
    (perm : sorted.Perm all) : Newest key k all (sorted.take k) := by
  refine ⟨descending.sublist (List.take_sublist k sorted), ?_, ?_, ?_⟩
  · intro a member
    exact perm.mem_iff.mp (List.mem_of_mem_take member)
  · rw [List.length_take, perm.length_eq]
  · intro b member left a kept
    have there : b ∈ sorted.take k ++ sorted.drop k := by
      rw [List.take_append_drop]
      exact perm.mem_iff.mpr member
    rcases List.mem_append.mp there with here | later
    · exact absurd here left
    · rw [← List.take_append_drop k sorted] at descending
      exact (List.pairwise_append.mp descending).2.2 a kept b later

/-- Sorting by descending key, and cutting. -/
theorem newest_mergeSort (distinct : (all.map key).Nodup) (k : Nat) :
    Newest key k all ((all.mergeSort fun a b => key b ≤ key a).take k) := by
  have weak : (all.mergeSort fun a b => key b ≤ key a).Pairwise fun a b =>
      decide (key b ≤ key a) = true :=
    List.pairwise_mergeSort
      (fun a b c first second => by
    simpa using (of_decide_eq_true second).trans (of_decide_eq_true first))
      (fun a b => by simpa using le_total (key b) (key a)) all
  have apart : (all.mergeSort fun a b => key b ≤ key a).Pairwise fun a b => key a ≠ key b :=
    List.pairwise_map.mp
      (((List.mergeSort_perm all fun a b => key b ≤ key a).map key).nodup_iff.mpr distinct)
  have descending : (all.mergeSort fun a b => key b ≤ key a).Pairwise fun a b => key b < key a :=
    weak.imp₂ (fun a b le ne => lt_of_le_of_ne (of_decide_eq_true le) (Ne.symm ne)) apart
  exact newest_take descending (List.mergeSort_perm _ _)

/-- Of two lists without repetition, one within the other and not shorter, both have the same items.
-/
theorem mem_of_length_le (distinct : out.Nodup) (within : ∀ a ∈ out, a ∈ other)
    (long : other.length ≤ out.length)
    {b : α} (member : b ∈ other) : b ∈ out :=
  ((List.subperm_of_subset distinct within).perm_of_length_le long).mem_iff.mpr member

theorem Newest.mem_of_mem (newest : Newest key k all out) (newest' : Newest key k all other) {a : α}
    (member : a ∈ out) : a ∈ other := by
  by_contra missing
  -- Then something of the other list is missing here, and each of the two is newer.
  have extra : ∃ b ∈ other, b ∉ out := by
    by_contra none_
    push Not at none_
    have same := mem_of_length_le newest'.nodup none_ (by rw [newest.size, newest'.size]) member
    exact missing same
  obtain ⟨b, there, absent⟩ := extra
  exact lt_asymm (newest.beyond b (newest'.within b there) absent a member)
    (newest'.beyond a (newest.within a member) missing b there)

theorem Newest.unique (newest : Newest key k all out) (newest' : Newest key k all other) :
    out = other := by
  have perm : out.Perm other := (List.perm_ext_iff_of_nodup newest.nodup newest'.nodup).mpr fun a =>
    ⟨newest.mem_of_mem newest', newest'.mem_of_mem newest⟩
  exact perm.eq_of_pairwise (fun a b _ _ less more => absurd less (lt_asymm more)) newest.sorted
    newest'.sorted

/-- What is newest of all is newest of a part that holds it. -/
theorem Newest.of_part (newest : Newest key k all out) (sub : ∀ b ∈ part, b ∈ all)
    (distinct : part.Nodup)
    (holds : ∀ a ∈ out, a ∈ part) : Newest key k part out := by
  refine ⟨newest.sorted, holds, ?_, fun b member left => newest.beyond b (sub b member) left⟩
  have upper := (List.subperm_of_subset distinct sub).length_le
  have lower := (List.subperm_of_subset newest.nodup holds).length_le
  have size := newest.size
  omega

/-- A cut at or after `k` loses nothing of the newest `k`. -/
theorem Newest.cut_keeps (newest : Newest key k all out) (sub : ∀ b ∈ part, b ∈ all)
    (cut_ : Newest key m part cut) (deep : k ≤ m) {a : α} (member : a ∈ out) (here : a ∈ part) :
    a ∈ cut := by
  by_contra lost
  have newer : ∀ b ∈ cut, b ∈ out := by
    intro b kept
    by_contra left
    exact lt_asymm (cut_.beyond a here lost b kept)
      (newest.beyond b (sub b (cut_.within b kept)) left a member)
  have above : (a :: cut).length ≤ out.length := by
    apply (List.subperm_of_subset (List.nodup_cons.mpr ⟨lost, cut_.nodup⟩) _).length_le
    intro b inside
    rcases List.mem_cons.mp inside with rfl | kept
    · exact member
    · exact newer b kept
  have below : (a :: cut).length ≤ part.length := by
    apply (List.subperm_of_subset (List.nodup_cons.mpr ⟨lost, cut_.nodup⟩) _).length_le
    intro b inside
    rcases List.mem_cons.mp inside with rfl | kept
    · exact here
    · exact cut_.within b kept
  have size := newest.size
  have cutSize := cut_.size
  rw [List.length_cons] at above below
  omega

/-- The same for a part that is sorted already, cut by taking its first items. -/
theorem Newest.take_keeps (newest : Newest key k all out) (sub : ∀ b ∈ part, b ∈ all)
    (descending : part.Pairwise fun a b => key b < key a) (deep : k ≤ m) {a : α} (member : a ∈ out)
    (here : a ∈ part) :
    a ∈ part.take m :=
  newest.cut_keeps sub (newest_take descending (List.Perm.refl part)) deep member here

end Metahumotonic.Library
