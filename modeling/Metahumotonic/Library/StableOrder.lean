import Mathlib.Data.List.Sort
import Mathlib.Order.Basic

/-! A list that is sorted by a key, where elements with one key come in any order: what can be read
off it without regard to that order. -/
namespace Metahumotonic.Library.StableOrder

variable {α κ : Type*} [LinearOrder κ] (key : α → κ)

def sorted (xs : List α) : List α := xs.insertionSort fun a b => key a ≤ key b

theorem sorted_perm (xs : List α) : (sorted key xs).Perm xs := List.perm_insertionSort _ xs

theorem sorted_pairwise (xs : List α) : (sorted key xs).Pairwise fun a b => key a ≤ key b := by
  have : Std.Total fun a b => key a ≤ key b := ⟨fun a b => le_total (key a) (key b)⟩
  have : IsTrans α fun a b => key a ≤ key b := ⟨fun _ _ _ => le_trans⟩
  exact List.pairwise_insertionSort _ xs

variable {xs ys : List α}

/-- The first element of a kind has the least key of its kind. -/
theorem find?_key (perm : xs.Perm ys) (p : α → Bool) :
    ((sorted key xs).find? p).map key = ((sorted key ys).find? p).map key := by
  have least (zs : List α) (ordered : zs.Pairwise fun a b => key a ≤ key b) (a : α)
      (found : zs.find? p = some a) :
      p a = true ∧ a ∈ zs ∧ ∀ b ∈ zs, p b = true → key a ≤ key b := by
    induction zs with
    | nil => cases found
    | cons z zs ih =>
      rw [List.find?_cons] at found
      obtain ⟨below, later⟩ := List.pairwise_cons.mp ordered
      cases its : p z with
      | true =>
        rw [its] at found
        cases found
        refine ⟨its, List.mem_cons_self, fun b member _ => ?_⟩
        rcases List.mem_cons.mp member with rfl | there
        · exact le_refl _
        · exact below b there
      | false =>
        rw [its] at found
        obtain ⟨holds, member, first⟩ := ih later found
        refine ⟨holds, List.mem_cons_of_mem _ member, fun b inside good => ?_⟩
        rcases List.mem_cons.mp inside with rfl | there
        · cases its.symm.trans good
        · exact first b there good
  have both : (sorted key xs).Perm (sorted key ys) :=
    ((sorted_perm key xs).trans perm).trans (sorted_perm key ys).symm
  cases first : (sorted key xs).find? p with
  | none =>
    have absent : (sorted key ys).find? p = none := by
      rw [List.find?_eq_none] at first ⊢
      exact fun b member => first b (both.mem_iff.mpr member)
    rw [absent]
  | some a =>
    obtain ⟨holds, member, before⟩ := least _ (sorted_pairwise key xs) a first
    obtain ⟨b, second⟩ := Option.isSome_iff_exists.mp
      (List.find?_isSome.mpr ⟨a, both.mem_iff.mp member, holds⟩)
    obtain ⟨holds', member', before'⟩ := least _ (sorted_pairwise key ys) b second
    rw [second, Option.map_some, Option.map_some,
      le_antisymm (before b (both.mem_iff.mpr member') holds')
        (before' a (both.mem_iff.mp member) holds)]

/-- What grows with the key is read off in one order. -/
theorem filterMap_sorted {β : Type*} [PartialOrder β] (perm : xs.Perm ys) (f : α → Option β)
    (mono : ∀ a b x y, key a ≤ key b → f a = some x → f b = some y → x ≤ y) :
    (sorted key xs).filterMap f = (sorted key ys).filterMap f := by
  have ordered (zs : List α) : ((sorted key zs).filterMap f).Pairwise (· ≤ ·) := by
    rw [List.pairwise_filterMap]
    exact (sorted_pairwise key zs).imp fun below x first y second => mono _ _ _ _ below first second
  have both : (sorted key xs).Perm (sorted key ys) :=
    ((sorted_perm key xs).trans perm).trans (sorted_perm key ys).symm
  exact (both.filterMap f).eq_of_pairwise (fun _ _ _ _ => le_antisymm) (ordered xs) (ordered ys)

/-- With distinct keys there is one order. -/
theorem sorted_congr (perm : xs.Perm ys) (apart : ∀ a ∈ xs, ∀ b ∈ xs, key a = key b → a = b) :
    sorted key xs = sorted key ys := by
  have both : (sorted key xs).Perm (sorted key ys) :=
    ((sorted_perm key xs).trans perm).trans (sorted_perm key ys).symm
  refine both.eq_of_pairwise ?_ (sorted_pairwise key xs) (sorted_pairwise key ys)
  intro a b inside inside' below above
  exact apart a ((sorted_perm key xs).mem_iff.mp inside) b
    (perm.mem_iff.mpr ((sorted_perm key ys).mem_iff.mp inside')) (le_antisymm below above)

end Metahumotonic.Library.StableOrder
