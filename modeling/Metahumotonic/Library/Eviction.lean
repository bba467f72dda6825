import Metahumotonic.Library.Table
import Mathlib.Data.List.Pairwise
import Mathlib.Data.List.Sort

/-! Keeping a table under a cap: the entries of the least rank go first. -/
namespace Metahumotonic.Library

variable {κ : Type u} {α : Type v} [DecidableEq κ]

namespace Table

/-- The entries in the order in which they would go. -/
def byRank (rank : α → ℕ) (t : Table κ α) : List (κ × α) :=
  t.entries.insertionSort fun a b => rank a.2 ≤ rank b.2

def dropLeast (rank : α → ℕ) (cap : ℕ) (t : Table κ α) : Table κ α :=
  if cap < t.size then
    ((t.byRank rank).take (t.size - cap)).foldl (fun table least => table.erase least.1) t
  else t

variable {rank : α → ℕ} {cap : ℕ} {t : Table κ α} {k j : κ} {v w : α}

theorem get?_erase_eq (t : Table κ α) (k j : κ) : (t.erase k).get? j = if j = k then none
    else t.get? j := by
  apply Option.ext
  intro v
  rw [get?_erase]
  split_ifs with here
  · simp [here]
  · simp [here]

theorem get?_foldl_erase (gone : List (κ × α)) (t : Table κ α) :
    (gone.foldl (fun table least => table.erase least.1) t).get? k = some v ↔
      t.get? k = some v ∧ k ∉ gone.map Prod.fst := by
  induction gone generalizing t with
  | nil => simp
  | cons least rest ih =>
    rw [List.foldl_cons, ih, get?_erase, List.map_cons, List.mem_cons, not_or, and_assoc]

omit [DecidableEq κ] in
theorem byRank_perm (rank : α → ℕ) (t : Table κ α) : (t.byRank rank).Perm t.entries :=
  List.perm_insertionSort _ _

omit [DecidableEq κ] in
theorem byRank_nodup (rank : α → ℕ) (t : Table κ α) : ((t.byRank rank).map Prod.fst).Nodup :=
  ((byRank_perm rank t).map Prod.fst).nodup_iff.mpr t.nodup

omit [DecidableEq κ] in
theorem byRank_sorted (rank : α → ℕ) (t : Table κ α) :
    (t.byRank rank).Pairwise fun a b => rank a.2 ≤ rank b.2 := by
  have : Std.Total fun a b : κ × α => rank a.2 ≤ rank b.2 :=
    ⟨fun a b => Nat.le_total (rank a.2) (rank b.2)⟩
  have : IsTrans (κ × α) fun a b => rank a.2 ≤ rank b.2 := ⟨fun a b c => Nat.le_trans⟩
  exact List.pairwise_insertionSort _ _

theorem dropLeast_small (small : t.size ≤ cap) : t.dropLeast rank cap = t :=
  if_neg (Nat.not_lt.mpr small)

/-- What is left are the entries of the highest ranks. -/
theorem get?_dropLeast (large : cap < t.size) :
    (t.dropLeast rank cap).get? k = some v ↔ (k, v) ∈ (t.byRank rank).drop (t.size - cap) := by
  have split := List.take_append_drop (t.size - cap) (t.byRank rank)
  have distinct := byRank_nodup rank t
  rw [← split, List.map_append, List.nodup_append] at distinct
  rw [dropLeast, if_pos large, get?_foldl_erase, ← mem_entries,
    ← (byRank_perm rank t).mem_iff, ← split,
    List.mem_append, split]
  constructor
  · rintro ⟨first | last, kept⟩
    · exact absurd (List.mem_map_of_mem first) kept
    · exact last
  · intro last
    exact ⟨.inr last, fun first =>
      distinct.2.2 k first k (List.mem_map_of_mem (f := Prod.fst) last) rfl⟩

theorem get?_of_dropLeast (kept : (t.dropLeast rank cap).get? k = some v) : t.get? k = some v := by
  rcases Nat.lt_or_ge cap t.size with large | small
  · rw [get?_dropLeast large] at kept
    exact (mem_entries t k v).mp ((byRank_perm rank t).subset (List.mem_of_mem_drop kept))
  · rwa [dropLeast_small small] at kept

theorem size_dropLeast (rank : α → ℕ) (cap : ℕ) (t : Table κ α) :
    (t.dropLeast rank cap).size ≤ cap := by
  rcases Nat.lt_or_ge cap t.size with large | small
  · have distinct := byRank_nodup rank t
    have keys : ((t.byRank rank).drop (t.size - cap) |>.map Prod.fst).Nodup :=
      ((List.drop_sublist _ _).map _).nodup distinct
    have same : ∀ k, k ∈ (t.dropLeast rank cap).keys ↔
        k ∈ ((t.byRank rank).drop (t.size - cap)).map Prod.fst := by
      intro k
      rw [mem_keys, List.mem_map]
      constructor
      · rintro ⟨v, found⟩
        exact ⟨(k, v), (get?_dropLeast large).mp found, rfl⟩
      · rintro ⟨⟨k, v⟩, member, rfl⟩
        exact ⟨v, (get?_dropLeast large).mpr member⟩
    rw [size_of_keys _ keys same, List.length_map, List.length_drop, (byRank_perm rank t).length_eq]
    change t.size - (t.size - cap) ≤ cap
    omega
  · rw [dropLeast_small small]
    exact small

/-- The entry of one key goes no later than that of the other. -/
def RankLe (rank : α → ℕ) (t : Table κ α) (j k : κ) : Prop :=
  ∀ w v, t.get? j = some w → t.get? k = some v → rank w ≤ rank v

/-- A list that has the keys by falling rank has them in the reverse order of their going. -/
theorem byRank_keys {keys : List κ} (distinct : keys.Nodup)
    (same : ∀ k, k ∈ keys ↔ ∃ v, t.get? k = some v)
    (falling : keys.Pairwise fun j k => ∀ w v, t.get? j = some w → t.get? k = some v →
      rank v < rank w) :
    (t.byRank rank).map Prod.fst = keys.reverse := by
  have entry : ∀ e ∈ t.byRank rank, t.get? e.1 = some e.2 := fun e member =>
    (mem_entries t e.1 e.2).mp ((byRank_perm rank t).subset member)
  have perm : ((t.byRank rank).map Prod.fst).Perm keys.reverse := by
    rw [List.perm_ext_iff_of_nodup (byRank_nodup rank t) (List.nodup_reverse.mpr distinct)]
    intro k
    rw [List.mem_reverse, same, List.mem_map]
    constructor
    · rintro ⟨e, member, rfl⟩
      exact ⟨e.2, entry e member⟩
    · rintro ⟨v, found⟩
      exact ⟨(k, v), (byRank_perm rank t).symm.subset ((mem_entries t k v).mpr found), rfl⟩
  let Apart (j k : κ) : Prop := ∀ w v, t.get? j = some w → t.get? k = some v → rank v ≠ rank w
  have : Std.Symm Apart := ⟨fun j k apart w v found there => (apart v w there found).symm⟩
  have apart : keys.Pairwise Apart :=
    falling.imp fun below w v found there => (below w v found there).ne
  have antisymm : ∀ j k, j ∈ (t.byRank rank).map Prod.fst → k ∈ keys.reverse → RankLe rank t j k →
      RankLe rank t k j → j = k := by
    intro j k listed other below above
    rw [List.mem_reverse] at other
    obtain ⟨v, there⟩ := (same k).mp other
    obtain ⟨e, member, rfl⟩ := List.mem_map.mp listed
    have found := entry e member
    by_contra differs
    exact apart.forall ((same e.1).mpr ⟨e.2, found⟩) other differs e.2 v found there
      (Nat.le_antisymm (above v e.2 there found) (below e.2 v found there))
  have sorted : ((t.byRank rank).map Prod.fst).Pairwise (RankLe rank t) := by
    rw [List.pairwise_map]
    refine (byRank_sorted rank t).imp_of_mem fun {a b} first second below w v found there => ?_
    rw [entry a first, Option.some.injEq] at found
    rw [entry b second, Option.some.injEq] at there
    rwa [← found, ← there]
  have rising : keys.reverse.Pairwise (RankLe rank t) := by
    rw [List.pairwise_reverse]
    exact falling.imp fun below w v found there => (below v w there found).le
  exact perm.eq_of_pairwise antisymm sorted rising

/-- What is left are the entries of the keys that come first. -/
theorem get?_dropLeast_take {keys : List κ} (distinct : keys.Nodup)
    (same : ∀ k, k ∈ keys ↔ ∃ v, t.get? k = some v)
    (falling : keys.Pairwise fun j k => ∀ w v, t.get? j = some w → t.get? k = some v →
      rank v < rank w) (k : κ) :
    (t.dropLeast rank cap).get? k = if k ∈ keys.take cap then t.get? k else none := by
  have size : t.size = keys.length := by
    rw [← size_of_keys t distinct fun k => (mem_keys t k).trans (same k).symm]
  rcases Nat.lt_or_ge cap t.size with large | small
  · have left : ((t.byRank rank).drop (t.size - cap)).map Prod.fst = (keys.take cap).reverse := by
      rw [List.map_drop, byRank_keys distinct same falling, List.drop_reverse, size]
      congr 2
      omega
    have member (v : α) : (t.dropLeast rank cap).get? k = some v ↔ t.get? k = some v ∧
        k ∈ keys.take cap := by
      rw [← List.mem_reverse, ← left, get?_dropLeast large]
      constructor
      · intro last
        exact ⟨get?_of_dropLeast ((get?_dropLeast large).mpr last),
          List.mem_map_of_mem (f := Prod.fst) last⟩
      · rintro ⟨found, listed⟩
        obtain ⟨⟨j, w⟩, last, rfl⟩ := List.mem_map.mp listed
        have kept := get?_of_dropLeast ((get?_dropLeast large).mpr last)
        rw [found, Option.some.injEq] at kept
        rwa [kept]
    apply Option.ext
    intro v
    rw [member]
    split_ifs with first
    · exact and_iff_left first
    · exact iff_of_false (fun both => first both.2) not_false
  · rw [dropLeast_small small, List.take_of_length_le (size ▸ small)]
    split_ifs with listed
    · rfl
    · exact Option.eq_none_iff_forall_ne_some.mpr fun v found => listed ((same k).mpr ⟨v, found⟩)

/-- Nothing that is kept has a lower rank than what went. -/
theorem dropLeast_order (there : t.get? k = some v) (gone : (t.dropLeast rank cap).get? k = none)
    (kept : (t.dropLeast rank cap).get? j = some w) : rank v ≤ rank w := by
  rcases Nat.lt_or_ge cap t.size with large | small
  · have split := List.take_append_drop (t.size - cap) (t.byRank rank)
    have sorted := byRank_sorted rank t
    rw [← split, List.pairwise_append] at sorted
    have member := (byRank_perm rank t).symm.subset ((mem_entries t k v).mpr there)
    rw [← split] at member
    rcases List.mem_append.mp member with first | last
    · exact sorted.2.2 (k, v) first (j, w) ((get?_dropLeast large).mp kept)
    · rw [(get?_dropLeast large).mpr last] at gone
      cases gone
  · rw [dropLeast_small small, there] at gone
    cases gone

end Table

end Metahumotonic.Library
