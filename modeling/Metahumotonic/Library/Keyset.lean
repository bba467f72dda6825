import Mathlib.Data.List.Sort

/-! Paging backwards through a log by the key of the last item seen. A page looks one item ahead:
where there is one, the key of its last item is the next cursor. What is added to the log later has
larger keys, so it changes nothing below a cursor. -/
namespace Metahumotonic.Library

variable {α κ : Type*} [LinearOrder κ] {key : α → κ}

/-- The items of a log below a cursor, the newest first. -/
def below (key : α → κ) (log : List α) (cursor : Option κ) : List α :=
  (log.filter fun a => cursor.all fun k => decide (key a < k)).reverse

/-- The page that is cut from the first items below a cursor, one more than its limit. -/
def keysetPage (key : α → κ) (rows : List α) (limit : ℕ) : List α × Option κ :=
  (rows.take limit, if limit < rows.length then (rows.take limit).getLast?.map key else none)

theorem below_start (log : List α) : below key log none = log.reverse := by
  simp [below]

theorem mem_below {log : List α} {cursor : Option κ} {a : α} :
    a ∈ below key log cursor ↔ a ∈ log ∧ ∀ k ∈ cursor, key a < k := by
  rw [below, List.mem_reverse, List.mem_filter]
  cases cursor <;> simp

theorem below_sorted {log : List α} (sorted : log.Pairwise fun a b => key a < key b)
    (cursor : Option κ) :
    (below key log cursor).Pairwise fun a b => key b < key a :=
  List.pairwise_reverse.mpr (sorted.filter _)

/-- What a log gained above a cursor is not below it. -/
theorem below_append {log later : List α} {k : κ} (above : ∀ a ∈ later, k ≤ key a) :
    below key (log ++ later) (some k) = below key log (some k) := by
  have none_ : later.filter (fun a => (some k).all fun k => decide (key a < k)) = [] := by
    rw [List.filter_eq_nil_iff]
    intro a member
    simpa using above a member
  rw [below, below, List.filter_append, none_, List.append_nil]

omit [LinearOrder κ] in
/-- The page is the last one if no more than its limit is left. -/
theorem keysetPage_last {rest : List α} {limit : ℕ} (few : rest.length ≤ limit) :
    keysetPage key (rest.take (limit + 1)) limit = (rest, none) := by
  have whole : rest.take (limit + 1) = rest := List.take_of_length_le (by omega)
  rw [keysetPage, whole, List.take_of_length_le few, if_neg (by omega)]

/-- Otherwise what is left is below the key of its last item. -/
theorem keysetPage_more {rest : List α}
    (sorted : rest.Pairwise fun a b => key b < key a) {limit : ℕ}
    (positive : 0 < limit) (many : limit < rest.length) :
    ∃ last ∈ rest, keysetPage key (rest.take (limit + 1)) limit =
      (rest.take limit, some (key last)) ∧
      rest.filter (fun a => decide (key a < key last)) = rest.drop limit := by
  have full : (rest.take (limit + 1)).length = limit + 1 := by
    rw [List.length_take]
    omega
  have shown : (rest.take (limit + 1)).take limit = rest.take limit := by
    rw [List.take_take, Nat.min_eq_left (by omega)]
  have some_ : rest.take limit ≠ [] := by
    intro empty
    have length := congrArg List.length empty
    rw [List.length_take, List.length_nil] at length
    omega
  obtain ⟨first, last, split⟩ := List.eq_nil_or_concat (rest.take limit) |>.resolve_left some_
  rw [List.concat_eq_append] at split
  have parts : rest = first ++ [last] ++ rest.drop limit := by rw [← split, List.take_append_drop]
  refine ⟨last, List.mem_of_mem_take (split ▸ List.mem_append_right _ List.mem_cons_self), ?_, ?_⟩
  · rw [keysetPage, shown, if_pos (by omega), split, List.getLast?_append]
    rfl
  · have ordered := sorted
    rw [parts, List.pairwise_append, List.pairwise_append] at ordered
    obtain ⟨⟨-, -, before⟩, -, after⟩ := ordered
    have dropped : first.filter (fun a => decide (key a < key last)) = [] := by
      rw [List.filter_eq_nil_iff]
      intro a member
      have larger := before a member last List.mem_cons_self
      simpa using larger.le
    have kept : (rest.drop limit).filter (fun a => decide (key a < key last)) =
        rest.drop limit := by
      rw [List.filter_eq_self]
      intro a member
      exact decide_eq_true (after last (List.mem_append_right _ List.mem_cons_self) a member)
    have own : [last].filter (fun a => decide (key a < key last)) = [] := by simp
    conv_lhs => rw [parts]
    rw [List.filter_append, List.filter_append, dropped, own, kept]
    rfl

/-- Below the last item of a page is what the page left. -/
theorem below_last {log : List α} {cursor : Option κ} {last : α}
    (member : last ∈ below key log cursor) :
    below key log (some (key last)) = (below key log cursor).filter fun a =>
      decide (key a < key last) := by
  rw [below, below, List.filter_reverse, List.filter_filter]
  congr 2
  funext a
  obtain ⟨-, bound⟩ := mem_below.mp member
  cases cursor with
  | none => simp
  | some k =>
    by_cases less : key a < key last
    · simp [less, less.trans (bound k rfl)]
    · simp [less]

/-- A log that is sorted with the newest first is the log backwards. -/
theorem insertionSort_newest (key : α → κ) {log : List α}
    (sorted : log.Pairwise fun a b => key a < key b) :
    (log.insertionSort fun a b => key b ≤ key a) = log.reverse := by
  have : Std.Total fun a b : α => key b ≤ key a := ⟨fun a b => le_total _ _⟩
  have : IsTrans α fun a b => key b ≤ key a := ⟨fun _ _ _ first second => second.trans first⟩
  have distinct : (log.map key).Nodup :=
    List.pairwise_map.mpr (sorted.imp fun less => ne_of_lt less)
  have perm := (List.perm_insertionSort (fun a b => key b ≤ key a) log).trans
    (List.reverse_perm log).symm
  apply List.Perm.eq_of_pairwise _ (List.pairwise_insertionSort _ log)
    (List.pairwise_reverse.mpr (sorted.imp le_of_lt)) perm
  intro a b ha hb one two
  rw [List.mem_insertionSort] at ha
  exact List.inj_on_of_nodup_map distinct ha (List.mem_reverse.mp hb) (le_antisymm two one)

end Metahumotonic.Library
