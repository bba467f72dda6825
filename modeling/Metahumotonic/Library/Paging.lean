import Mathlib.Data.List.Lex
import Mathlib.Data.List.Sort

/-! Paging through a list that is sorted by distinct keys. A client starts without a cursor and
comes back with the cursor of each answer; `Walk` is what it has collected when an answer has none.
Cursors stand for offsets, and the server may refuse to read some of them. -/
namespace Metahumotonic.Library

variable {κ : Type u} {α : Type v}

structure Page (κ : Type u) (α : Type v) where
  items : List α
  next : Option κ
  deriving DecidableEq, Repr

inductive Walk (serve : Option κ → Option (Page κ α)) : Option κ → List α → Prop where
  | last {cursor : Option κ} {items : List α} (answer : serve cursor = some ⟨items, none⟩) :
      Walk serve cursor items
  | more {cursor : Option κ} {items rest : List α} {next : κ}
      (answer : serve cursor = some ⟨items, some next⟩) (later : Walk serve (some next) rest) :
      Walk serve cursor (items ++ rest)

/-- The page at an offset, with the cursor of the next one if items are left. -/
def cut (token : Nat → κ) (items : List α) (limit offset : Nat) : Page κ α :=
  let selected := (items.drop offset).take limit
  let after := offset + selected.length
  ⟨selected, if after < items.length then some (token after) else none⟩

def cursorAt (token : Nat → κ) (offset : Nat) : Option κ := if offset = 0 then none
    else some (token offset)

/-- A server that pages through `items` and reads the cursors of some offsets. -/
structure Pages (serve : Option κ → Option (Page κ α)) (token : Nat → κ) (items : List α)
    (limit : Nat)
    (readable : Nat → Prop) : Prop where
  first : serve none = some (cut token items limit 0)
  read : ∀ offset, offset < items.length → readable offset →
    serve (some (token offset)) = some (cut token items limit offset)
  refused : ∀ offset, ¬ readable offset → serve (some (token offset)) = none

variable {serve : Option κ → Option (Page κ α)} {token : Nat → κ} {items : List α} {limit : Nat}
  {readable : Nat → Prop}

theorem cut_last {offset : Nat} (end_ : items.length ≤ offset + limit) :
    cut token items limit offset = ⟨items.drop offset, none⟩ := by
  have whole : (items.drop offset).take limit = items.drop offset := by
    apply List.take_of_length_le
    rw [List.length_drop]
    omega
  have done : ¬ offset + (items.drop offset).length < items.length := by
    rw [List.length_drop]
    omega
  simp only [cut, whole, if_neg done]

theorem cut_more {offset : Nat} (inside : offset + limit < items.length) :
    cut token items limit offset = ⟨(items.drop offset).take limit,
      some (token (offset + limit))⟩ := by
  have full : ((items.drop offset).take limit).length = limit := by
    rw [List.length_take, List.length_drop]
    omega
  simp only [cut, full, if_pos inside]

theorem Pages.answer (pages : Pages serve token items limit readable) {offset : Nat}
    (inside : offset = 0 ∨ offset < items.length ∧ readable offset) :
    serve (cursorAt token offset) = some (cut token items limit offset) := by
  unfold cursorAt
  split
  · rename_i start
    rw [start]
    exact pages.first
  · rcases inside with start | ⟨inside, can⟩
    · contradiction
    · exact pages.read offset inside can

/-- From an offset on, the walk collects what is left. -/
theorem Pages.walk (pages : Pages serve token items limit readable) (positive : 0 < limit)
    (all : ∀ k, 0 < k → k * limit < items.length → readable (k * limit)) (left k : Nat)
    (bound : items.length ≤ k * limit + left) (here : k = 0 ∨ k * limit < items.length) :
    Walk serve (cursorAt token (k * limit)) (items.drop (k * limit)) := by
  induction left using Nat.strongRecOn generalizing k with
  | ind left ih =>
    have answer : serve (cursorAt token (k * limit)) =
        some (cut token items limit (k * limit)) := by
      apply pages.answer
      rcases here with rfl | inside
      · exact .inl (Nat.zero_mul limit)
      · by_cases start : k = 0
        · exact .inl (by rw [start, Nat.zero_mul])
        · exact .inr ⟨inside, all k (Nat.pos_of_ne_zero start) inside⟩
    by_cases inside : k * limit + limit < items.length
    · rw [cut_more inside] at answer
      have step : (k + 1) * limit = k * limit + limit := Nat.succ_mul k limit
      have later := ih (left - limit) (by omega) (k + 1) (by omega) (.inr (by omega))
      have cursor : cursorAt token ((k + 1) * limit) = some (token (k * limit + limit)) := by
        rw [cursorAt, if_neg (by omega), step]
      rw [cursor, step] at later
      have joined := Walk.more answer later
      rwa [← List.drop_drop, List.take_append_drop] at joined
    · rw [cut_last (by omega)] at answer
      exact .last answer

/-- A walk that ends has read every cursor on its way. -/
theorem Pages.walked (pages : Pages serve token items limit readable) {cursor : Option κ}
    {collected : List α} (walk : Walk serve cursor collected) (offset : Nat)
    (here : cursor = cursorAt token offset) (inside : offset = 0 ∨ offset < items.length ∧
      readable offset)
    (k : Nat) (positive : 0 < k) (later : offset + k * limit < items.length) :
    readable (offset + k * limit) := by
  induction walk generalizing offset k with
  | last answer =>
    rw [here, pages.answer inside, Option.some.injEq] at answer
    have step : limit ≤ k * limit := Nat.le_mul_of_pos_left limit positive
    rw [cut_more (by omega)] at answer
    cases answer
  | @more _ _ _ next answer following ih =>
    rw [here, pages.answer inside, Option.some.injEq] at answer
    have step : limit ≤ k * limit := Nat.le_mul_of_pos_left limit positive
    rw [cut_more (by omega)] at answer
    cases answer
    have can : readable (offset + limit) := by
      by_contra cannot
      cases following with
      | last again => rw [pages.refused _ cannot] at again; cases again
      | more again _ => rw [pages.refused _ cannot] at again; cases again
    by_cases nothing : offset + limit = 0
    · have start : offset = 0 := by omega
      have none_ : limit = 0 := by omega
      rw [start, none_] at can ⊢
      simpa using can
    · obtain ⟨j, rfl⟩ : ∃ j, k = j + 1 := ⟨k - 1, by omega⟩
      have split : offset + (j + 1) * limit = offset + limit + j * limit := by
        rw [Nat.succ_mul]
        omega
      rw [split] at later ⊢
      by_cases last : j = 0
      · rw [last, Nat.zero_mul, Nat.add_zero]
        exact can
      · exact ih (offset + limit) (by rw [cursorAt, if_neg nothing]) (.inr ⟨by omega, can⟩) j
          (Nat.pos_of_ne_zero last) later

/-- The client collects the whole list exactly when every cursor it is given can be read. -/
theorem Pages.complete_iff (pages : Pages serve token items limit readable) (positive : 0 < limit) :
    Walk serve none items ↔ ∀ k, 0 < k → k * limit < items.length → readable (k * limit) := by
  constructor
  · intro walk k some inside
    have can := pages.walked walk 0 rfl (.inl rfl) k some (by rwa [Nat.zero_add])
    rwa [Nat.zero_add] at can
  · intro all
    have walk := pages.walk positive all items.length 0 (by omega) (.inl rfl)
    rwa [Nat.zero_mul] at walk

/-- The records in the order of their keys, each once. -/
def Ordered {ι : Type w} [LT ι] (key : α → ι) (records sorted : List α) : Prop :=
  sorted.Perm records ∧ sorted.Pairwise fun a b => key a < key b

theorem ordered_insertionSort {ι : Type w} [LinearOrder ι] (key : α → ι) {records : List α}
    (distinct : (records.map key).Nodup) :
    Ordered key records (records.insertionSort fun a b => key a ≤ key b) := by
  have perm := List.perm_insertionSort (fun a b => key a ≤ key b) records
  have : Std.Total fun a b : α => key a ≤ key b := ⟨fun a b => le_total (key a) (key b)⟩
  have : IsTrans α fun a b => key a ≤ key b := ⟨fun a b c => le_trans⟩
  have sorted := List.pairwise_insertionSort (fun a b => key a ≤ key b) records
  have apart : (records.insertionSort fun a b => key a ≤ key b).Pairwise fun a b =>
      key a ≠ key b := by
    rw [← List.pairwise_map (f := key) (R := (· ≠ ·))]
    exact (perm.map key).nodup_iff.mpr distinct
  exact ⟨perm, (sorted.and apart).imp fun both => lt_of_le_of_ne both.1 both.2⟩

/-- A key by which no two records agree, read from a part of the given keys. -/
theorem nodup_of_key {β γ : Type w} {records : List α} {key : α → β} (read : β → γ)
    (distinct : (records.map fun record => read (key record)).Nodup) : (records.map key).Nodup := by
  apply List.Nodup.of_map read
  rwa [List.map_map]

/-- What a selection keeps of a list, seen through a label that the selection does not change. -/
theorem filterMap_sublist {β : Type w} {γ : Type x} {select : α → Option β} {label : β → γ}
    {before : α → γ}
    (kept : ∀ a b, select a = some b → label b = before a) (records : List α) :
    ((records.filterMap select).map label).Sublist (records.map before) := by
  induction records with
  | nil => exact .slnil
  | cons a rest ih =>
    cases chosen : select a with
    | none =>
      rw [List.filterMap_cons_none chosen, List.map_cons]
      exact ih.cons _
    | some b =>
      rw [List.filterMap_cons_some chosen, List.map_cons, List.map_cons, kept a b chosen]
      exact ih.cons_cons _

end Metahumotonic.Library
