import Mathlib.Data.List.Nodup

/-! Insertion-ordered dictionaries. A key that is already present keeps its
position when it is overwritten; a new key goes to the end. The distinctness of
the keys travels with the value, so a table with a repeated key cannot be built. -/
namespace Metahumotonic.Library

variable {κ : Type u} {α : Type v} [DecidableEq κ]

def setEntry (k : κ) (v : α) : List (κ × α) → List (κ × α)
  | [] => [(k, v)]
  | entry :: rest => if entry.1 = k then (k, v) :: rest else entry :: setEntry k v rest

theorem setEntry_keys (k : κ) (v : α) (es : List (κ × α)) :
    (setEntry k v es).map Prod.fst =
      if k ∈ es.map Prod.fst then es.map Prod.fst else es.map Prod.fst ++ [k] := by
  induction es with
  | nil => simp [setEntry]
  | cons entry rest ih =>
    by_cases here : entry.1 = k
    · simp [setEntry, here]
    · have other : ¬ k = entry.1 := fun h => here h.symm
      by_cases later : k ∈ rest.map Prod.fst
      · simp only [setEntry, if_neg here, List.map_cons, ih, if_pos later]
        rw [if_pos (List.mem_cons_of_mem _ later)]
      · simp only [setEntry, if_neg here, List.map_cons, ih, if_neg later]
        rw [if_neg (by simp only [List.mem_cons, other, later, or_self, not_false_eq_true])]
        rfl

theorem setEntry_lookup (k j : κ) (v : α) (es : List (κ × α)) :
    (setEntry k v es).lookup j = if j = k then some v else es.lookup j := by
  induction es with
  | nil =>
    by_cases same : j = k
    · simp [setEntry, same]
    · have differs : (j == k) = false := by simpa using same
      simp [setEntry, List.lookup_cons, same, differs]
  | cons entry rest ih =>
    obtain ⟨i, w⟩ := entry
    by_cases here : i = k
    · subst here
      by_cases same : j = i
      · simp [setEntry, same]
      · have differs : (j == i) = false := by simpa using same
        simp [setEntry, List.lookup_cons, same, differs]
    · by_cases first : j = i
      · subst first
        simp [setEntry, here]
      · have tail : (j == i) = false := by simpa using first
        simp only [setEntry, if_neg here, List.lookup_cons, tail, ih]

theorem setEntry_new {k : κ} {v : α} {entries : List (κ × α)} (absent : k ∉ entries.map Prod.fst) :
    setEntry k v entries = entries ++ [(k, v)] := by
  induction entries with
  | nil => rfl
  | cons entry rest ih =>
    rw [List.map_cons, List.mem_cons, not_or] at absent
    rw [setEntry, if_neg (Ne.symm absent.1), ih absent.2, List.cons_append]

theorem Table.mem_of_lookup {es : List (κ × α)} {k : κ} {v : α} (found : es.lookup k = some v) :
    (k, v) ∈ es := by
  obtain ⟨before, after, rfl, _⟩ := List.lookup_eq_some_iff.mp found
  simp

theorem lookup_eq_some_iff {es : List (κ × α)} (distinct : (es.map Prod.fst).Nodup)
    (k : κ) (v : α) :
    es.lookup k = some v ↔ (k, v) ∈ es := by
  induction es with
  | nil => simp
  | cons entry rest ih =>
    obtain ⟨i, w⟩ := entry
    simp only [List.map_cons, List.nodup_cons] at distinct
    by_cases here : k = i
    · subst here
      constructor
      · intro found
        have : w = v := by simpa using found
        simp [this]
      · intro member
        rcases List.mem_cons.mp member with eq | later
        · simp [(Prod.mk.inj eq).2]
        · exact absurd (List.mem_map_of_mem (f := Prod.fst) later) distinct.1
    · have tail : (k == i) = false := by simpa using here
      rw [List.lookup_cons, tail]
      simp only [ih distinct.2, List.mem_cons, Prod.mk.injEq, here, false_and, false_or]

structure Table (κ : Type u) (α : Type v) where
  entries : List (κ × α)
  nodup : (entries.map Prod.fst).Nodup

namespace Table

def empty : Table κ α := ⟨[], List.nodup_nil⟩

def get? (t : Table κ α) (k : κ) : Option α := t.entries.lookup k

def set (t : Table κ α) (k : κ) (v : α) : Table κ α where
  entries := setEntry k v t.entries
  nodup := by
    rw [setEntry_keys]
    split
    · exact t.nodup
    · rename_i absent
      exact List.nodup_append.mpr ⟨t.nodup, List.nodup_singleton k,
        fun a ha b hb => fun eq => absent ((List.mem_singleton.mp hb) ▸ eq ▸ ha)⟩

def filter (t : Table κ α) (p : κ × α → Bool) : Table κ α where
  entries := t.entries.filter p
  nodup := t.nodup.sublist ((List.filter_sublist).map Prod.fst)

def erase (t : Table κ α) (k : κ) : Table κ α := t.filter fun entry => entry.1 ≠ k

def keys (t : Table κ α) : List κ := t.entries.map Prod.fst
def values (t : Table κ α) : List α := t.entries.map Prod.snd
def size (t : Table κ α) : Nat := t.entries.length

@[simp] theorem get?_empty (k : κ) : (empty : Table κ α).get? k = none := rfl

omit [DecidableEq κ] in
@[simp] theorem keys_empty : (empty : Table κ α).keys = [] := rfl

@[simp] theorem get?_set (t : Table κ α) (k j : κ) (v : α) :
    (t.set k v).get? j = if j = k then some v else t.get? j :=
  setEntry_lookup k j v t.entries

theorem get?_set_self (t : Table κ α) (k : κ) (v : α) : (t.set k v).get? k = some v := by simp

theorem get?_set_ne (t : Table κ α) {k j : κ} (v : α) (other : j ≠ k) :
    (t.set k v).get? j = t.get? j := by simp [other]

theorem mem_entries (t : Table κ α) (k : κ) (v : α) : (k, v) ∈ t.entries ↔ t.get? k = some v :=
  (lookup_eq_some_iff t.nodup k v).symm

theorem get?_eq_find? (t : Table κ α) (k : κ) :
    t.get? k = (t.entries.find? fun entry => entry.1 = k).map Prod.snd := by
  rw [get?]
  induction t.entries with
  | nil => rfl
  | cons entry rest ih =>
    obtain ⟨i, w⟩ := entry
    by_cases same : k = i
    · subst same
      simp
    · have differs : (k == i) = false := by simpa using same
      have other : ¬ i = k := Ne.symm same
      simp only [List.lookup_cons, differs, ih, List.find?_cons, other, decide_false]

theorem mem_keys (t : Table κ α) (k : κ) : k ∈ t.keys ↔ ∃ v, t.get? k = some v := by
  simp only [keys, List.mem_map, Prod.exists, exists_and_right, exists_eq_right, mem_entries]

theorem not_mem_keys (t : Table κ α) (k : κ) : k ∉ t.keys ↔ t.get? k = none := by
  rw [mem_keys]
  cases t.get? k <;> simp

theorem mem_values (t : Table κ α) (v : α) : v ∈ t.values ↔ ∃ k, t.get? k = some v := by
  simp only [values, List.mem_map, Prod.exists, exists_eq_right, mem_entries]

omit [DecidableEq κ] in
theorem keys_nodup (t : Table κ α) : t.keys.Nodup := t.nodup

theorem mem_keys_set (t : Table κ α) (k j : κ) (v : α) : j ∈ (t.set k v).keys ↔ j = k ∨
    j ∈ t.keys := by
  simp only [mem_keys, get?_set]
  by_cases same : j = k
  · simp [same]
  · simp [same]

theorem get?_filter (t : Table κ α) (p : κ × α → Bool) (k : κ) (v : α) :
    (t.filter p).get? k = some v ↔ t.get? k = some v ∧ p (k, v) = true := by
  simp only [← mem_entries, filter, List.mem_filter]

theorem get?_erase (t : Table κ α) (k j : κ) (v : α) :
    (t.erase k).get? j = some v ↔ t.get? j = some v ∧ j ≠ k := by
  simp only [erase, get?_filter, decide_eq_true_eq]

omit [DecidableEq κ] in
theorem size_of_keys (t : Table κ α) {ks : List κ} (distinct : ks.Nodup)
    (same : ∀ k, k ∈ t.keys ↔ k ∈ ks) :
    t.size = ks.length := by
  have perm : t.keys.Perm ks := (List.perm_ext_iff_of_nodup t.nodup distinct).mpr same
  rw [← perm.length_eq, keys, List.length_map, size]

/-- Tables with the same lookups have the same values, in some order. -/
theorem values_perm {s t : Table κ α} (same : ∀ k v, s.get? k = some v ↔ t.get? k = some v) :
    s.values.Perm t.values := by
  have entries : s.entries.Perm t.entries := by
    apply (List.perm_ext_iff_of_nodup (s.nodup.of_map _) (t.nodup.of_map _)).mpr
    rintro ⟨k, v⟩
    rw [mem_entries, mem_entries, same]
  exact entries.map Prod.snd

theorem entries_set_new (t : Table κ α) {k : κ} (v : α) (absent : k ∉ t.keys) :
    (t.set k v).entries = t.entries ++ [(k, v)] := setEntry_new absent

theorem values_set_new (t : Table κ α) {k : κ} (v : α) (absent : k ∉ t.keys) :
    (t.set k v).values = t.values ++ [v] := by
  simp only [values, t.entries_set_new v absent, List.map_append, List.map_cons, List.map_nil]

theorem size_set_new (t : Table κ α) {k : κ} (v : α) (absent : k ∉ t.keys) :
    (t.set k v).size = t.size + 1 := by
  have values := congrArg List.length (t.values_set_new v absent)
  simpa [Table.values, size] using values

/-- Entries with distinct keys, set one after the other. -/
theorem get?_foldl_set (entries : List (κ × α)) (distinct : (entries.map Prod.fst).Nodup)
    (t : Table κ α) (k : κ) :
    (entries.foldl (fun t entry => t.set entry.1 entry.2) t).get? k =
      (entries.lookup k).or (t.get? k) := by
  induction entries generalizing t with
  | nil => rfl
  | cons entry rest ih =>
    obtain ⟨key, value⟩ := entry
    rw [List.map_cons, List.nodup_cons] at distinct
    rw [List.foldl_cons, ih distinct.2, get?_set, List.lookup_cons]
    by_cases same : k = key
    · subst same
      have gone : rest.lookup k = none := by
        cases found : rest.lookup k with
        | none => rfl
        | some other => exact absurd (List.mem_map_of_mem (mem_of_lookup found)) distinct.1
      simp [gone]
    · have differs : (k == key) = false := by simpa using same
      simp [same, differs]

end Table

end Metahumotonic.Library
