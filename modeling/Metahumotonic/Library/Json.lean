import Mathlib.Data.Int.Notation
import Metahumotonic.Library.Table

/-! JSON documents over texts of code points. A text may hold any code points, lone
surrogates included. An object is the list of its members, read by the first
member of a name; `Json.distinct` says that no name is repeated. -/
namespace Metahumotonic.Library

/-- A text as its code points. -/
abbrev Text := List Nat

instance : LawfulBEq Text := inferInstanceAs (LawfulBEq (List Nat))

def lit (s : String) : Text := s.toList.map Char.toNat

/-- A code point that is not a surrogate. -/
def scalar (c : Nat) : Bool := c < 0xD800 || (0xE000 ≤ c && c < 0x110000)

/-- A number with a fraction or an exponent keeps the text it was written as. -/
inductive Json where
  | null
  | bool (b : Bool)
  | int (n : ℤ)
  | float (literal : Text)
  | text (s : Text)
  | array (items : List Json)
  | object (members : List (Text × Json))
  deriving Repr

abbrev Members := List (Text × Json)

namespace Json

mutual
/-- Every name of an object and every text value, at any depth. -/
def all (name text : Text → Bool) : Json → Bool
  | .text s => text s
  | .array items => allItems name text items
  | .object members => allMembers name text members
  | _ => true
def allItems (name text : Text → Bool) : List Json → Bool
  | [] => true
  | v :: rest => v.all name text && allItems name text rest
def allMembers (name text : Text → Bool) : Members → Bool
  | [] => true
  | (k, v) :: rest => name k && v.all name text && allMembers name text rest
end

mutual
/-- No object repeats a name, at any depth. -/
def distinct : Json → Bool
  | .array items => distinctItems items
  | .object members => decide (members.map Prod.fst).Nodup && distinctMembers members
  | _ => true
def distinctItems : List Json → Bool
  | [] => true
  | v :: rest => v.distinct && distinctItems rest
def distinctMembers : Members → Bool
  | [] => true
  | (_, v) :: rest => v.distinct && distinctMembers rest
end

variable {name name' text text' : Text → Bool}

@[simp] theorem all_text {s : Text} : (Json.text s).all name text = text s := rfl
@[simp] theorem all_null : Json.null.all name text = true := rfl
@[simp] theorem all_bool {b : Bool} : (Json.bool b).all name text = true := rfl
@[simp] theorem all_int {n : ℤ} : (Json.int n).all name text = true := rfl
@[simp] theorem all_float {s : Text} : (Json.float s).all name text = true := rfl

@[simp] theorem all_array {items : List Json} :
    (Json.array items).all name text = true ↔ ∀ v ∈ items, v.all name text = true := by
  change allItems name text items = true ↔ _
  induction items with
  | nil => simp [allItems]
  | cons v rest ih => simp [allItems, ih]

@[simp] theorem all_object {members : Members} :
    (Json.object members).all name text = true ↔
      ∀ k v, (k, v) ∈ members → name k = true ∧ v.all name text = true := by
  change allMembers name text members = true ↔ _
  induction members with
  | nil => simp [allMembers]
  | cons member rest ih =>
    obtain ⟨k, v⟩ := member
    simp only [allMembers, Bool.and_eq_true, ih, List.mem_cons, Prod.mk.injEq]
    constructor
    · rintro ⟨here, later⟩ k' v' (⟨rfl, rfl⟩ | there)
      · exact here
      · exact later k' v' there
    · intro each
      exact ⟨each k v (.inl ⟨rfl, rfl⟩), fun k' v' there => each k' v' (.inr there)⟩

theorem distinct_array {items : List Json} :
    (Json.array items).distinct = true ↔ ∀ v ∈ items, v.distinct = true := by
  change distinctItems items = true ↔ _
  induction items with
  | nil => simp [distinctItems]
  | cons v rest ih => simp [distinctItems, ih]

theorem distinct_object {members : Members} :
    (Json.object members).distinct = true ↔
      (members.map Prod.fst).Nodup ∧ ∀ k v, (k, v) ∈ members → v.distinct = true := by
  have later : distinctMembers members = true ↔ ∀ k v, (k, v) ∈ members → v.distinct = true := by
    induction members with
    | nil => simp [distinctMembers]
    | cons member rest ih =>
      obtain ⟨k, v⟩ := member
      simp only [distinctMembers, Bool.and_eq_true, ih, List.mem_cons, Prod.mk.injEq]
      constructor
      · rintro ⟨here, later⟩ k' v' (⟨rfl, rfl⟩ | there)
        · exact here
        · exact later k' v' there
      · intro each
        exact ⟨each k v (.inl ⟨rfl, rfl⟩), fun k' v' there => each k' v' (.inr there)⟩
  simp only [distinct, Bool.and_eq_true, decide_eq_true_eq, later]

/-- What holds of names and of texts apart holds of a document apart. -/
theorem all_and (v : Json) : v.all (fun k => name k && name' k) (fun s => text s && text' s) =
    (v.all name text && v.all name' text') := by
  apply Json.rec (motive_1 := fun v => v.all (fun k => name k && name' k)
    (fun s => text s && text' s) =
      (v.all name text && v.all name' text'))
    (motive_2 := fun items => allItems (fun k => name k && name' k)
      (fun s => text s && text' s) items =
      (allItems name text items && allItems name' text' items))
    (motive_3 := fun members =>
      allMembers (fun k => name k && name' k) (fun s => text s && text' s) members =
        (allMembers name text members && allMembers name' text' members))
    (motive_4 := fun member => member.2.all (fun k => name k && name' k)
      (fun s => text s && text' s) =
      (member.2.all name text && member.2.all name' text'))
  all_goals try (intros; rfl)
  · intro items ih
    exact ih
  · intro members ih
    exact ih
  · intro v rest here later
    simp only [allItems, here, later, Bool.and_assoc, Bool.and_left_comm]
  · intro member rest here later
    obtain ⟨k, v⟩ := member
    simp only [allMembers, here, later, Bool.and_assoc, Bool.and_left_comm]
  · intro k v ih
    exact ih

end Json

section
variable {κ : Type u} {α : Type v} [DecidableEq κ]

def member? (entries : List (κ × α)) (k : κ) : Option α := entries.lookup k

theorem mem_of_entry {entries : List (κ × α)} {k : κ} {v : α} (found : member? entries k = some v) :
    (k, v) ∈ entries := Table.mem_of_lookup found

theorem entry_of_mem {entries : List (κ × α)} {k : κ} {v : α}
    (distinct : (entries.map Prod.fst).Nodup) (member : (k, v) ∈ entries) :
    member? entries k = some v := (lookup_eq_some_iff distinct k v).mpr member

/-- The entries under the given keys, in the order of the keys. -/
def copyKeys (keys : List κ) (entries : List (κ × α)) : List (κ × α) :=
  keys.filterMap fun k => (member? entries k).map (k, ·)

theorem mem_copyKeys {keys : List κ} {entries : List (κ × α)} {k : κ} {v : α} :
    (k, v) ∈ copyKeys keys entries ↔ k ∈ keys ∧ member? entries k = some v := by
  simp only [copyKeys, List.mem_filterMap, Option.map_eq_some_iff, Prod.mk.injEq]
  constructor
  · rintro ⟨name, listed, w, found, rfl, rfl⟩
    exact ⟨listed, found⟩
  · rintro ⟨listed, found⟩
    exact ⟨k, listed, v, found, rfl, rfl⟩

theorem member?_cons (k j : κ) (v : α) (entries : List (κ × α)) :
    member? ((k, v) :: entries) j = if j = k then some v else member? entries j := by
  unfold member?
  by_cases same : j = k
  · rw [List.lookup_cons, same, beq_self_eq_true, if_pos rfl]
  · rw [List.lookup_cons, beq_false_of_ne same, if_neg same]

theorem member?_append (first later : List (κ × α)) (k : κ) :
    member? (first ++ later) k = (member? first k).or (member? later k) := by
  induction first with
  | nil => rfl
  | cons entry rest ih =>
    obtain ⟨j, v⟩ := entry
    rw [List.cons_append, member?_cons, member?_cons, ih]
    split <;> rfl

theorem member?_copyKeys (keys : List κ) (entries : List (κ × α)) (k : κ) :
    member? (copyKeys keys entries) k = if k ∈ keys then member? entries k else none := by
  induction keys with
  | nil => rfl
  | cons j rest ih =>
    have unfolded : copyKeys (j :: rest) entries =
        ((member? entries j).map (j, ·)).toList ++ copyKeys rest entries := by
      unfold copyKeys
      cases found : member? entries j with
      | none => simp [found]
      | some v => simp [found]
    rw [unfolded, member?_append, ih]
    by_cases same : k = j
    · subst same
      cases found : member? entries k with
      | none => simp [member?]
      | some v => simp [member?]
    · have skip : member? ((member? entries j).map (j, ·)).toList k = none := by
        cases member? entries j with
        | none => rfl
        | some v =>
          change member? [(j, v)] k = none
          rw [member?_cons, if_neg same]
          rfl
      rw [skip, Option.none_or]
      simp [same]

theorem member?_setEntry (k j : κ) (v : α) (entries : List (κ × α)) :
    member? (setEntry k v entries) j = if j = k then some v else member? entries j :=
  setEntry_lookup k j v entries

theorem mem_setEntry {k j : κ} {v w : α} {entries : List (κ × α)}
    (member : (j, w) ∈ setEntry k v entries) : (j, w) = (k, v) ∨ (j, w) ∈ entries := by
  induction entries with
  | nil => exact .inl (List.mem_singleton.mp member)
  | cons entry rest ih =>
    unfold setEntry at member
    split at member
    · rcases List.mem_cons.mp member with here | later
      · exact .inl here
      · exact .inr (List.mem_cons_of_mem _ later)
    · rcases List.mem_cons.mp member with here | later
      · exact .inr (here ▸ List.mem_cons_self)
      · exact (ih later).imp_right (List.mem_cons_of_mem _)

theorem foldl_setEntry (later entries : List (κ × α))
    (distinct : ((entries ++ later).map Prod.fst).Nodup) :
    later.foldl (fun read entry => setEntry entry.1 entry.2 read) entries = entries ++ later := by
  induction later generalizing entries with
  | nil => simp
  | cons entry rest ih =>
    have absent : entry.1 ∉ entries.map Prod.fst := by
      rw [List.map_append, List.map_cons, List.nodup_append] at distinct
      intro there
      exact distinct.2.2 _ there _ List.mem_cons_self rfl
    rw [List.foldl_cons, setEntry_new absent, ih]
    · simp
    · simpa using distinct

end

/-- What `.get(name)` gives: null when the name is absent. -/
def field (members : Members) (name : Text) : Json := (member? members name).getD .null

def hasName (members : Members) (name : Text) : Bool := (member? members name).isSome

@[simp] theorem field_cons (members : Members) (j k : Text) (v : Json) :
    field ((j, v) :: members) k = if k = j then v else field members k := by
  unfold field
  rw [member?_cons]
  split <;> rfl

theorem field_setEntry (members : Members) (j k : Text) (v : Json) :
    field (setEntry j v members) k = if k = j then v else field members k := by
  unfold field
  rw [member?_setEntry]
  split <;> rfl

theorem field_append_left {first : Members} {k : Text} (present : hasName first k = true)
    (later : Members) :
    field (first ++ later) k = field first k := by
  obtain ⟨v, found⟩ := Option.isSome_iff_exists.mp present
  simp [field, member?_append, found]

theorem field_append_right {first : Members} {k : Text} (absent : hasName first k = false)
    (later : Members) :
    field (first ++ later) k = field later k := by
  have found : member? first k = none :=
    Option.isNone_iff_eq_none.mp (by simpa [hasName] using absent)
  simp [field, member?_append, found]

theorem field_copyKeys {keys : List Text} {k : Text} (listed : k ∈ keys) (members : Members) :
    field (copyKeys keys members) k = field members k := by
  rw [field, member?_copyKeys, if_pos listed, field]

theorem field_of_mem {members : Members} (whole : (Json.object members).distinct = true)
    {k : Text} {v : Json}
    (member : (k, v) ∈ members) : field members k = v := by
  rw [field, entry_of_mem (Json.distinct_object.mp whole).1 member, Option.getD_some]

/-- What every part of a document has when the document has it. -/
structure Json.Hereditary (holds : Json → Prop) : Prop where
  null : holds .null
  empty : holds (.object [])
  member : ∀ members k v, holds (.object members) → (k, v) ∈ members → holds v
  item : ∀ vs v, holds (.array vs) → v ∈ vs → holds v

theorem Json.Hereditary.field {holds : Json → Prop} (inherits : Hereditary holds)
    {members : Members}
    (whole : holds (.object members)) (k : Text) : holds (Library.field members k) := by
  unfold Library.field
  cases found : member? members k with
  | none => exact inherits.null
  | some v => exact inherits.member members k v whole (mem_of_entry found)

theorem Json.hereditary_all {name text : Text → Bool} : Hereditary fun v =>
    v.all name text = true where
  null := rfl
  empty := rfl
  member _ k v whole there := (all_object.mp whole k v there).2
  item _ v whole there := all_array.mp whole v there

theorem Json.hereditary_distinct : Hereditary fun v => v.distinct = true where
  null := rfl
  empty := rfl
  member _ k v whole there := (distinct_object.mp whole).2 k v there
  item _ v whole there := distinct_array.mp whole v there

end Metahumotonic.Library
