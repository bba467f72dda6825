import Mathlib.Data.List.Lex
import Mathlib.Data.List.Sort
import Metahumotonic.Library.JsonCodec

/-! JSON documents up to the order of their members, and schemas of documents. A document in
`form` has its members sorted by name at every depth; two documents with one form are `Same`.
A schema is a test of documents, and the tests built here give the same answer for the same
document in any order. -/
namespace Metahumotonic.Library

namespace Json

/-- Induction over documents, with the members of a list of parts at hand. -/
@[elab_as_elim]
theorem induct {P : Json → Prop} (null : P .null) (bool : ∀ b, P (.bool b)) (int : ∀ n, P (.int n))
    (float : ∀ literal, P (.float literal)) (text : ∀ s, P (.text s))
    (array : ∀ items : List Json, (∀ v ∈ items, P v) → P (.array items))
    (object : ∀ members : Members, (∀ m ∈ members, P m.2) → P (.object members))
    (v : Json) : P v := by
  refine Json.rec (motive_1 := P) (motive_2 := fun items => ∀ v ∈ items, P v)
    (motive_3 := fun members => ∀ m ∈ members, P m.2) (motive_4 := fun m => P m.2)
    null bool int float text array object ?_ ?_ ?_ ?_ ?_ v
  · nofun
  · intro v rest here later w member
    rcases List.mem_cons.mp member with rfl | there
    · exact here
    · exact later w there
  · nofun
  · intro m rest here later other member
    rcases List.mem_cons.mp member with rfl | there
    · exact here
    · exact later other there
  · intro k v held
    exact held

def byName (a b : Text × Json) : Prop := a.1 ≤ b.1

instance : DecidableRel byName := fun a b => inferInstanceAs (Decidable (a.1 ≤ b.1))

instance : Std.Total byName := ⟨fun a b => le_total a.1 b.1⟩

instance : IsTrans (Text × Json) byName :=
  ⟨fun a b _ first second => le_trans (a := a.1) (b := b.1) first second⟩

def sortMembers (members : Members) : Members := members.insertionSort byName

mutual
def form : Json → Json
  | .array items => .array (formItems items)
  | .object members => .object (sortMembers (formMembers members))
  | v => v
def formItems : List Json → List Json
  | [] => []
  | v :: rest => v.form :: formItems rest
def formMembers : Members → Members
  | [] => []
  | (k, v) :: rest => (k, v.form) :: formMembers rest
end

/-- The same document, but for the order of members. -/
def Same (v w : Json) : Prop := v.form = w.form

theorem Same.refl (v : Json) : Same v v := rfl

theorem Same.symm {v w : Json} (same : Same v w) : Same w v := Eq.symm same

theorem Same.trans {u v w : Json} (first : Same u v) (second : Same v w) : Same u w :=
  Eq.trans first second

theorem formItems_eq (items : List Json) : formItems items = items.map form := by
  induction items with
  | nil => rfl
  | cons v rest ih => simp only [formItems, ih, List.map_cons]

theorem formMembers_eq (members : Members) : formMembers members = members.map fun m =>
    (m.1, m.2.form) := by
  induction members with
  | nil => rfl
  | cons m rest ih => simp only [formMembers, ih, List.map_cons]

@[simp] theorem form_array (items : List Json) : (Json.array items).form = .array
    (items.map form) := by
  rw [form, formItems_eq]

@[simp] theorem form_object (members : Members) :
    (Json.object members).form = .object (sortMembers (members.map fun m => (m.1, m.2.form))) := by
  rw [form, formMembers_eq]

@[simp] theorem form_text (s : Text) : (Json.text s).form = .text s := rfl

theorem sortMembers_perm (members : Members) : (sortMembers members).Perm members :=
  List.perm_insertionSort byName members

theorem sortMembers_sorted (members : Members) :
    sortMembers (sortMembers members) = sortMembers members :=
  (List.pairwise_insertionSort byName members).insertionSort_eq

/-- The sorted members are those of any order, when no name is repeated. -/
theorem sortMembers_congr {members others : Members} (perm : members.Perm others)
    (distinct : (members.map Prod.fst).Nodup) : sortMembers members = sortMembers others := by
  have whole : (sortMembers members).Perm (sortMembers others) :=
    ((sortMembers_perm members).trans perm).trans (sortMembers_perm others).symm
  have names : ((sortMembers members).map Prod.fst).Nodup :=
    ((sortMembers_perm members).map Prod.fst).nodup_iff.mpr distinct
  apply whole.eq_of_pairwise _ (List.pairwise_insertionSort _ _) (List.pairwise_insertionSort _ _)
  intro a b here there below above
  have same : a.1 = b.1 := le_antisymm below above
  have member : b ∈ sortMembers members := whole.mem_iff.mpr there
  obtain ⟨k, v⟩ := a
  obtain ⟨j, w⟩ := b
  obtain rfl : k = j := same
  rw [Option.some.inj ((entry_of_mem names here).symm.trans (entry_of_mem names member))]

/-- What a document that is the same as an array looks like. -/
theorem same_array {items : List Json} {w : Json} (same : Same (.array items) w) :
    ∃ others, w = .array others ∧ others.map form = items.map form := by
  unfold Same at same
  rw [form_array] at same
  cases w with
  | array others =>
    rw [form_array] at same
    exact ⟨others, rfl, (Json.array.inj same).symm⟩
  | object members =>
    rw [form_object] at same
    cases same
  | _ => cases same

theorem same_text {s : Text} {w : Json} (same : Same (.text s) w) : w = .text s := by
  unfold Same at same
  rw [form_text] at same
  cases w with
  | text t => exact same.symm
  | array others =>
    rw [form_array] at same
    cases same
  | object members =>
    rw [form_object] at same
    cases same
  | _ => cases same

theorem same_object {members : Members} {w : Json} (same : Same (.object members) w) :
    ∃ others, w = .object others ∧
      (members.map fun m => (m.1, m.2.form)).Perm (others.map fun m => (m.1, m.2.form)) := by
  unfold Same at same
  rw [form_object] at same
  cases w with
  | object others =>
    rw [form_object] at same
    have sorted := Json.object.inj same
    refine ⟨others, rfl, ?_⟩
    exact (sortMembers_perm _).symm.trans ((List.Perm.of_eq sorted).trans (sortMembers_perm _))
  | array others =>
    rw [form_array] at same
    cases same
  | _ => cases same

/-- An object whose members have names of their own. -/
def named : Json → Bool
  | .object members => decide (members.map Prod.fst).Nodup
  | _ => false

def get (v : Json) (k : Text) : Option Json :=
  match v with
  | .object members => member? members k
  | _ => none

def textAt (v : Json) (k : Text) : Text :=
  match v.get k with
  | some (.text s) => s
  | _ => []

def itemsAt (v : Json) (k : Text) : List Json :=
  match v.get k with
  | some (.array items) => items
  | _ => []

theorem member?_map {α β : Type*} (f : α → β) (entries : List (Text × α)) (k : Text) :
    member? (entries.map fun m => (m.1, f m.2)) k = (member? entries k).map f := by
  induction entries with
  | nil => rfl
  | cons m rest ih =>
    obtain ⟨j, v⟩ := m
    rw [List.map_cons, member?_cons, member?_cons, ih]
    split <;> rfl

theorem member?_perm {entries others : Members} (perm : entries.Perm others)
    (distinct : (entries.map Prod.fst).Nodup) (k : Text) :
    member? entries k = member? others k := by
  have names : (others.map Prod.fst).Nodup := (perm.map Prod.fst).nodup_iff.mp distinct
  apply Option.ext
  intro v
  constructor
  · intro found
    exact entry_of_mem names (perm.mem_iff.mp (mem_of_entry found))
  · intro found
    exact entry_of_mem distinct (perm.mem_iff.mpr (mem_of_entry found))

theorem hasName_iff {members : Members} {k : Text} : hasName members k = true ↔
    k ∈ members.map Prod.fst := by
  unfold hasName
  induction members with
  | nil => exact iff_of_false Bool.false_ne_true List.not_mem_nil
  | cons m rest ih =>
    obtain ⟨j, v⟩ := m
    rw [member?_cons, List.map_cons, List.mem_cons]
    split
    · rename_i same
      exact iff_of_true rfl (.inl same)
    · rename_i other
      rw [ih, or_iff_right other]

theorem names_form (members : Members) :
    (members.map fun m => (m.1, m.2.form)).map Prod.fst = members.map Prod.fst := by
  rw [List.map_map]
  rfl

/-- Under one name lie the same members. -/
theorem same_get {v w : Json} (same : Same v w) (plain : v.named = true) (k : Text) :
    (v.get k).map form = (w.get k).map form := by
  cases v with
  | object members =>
    obtain ⟨others, rfl, perm⟩ := same_object same
    have distinct : ((members.map fun m => (m.1, m.2.form)).map Prod.fst).Nodup :=
      names_form members ▸ of_decide_eq_true plain
    simp only [get, ← member?_map]
    exact member?_perm perm distinct k
  | _ => cases plain

theorem same_textAt {v w : Json} (same : Same v w) (plain : v.named = true) (k : Text) :
    v.textAt k = w.textAt k := by
  have forms := same_get same plain k
  unfold textAt
  cases here : v.get k with
  | none =>
    rw [here] at forms
    rw [Option.map_eq_none_iff.mp forms.symm]
  | some x =>
    rw [here] at forms
    obtain ⟨y, there, equal⟩ := Option.map_eq_some_iff.mp forms.symm
    rw [there]
    have alike : Same x y := equal.symm
    cases x with
    | text s => rw [same_text alike]
    | _ =>
      cases y with
      | text s => cases same_text alike.symm
      | _ => rfl

theorem same_itemsAt {v w : Json} (same : Same v w) (plain : v.named = true) (k : Text) :
    (v.itemsAt k).map form = (w.itemsAt k).map form := by
  have forms := same_get same plain k
  unfold itemsAt
  cases here : v.get k with
  | none =>
    rw [here] at forms
    rw [Option.map_eq_none_iff.mp forms.symm]
  | some x =>
    rw [here] at forms
    obtain ⟨y, there, equal⟩ := Option.map_eq_some_iff.mp forms.symm
    rw [there]
    have alike : Same x y := equal.symm
    cases x with
    | array items =>
      obtain ⟨others, rfl, mapped⟩ := same_array alike
      exact mapped.symm
    | _ =>
      cases y with
      | array items =>
        obtain ⟨others, impossible, -⟩ := same_array alike.symm
        cases impossible
      | _ => rfl

/-! Schemas. -/

/-- A test that does not see the order of members. -/
def Respects {α : Type*} (test : Json → α) : Prop := ∀ v w, Same v w → test v = test w

def isText (accepts : Text → Bool) : Json → Bool
  | .text s => accepts s
  | _ => false

def isArray (least most : ℕ) (item : Json → Bool) : Json → Bool
  | .array items => decide (least ≤ items.length) && decide (items.length ≤ most) && items.all item
  | _ => false

structure Field where
  name : Text
  optional : Bool
  accepts : Json → Bool

def required (name : Text) (accepts : Json → Bool) : Field := ⟨name, false, accepts⟩

def optional (name : Text) (accepts : Json → Bool) : Field := ⟨name, true, accepts⟩

/-- An object with these fields and no others. -/
def isStruct (fields : List Field) : Json → Bool
  | .object members => decide (members.map Prod.fst).Nodup &&
      members.all (fun m => fields.any fun f => f.name == m.1 && f.accepts m.2) &&
      fields.all fun f => f.optional || hasName members f.name
  | _ => false

theorem respects_isText (accepts : Text → Bool) : Respects (isText accepts) := by
  intro v w same
  cases v with
  | text s => rw [same_text same]
  | _ =>
    cases w with
    | text s => cases same_text same.symm
    | _ => rfl

theorem all_congr {item : Json → Bool} (respects : Respects item) {items others : List Json}
    (forms : others.map form = items.map form) : items.all item = others.all item := by
  induction items generalizing others with
  | nil =>
    rw [List.map_nil, List.map_eq_nil_iff] at forms
    rw [forms]
  | cons v rest ih =>
    obtain ⟨w, later, rfl, here, tail⟩ := List.map_eq_cons_iff.mp forms
    rw [List.all_cons, List.all_cons, respects v w here.symm, ih tail]

theorem respects_isArray {item : Json → Bool} (respects : Respects item) (least most : ℕ) :
    Respects (isArray least most item) := by
  intro v w same
  cases v with
  | array items =>
    obtain ⟨others, rfl, forms⟩ := same_array same
    have lengths : others.length = items.length := by
      have counted := congrArg List.length forms
      rwa [List.length_map, List.length_map] at counted
    simp only [isArray, lengths, all_congr respects forms]
  | _ =>
    cases w with
    | array items =>
      obtain ⟨others, impossible, -⟩ := same_array same.symm
      cases impossible
    | _ => rfl

/-- A struct without an order of its members: each is one of the fields, and none is missing. -/
theorem isStruct_iff {fields : List Field} {v : Json} :
    isStruct fields v = true ↔ ∃ members, v = .object members ∧ (members.map Prod.fst).Nodup ∧
      (∀ k x, (k, x) ∈ members → ∃ f ∈ fields, f.name = k ∧ f.accepts x = true) ∧
      ∀ f ∈ fields, f.optional = false → f.name ∈ members.map Prod.fst := by
  cases v with
  | object members =>
    simp only [isStruct, Bool.and_eq_true, decide_eq_true_eq, List.all_eq_true,
      List.any_eq_true, beq_iff_eq,
      Prod.forall, Json.object.injEq, exists_eq_left', Bool.or_eq_true, and_assoc]
    apply and_congr_right'
    apply and_congr_right'
    apply forall₂_congr
    intro f _
    rw [hasName_iff]
    cases f.optional <;> simp
  | _ => simp [isStruct]

theorem respects_isStruct {fields : List Field} (respects : ∀ f ∈ fields, Respects f.accepts) :
    Respects (isStruct fields) := by
  have one : ∀ v w, Same v w → isStruct fields v = true → isStruct fields w = true := by
    intro v w same accepted
    obtain ⟨members, rfl, distinct, each, whole⟩ := isStruct_iff.mp accepted
    obtain ⟨others, rfl, perm⟩ := same_object same
    have names := perm.map Prod.fst
    rw [names_form, names_form] at names
    refine isStruct_iff.mpr ⟨others, rfl, names.nodup_iff.mp distinct, ?_, ?_⟩
    · intro k x there
      have mapped : (k, x.form) ∈ members.map fun m => (m.1, m.2.form) :=
        perm.mem_iff.mpr (List.mem_map.mpr ⟨(k, x), there, rfl⟩)
      obtain ⟨⟨j, y⟩, member, equal⟩ := List.mem_map.mp mapped
      obtain ⟨rfl, forms⟩ := Prod.mk.inj equal
      obtain ⟨f, listed, name, accepts⟩ := each j y member
      exact ⟨f, listed, name, (respects f listed y x forms).symm.trans accepts⟩
    · intro f listed needed
      exact names.mem_iff.mp (whole f listed needed)
  intro v w same
  exact Bool.eq_iff_iff.mpr ⟨one v w same, one w v same.symm⟩

theorem named_of_isStruct {fields : List Field} {v : Json} (accepted : isStruct fields v = true) :
    v.named = true := by
  obtain ⟨members, rfl, distinct, -⟩ := isStruct_iff.mp accepted
  exact decide_eq_true distinct

/-- What a required field of an accepted struct holds. -/
theorem field_of_isStruct {fields : List Field}
    (distinct : (fields.map Field.name).Nodup) {v : Json}
    (accepted : isStruct fields v = true) {f : Field} (listed : f ∈ fields) {x : Json}
    (found : v.get f.name = some x) : f.accepts x = true := by
  obtain ⟨members, rfl, -, each, -⟩ := isStruct_iff.mp accepted
  obtain ⟨g, other, name, accepts⟩ := each f.name x (mem_of_entry found)
  rwa [← List.inj_on_of_nodup_map distinct other listed name]

theorem get_of_isStruct {fields : List Field} {v : Json}
    (accepted : isStruct fields v = true) {f : Field}
    (listed : f ∈ fields) (needed : f.optional = false) : ∃ x, v.get f.name = some x := by
  obtain ⟨members, rfl, distinct, -, whole⟩ := isStruct_iff.mp accepted
  obtain ⟨⟨k, x⟩, member, name⟩ := List.mem_map.mp (whole f listed needed)
  exact ⟨x, entry_of_mem distinct (name ▸ member)⟩

theorem get_of_itemsAt {v x : Json} {k : Text} {rest : List Json}
    (items : v.itemsAt k = x :: rest) :
    v.get k = some (.array (x :: rest)) := by
  unfold itemsAt at items
  cases found : v.get k with
  | none =>
    rw [found] at items
    cases items
  | some held =>
    rw [found] at items
    cases held with
    | array all => rw [← items]
    | _ => cases items

/-- A struct is known, up to the order of its members, by its fields. -/
theorem same_of_fields {fields : List Field} {v : Json} (accepted : isStruct fields v = true)
    {members : Members}
    (names : (members.map Prod.fst).Perm (fields.map Field.name))
    (distinct : (fields.map Field.name).Nodup)
    (each : ∀ k x, (k, x) ∈ members → (v.get k).map form = some x.form) :
    Same v (.object members) := by
  obtain ⟨held, rfl, plain, known, -⟩ := isStruct_iff.mp accepted
  have perm : (held.map fun m => (m.1, m.2.form)).Perm (members.map fun m => (m.1, m.2.form)) := by
    have left : (held.map fun m => (m.1, m.2.form)).Nodup := by
      apply List.Nodup.of_map Prod.fst
      rw [names_form]
      exact plain
    have right : (members.map fun m => (m.1, m.2.form)).Nodup := by
      apply List.Nodup.of_map Prod.fst
      rw [names_form]
      exact names.nodup_iff.mpr distinct
    rw [List.perm_ext_iff_of_nodup left right]
    rintro ⟨k, y⟩
    constructor
    · intro member
      obtain ⟨⟨j, x⟩, listed, equal⟩ := List.mem_map.mp member
      cases equal
      obtain ⟨f, field, rfl, -⟩ := known j x listed
      have there : f.name ∈ members.map Prod.fst := names.mem_iff.mpr (List.mem_map_of_mem field)
      obtain ⟨⟨j, z⟩, other, rfl⟩ := List.mem_map.mp there
      have same := each _ z other
      rw [get, entry_of_mem plain listed] at same
      exact List.mem_map.mpr ⟨_, other, by rw [Option.some.inj same]⟩
    · intro member
      obtain ⟨⟨j, x⟩, listed, equal⟩ := List.mem_map.mp member
      cases equal
      obtain ⟨z, found, same⟩ := Option.map_eq_some_iff.mp (each j x listed)
      exact List.mem_map.mpr ⟨(j, z), mem_of_entry found, by rw [same]⟩
  rw [Same, form_object, form_object, sortMembers_congr perm]
  rw [names_form]
  exact plain

/-! Putting a member. -/

def putMember (members : Members) (k : Text) (x : Json) : Members :=
  if hasName members k then members.map fun m => if m.1 = k then (k, x) else m
    else members ++ [(k, x)]

/-- `{ ...v, k: x }`. -/
def put (v : Json) (k : Text) (x : Json) : Json :=
  match v with
  | .object members => .object (putMember members k x)
  | v => v

theorem names_putMember (members : Members) (k : Text) (x : Json) :
    (putMember members k x).map Prod.fst =
      if hasName members k then members.map Prod.fst else members.map Prod.fst ++ [k] := by
  unfold putMember
  split
  · rw [List.map_map]
    apply List.map_congr_left
    intro m _
    by_cases same : m.1 = k
    · rw [Function.comp_apply, if_pos same, same]
    · simp only [Function.comp_apply, if_neg same]
  · rw [List.map_append, List.map_singleton]

theorem distinct_putMember {members : Members} (distinct : (members.map Prod.fst).Nodup) (k : Text)
    (x : Json) :
    ((putMember members k x).map Prod.fst).Nodup := by
  rw [names_putMember]
  split
  · exact distinct
  · rename_i fresh
    rw [hasName_iff] at fresh
    refine List.nodup_append.mpr ⟨distinct, List.nodup_singleton k, ?_⟩
    intro a here b there
    obtain rfl := List.mem_singleton.mp there
    rintro rfl
    exact fresh here

theorem mem_putMember {members : Members} {k j : Text} {x y : Json}
    (member : (j, y) ∈ putMember members k x) :
    (j = k ∧ y = x) ∨ (j ≠ k ∧ (j, y) ∈ members) := by
  unfold putMember at member
  split at member
  · obtain ⟨m, listed, equal⟩ := List.mem_map.mp member
    split at equal
    · cases equal
      exact .inl ⟨rfl, rfl⟩
    · rename_i other
      cases equal
      exact .inr ⟨other, listed⟩
  · rename_i fresh
    rcases List.mem_append.mp member with old | new
    · refine .inr ⟨?_, old⟩
      rintro rfl
      exact fresh (hasName_iff.mpr (List.mem_map.mpr ⟨_, old, rfl⟩))
    · cases List.mem_singleton.mp new
      exact .inl ⟨rfl, rfl⟩

theorem mem_putMember_self (members : Members) (k : Text) (x : Json) :
    (k, x) ∈ putMember members k x := by
  unfold putMember
  split
  · rename_i known
    obtain ⟨m, listed, rfl⟩ := List.mem_map.mp (hasName_iff.mp known)
    exact List.mem_map.mpr ⟨m, listed, if_pos rfl⟩
  · exact List.mem_append_right _ (List.mem_singleton.mpr rfl)

theorem mem_putMember_other {members : Members} {k j : Text} {x y : Json}
    (listed : (j, y) ∈ members) (other : j ≠ k) :
    (j, y) ∈ putMember members k x := by
  unfold putMember
  split
  · exact List.mem_map.mpr ⟨(j, y), listed, if_neg other⟩
  · exact List.mem_append_left _ listed

theorem get_put_self {v : Json} (plain : v.named = true) (k : Text) (x : Json) :
    (v.put k x).get k = some x := by
  cases v with
  | object members =>
    exact entry_of_mem (distinct_putMember (of_decide_eq_true plain) k x)
      (mem_putMember_self members k x)
  | _ => cases plain

theorem get_put_other {v : Json} (plain : v.named = true) {k j : Text} (other : j ≠ k) (x : Json) :
    (v.put k x).get j = v.get j := by
  cases v with
  | object members =>
    have distinct := of_decide_eq_true plain
    apply Option.ext
    intro y
    constructor
    · intro found
      rcases mem_putMember (mem_of_entry found) with ⟨same, -⟩ | ⟨-, listed⟩
      · exact absurd same other
      · exact entry_of_mem distinct listed
    · intro found
      exact entry_of_mem (distinct_putMember distinct k x)
        (mem_putMember_other (mem_of_entry found) other)
  | _ => cases plain

theorem textAt_put_other {v : Json} (plain : v.named = true) {k j : Text} (other : j ≠ k)
    (x : Json) :
    (v.put k x).textAt j = v.textAt j := by
  rw [textAt, get_put_other plain other, textAt]

theorem itemsAt_put_other {v : Json} (plain : v.named = true) {k j : Text} (other : j ≠ k)
    (x : Json) :
    (v.put k x).itemsAt j = v.itemsAt j := by
  rw [itemsAt, get_put_other plain other, itemsAt]

/-- A struct takes an accepted value of one of its fields. -/
theorem isStruct_put {fields : List Field} {v : Json}
    (accepted : isStruct fields v = true) {f : Field}
    (listed : f ∈ fields) {x : Json} (accepts : f.accepts x = true) :
    isStruct fields (v.put f.name x) = true := by
  obtain ⟨members, rfl, distinct, each, whole⟩ := isStruct_iff.mp accepted
  refine isStruct_iff.mpr ⟨_, rfl, distinct_putMember distinct _ _, ?_, ?_⟩
  · intro k y member
    rcases mem_putMember member with ⟨rfl, rfl⟩ | ⟨-, old⟩
    · exact ⟨f, listed, rfl, accepts⟩
    · exact each k y old
  · intro g other needed
    rw [names_putMember]
    split
    · exact whole g other needed
    · exact List.mem_append_left _ (whole g other needed)

end Json

end Metahumotonic.Library
