import Metahumotonic.Platform.Canonical

/-! Canonical JSON over the JSON values of JavaScript (`ts/src/platform/Digest.ts`): it writes two
values alike exactly when they are equal up to the order of the keys of objects. -/
namespace Metahumotonic.Platform
open Metahumotonic.Library Json NumberText

/-- A JSON value: its numbers are finite doubles, and an object has the entries that
`Object.entries` lists. -/
inductive JsValue where
  | null
  | bool (b : Bool)
  | number (x : Double)
  | text (s : Text)
  | array (items : List JsValue)
  | object (entries : List (Text × JsValue))

namespace JsValue

@[elab_as_elim]
theorem induct {P : JsValue → Prop} (null : P .null) (bool : ∀ b, P (.bool b))
    (number : ∀ x, P (.number x))
    (text : ∀ s, P (.text s)) (array : ∀ items : List JsValue, (∀ v ∈ items, P v) →
      P (.array items))
    (object : ∀ entries : List (Text × JsValue), (∀ m ∈ entries, P m.2) → P (.object entries))
    (v : JsValue) : P v := by
  refine JsValue.rec (motive_1 := P) (motive_2 := fun items => ∀ v ∈ items, P v)
    (motive_3 := fun entries => ∀ m ∈ entries, P m.2) (motive_4 := fun m => P m.2)
    null bool number text array object ?_ ?_ ?_ ?_ ?_ v
  · nofun
  · intro v rest here later w member
    rcases List.mem_cons.mp member with rfl | there
    · exact here
    · exact later w there
  · nofun
  · intro m rest here later other member
    rcases List.mem_cons.mp member with rfl | there
    · exact here
    · exact later other there
  · intro k v held
    exact held

mutual
/-- `canonicalJson`: what is not a list or an object is written by `JSON.stringify`. -/
def canonicalJson : JsValue → Text
  | .array items => 91 :: (joined (canonicalItems items) ++ [93])
  | .object entries =>
    123 :: (joined (((canonicalEntries entries).insertionSort byKey).map fun entry =>
      stringifyText entry.1 ++ 58 :: entry.2) ++ [125])
  | .null => lit "null"
  | .bool b => if b then lit "true" else lit "false"
  | .number x => numberText x
  | .text s => stringifyText s
def canonicalItems : List JsValue → List Text
  | [] => []
  | v :: rest => v.canonicalJson :: canonicalItems rest
def canonicalEntries : List (Text × JsValue) → List (Text × Text)
  | [] => []
  | (k, v) :: rest => (k, v.canonicalJson) :: canonicalEntries rest
end

def contentDigest (sha256 : Text → Text) (v : JsValue) : Text := sha256 v.canonicalJson

mutual
/-- Equal values: numbers by what they are worth, lists in order, objects by their keys. -/
def equal : JsValue → JsValue → Bool
  | .null, .null => true
  | .bool b, .bool c => b == c
  | .number x, .number y => x.value == y.value
  | .text s, .text t => s == t
  | .array items, .array others => equalItems items others
  | .object entries, .object others =>
    entries.length == others.length && equalEntries entries others
  | _, _ => false
def equalItems : List JsValue → List JsValue → Bool
  | [], [] => true
  | v :: rest, w :: others => v.equal w && equalItems rest others
  | _, _ => false
def equalEntries : List (Text × JsValue) → List (Text × JsValue) → Bool
  | [], _ => true
  | (k, v) :: rest, others =>
    (match member? others k with
      | some w => v.equal w
      | none => false) && equalEntries rest others
end

mutual
/-- No object has a key twice. -/
def uniqueKeys : JsValue → Bool
  | .array items => uniqueItems items
  | .object entries => decide (entries.map Prod.fst).Nodup && uniqueEntries entries
  | _ => true
def uniqueItems : List JsValue → Bool
  | [] => true
  | v :: rest => v.uniqueKeys && uniqueItems rest
def uniqueEntries : List (Text × JsValue) → Bool
  | [] => true
  | (_, v) :: rest => v.uniqueKeys && uniqueEntries rest
end

mutual
/-- The document of a value, with its numbers as they are written. -/
def json : JsValue → Json
  | .null => .null
  | .bool b => .bool b
  | .number x => .float (numberText x)
  | .text s => .text s
  | .array items => .array (jsonItems items)
  | .object entries => .object (jsonEntries entries)
def jsonItems : List JsValue → List Json
  | [] => []
  | v :: rest => v.json :: jsonItems rest
def jsonEntries : List (Text × JsValue) → Members
  | [] => []
  | (k, v) :: rest => (k, v.json) :: jsonEntries rest
end

theorem canonicalItems_eq (items : List JsValue) :
    canonicalItems items = items.map canonicalJson := by
  induction items with
  | nil => rfl
  | cons v rest ih => simp only [canonicalItems, ih, List.map_cons]

theorem canonicalEntries_eq (entries : List (Text × JsValue)) :
    canonicalEntries entries = entries.map fun m => (m.1, m.2.canonicalJson) := by
  induction entries with
  | nil => rfl
  | cons m rest ih => simp only [canonicalEntries, ih, List.map_cons]

@[simp] theorem json_array (items : List JsValue) : (JsValue.array items).json = .array
    (items.map json) := by
  have parts : jsonItems items = items.map json := by
    induction items with
    | nil => rfl
    | cons v rest ih => simp only [jsonItems, ih, List.map_cons]
  rw [json, parts]

@[simp] theorem json_object (entries : List (Text × JsValue)) :
    (JsValue.object entries).json = .object (entries.map fun m => (m.1, m.2.json)) := by
  have parts : jsonEntries entries = entries.map fun m => (m.1, m.2.json) := by
    induction entries with
    | nil => rfl
    | cons m rest ih => simp only [jsonEntries, ih, List.map_cons]
  rw [json, parts]

theorem equalItems_iff (items others : List JsValue) :
    equalItems items others = true ↔ List.Forall₂ (fun v w => v.equal w = true) items others := by
  induction items generalizing others with
  | nil =>
    cases others with
    | nil => exact iff_of_true rfl .nil
    | cons w others => exact iff_of_false Bool.false_ne_true nofun
  | cons v rest ih =>
    cases others with
    | nil => exact iff_of_false Bool.false_ne_true nofun
    | cons w others => rw [equalItems, Bool.and_eq_true, ih, List.forall₂_cons]

theorem equalEntries_iff (entries others : List (Text × JsValue)) :
    equalEntries entries others = true ↔
      ∀ m ∈ entries, ∃ w, member? others m.1 = some w ∧ m.2.equal w = true := by
  induction entries with
  | nil => exact iff_of_true rfl nofun
  | cons m rest ih =>
    rw [equalEntries, Bool.and_eq_true, ih, List.forall_mem_cons]
    apply and_congr_left'
    cases found : member? others m.1 with
    | none => exact iff_of_false Bool.false_ne_true nofun
    | some w => simp only [Option.some.injEq, exists_eq_left']

theorem uniqueKeys_array (items : List JsValue) :
    (JsValue.array items).uniqueKeys = true ↔ ∀ v ∈ items, v.uniqueKeys = true := by
  rw [uniqueKeys]
  induction items with
  | nil => exact iff_of_true rfl nofun
  | cons v rest ih => rw [uniqueItems, Bool.and_eq_true, ih, List.forall_mem_cons]

theorem uniqueKeys_object (entries : List (Text × JsValue)) :
    (JsValue.object entries).uniqueKeys = true ↔
      (entries.map Prod.fst).Nodup ∧ ∀ m ∈ entries, m.2.uniqueKeys = true := by
  have parts : uniqueEntries entries = true ↔ ∀ m ∈ entries, m.2.uniqueKeys = true := by
    induction entries with
    | nil => exact iff_of_true rfl nofun
    | cons m rest ih => rw [uniqueEntries, Bool.and_eq_true, ih, List.forall_mem_cons]
  rw [uniqueKeys, Bool.and_eq_true, decide_eq_true_iff, parts]

/-! Values and their documents. -/

theorem numeral_numberText (x : Double) : Numeral (numberText x) :=
  ⟨isSign_numberText x, numberText_head x⟩

theorem rendered_json (v : JsValue) : Rendered v.json := by
  induction v using JsValue.induct with
  | null => exact .null
  | bool b => exact .bool b
  | number x => exact .number (numeral_numberText x)
  | text s => exact .text s
  | array items ih =>
    rw [json_array]
    refine .array fun v member => ?_
    obtain ⟨w, here, rfl⟩ := List.mem_map.mp member
    exact ih w here
  | object entries ih =>
    rw [json_object]
    refine .object fun m member => ?_
    obtain ⟨n, here, rfl⟩ := List.mem_map.mp member
    exact ih n here

/-- The text of a value is the text of its document. -/
theorem canonicalJson_json (v : JsValue) : Platform.canonicalJson v.json = v.canonicalJson := by
  induction v using JsValue.induct with
  | null => rfl
  | bool b => cases b <;> rfl
  | number x => rfl
  | text s => rfl
  | array items ih =>
    have parts : (items.map json).map Platform.canonicalJson = items.map canonicalJson := by
      rw [List.map_map]
      exact List.map_congr_left ih
    rw [json_array, Platform.canonicalJson, Platform.canonicalItems_eq, parts, canonicalJson,
      canonicalItems_eq]
  | object entries ih =>
    have parts : (entries.map fun m => (m.1, m.2.json)).map
        (fun m => (m.1, Platform.canonicalJson m.2)) =
        entries.map fun m => (m.1, m.2.canonicalJson) := by
      rw [List.map_map]
      apply List.map_congr_left
      intro m member
      exact congrArg (Prod.mk m.1) (ih m member)
    rw [json_object, Platform.canonicalJson, Platform.canonicalEntries_eq, parts, canonicalJson,
      canonicalEntries_eq]

/-! Equal values have one form. -/

/-- Of two lists of named things without repeated names, one is the other in some order when it is
as long and everything in it is in the other. -/
theorem perm_iff_entries {α : Type*} {entries others : List (Text × α)}
    (distinct : (entries.map Prod.fst).Nodup) :
    entries.Perm others ↔ entries.length = others.length ∧ ∀ m ∈ entries, m ∈ others := by
  constructor
  · intro perm
    exact ⟨perm.length_eq, fun m => perm.mem_iff.mp⟩
  · rintro ⟨size, within⟩
    exact (List.subperm_of_subset (List.Nodup.of_map _ distinct) within).perm_of_length_le size.ge

theorem form_entries_iff {members others : Members} (first : (members.map Prod.fst).Nodup) :
    (Json.object members).form = (Json.object others).form ↔
      (members.map fun m => (m.1, m.2.form)).Perm (others.map fun m => (m.1, m.2.form)) := by
  have names : ((members.map fun m => (m.1, m.2.form)).map Prod.fst).Nodup := by
    rw [List.map_map]
    exact first
  constructor
  · intro same
    obtain ⟨_, whole, perm⟩ := same_object same
    cases whole
    exact perm
  · intro perm
    rw [form_object, form_object, sortMembers_congr perm names]

theorem forms_iff {items others : List JsValue}
    (each : ∀ v ∈ items, ∀ w ∈ others, v.json.form = w.json.form ↔ v.equal w = true) :
    items.map (fun v => v.json.form) = others.map (fun v => v.json.form) ↔
      List.Forall₂ (fun v w => v.equal w = true) items others := by
  induction items generalizing others with
  | nil =>
    cases others with
    | nil => exact iff_of_true rfl .nil
    | cons w others => exact iff_of_false nofun nofun
  | cons v rest ih =>
    cases others with
    | nil => exact iff_of_false nofun nofun
    | cons w others =>
      rw [List.map_cons, List.map_cons, List.cons.injEq, List.forall₂_cons]
      exact and_congr (each v List.mem_cons_self w List.mem_cons_self)
        (ih fun x here y there => each x (List.mem_cons_of_mem _ here) y
          (List.mem_cons_of_mem _ there))

theorem form_json_object (entries : List (Text × JsValue)) :
    (entries.map fun m => (m.1, m.2.json)).map (fun m => (m.1, m.2.form)) = entries.map fun m =>
    (m.1, m.2.json.form) := by
  rw [List.map_map]
  rfl

theorem names_json (entries : List (Text × JsValue)) :
    (entries.map fun m => (m.1, m.2.json)).map Prod.fst = entries.map Prod.fst := by
  rw [List.map_map]
  rfl

theorem leading_form (v : Json) : leading v.form = leading v := by
  cases v with
  | array items => rw [form_array]; rfl
  | object members => rw [form_object]; rfl
  | _ => rfl

/-- Values of different kinds are told apart by their documents. -/
theorem kinds_differ {v w : JsValue} (other : leading v.json ≠ leading w.json)
    (unequal : v.equal w = false) :
    v.json.form = w.json.form ↔ v.equal w = true := by
  refine iff_of_false (fun same => other ?_) (Bool.eq_false_iff.mp unequal)
  rw [← leading_form, same, leading_form]

/-- Two values have one form when they are equal. -/
theorem form_json_iff (v : JsValue) : ∀ w, v.uniqueKeys = true → w.uniqueKeys = true →
    (v.json.form = w.json.form ↔ v.equal w = true) := by
  induction v using JsValue.induct with
  | null =>
    intro w _ _
    cases w with
    | null => exact iff_of_true rfl rfl
    | bool c => exact kinds_differ (by cases c <;> nofun) rfl
    | _ => exact kinds_differ nofun rfl
  | bool b =>
    intro w _ _
    cases w with
    | bool c =>
      rw [equal, beq_iff_eq]
      exact ⟨Json.bool.inj, congrArg Json.bool⟩
    | _ => exact kinds_differ (by cases b <;> nofun) rfl
  | number x =>
    intro w _ _
    cases w with
    | number y =>
      rw [equal, beq_iff_eq, ← numberText_eq_iff]
      exact ⟨Json.float.inj, congrArg Json.float⟩
    | bool c => exact kinds_differ (by cases c <;> nofun) rfl
    | _ => exact kinds_differ nofun rfl
  | text s =>
    intro w _ _
    cases w with
    | text t =>
      rw [equal, beq_iff_eq]
      exact ⟨Json.text.inj, congrArg Json.text⟩
    | bool c => exact kinds_differ (by cases c <;> nofun) rfl
    | _ => exact kinds_differ nofun rfl
  | array items ih =>
    intro w uniqueV uniqueW
    cases w with
    | array others =>
      have each : ∀ v ∈ items, ∀ w ∈ others, v.json.form = w.json.form ↔ v.equal w = true :=
        fun v here w there =>
        ih v here w ((uniqueKeys_array items).mp uniqueV v here)
          ((uniqueKeys_array others).mp uniqueW w there)
      rw [json_array, json_array, form_array, form_array, Json.array.injEq, List.map_map,
        List.map_map, equal,
        equalItems_iff]
      exact forms_iff each
    | bool c => exact kinds_differ (by cases c <;> nofun) rfl
    | _ => exact kinds_differ nofun rfl
  | object entries ih =>
    intro w uniqueV uniqueW
    cases w with
    | object others =>
      obtain ⟨distinct, innerV⟩ := (uniqueKeys_object entries).mp uniqueV
      obtain ⟨distinctW, innerW⟩ := (uniqueKeys_object others).mp uniqueW
      have names : ((entries.map fun m => (m.1, m.2.json)).map Prod.fst).Nodup :=
        (names_json entries).symm ▸ distinct
      have formed : ((entries.map fun m => (m.1, m.2.json.form)).map Prod.fst).Nodup := by
        rw [List.map_map]
        exact distinct
      rw [json_object, json_object, form_entries_iff names, form_json_object, form_json_object,
        perm_iff_entries formed, equal, Bool.and_eq_true, beq_iff_eq, equalEntries_iff,
          List.length_map, List.length_map]
      refine and_congr_right fun _ => ?_
      constructor
      · intro within m here
        obtain ⟨n, there, same⟩ := List.mem_map.mp (within _ (List.mem_map_of_mem here))
        obtain ⟨name, form⟩ := Prod.mk.inj same
        refine ⟨n.2, entry_of_mem distinctW (name ▸ there), ?_⟩
        exact (ih m here n.2 (innerV m here) (innerW n there)).mp form.symm
      · intro found m member
        obtain ⟨n, here, rfl⟩ := List.mem_map.mp member
        obtain ⟨w, there, same⟩ := found n here
        have listed := mem_of_entry there
        have form := (ih n here w (innerV n here) (innerW _ listed)).mpr same
        exact List.mem_map.mpr ⟨(n.1, w), listed, congrArg (Prod.mk n.1) form.symm⟩
    | bool c => exact kinds_differ (by cases c <;> nofun) rfl
    | _ => exact kinds_differ nofun rfl

theorem canonicalJson_eq_iff {v w : JsValue} (uniqueV : v.uniqueKeys = true)
    (uniqueW : w.uniqueKeys = true) :
    v.canonicalJson = w.canonicalJson ↔ v.equal w = true := by
  rw [← form_json_iff v w uniqueV uniqueW]
  constructor
  · intro same
    refine form_of_canonicalJson (rendered_json v) (rendered_json w) ?_
    rw [canonicalJson_json, canonicalJson_json, same]
  · intro same
    rw [← canonicalJson_json v, ← canonicalJson_json w]
    exact respects_canonicalJson _ _ same

end JsValue

/-- A JSON value whose objects have no key twice. -/
structure JsDocument where
  value : JsValue
  unique : value.uniqueKeys = true

namespace JsDocument

def canonicalJson (d : JsDocument) : Text := d.value.canonicalJson

def contentDigest (sha256 : Text → Text) (d : JsDocument) : Text := d.value.contentDigest sha256

/-- The same document, whatever the order of the keys. -/
def Equal (d e : JsDocument) : Prop := d.value.equal e.value = true

end JsDocument

/-- What the inventory knows by its digest. -/
def Digested (v : Json) : Prop := isObservationBatch v = true ∨ isPlatformCatalog v = true

theorem Digested.textual {v : Json} (digested : Digested v) : Textual v := by
  rcases digested with batch | catalog
  · exact textual_isObservationBatch v batch
  · exact textual_isPlatformCatalog v catalog

theorem contentDigest_iff {v w : Json} (first : Digested v) (second : Digested w)
    {sha256 : Text → Text}
    (free : sha256 (canonicalJson v) = sha256 (canonicalJson w) →
      canonicalJson v = canonicalJson w) :
    contentDigest sha256 v = contentDigest sha256 w ↔ Same v w :=
  ⟨fun same => same_of_canonicalJson first.textual second.textual (free same),
    respects_contentDigest sha256 v w⟩

/-- Canonical JSON is canonical: two values have one text when they are equal, and one digest then,
where the hash tells their texts apart; two batches or catalogs have one digest when they are the
same. -/
theorem canonicalJson_canonical (a b : JsDocument) :
    (a.canonicalJson = b.canonicalJson ↔ a.Equal b) ∧
      (∀ sha256 : Text →
        Text, (sha256 a.canonicalJson = sha256 b.canonicalJson →
          a.canonicalJson = b.canonicalJson) →
        (a.contentDigest sha256 = b.contentDigest sha256 ↔ a.Equal b)) ∧
      ∀ (sha256 : Text → Text) (v w : Json), Digested v → Digested w →
        (sha256 (canonicalJson v) = sha256 (canonicalJson w) → canonicalJson v = canonicalJson w) →
          (contentDigest sha256 v = contentDigest sha256 w ↔ Same v w) := by
  have texts : a.canonicalJson = b.canonicalJson ↔ a.Equal b :=
    JsValue.canonicalJson_eq_iff a.unique b.unique
  refine ⟨texts, ?_, ?_⟩
  · intro sha256 free
    rw [← texts]
    exact ⟨free, congrArg sha256⟩
  · intro sha256 v w first second free
    exact contentDigest_iff first second free

/-- Two key orders and the two zeros, at every depth. -/
def orderedDocument : JsDocument where
  value := .object [(lit "a", .number ⟨false, 0, 0, by decide, by decide, .inr rfl⟩),
    (lit "b", .array [.object [(lit "1", .null), (lit "\"", .bool true)], .text (lit ":,")])]
  unique := by decide

def reorderedDocument : JsDocument where
  value := .object [(lit "b", .array [.object [(lit "\"", .bool true), (lit "1", .null)],
    .text (lit ":,")]),
    (lit "a", .number ⟨true, 0, 0, by decide, by decide, .inr rfl⟩)]
  unique := by decide

theorem canonicalJson_canonical_sample :
    orderedDocument.contentDigest id = reorderedDocument.contentDigest id ∧
      orderedDocument.Equal reorderedDocument := by
  obtain ⟨-, digests, -⟩ := canonicalJson_canonical orderedDocument reorderedDocument
  have equal : orderedDocument.Equal reorderedDocument := by
    unfold JsDocument.Equal
    decide
  exact ⟨(digests id fun same => same).mpr equal, equal⟩

end Metahumotonic.Platform
