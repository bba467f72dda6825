import Metahumotonic.Library.JsonForm

/-! Canonical JSON and content digests (`ts/src/platform/Digest.ts`). Texts are lists of UTF-16
code units. -/
namespace Metahumotonic.Platform
open Metahumotonic.Library Json

/-- A code unit as `JSON.stringify` writes it when it is not half of a pair. -/
def escapeUnit (unit : ℕ) : Text :=
  match member? shortEscapes unit with
  | some k => [92, k]
  | none =>
    if unit < 32 ∨ highSurrogate unit ∨ lowSurrogate unit then unicodeEscape unit else [unit]

/-- `JSON.stringify(text)` between its quotes: pairs of surrogates stay, lone ones are escaped. -/
def escapeUnits : Text → Text
  | [] => []
  | [unit] => escapeUnit unit
  | unit :: next :: rest =>
    if highSurrogate unit && lowSurrogate next then unit :: next :: escapeUnits rest
    else escapeUnit unit ++ escapeUnits (next :: rest)

def stringifyText (s : Text) : Text := 34 :: (escapeUnits s ++ [34])

/-- `values.join(",")`. -/
def joined (values : List Text) : Text := [44].intercalate values

def byKey (a b : Text × Text) : Prop := a.1 ≤ b.1

instance : DecidableRel byKey := fun a b => inferInstanceAs (Decidable (a.1 ≤ b.1))

mutual
/-- `canonicalJson`: the entries of an object are sorted by their keys. Integers are written in
decimal, other numbers as they are. -/
def canonicalJson : Json → Text
  | .null => lit "null"
  | .bool true => lit "true"
  | .bool false => lit "false"
  | .int n => writeInt n
  | .float literal => literal
  | .text s => stringifyText s
  | .array items => 91 :: (joined (canonicalItems items) ++ [93])
  | .object members =>
    123 :: (joined (((canonicalEntries members).insertionSort byKey).map fun entry =>
      stringifyText entry.1 ++ 58 :: entry.2) ++ [125])
def canonicalItems : List Json → List Text
  | [] => []
  | v :: rest => canonicalJson v :: canonicalItems rest
def canonicalEntries : Members → List (Text × Text)
  | [] => []
  | (k, v) :: rest => (k, canonicalJson v) :: canonicalEntries rest
end

/-- `contentDigest`; `sha256` gives the hexadecimal digest of a text. -/
def contentDigest (sha256 : Text → Text) (v : Json) : Text := sha256 (canonicalJson v)

theorem canonicalItems_eq (items : List Json) : canonicalItems items = items.map canonicalJson := by
  induction items with
  | nil => rfl
  | cons v rest ih => simp only [canonicalItems, ih, List.map_cons]

theorem canonicalEntries_eq (members : Members) :
    canonicalEntries members = members.map fun m => (m.1, canonicalJson m.2) := by
  induction members with
  | nil => rfl
  | cons m rest ih => simp only [canonicalEntries, ih, List.map_cons]

/-- Sorting the entries is sorting the members. -/
theorem sorted_entries (members : Members) :
    (members.map fun m => (m.1, canonicalJson m.2)).insertionSort byKey =
      (sortMembers members).map fun m => (m.1, canonicalJson m.2) := by
  rw [sortMembers]
  symm
  apply List.map_insertionSort
  intro a _ b _
  rfl

theorem canonicalJson_form (v : Json) : canonicalJson v.form = canonicalJson v := by
  induction v using Json.induct with
  | array items ih =>
    have parts : (items.map form).map canonicalJson = items.map canonicalJson := by
      rw [List.map_map]
      exact List.map_congr_left ih
    rw [form_array, canonicalJson, canonicalJson, canonicalItems_eq, canonicalItems_eq, parts]
  | object members ih =>
    have parts : (members.map fun m => (m.1, m.2.form)).map (fun m => (m.1, canonicalJson m.2)) =
        members.map fun m => (m.1, canonicalJson m.2) := by
      rw [List.map_map]
      apply List.map_congr_left
      intro m member
      exact congrArg (Prod.mk m.1) (ih m member)
    rw [form_object, canonicalJson, canonicalJson, canonicalEntries_eq, canonicalEntries_eq,
      sorted_entries,
      sortMembers_sorted, ← sorted_entries, parts]
  | null => rfl
  | bool b => rfl
  | int n => rfl
  | float literal => rfl
  | text s => rfl

/-- Canonical JSON does not see the order of members. -/
theorem respects_canonicalJson : Respects canonicalJson := by
  intro v w same
  rw [← canonicalJson_form v, ← canonicalJson_form w, show v.form = w.form from same]

theorem respects_contentDigest (sha256 : Text → Text) : Respects (contentDigest sha256) :=
  fun v w same => congrArg sha256 (respects_canonicalJson v w same)

end Metahumotonic.Platform
