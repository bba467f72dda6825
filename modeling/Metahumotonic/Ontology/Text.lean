import Metahumotonic.Library.Json

/-! Texts as the facade compares them (`app/ontology.py`): case folding and NFKC are
given functions with the properties that the Unicode standard documents, and the
scanner's markers are looked for in folded texts. -/
namespace Metahumotonic.Ontology

open Library

def asciiLower (c : Nat) : Nat := if 65 ≤ c ∧ c ≤ 90 then c + 32 else c

/-- Unicode data. Full case folding works code point by code point. -/
structure Unicode where
  nfkc : Text → Text
  fold : Nat → Text
  nfkc_scalar : ∀ s : Text, s.all scalar = true → (nfkc s).all scalar = true
  fold_scalar : ∀ c, scalar c = true → (fold c).all scalar = true
  fold_ascii : ∀ c < 128, fold c = [asciiLower c]
  fold_hangul : ∀ c, 0xAC00 ≤ c → c ≤ 0xD7A3 → fold c = [c]

def Unicode.casefold (u : Unicode) (s : Text) : Text := s.flatMap u.fold

/-- `str.isspace` for one code point. -/
def isSpace (c : Nat) : Bool :=
  (9 ≤ c && c ≤ 13) || (28 ≤ c && c ≤ 32) || c == 0x85 || c == 0xA0 || c == 0x1680 ||
    (0x2000 ≤ c && c ≤ 0x200A) || c == 0x2028 || c == 0x2029 || c == 0x202F || c ==
      0x205F || c == 0x3000

def strip (s : Text) : Text := ((s.dropWhile isSpace).reverse.dropWhile isSpace).reverse

def Unicode.normalized (u : Unicode) (value : Text) : Text := strip (u.casefold (u.nfkc value))

/-- `part in whole`. -/
def contains (part : Text) : Text → Bool
  | [] => part.isEmpty
  | c :: rest => part.isPrefixOf (c :: rest) || contains part rest

def forbiddenStringMarkers : List Text :=
  [lit "/home/", lit "/users/", lit "bolt://", lit "file://", lit "neo4j://", lit "sym:"]

def forbiddenKeys : List Text :=
  [lit "cypher", lit "exact_text", lit "kg_label", lit "kg_labels", lit "kg_uid", lit "raw_cypher",
    lit "source_file", lit "source_path", lit "source_paths", lit "stable_ref", lit "stable_refs",
    lit "user_request_sha256", lit "user_utterance", lit "verification_path",
      lit "verification_paths"]

/-- None of the forbidden markers occurs in a text that is already folded. -/
def markerFree (lowered : Text) : Bool := forbiddenStringMarkers.all fun marker =>
    !contains marker lowered

def Unicode.unmarked (u : Unicode) (s : Text) : Bool := markerFree (u.casefold s)

/-- Neither a forbidden field nor a digest other than `content_sha256`. -/
def permitted (lowered : Text) : Bool :=
  !forbiddenKeys.contains lowered &&
    (!(lit "sha256").isSuffixOf lowered || lowered == lit "content_sha256")

def Unicode.permittedKey (u : Unicode) (key : Text) : Bool := permitted (u.casefold key)

theorem casefold_ascii (u : Unicode) {s : Text} (ascii : s.all (· < 128) = true) :
    u.casefold s = s.map asciiLower := by
  induction s with
  | nil => rfl
  | cons c rest ih =>
    simp only [List.all_cons, Bool.and_eq_true, decide_eq_true_eq] at ascii
    have later : rest.flatMap u.fold = rest.map asciiLower := ih ascii.2
    simp [Unicode.casefold, u.fold_ascii c ascii.1, later]

theorem strip_subset {s : Text} {c : Nat} (member : c ∈ strip s) : c ∈ s := by
  unfold strip at member
  have inner := (List.dropWhile_sublist isSpace).subset (List.mem_reverse.mp member)
  exact (List.dropWhile_sublist isSpace).subset (List.mem_reverse.mp inner)

theorem normalized_scalar (u : Unicode) {s : Text} (inside : s.all scalar = true) :
    (u.normalized s).all scalar = true := by
  rw [List.all_eq_true]
  intro c member
  have folded := strip_subset member
  obtain ⟨b, there, from_⟩ := List.mem_flatMap.mp folded
  have point := List.all_eq_true.mp (u.nfkc_scalar s inside) b there
  exact List.all_eq_true.mp (u.fold_scalar b point) c from_

theorem contains_head {c : Nat} {part whole : Text} (found : contains part whole = true)
    (member : c ∈ part) : c ∈ whole := by
  induction whole with
  | nil =>
    rw [contains, List.isEmpty_iff] at found
    exact absurd member (by simp [found])
  | cons d rest ih =>
    simp only [contains, Bool.or_eq_true, List.isPrefixOf_iff_prefix] at found
    rcases found with here | later
    · exact here.subset member
    · exact List.mem_cons_of_mem _ (ih later)

/-- Every marker holds a slash or a colon. -/
theorem markerFree_of_plain {lowered : Text} (slash : 47 ∉ lowered) (colon : 58 ∉ lowered) :
    markerFree lowered = true := by
  rw [markerFree, List.all_eq_true]
  intro marker listed
  have marked : 47 ∈ marker ∨ 58 ∈ marker := by
    have each : ∀ m ∈ forbiddenStringMarkers, 47 ∈ m ∨ 58 ∈ m := by decide
    exact each marker listed
  cases found : contains marker lowered with
  | false => rfl
  | true =>
    rcases marked with inside | inside
    · exact absurd (contains_head found inside) slash
    · exact absurd (contains_head found inside) colon

end Metahumotonic.Ontology
