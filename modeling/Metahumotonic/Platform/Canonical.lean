import Metahumotonic.Library.NumberText
import Metahumotonic.Platform.Accepted

/-! Canonical JSON tells documents apart: two documents have one canonical text only if they are the
same up to the order of members. -/
namespace Metahumotonic.Platform
open Metahumotonic.Library Json

/-! Texts. -/

/-- The three ways of writing a unit. -/
theorem escapeUnit_cases (c : ℕ) :
    (∃ k, member? shortEscapes c = some k ∧ escapeUnit c = [92, k]) ∨
    (c < 0x10000 ∧ escapeUnit c = unicodeEscape c) ∨
    (c ≠ 34 ∧ c ≠ 92 ∧ highSurrogate c = false ∧ escapeUnit c = [c]) := by
  unfold escapeUnit
  cases found : member? shortEscapes c with
  | some k => exact .inl ⟨k, rfl, rfl⟩
  | none =>
    right
    dsimp only
    split
    · rename_i escaped
      left
      refine ⟨?_, rfl⟩
      simp only [highSurrogate, lowSurrogate, Bool.and_eq_true, decide_eq_true_eq] at escaped
      omega
    · rename_i raw
      right
      have quote : c ≠ 34 := by
        rintro rfl
        cases found
      have slash : c ≠ 92 := by
        rintro rfl
        cases found
      rw [not_or, not_or] at raw
      exact ⟨quote, slash, Bool.eq_false_iff.mpr raw.2.1, rfl⟩

theorem shortEscapes_injective {c d k : ℕ} (first : member? shortEscapes c = some k)
    (second : member? shortEscapes d = some k) : c = d := by
  have distinct : ∀ p ∈ shortEscapes, ∀ q ∈ shortEscapes, p.2 = q.2 → p.1 = q.1 := by decide
  exact distinct _ (mem_of_entry first) _ (mem_of_entry second) rfl

theorem shortEscapes_not_unicode {c k : ℕ} (found : member? shortEscapes c = some k) : k ≠ 117 := by
  have never : ∀ p ∈ shortEscapes, p.2 ≠ 117 := by decide
  exact never _ (mem_of_entry found)

theorem hex4_injective {m n : ℕ} (first : m < 0x10000) (second : n < 0x10000) {x y : Text}
    (same : hex4 m ++ x = hex4 n ++ y) : m = n ∧ x = y := by
  have read := congrArg readHex same
  rw [readHex_hex4 first, readHex_hex4 second] at read
  exact Prod.mk.inj (Option.some.inj read)

/-- What one step of `JSON.stringify` reads, and what it writes. -/
inductive Piece : Text → Text → Prop where
  | pair {h l : ℕ} (high : highSurrogate h = true) : Piece [h, l] [h, l]
  | unit (c : ℕ) : Piece [c] (escapeUnit c)

theorem piece_split (s : Text) (some : s ≠ []) : ∃ part written rest, s = part ++ rest ∧ part ≠ [] ∧
    Piece part written ∧ escapeUnits s = written ++ escapeUnits rest := by
  match s, some with
  | [unit], _ =>
    exact ⟨[unit], _, [], rfl, List.cons_ne_nil _ _, .unit unit, (List.append_nil _).symm⟩
  | unit :: next :: rest, _ =>
    by_cases both : (highSurrogate unit && lowSurrogate next) = true
    · refine ⟨[unit, next], [unit, next], rest, rfl, List.cons_ne_nil _ _,
        .pair (Bool.and_eq_true_iff.mp both).1, ?_⟩
      rw [escapeUnits, if_pos both]
      rfl
    · refine ⟨[unit], _, next :: rest, rfl, List.cons_ne_nil _ _, .unit unit, ?_⟩
      rw [escapeUnits, if_neg both]

/-- A pair starts with a unit that is never written alone. -/
theorem pair_not_unit {h c : ℕ} {x y : Text} (high : highSurrogate h = true) :
    h :: x ≠ escapeUnit c ++ y := by
  intro same
  rcases escapeUnit_cases c with ⟨k, -, wrote⟩ | ⟨-, wrote⟩ | ⟨-, -, low, wrote⟩ <;>
    rw [wrote] at same
  · obtain rfl : h = 92 := (List.cons.inj same).1
    cases high
  · obtain rfl : h = 92 := (List.cons.inj same).1
    cases high
  · obtain rfl : h = c := (List.cons.inj same).1
    rw [low] at high
    cases high

theorem escapeUnit_injective {c d : ℕ} {x y : Text} (same : escapeUnit c ++ x = escapeUnit d ++ y) :
    c = d ∧ x = y := by
  rcases escapeUnit_cases c with ⟨k, shortC, hc⟩ | ⟨smallC, hc⟩ | ⟨-, slashC, -, hc⟩ <;>
    rcases escapeUnit_cases d with ⟨l, shortD, hd⟩ | ⟨smallD, hd⟩ | ⟨-, slashD, -, hd⟩ <;>
    rw [hc, hd] at same <;>
    simp only [unicodeEscape, List.cons_append, List.nil_append, List.cons.injEq, true_and] at same
  · exact ⟨shortEscapes_injective shortC (same.1 ▸ shortD), same.2⟩
  · exact absurd same.1 (shortEscapes_not_unicode shortC)
  · exact absurd same.1.symm slashD
  · exact absurd same.1.symm (shortEscapes_not_unicode shortD)
  · exact hex4_injective smallC smallD same
  · exact absurd same.1.symm slashD
  · exact absurd same.1 slashC
  · exact absurd same.1 slashC
  · exact same

theorem piece_injective {a b v w x y : Text} (first : Piece a v) (second : Piece b w)
    (same : v ++ x = w ++ y) :
    a = b ∧ x = y := by
  cases first with
  | pair high =>
    cases second with
    | pair _ =>
      simp only [List.cons_append, List.nil_append, List.cons.injEq] at same
      obtain ⟨rfl, rfl, rest⟩ := same
      exact ⟨rfl, rest⟩
    | unit d => exact absurd same (pair_not_unit high)
  | unit c =>
    cases second with
    | pair high => exact absurd same.symm (pair_not_unit high)
    | unit d =>
      obtain ⟨rfl, rest⟩ := escapeUnit_injective same
      exact ⟨rfl, rest⟩

theorem piece_start {a w x y : Text} (piece : Piece a w) : w ++ x ≠ 34 :: y := by
  intro same
  cases piece with
  | pair high =>
    obtain rfl := (List.cons.inj same).1
    cases high
  | unit c =>
    rcases escapeUnit_cases c with ⟨k, -, wrote⟩ | ⟨-, wrote⟩ | ⟨quote, -, -, wrote⟩ <;>
      rw [wrote] at same
    · exact absurd (List.cons.inj same).1 (by decide)
    · exact absurd (List.cons.inj same).1 (by decide)
    · exact quote (List.cons.inj same).1

theorem escapeUnits_injective (s t : Text) {x y : Text}
    (same : escapeUnits s ++ 34 :: x = escapeUnits t ++ 34 :: y) :
    s = t ∧ x = y := by
  induction size : s.length using Nat.strong_induction_on generalizing s t with
  | _ n ih =>
    subst size
    by_cases emptyS : s = []
    · by_cases emptyT : t = []
      · subst emptyS emptyT
        exact ⟨rfl, (List.cons.inj same).2⟩
      · obtain ⟨part, written, rest, -, -, piece, wrote⟩ := piece_split t emptyT
        rw [emptyS, wrote, List.append_assoc] at same
        exact absurd same.symm (piece_start piece)
    · obtain ⟨part, written, rest, rfl, filled, piece, wrote⟩ := piece_split s emptyS
      rw [wrote, List.append_assoc] at same
      by_cases emptyT : t = []
      · rw [emptyT] at same
        exact absurd same (piece_start piece)
      · obtain ⟨part', written', rest', rfl, -, piece', wrote'⟩ := piece_split t emptyT
        rw [wrote', List.append_assoc] at same
        obtain ⟨rfl, later⟩ := piece_injective piece piece' same
        have shorter : rest.length < (part ++ rest).length := by
          have positive := List.length_pos_iff.mpr filled
          rw [List.length_append]
          omega
        obtain ⟨rfl, rfl⟩ := ih _ shorter rest rest' later rfl
        exact ⟨rfl, rfl⟩

theorem stringifyText_injective {s t x y : Text}
    (same : stringifyText s ++ x = stringifyText t ++ y) :
    s = t ∧ x = y := by
  simp only [stringifyText, List.cons_append, List.append_assoc, List.nil_append, List.cons.injEq,
    true_and] at same
  exact escapeUnits_injective s t same

/-! Documents. -/

/-- Nothing but texts, lists and objects, at any depth. -/
inductive Textual : Json → Prop where
  | text (s : Text) : Textual (.text s)
  | array {items : List Json} (all : ∀ v ∈ items, Textual v) : Textual (.array items)
  | object {members : Members} (all : ∀ m ∈ members, Textual m.2) : Textual (.object members)

/-- A number's text: signs only, and first a digit or `-`. -/
structure Numeral (literal : Text) : Prop where
  signs : ∀ c ∈ literal, NumberText.isSign c = true
  start : ∃ first rest, literal = first :: rest ∧ (isDigit first = true ∨ first = 45)

/-- The documents of JSON, with the texts of their numbers. -/
inductive Rendered : Json → Prop where
  | null : Rendered .null
  | bool (b : Bool) : Rendered (.bool b)
  | number {literal : Text} (numeral : Numeral literal) : Rendered (.float literal)
  | text (s : Text) : Rendered (.text s)
  | array {items : List Json} (all : ∀ v ∈ items, Rendered v) : Rendered (.array items)
  | object {members : Members} (all : ∀ m ∈ members, Rendered m.2) : Rendered (.object members)

theorem Textual.rendered {v : Json} (textual : Textual v) : Rendered v := by
  induction textual with
  | text s => exact .text s
  | array _ ih => exact .array ih
  | object _ ih => exact .object ih

theorem takeWhile_signs {signs rest : Text} (all : ∀ c ∈ signs, NumberText.isSign c = true)
    (ends : Ends rest) :
    (signs ++ rest).takeWhile NumberText.isSign = signs := by
  rw [List.takeWhile_append_of_pos all]
  cases rest with
  | nil => exact List.append_nil _
  | cons c later =>
    have stop : NumberText.isSign c = false := by
      rcases ends c rfl with rfl | rfl | rfl <;> rfl
    rw [List.takeWhile_cons_of_neg (Bool.eq_false_iff.mp stop), List.append_nil]

/-- A number's text ends with its last sign. -/
theorem numeral_injective {a b x y : Text} (first : Numeral a) (second : Numeral b) (endX : Ends x)
    (endY : Ends y)
    (same : a ++ x = b ++ y) : a = b ∧ x = y := by
  have whole : a = b := by
    rw [← takeWhile_signs first.signs endX, same, takeWhile_signs second.signs endY]
  subst whole
  exact ⟨rfl, List.append_cancel_left same⟩

theorem joined_cons (v : Text) (rest : List Text) :
    joined (v :: rest) = v ++ if rest = [] then [] else 44 :: joined rest := by
  cases rest with
  | nil => simp [joined]
  | cons w rest => simp [joined, List.intercalate]

/-- A text that starts with another sign than a given one. -/
def StartsOff (close : ℕ) (s : Text) : Prop := ∃ c tail, s = c :: tail ∧ c ≠ close

theorem ends_cons {c : ℕ} (ends : c = 44 ∨ c = 93 ∨ c = 125) (rest : Text) : Ends (c :: rest) := by
  intro d first
  cases first
  exact ends

/-- After an item comes a comma or the bracket that closes the list. -/
theorem ends_item {close : ℕ} (closing : close = 93 ∨ close = 125) (rest : List Text) (r : Text) :
    Ends ((if rest = [] then [] else 44 :: joined rest) ++ close :: r) := by
  split
  · exact ends_cons (.inr closing) r
  · exact ends_cons (.inl rfl) _

/-- A list in brackets is read back, when each of its texts is. -/
theorem joined_injective {α β : Type*} (text : α → Text) (meaning : α → β) {close : ℕ}
    (closing : close = 93 ∨ close = 125)
    (xs ys : List α) (startX : ∀ x ∈ xs, StartsOff close (text x))
    (startY : ∀ y ∈ ys, StartsOff close (text y))
    (each : ∀ x ∈ xs, ∀ y ∈ ys, ∀ r s, Ends r → Ends s → text x ++ r = text y ++ s →
      meaning x = meaning y ∧ r = s)
    {r s : Text} (same : joined (xs.map text) ++ close :: r = joined (ys.map text) ++ close :: s) :
    xs.map meaning = ys.map meaning ∧ r = s := by
  have apart : close ≠ 44 := by omega
  induction xs generalizing ys with
  | nil =>
    cases ys with
    | nil => exact ⟨rfl, (List.cons.inj same).2⟩
    | cons y ys =>
      obtain ⟨c, tail, wrote, other⟩ := startY y List.mem_cons_self
      rw [List.map_cons, joined_cons, wrote] at same
      exact absurd (List.cons.inj same).1.symm other
  | cons x xs ih =>
    cases ys with
    | nil =>
      obtain ⟨c, tail, wrote, other⟩ := startX x List.mem_cons_self
      rw [List.map_cons, joined_cons, wrote] at same
      exact absurd (List.cons.inj same).1 other
    | cons y ys =>
      rw [List.map_cons, List.map_cons, joined_cons, joined_cons, List.append_assoc,
        List.append_assoc] at same
      obtain ⟨here, later⟩ := each x List.mem_cons_self y List.mem_cons_self _ _
        (ends_item closing _ r)
        (ends_item closing _ s) same
      rw [List.map_cons, List.map_cons, here]
      cases xs with
      | nil =>
        cases ys with
        | nil => exact ⟨rfl, (List.cons.inj later).2⟩
        | cons _ _ => exact absurd (List.cons.inj later).1 apart
      | cons x' xs =>
        cases ys with
        | nil => exact absurd (List.cons.inj later).1.symm apart
        | cons y' ys =>
          have tail := (List.cons.inj later).2
          obtain ⟨rest, ends⟩ :=
            ih (y' :: ys) (fun x member => startX x (List.mem_cons_of_mem _ member))
            (fun y member => startY y (List.mem_cons_of_mem _ member))
            (fun x here y there => each x (List.mem_cons_of_mem _ here) y
              (List.mem_cons_of_mem _ there)) tail
          exact ⟨congrArg _ rest, ends⟩

theorem canonicalJson_array (items : List Json) :
    canonicalJson (.array items) = 91 :: (joined (items.map canonicalJson) ++ [93]) := by
  rw [canonicalJson, canonicalItems_eq]

/-- A member in an object's text. -/
def memberText (m : Text × Json) : Text := stringifyText m.1 ++ 58 :: canonicalJson m.2

theorem canonicalJson_object (members : Members) :
    canonicalJson (.object members) = 123 ::
      (joined ((sortMembers members).map memberText) ++ [125]) := by
  rw [canonicalJson, canonicalEntries_eq, sorted_entries, List.map_map]
  rfl

/-- The first sign of a kind of document: digits and `-` are one kind. -/
def leading : Json → ℕ
  | .null => 110
  | .bool b => if b then 116 else 102
  | .int _ => 48
  | .float _ => 48
  | .text _ => 34
  | .array _ => 91
  | .object _ => 123

def lead (c : ℕ) : ℕ := if isDigit c = true ∨ c = 45 then 48 else c

theorem canonicalJson_start {v : Json} (rendered : Rendered v) :
    ∃ c tail, canonicalJson v = c :: tail ∧ lead c = leading v := by
  cases rendered with
  | null => exact ⟨110, _, rfl, rfl⟩
  | bool b => cases b <;> exact ⟨_, _, rfl, rfl⟩
  | number numeral =>
    obtain ⟨first, rest, same, kind⟩ := numeral.start
    exact ⟨first, rest, same, if_pos kind⟩
  | text s => exact ⟨34, _, rfl, rfl⟩
  | array all => exact ⟨91, _, canonicalJson_array _, rfl⟩
  | object all => exact ⟨123, _, canonicalJson_object _, rfl⟩

/-- Two documents with one text are of one kind. -/
theorem leading_of_same {v w : Json} {r s : Text} (first : Rendered v) (second : Rendered w)
    (same : canonicalJson v ++ r = canonicalJson w ++ s) : leading v = leading w := by
  obtain ⟨c, tail, wroteV, kindV⟩ := canonicalJson_start first
  obtain ⟨d, later, wroteW, kindW⟩ := canonicalJson_start second
  rw [wroteV, wroteW] at same
  rw [← kindV, ← kindW, (List.cons.inj same).1]

theorem startsOff_bracket {v : Json} (rendered : Rendered v) : StartsOff 93 (canonicalJson v) := by
  obtain ⟨c, tail, wrote, kind⟩ := canonicalJson_start rendered
  refine ⟨c, tail, wrote, ?_⟩
  rintro rfl
  cases rendered with
  | bool b => cases b <;> cases kind
  | _ => cases kind

theorem form_object_sorted (members : Members) :
    (Json.object members).form = .object ((sortMembers members).map fun m => (m.1, m.2.form)) := by
  rw [form_object, sortMembers, sortMembers]
  congr 1
  symm
  apply List.map_insertionSort
  intro a _ b _
  rfl

/-- Canonical JSON is read back, up to the order of members. -/
theorem canonicalJson_injective (v : Json) : ∀ w, Rendered v → Rendered w → ∀ r s, Ends r → Ends s →
    canonicalJson v ++ r = canonicalJson w ++ s → v.form = w.form ∧ r = s := by
  induction v using Json.induct with
  | null =>
    intro w renderedV renderedW r s endR endS same
    have alike := leading_of_same renderedV renderedW same
    cases renderedW with
    | null => exact ⟨rfl, List.append_cancel_left same⟩
    | bool c => cases c <;> cases alike
    | _ => cases alike
  | bool b =>
    intro w renderedV renderedW r s endR endS same
    have alike := leading_of_same renderedV renderedW same
    cases renderedW with
    | bool c =>
      obtain rfl : b = c := by cases b <;> cases c <;> first | rfl | cases alike
      exact ⟨rfl, List.append_cancel_left same⟩
    | _ => cases b <;> cases alike
  | float literal =>
    intro w renderedV renderedW r s endR endS same
    have alike := leading_of_same renderedV renderedW same
    cases renderedW with
    | number second =>
      cases renderedV with
      | number first =>
        obtain ⟨rfl, ends⟩ := numeral_injective first second endR endS same
        exact ⟨rfl, ends⟩
    | bool c => cases c <;> cases alike
    | _ => cases alike
  | text t =>
    intro w renderedV renderedW r s endR endS same
    have alike := leading_of_same renderedV renderedW same
    cases renderedW with
    | text u =>
      obtain ⟨rfl, ends⟩ := stringifyText_injective same
      exact ⟨rfl, ends⟩
    | bool c => cases c <;> cases alike
    | _ => cases alike
  | array items ih =>
    intro w renderedV renderedW r s endR endS same
    have alike := leading_of_same renderedV renderedW same
    cases renderedW with
    | @array others allW =>
      cases renderedV with
      | array allV =>
      rw [canonicalJson_array, canonicalJson_array] at same
      simp only [List.cons_append, List.append_assoc, List.nil_append, List.cons.injEq,
        true_and] at same
      obtain ⟨forms, ends⟩ := joined_injective canonicalJson form (.inl rfl) items others
        (fun x member => startsOff_bracket (allV x member))
        (fun y member => startsOff_bracket (allW y member))
        (fun x here y there => ih x here y (allV x here) (allW y there)) same
      rw [form_array, form_array, forms]
      exact ⟨rfl, ends⟩
    | bool c => cases c <;> cases alike
    | _ => cases alike
  | object members ih =>
    intro w renderedV renderedW r s endR endS same
    have alike := leading_of_same renderedV renderedW same
    cases renderedW with
    | @object others allW =>
      cases renderedV with
      | object allV =>
      rw [canonicalJson_object, canonicalJson_object] at same
      simp only [List.cons_append, List.append_assoc, List.nil_append, List.cons.injEq,
        true_and] at same
      have listedV : ∀ m ∈ sortMembers members, m ∈ members :=
        fun m => (sortMembers_perm members).mem_iff.mp
      have listedW : ∀ m ∈ sortMembers others, m ∈ others :=
        fun m => (sortMembers_perm others).mem_iff.mp
      have start : ∀ m : Text × Json, StartsOff 125 (memberText m) :=
        fun m => ⟨34, _, rfl, by decide⟩
      have each : ∀ m ∈ sortMembers members, ∀ n ∈ sortMembers others, ∀ r s, Ends r → Ends s →
          memberText m ++ r = memberText n ++ s → (m.1, m.2.form) = (n.1, n.2.form) ∧ r = s := by
        intro m here n there r s endR endS same
        rw [memberText, memberText, List.append_assoc, List.append_assoc] at same
        obtain ⟨name, later⟩ := stringifyText_injective same
        obtain ⟨forms, ends⟩ := ih m (listedV m here) n.2 (allV m (listedV m here))
          (allW n (listedW n there)) r s
          endR endS (List.cons.inj later).2
        rw [name, forms]
        exact ⟨rfl, ends⟩
      obtain ⟨forms, ends⟩ := joined_injective memberText (fun m => (m.1, m.2.form)) (.inr rfl) _ _
        (fun m _ => start m) (fun m _ => start m) each same
      rw [form_object_sorted, form_object_sorted, forms]
      exact ⟨rfl, ends⟩
    | bool c => cases c <;> cases alike
    | _ => cases alike
  | int n => nofun

theorem form_of_canonicalJson {v w : Json} (renderedV : Rendered v) (renderedW : Rendered w)
    (same : canonicalJson v = canonicalJson w) : v.form = w.form := by
  have nothing : Ends [] := by nofun
  exact (canonicalJson_injective v w renderedV renderedW [] [] nothing nothing (by rw [same])).1

/-- One canonical text, one document. -/
theorem same_of_canonicalJson {v w : Json} (plainV : Textual v) (plainW : Textual w)
    (same : canonicalJson v = canonicalJson w) : Same v w :=
  form_of_canonicalJson plainV.rendered plainW.rendered same

/-! Accepted documents are textual. -/

/-- A schema that accepts textual documents only. -/
def AcceptsTextual (test : Json → Bool) : Prop := ∀ v, test v = true → Textual v

theorem textual_isText (accepts : Text → Bool) : AcceptsTextual (isText accepts) := by
  intro v accepted
  cases v with
  | text s => exact .text s
  | _ => cases accepted

theorem textual_isArray {item : Json → Bool} (textual : AcceptsTextual item) (least most : ℕ) :
    AcceptsTextual (isArray least most item) := by
  intro v accepted
  cases v with
  | array items =>
    rw [isArray, Bool.and_eq_true, List.all_eq_true] at accepted
    exact .array fun x member => textual x (accepted.2 x member)
  | _ => cases accepted

theorem textual_isStruct {fields : List Field} (textual : ∀ f ∈ fields, AcceptsTextual f.accepts) :
    AcceptsTextual (isStruct fields) := by
  intro v accepted
  obtain ⟨members, rfl, -, each, -⟩ := isStruct_iff.mp accepted
  refine .object fun m member => ?_
  obtain ⟨f, listed, -, held⟩ := each m.1 m.2 member
  exact textual f listed m.2 held

theorem textual_isEvidence : AcceptsTextual isEvidence := by
  apply textual_isStruct
  simp only [evidenceFields, List.forall_mem_cons, List.not_mem_nil, false_implies, implies_true,
    and_true, required]
  exact ⟨textual_isText _, textual_isText _, textual_isText _, textual_isText _⟩

theorem textual_isPlatformObservation : AcceptsTextual isPlatformObservation := by
  apply textual_isStruct
  simp only [observationFields, List.forall_mem_cons, List.not_mem_nil, false_implies,
    implies_true, and_true,
    required]
  exact ⟨textual_isText _, textual_isText _, textual_isText _, textual_isText _, textual_isText _,
    textual_isText _,
    textual_isArray textual_isEvidence _ _⟩

theorem textual_isDeployment : AcceptsTextual (isStruct deploymentFields) := by
  apply textual_isStruct
  simp only [deploymentFields, List.forall_mem_cons, List.not_mem_nil, false_implies,
    implies_true, and_true,
    required, Json.optional]
  exact ⟨textual_isText _, textual_isText _, textual_isText _, textual_isText _, textual_isText _,
    textual_isText _⟩

theorem textual_isNode : AcceptsTextual (isStruct nodeFields) := by
  apply textual_isStruct
  simp only [nodeFields, List.forall_mem_cons, List.not_mem_nil, false_implies, implies_true,
    and_true, required,
    Json.optional]
  exact ⟨textual_isText _, textual_isText _, textual_isText _,
    textual_isArray (textual_isText _) _ _,
    textual_isText _, textual_isText _, textual_isText _, textual_isText _, textual_isText _,
      textual_isDeployment,
    textual_isText _, textual_isArray textual_isEvidence _ _⟩

theorem textual_isEdge : AcceptsTextual (isStruct edgeFields) := by
  apply textual_isStruct
  simp only [edgeFields, List.forall_mem_cons, List.not_mem_nil, false_implies, implies_true,
    and_true, required]
  exact ⟨textual_isText _, textual_isText _, textual_isText _, textual_isText _, textual_isText _,
    textual_isArray textual_isEvidence _ _⟩

theorem textual_isPlatformCatalog : AcceptsTextual isPlatformCatalog := by
  apply textual_isStruct
  simp only [catalogFields, List.forall_mem_cons, List.not_mem_nil, false_implies, implies_true,
    and_true, required,
    Json.optional]
  exact ⟨textual_isText _, textual_isText _, textual_isArray textual_isNode _ _,
    textual_isArray textual_isEdge _ _,
    textual_isArray textual_isPlatformObservation _ _⟩

theorem textual_isObservationBatch : AcceptsTextual isObservationBatch := by
  apply textual_isStruct
  simp only [batchFields, List.forall_mem_cons, List.not_mem_nil, false_implies, implies_true,
    and_true, required]
  exact ⟨textual_isText _, textual_isArray textual_isPlatformObservation _ _⟩

end Metahumotonic.Platform
