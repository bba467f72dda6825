import Metahumotonic.Library.JsJson
import Metahumotonic.Platform.Canonical

/-! `JSON.stringify` and `TextEncoder`. A document whose texts need no escapes is read back from its
bytes by `TextDecoder` and `JSON.parse`. -/
namespace Metahumotonic.Platform
open Metahumotonic.Library Json

mutual
/-- `JSON.stringify`, for an object that has its members in the order of their creation. -/
def stringify : Json → Text
  | .null => lit "null"
  | .bool b => if b then lit "true" else lit "false"
  | .int n => writeInt n
  | .float literal => literal
  | .text s => stringifyText s
  | .array items => 91 :: (joined (stringifyItems items) ++ [93])
  | .object members => 123 :: (joined (stringifyMembers members) ++ [125])
def stringifyItems : List Json → List Text
  | [] => []
  | v :: rest => stringify v :: stringifyItems rest
def stringifyMembers : Members → List Text
  | [] => []
  | (k, v) :: rest => (stringifyText k ++ 58 :: stringify v) :: stringifyMembers rest
end

def encodeUnit (unit : ℕ) : List ℕ :=
  Utf8.encodePoint (if highSurrogate unit ∨ lowSurrogate unit then 0xFFFD else unit)

/-- `new TextEncoder().encode(text)`: half a pair becomes the replacement character. -/
def encodeUnits : Text → List ℕ
  | [] => []
  | [unit] => encodeUnit unit
  | unit :: next :: rest =>
    if highSurrogate unit && lowSurrogate next then
      Utf8.encodePoint (0x10000 + (unit - 0xD800) * 1024 + (next - 0xDC00)) ++ encodeUnits rest
    else encodeUnit unit ++ encodeUnits (next :: rest)

/-- A sign that stands for itself between quotes. -/
def isPlain (c : ℕ) : Bool := decide (32 ≤ c) && decide (c ≤ 126) && c != 34 && c != 92

def plainText (s : Text) : Bool := s.all isPlain

/-- Texts without escapes, in lists and objects. -/
inductive Plain : Json → Prop where
  | text {s : Text} (plain : plainText s = true) : Plain (.text s)
  | array {items : List Json} (all : ∀ v ∈ items, Plain v) : Plain (.array items)
  | object {members : Members} (distinct : (members.map Prod.fst).Nodup)
      (names : ∀ m ∈ members, plainText m.1 = true) (all : ∀ m ∈ members, Plain m.2) :
      Plain (.object members)

theorem isPlain_iff {c : ℕ} : isPlain c = true ↔ 32 ≤ c ∧ c ≤ 126 ∧ c ≠ 34 ∧ c ≠ 92 := by
  simp only [isPlain, Bool.and_eq_true, decide_eq_true_eq, bne_iff_ne, and_assoc]

theorem plainText_append {s t : Text} : plainText (s ++ t) = true ↔ plainText s = true ∧
    plainText t = true := by
  rw [plainText, List.all_append, Bool.and_eq_true]
  rfl

theorem plainText_cons {c : ℕ} {s : Text} : plainText (c :: s) = true ↔ isPlain c = true ∧
    plainText s = true := by
  rw [plainText, List.all_cons, Bool.and_eq_true]
  rfl

/-! What is written. -/

theorem not_surrogate {c : ℕ} (ascii : c < 128) : highSurrogate c = false ∧
    lowSurrogate c = false := by
  simp only [highSurrogate, lowSurrogate, Bool.and_eq_false_iff, decide_eq_false_iff_not]
  omega

theorem short_of_plain {c : ℕ} (plain : isPlain c = true) : member? shortEscapes c = none := by
  obtain ⟨low, -, quote, slash⟩ := isPlain_iff.mp plain
  simp only [shortEscapes, member?_cons]
  rw [if_neg quote, if_neg slash, if_neg (by omega), if_neg (by omega), if_neg (by omega),
    if_neg (by omega),
    if_neg (by omega)]
  rfl

theorem escapeUnit_plain {c : ℕ} (plain : isPlain c = true) : escapeUnit c = [c] := by
  obtain ⟨low, high, -, -⟩ := isPlain_iff.mp plain
  obtain ⟨first, second⟩ := not_surrogate (show c < 128 by omega)
  have raw : ¬ (c < 32 ∨ highSurrogate c = true ∨ lowSurrogate c = true) := by
    rw [first, second]
    simp only [Bool.false_eq_true, or_false]
    omega
  rw [escapeUnit, short_of_plain plain]
  exact if_neg raw

theorem escapeUnits_plain (s : Text) (plain : plainText s = true) : escapeUnits s = s := by
  induction s using escapeUnits.induct with
  | case1 => rfl
  | case2 unit => exact escapeUnit_plain (plainText_cons.mp plain).1
  | case3 unit next rest pair =>
    obtain ⟨low, high, -, -⟩ := isPlain_iff.mp (plainText_cons.mp plain).1
    rw [(not_surrogate (show unit < 128 by omega)).1] at pair
    cases pair
  | case4 unit next rest alone ih =>
    obtain ⟨first, later⟩ := plainText_cons.mp plain
    rw [escapeUnits, if_neg alone, ih later, escapeUnit_plain first]
    rfl

theorem flatMap_escape_plain (s : Text) (plain : plainText s = true) : s.flatMap escape = s := by
  induction s with
  | nil => rfl
  | cons c rest ih =>
    obtain ⟨first, later⟩ := plainText_cons.mp plain
    obtain ⟨low, high, -, -⟩ := isPlain_iff.mp first
    have one : escape c = [c] := by
      rw [escape, short_of_plain first]
      exact if_pos ⟨low, high⟩
    rw [List.flatMap_cons, one, ih later, List.singleton_append]

theorem stringifyText_plain {s : Text} (plain : plainText s = true) :
    stringifyText s = 34 :: (s ++ [34]) := by
  rw [stringifyText, escapeUnits_plain s plain]

theorem quote_plain {s : Text} (plain : plainText s = true) : quote s = 34 :: (s ++ [34]) := by
  rw [quote, flatMap_escape_plain s plain]

theorem stringify_array (items : List Json) :
    stringify (.array items) = 91 :: (joined (items.map stringify) ++ [93]) := by
  have parts : stringifyItems items = items.map stringify := by
    induction items with
    | nil => rfl
    | cons v rest ih => simp only [stringifyItems, ih, List.map_cons]
  rw [stringify, parts]

theorem stringify_object (members : Members) : stringify (.object members) =
    123 :: (joined (members.map fun m => stringifyText m.1 ++ 58 :: stringify m.2) ++ [125]) := by
  have parts : stringifyMembers members = members.map fun m =>
      stringifyText m.1 ++ 58 :: stringify m.2 := by
    induction members with
    | nil => rfl
    | cons m rest ih => simp only [stringifyMembers, ih, List.map_cons]
  rw [stringify, parts]

theorem writeItems_joined (items : List Json) :
    writeItems items = (if items = [] then [] else 44 :: joined (items.map write)) ++ [93] := by
  induction items with
  | nil => rfl
  | cons v rest ih =>
    rw [writeItems, ih, if_neg (List.cons_ne_nil _ _), List.map_cons, joined_cons]
    simp only [List.map_eq_nil_iff, List.cons_append, List.append_assoc]

theorem write_array (items : List Json) :
    (Json.array items).write = 91 :: (joined (items.map write) ++ [93]) := by
  cases items with
  | nil => rfl
  | cons v rest =>
    rw [write, writeItems_joined, List.map_cons, joined_cons]
    simp only [List.map_eq_nil_iff, List.append_assoc]

theorem writeMembers_joined (members : Members) : writeMembers members =
    (if members = [] then []
      else 44 :: joined (members.map fun m => quote m.1 ++ 58 :: m.2.write)) ++ [125] := by
  induction members with
  | nil => rfl
  | cons m rest ih =>
    obtain ⟨k, v⟩ := m
    rw [writeMembers, ih, if_neg (List.cons_ne_nil _ _), List.map_cons, joined_cons]
    simp only [List.map_eq_nil_iff, List.cons_append, List.append_assoc]

theorem write_object (members : Members) : (Json.object members).write =
    123 :: (joined (members.map fun m => quote m.1 ++ 58 :: m.2.write) ++ [125]) := by
  cases members with
  | nil => rfl
  | cons m rest =>
    obtain ⟨k, v⟩ := m
    rw [write, writeMembers_joined, List.map_cons, joined_cons]
    simp only [List.map_eq_nil_iff, List.cons_append, List.append_assoc]

/-- Without escapes there is one way of writing. -/
theorem stringify_plain (v : Json) : Plain v → stringify v = v.write := by
  induction v using Json.induct with
  | text s =>
    intro plain
    cases plain with
    | text plain => rw [stringify, stringifyText_plain plain, write, quote_plain plain]
  | array items ih =>
    intro plain
    cases plain with
    | array all => rw [stringify_array, write_array, List.map_congr_left fun v member =>
      ih v member (all v member)]
  | object members ih =>
    intro plain
    cases plain with
    | object distinct names all =>
      have parts : (members.map fun m => stringifyText m.1 ++ 58 :: stringify m.2) =
          members.map fun m => quote m.1 ++ 58 :: m.2.write := by
        apply List.map_congr_left
        intro m member
        rw [stringifyText_plain (names m member), quote_plain (names m member),
          ih m member (all m member)]
      rw [stringify_object, write_object, parts]
  | null =>
    intro plain
    cases plain
  | bool b =>
    intro plain
    cases plain
  | int n =>
    intro plain
    cases plain
  | float literal =>
    intro plain
    cases plain

/-! What is read. -/

theorem scalar_plain {s : Text} (plain : plainText s = true) : s.all scalar = true := by
  refine List.all_eq_true.mpr fun c member => ?_
  obtain ⟨-, high, -, -⟩ := isPlain_iff.mp (List.all_eq_true.mp plain c member)
  simp only [scalar, Bool.or_eq_true, decide_eq_true_eq]
  omega

theorem Plain.portable {v : Json} (plain : Plain v) : Portable v := by
  induction plain with
  | text plain => exact .text _ (scalar_plain plain)
  | array _ ih => exact .array _ ih
  | object distinct names _ ih =>
    exact .object _ distinct (fun m member => scalar_plain (names m member)) ih

/-- A text outside the strings that leaves the search for words as it found it. -/
def Quiet (s : Text) : Prop := ∀ rest, JsJson.hasNumberWord false
    (s ++ rest) = JsJson.hasNumberWord false rest

theorem hasNumberWord_cons (quoted : Bool) {c : ℕ} (slash : c ≠ 92) (rest : Text) :
    JsJson.hasNumberWord quoted (c :: rest) = if c = 34 then JsJson.hasNumberWord (!quoted) rest
      else (!quoted && (c == 78 || c == 73)) || JsJson.hasNumberWord quoted rest := by
  rw [JsJson.hasNumberWord]
  intro _ _ same
  exact absurd same slash

theorem quiet_append {s t : Text} (first : Quiet s) (second : Quiet t) : Quiet (s ++ t) := by
  intro rest
  rw [List.append_assoc, first, second]

theorem quiet_cons {c : ℕ} {s : Text} (other : c ∉ [34, 73, 78, 92]) (later : Quiet s) :
    Quiet (c :: s) := by
  intro rest
  simp only [List.mem_cons, List.not_mem_nil, or_false, not_or] at other
  obtain ⟨quote, eye, en, slash⟩ := other
  rw [List.cons_append, hasNumberWord_cons false slash, if_neg quote, beq_false_of_ne en,
    beq_false_of_ne eye]
  exact later rest

theorem quiet_sign {c : ℕ} (other : c ∉ [34, 73, 78, 92]) : Quiet [c] :=
  quiet_cons other fun _ => rfl

/-- Within quotes the search ends at the next quote. -/
theorem hasNumberWord_quoted {s : Text} (plain : plainText s = true) (rest : Text) :
    JsJson.hasNumberWord true (s ++ 34 :: rest) = JsJson.hasNumberWord false rest := by
  induction s with
  | nil => exact hasNumberWord_cons true (by decide) rest
  | cons c s ih =>
    obtain ⟨first, later⟩ := plainText_cons.mp plain
    obtain ⟨-, -, quote, slash⟩ := isPlain_iff.mp first
    rw [List.cons_append, hasNumberWord_cons true slash, if_neg quote, ih later]
    rfl

theorem quiet_stringifyText {s : Text} (plain : plainText s = true) : Quiet (stringifyText s) := by
  intro rest
  rw [stringifyText_plain plain, List.cons_append, List.append_assoc, List.singleton_append,
    hasNumberWord_cons false (by decide), if_pos rfl]
  exact hasNumberWord_quoted plain rest

theorem quiet_joined {texts : List Text} (each : ∀ t ∈ texts, Quiet t) : Quiet (joined texts) := by
  induction texts with
  | nil => exact fun rest => rfl
  | cons t later ih =>
    obtain ⟨here, there⟩ := List.forall_mem_cons.mp each
    rw [joined_cons]
    split
    · exact quiet_append here fun rest => rfl
    · exact quiet_append here (quiet_cons (by decide) (ih there))

theorem quiet_stringify (v : Json) : Plain v → Quiet (stringify v) := by
  induction v using Json.induct with
  | text s =>
    intro plain
    cases plain with
    | text plain => exact quiet_stringifyText plain
  | array items ih =>
    intro plain
    cases plain with
    | array all =>
      have each : ∀ t ∈ items.map stringify, Quiet t := by
        intro t member
        obtain ⟨v, here, rfl⟩ := List.mem_map.mp member
        exact ih v here (all v here)
      rw [stringify_array]
      exact quiet_cons (by decide) (quiet_append (quiet_joined each) (quiet_sign (by decide)))
  | object members ih =>
    intro plain
    cases plain with
    | object distinct names all =>
      have each : ∀ t ∈ members.map (fun m => stringifyText m.1 ++ 58 :: stringify m.2),
          Quiet t := by
        intro t member
        obtain ⟨m, here, rfl⟩ := List.mem_map.mp member
        exact quiet_append (quiet_stringifyText (names m here))
          (quiet_cons (by decide) (ih m here (all m here)))
      rw [stringify_object]
      exact quiet_cons (by decide) (quiet_append (quiet_joined each) (quiet_sign (by decide)))
  | null => nofun
  | bool b => nofun
  | int n => nofun
  | float literal => nofun

theorem utf16_plain {s : Text} (plain : plainText s = true) : JsJson.utf16 s = s := by
  induction s with
  | nil => rfl
  | cons c rest ih =>
    obtain ⟨first, later⟩ := plainText_cons.mp plain
    obtain ⟨-, high, -, -⟩ := isPlain_iff.mp first
    have one : JsJson.units c = [c] := if_pos (by omega)
    rw [JsJson.utf16, List.flatMap_cons, one, List.singleton_append]
    exact congrArg (c :: ·) (ih later)

theorem mapTexts_plain (v : Json) : Plain v → JsJson.mapTexts JsJson.utf16 v = v := by
  induction v using Json.induct with
  | text s =>
    intro plain
    cases plain with
    | text plain => rw [JsJson.mapTexts, utf16_plain plain]
  | array items ih =>
    intro plain
    cases plain with
    | array all =>
      have parts : JsJson.mapItems JsJson.utf16 items = items := by
        induction items with
        | nil => rfl
        | cons v rest later =>
          obtain ⟨here, others⟩ := List.forall_mem_cons.mp all
          rw [JsJson.mapItems, ih v List.mem_cons_self here,
            later (fun w member => ih w (List.mem_cons_of_mem _ member)) others]
      rw [JsJson.mapTexts, parts]
  | object members ih =>
    intro plain
    cases plain with
    | object distinct names all =>
      clear distinct
      have parts : JsJson.mapMembers JsJson.utf16 members = members := by
        induction members with
        | nil => rfl
        | cons m rest later =>
          obtain ⟨k, v⟩ := m
          obtain ⟨here, others⟩ := List.forall_mem_cons.mp all
          obtain ⟨name, known⟩ := List.forall_mem_cons.mp names
          rw [JsJson.mapMembers, ih (k, v) List.mem_cons_self here, utf16_plain name,
            later (fun m member => ih m (List.mem_cons_of_mem _ member)) known others]
      rw [JsJson.mapTexts, parts]
  | null => nofun
  | bool b => nofun
  | int n => nofun
  | float literal => nofun

theorem parse_stringify {v : Json} (plain : Plain v) : JsJson.parse (stringify v) = some v := by
  have silent : JsJson.hasNumberWord false (stringify v) = false := by
    have whole := quiet_stringify v plain []
    rwa [List.append_nil] at whole
  rw [JsJson.parse, silent, if_neg Bool.false_ne_true, stringify_plain v plain,
    loads_write plain.portable,
    Option.map_some, mapTexts_plain v plain]

/-! Bytes. -/

theorem encodeUnits_ascii (s : Text) (ascii : ∀ c ∈ s, c < 128) : encodeUnits s = s := by
  have one : ∀ c, c < 128 → encodeUnit c = [c] := by
    intro c small
    obtain ⟨first, second⟩ := not_surrogate small
    rw [encodeUnit, first, second]
    exact if_pos small
  induction s using encodeUnits.induct with
  | case1 => rfl
  | case2 unit => exact one unit (ascii unit List.mem_cons_self)
  | case3 unit next rest pair =>
    rw [(not_surrogate (ascii unit List.mem_cons_self)).1] at pair
    cases pair
  | case4 unit next rest alone ih =>
    obtain ⟨first, later⟩ := List.forall_mem_cons.mp ascii
    rw [encodeUnits, if_neg alone, ih later, one unit first]
    rfl

theorem stringify_ascii {v : Json} (plain : Plain v) : ∀ c ∈ stringify v, c < 128 := by
  rw [stringify_plain v plain]
  exact write_ascii v plain.portable

/-- A plain document is read back from its bytes. -/
theorem decodeBytes_stringify {v : Json} (plain : Plain v) :
    (JsJson.decodeBytes (encodeUnits (stringify v))).bind JsJson.parse = some v := by
  have ascii := stringify_ascii plain
  have mark : (stringify v).head? ≠ some 0xFEFF := by
    intro first
    have small := ascii _ (List.mem_of_mem_head? first)
    omega
  rw [encodeUnits_ascii _ ascii, JsJson.decodeBytes, Utf8.decode_ascii _ ascii, Option.map_some,
    if_neg mark,
    Option.bind_some, parse_stringify plain]

/-! Lengths. -/

theorem joined_length_le (texts : List Text) :
    (joined texts).length ≤ (texts.map fun t => t.length + 1).sum := by
  induction texts with
  | nil => exact Nat.le_refl 0
  | cons t rest ih =>
    rw [joined_cons, List.map_cons, List.sum_cons, List.length_append]
    split
    · rw [List.length_nil]
      omega
    · rw [List.length_cons]
      omega

theorem stringify_text_length {s : Text} (plain : plainText s = true) :
    (stringify (.text s)).length = s.length + 2 := by
  rw [stringify, stringifyText_plain plain, List.length_cons, List.length_append,
    List.length_singleton]

theorem stringify_array_length (items : List Json) :
    (stringify (.array items)).length ≤ (items.map fun v => (stringify v).length + 1).sum + 2 := by
  have inner := joined_length_le (items.map stringify)
  rw [List.map_map] at inner
  rw [stringify_array, List.length_cons, List.length_append, List.length_singleton]
  exact Nat.add_le_add_right inner 2

theorem stringify_object_length {members : Members} (names : ∀ m ∈ members, plainText m.1 = true) :
    (stringify (.object members)).length ≤
    (members.map fun m => m.1.length + (stringify m.2).length + 4).sum + 2 := by
  have inner := joined_length_le (members.map fun m => stringifyText m.1 ++ 58 :: stringify m.2)
  have sizes : (members.map fun m => stringifyText m.1 ++ 58 :: stringify m.2).map
      (fun t => t.length + 1) =
      members.map fun m => m.1.length + (stringify m.2).length + 4 := by
    rw [List.map_map]
    apply List.map_congr_left
    intro m member
    rw [Function.comp, stringifyText_plain (names m member)]
    simp only [List.length_append, List.length_cons, List.length_nil]
    omega
  rw [sizes] at inner
  rw [stringify_object, List.length_cons, List.length_append, List.length_singleton]
  exact Nat.add_le_add_right inner 2

end Metahumotonic.Platform
