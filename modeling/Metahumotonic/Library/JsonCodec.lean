import Mathlib.Algebra.GroupWithZero.Nat
import Metahumotonic.Library.Json

/-! JSON text: the compact writer that escapes everything outside printable ASCII, and
a reader of any JSON text. What the writer makes of a document without fractions, whose
texts hold no surrogates, the reader turns back into the document. -/
namespace Metahumotonic.Library

namespace Json

def hexDigit (n : Nat) : Nat := if n < 10 then 48 + n else 87 + n

def hex4 (n : Nat) : Text :=
  [hexDigit (n / 4096 % 16), hexDigit (n / 256 % 16), hexDigit (n / 16 % 16), hexDigit (n % 16)]

/-- Code points with an escape of two signs, and its second sign. -/
def shortEscapes : List (Nat × Nat) :=
  [(34, 34), (92, 92), (10, 110), (13, 114), (9, 116), (12, 102), (8, 98)]

def unicodeEscape (n : Nat) : Text := 92 :: 117 :: hex4 n

def escape (c : Nat) : Text :=
  match member? shortEscapes c with
  | some k => [92, k]
  | none =>
    if 32 ≤ c ∧ c ≤ 126 then [c]
    else if c < 0x10000 then unicodeEscape c
    else unicodeEscape (0xD800 + (c - 0x10000) / 1024) ++ unicodeEscape
      (0xDC00 + (c - 0x10000) % 1024)

def quote (s : Text) : Text := 34 :: (s.flatMap escape ++ [34])

def decimal (n : Nat) : Text := (Nat.toDigits 10 n).map Char.toNat

def writeInt (n : ℤ) : Text := if n < 0 then 45 :: decimal n.natAbs else decimal n.natAbs

mutual
def write : Json → Text
  | .null => lit "null"
  | .bool true => lit "true"
  | .bool false => lit "false"
  | .int n => writeInt n
  | .float literal => literal
  | .text s => quote s
  | .array [] => [91, 93]
  | .array (v :: rest) => 91 :: (v.write ++ writeItems rest)
  | .object [] => [123, 125]
  | .object ((k, v) :: rest) => 123 :: (quote k ++ 58 :: (v.write ++ writeMembers rest))
def writeItems : List Json → Text
  | [] => [93]
  | v :: rest => 44 :: (v.write ++ writeItems rest)
def writeMembers : Members → Text
  | [] => [125]
  | (k, v) :: rest => 44 :: (quote k ++ 58 :: (v.write ++ writeMembers rest))
end

def blank (c : Nat) : Bool := c == 32 || c == 9 || c == 10 || c == 13

def skipBlank (s : Text) : Text := s.dropWhile blank

def hexValue (c : Nat) : Option Nat :=
  if 48 ≤ c ∧ c ≤ 57 then some (c - 48)
  else if 97 ≤ c ∧ c ≤ 102 then some (c - 87)
  else if 65 ≤ c ∧ c ≤ 70 then some (c - 55)
  else none

def readHex : Text → Option (Nat × Text)
  | a :: b :: c :: d :: rest => do
    let a ← hexValue a
    let b ← hexValue b
    let c ← hexValue c
    let d ← hexValue d
    some (a * 4096 + b * 256 + c * 16 + d, rest)
  | _ => none

def highSurrogate (n : Nat) : Bool := 0xD800 ≤ n && n ≤ 0xDBFF

def lowSurrogate (n : Nat) : Bool := 0xDC00 ≤ n && n ≤ 0xDFFF

/-- The second half of a surrogate pair, when an escape of one follows. -/
def readLow (s : Text) : Option (Nat × Text) :=
  match s with
  | 92 :: 117 :: rest => (readHex rest).filter fun found => lowSurrogate found.1
  | _ => none

/-- A unit of an escape; two that form a surrogate pair are one code point. -/
def readUnit (s : Text) : Option (Nat × Text) := do
  let (unit, rest) ← readHex s
  if highSurrogate unit then
    match readLow rest with
    | some (low, after) => some (0x10000 + (unit - 0xD800) * 1024 + (low - 0xDC00), after)
    | none => some (unit, rest)
  else some (unit, rest)

def shortEscape (k : Nat) : Option Nat :=
  if k = 47 then some 47 else member? (shortEscapes.map Prod.swap) k

/-- One code point of a string that is not its closing quote. -/
def readChar (s : Text) : Option (Nat × Text) :=
  match s with
  | [] => none
  | 92 :: 117 :: rest => readUnit rest
  | 92 :: k :: rest => (shortEscape k).map (·, rest)
  | c :: rest => if c < 32 then none else some (c, rest)

def readBody : Nat → Text → Option (Text × Text)
  | 0, _ => none
  | fuel + 1, s =>
    if s.head? = some 34 then some ([], s.tail) else do
      let (c, rest) ← readChar s
      let (cs, rest) ← readBody fuel rest
      some (c :: cs, rest)

def isDigit (c : Nat) : Bool := 48 ≤ c && c ≤ 57

def number (digits : Text) : Nat := digits.foldl (fun n c => 10 * n + (c - 48)) 0

/-- `(\.\d+)?` at the start. -/
def fraction (s : Text) : Text :=
  match s with
  | 46 :: rest => if rest.takeWhile isDigit = [] then [] else 46 :: rest.takeWhile isDigit
  | _ => []

def signOf (s : Text) : Text :=
  match s with
  | 43 :: _ => [43]
  | 45 :: _ => [45]
  | _ => []

/-- `([eE][-+]?\d+)?` at the start. -/
def power (s : Text) : Text :=
  match s with
  | c :: rest =>
    let digits := (rest.drop (signOf rest).length).takeWhile isDigit
    if (c = 101 ∨ c = 69) ∧ digits ≠ [] then c :: (signOf rest ++ digits) else []
  | [] => []

def readNumber (s : Text) : Option (Json × Text) :=
  let sign := if s.head? = some 45 then [45] else []
  let rest := s.drop sign.length
  let whole := if rest.head? = some 48 then [48] else rest.takeWhile isDigit
  let rest := rest.drop whole.length
  let tail := fraction rest ++ power (rest.drop (fraction rest).length)
  if whole = [] then none
  else if tail = [] then some (.int (if sign = [] then (number whole : ℤ) else -(number whole : ℤ)),
    rest)
  else some (.float (sign ++ whole ++ tail), rest.drop tail.length)

def words : List (Text × Json) :=
  [(lit "null", .null), (lit "true", .bool true), (lit "false", .bool false),
    (lit "NaN", .float (lit "NaN")),
    (lit "Infinity", .float (lit "Infinity")), (lit "-Infinity", .float (lit "-Infinity"))]

def readAtom (s : Text) : Option (Json × Text) :=
  match words.find? fun word => word.1.isPrefixOf s with
  | some word => some (word.2, s.drop word.1.length)
  | none => readNumber s

/-- A later member of the same name takes the place of an earlier one. -/
def fromMembers (members : Members) : Json :=
  .object (members.foldl (fun read member => setEntry member.1 member.2 read) [])

mutual
def readValue : Nat → Text → Option (Json × Text)
  | 0, _ => none
  | fuel + 1, s =>
    match s with
    | 34 :: rest => (readBody rest.length rest).map fun found => (.text found.1, found.2)
    | 91 :: rest =>
      if (skipBlank rest).head? = some 93 then some (.array [], (skipBlank rest).tail)
      else (readItems fuel (skipBlank rest)).map fun found => (.array found.1, found.2)
    | 123 :: rest =>
      if (skipBlank rest).head? = some 125 then some (.object [], (skipBlank rest).tail)
      else (readMembers fuel (skipBlank rest)).map fun found => (fromMembers found.1, found.2)
    | s => readAtom s
def readItems : Nat → Text → Option (List Json × Text)
  | 0, _ => none
  | fuel + 1, s => do
    let (v, rest) ← readValue fuel s
    match skipBlank rest with
    | 93 :: rest => some ([v], rest)
    | 44 :: rest => do
      let (vs, rest) ← readItems fuel (skipBlank rest)
      some (v :: vs, rest)
    | _ => none
def readMembers : Nat → Text → Option (Members × Text)
  | 0, _ => none
  | fuel + 1, s =>
    match s with
    | 34 :: rest => do
      let (k, rest) ← readBody rest.length rest
      match skipBlank rest with
      | 58 :: rest => do
        let (v, rest) ← readValue fuel (skipBlank rest)
        match skipBlank rest with
        | 125 :: rest => some ([(k, v)], rest)
        | 44 :: rest => do
          let (members, rest) ← readMembers fuel (skipBlank rest)
          some ((k, v) :: members, rest)
        | _ => none
      | _ => none
    | _ => none
end

def loads (s : Text) : Option Json :=
  match readValue (2 * s.length) (skipBlank s) with
  | some (v, rest) => if skipBlank rest = [] then some v else none
  | none => none

theorem hexValue_hexDigit {n : Nat} (small : n < 16) : hexValue (hexDigit n) = some n := by
  have all : ∀ m < 16, hexValue (hexDigit m) = some m := by decide
  exact all n small

theorem readHex_hex4 {n : Nat} (small : n < 0x10000) (rest : Text) :
    readHex (hex4 n ++ rest) = some (n, rest) := by
  have digit : ∀ m, hexValue (hexDigit (m % 16)) = some (m % 16) :=
    fun m => hexValue_hexDigit (Nat.mod_lt m (by decide))
  have whole : n / 4096 % 16 * 4096 + n / 256 % 16 * 256 + n / 16 % 16 * 16 + n % 16 = n := by omega
  simp [hex4, readHex, digit, whole]

theorem readUnit_single {n : Nat} (small : n < 0x10000) (single : highSurrogate n = false)
    (rest : Text) :
    readUnit (hex4 n ++ rest) = some (n, rest) := by
  simp [readUnit, readHex_hex4 small, single]

theorem readUnit_pair {h l : Nat} (first : h < 0x10000) (high : highSurrogate h = true)
    (second : l < 0x10000)
    (low : lowSurrogate l = true) (rest : Text) :
    readUnit (hex4 h ++ (unicodeEscape l ++ rest)) =
      some (0x10000 + (h - 0xD800) * 1024 + (l - 0xDC00), rest) := by
  have found : readLow (unicodeEscape l ++ rest) = some (l, rest) := by
    simp [unicodeEscape, readLow, readHex_hex4 second, low]
  simp [readUnit, readHex_hex4 first, high, found]

theorem highSurrogate_pair {c : Nat} (bound : c < 0x110000) :
    highSurrogate (0xD800 + (c - 0x10000) / 1024) = true := by
  simp only [highSurrogate, Bool.and_eq_true, decide_eq_true_eq]
  omega

theorem lowSurrogate_pair (c : Nat) : lowSurrogate (0xDC00 + (c - 0x10000) % 1024) = true := by
  simp only [lowSurrogate, Bool.and_eq_true, decide_eq_true_eq]
  omega

theorem not_highSurrogate {c : Nat} (inside : scalar c = true) : highSurrogate c = false := by
  simp only [scalar, Bool.or_eq_true, Bool.and_eq_true, decide_eq_true_eq] at inside
  simp only [highSurrogate, Bool.and_eq_false_iff, decide_eq_false_iff_not]
  omega

theorem scalar_bound {c : Nat} (inside : scalar c = true) : c < 0x110000 := by
  simp only [scalar, Bool.or_eq_true, Bool.and_eq_true, decide_eq_true_eq] at inside
  omega

/-- The four ways of writing a code point. -/
theorem escape_cases (c : Nat) :
    (∃ k, (c, k) ∈ shortEscapes ∧ escape c = [92, k]) ∨
    (32 ≤ c ∧ c ≤ 126 ∧ c ≠ 34 ∧ c ≠ 92 ∧ escape c = [c]) ∨
    (c < 0x10000 ∧ escape c = unicodeEscape c) ∨
    (0x10000 ≤ c ∧ escape c = unicodeEscape (0xD800 + (c - 0x10000) / 1024) ++
      unicodeEscape (0xDC00 + (c - 0x10000) % 1024)) := by
  cases short : member? shortEscapes c with
  | some k => exact .inl ⟨k, mem_of_entry short, by simp only [escape, short]⟩
  | none =>
    have quote_ : c ≠ 34 := by
      rintro rfl
      exact absurd short (by decide)
    have slash : c ≠ 92 := by
      rintro rfl
      exact absurd short (by decide)
    by_cases plain : 32 ≤ c ∧ c ≤ 126
    · exact .inr (.inl
        ⟨plain.1, plain.2, quote_, slash, by simp only [escape, short, if_pos plain]⟩)
    · by_cases small : c < 0x10000
      · exact .inr (.inr (.inl ⟨small, by simp only [escape, short, if_neg plain, if_pos small]⟩))
      · exact .inr (.inr (.inr ⟨Nat.le_of_not_lt small,
          by simp only [escape, short, if_neg plain, if_neg small]⟩))

theorem readChar_escape {c : Nat} (inside : scalar c = true) (rest : Text) :
    readChar (escape c ++ rest) = some (c, rest) := by
  rcases escape_cases c with ⟨k, short, written⟩ | ⟨low, _, _, slash, written⟩ | ⟨small,
    written⟩ | ⟨high, written⟩
  · have back : ∀ p ∈ shortEscapes, p.2 ≠ 117 ∧ shortEscape p.2 = some p.1 := by decide
    obtain ⟨other, found⟩ := back _ short
    rw [written, List.cons_append, List.cons_append, List.nil_append, readChar]
    · rw [found, Option.map_some]
    · exact other
  · rw [written, List.cons_append, List.nil_append, readChar]
    · rw [if_neg (by omega)]
    · intro _ same _
      exact slash same
    · intro _ _ same _
      exact slash same
  · rw [written, unicodeEscape, List.cons_append, List.cons_append, readChar]
    exact readUnit_single small (not_highSurrogate inside) rest
  · have bound := scalar_bound inside
    have first : 0xD800 + (c - 0x10000) / 1024 < 0x10000 := by omega
    have second : 0xDC00 + (c - 0x10000) % 1024 < 0x10000 := by omega
    have whole : 0x10000 + (0xD800 + (c - 0x10000) / 1024 - 0xD800) * 1024 +
        (0xDC00 + (c - 0x10000) % 1024 - 0xDC00) = c := by omega
    have joined := readUnit_pair first (highSurrogate_pair bound) second (lowSurrogate_pair c) rest
    rw [whole] at joined
    rw [written, List.append_assoc, unicodeEscape, List.cons_append, List.cons_append, readChar]
    exact joined

theorem escape_head (c : Nat) : ∃ d tail, escape c = d :: tail ∧ d ≠ 34 := by
  rcases escape_cases c with
    ⟨k, _, written⟩ | ⟨_, _, other, _, written⟩ | ⟨_, written⟩ | ⟨_, written⟩
  · exact ⟨_, _, written, by decide⟩
  · exact ⟨_, _, written, other⟩
  · exact ⟨_, _, written, by decide⟩
  · exact ⟨_, _, written, by decide⟩

theorem readBody_escape {s : Text} (inside : s.all scalar = true) (rest : Text) (fuel : Nat)
    (enough : s.length < fuel) :
    readBody fuel (s.flatMap escape ++ 34 :: rest) = some (s, rest) := by
  induction s generalizing fuel with
  | nil =>
    cases fuel with
    | zero => omega
    | succ fuel => rfl
  | cons c later ih =>
    rw [List.all_cons, Bool.and_eq_true] at inside
    cases fuel with
    | zero => omega
    | succ fuel =>
      obtain ⟨d, tail, head, other⟩ := escape_head c
      have read := readChar_escape inside.1 (later.flatMap escape ++ 34 :: rest)
      have following := ih inside.2 fuel (Nat.lt_of_succ_lt_succ enough)
      have unclosed : (escape c ++ (later.flatMap escape ++ 34 :: rest)).head? ≠ some 34 := by
        rw [head]
        simpa using other
      rw [List.flatMap_cons, List.append_assoc, readBody, if_neg unclosed, read]
      simp [following]

theorem length_le_escaped (s : Text) : s.length ≤ (s.flatMap escape).length := by
  induction s with
  | nil => exact Nat.le_refl _
  | cons c later ih =>
    obtain ⟨d, tail, head, _⟩ := escape_head c
    rw [List.flatMap_cons, List.length_append, head, List.length_cons, List.length_cons]
    omega

/-- What follows a value inside a document, or after it. -/
def Ends (rest : Text) : Prop := ∀ c ∈ rest.head?, c = 44 ∨ c = 93 ∨ c = 125

theorem decimal_digits (n : Nat) : ∀ c ∈ decimal n, isDigit c = true := by
  intro c member
  obtain ⟨d, digit, rfl⟩ := List.mem_map.mp member
  have inside := Nat.isDigit_of_mem_toDigits (by decide) (by decide) digit
  simp only [Char.isDigit, Bool.and_eq_true, decide_eq_true_eq] at inside
  simp only [isDigit, Bool.and_eq_true, decide_eq_true_eq]
  exact ⟨inside.1, inside.2⟩

theorem decimal_ne_nil (n : Nat) : decimal n ≠ [] := by
  intro empty
  exact Nat.toDigits_ne_nil (List.map_eq_nil_iff.mp empty)

theorem number_decimal (n : Nat) : number (decimal n) = n := by
  have value : Nat.ofDigitChars 10 (Nat.toDigits 10 n) 0 = n := Nat.ofDigitChars_ten_toDigits
  rw [Nat.ofDigitChars_eq_foldl] at value
  simpa [number, decimal, List.foldl_map] using value

/-- A decimal starts with a zero only when it is the zero. -/
theorem decimal_head (n : Nat) : (decimal n).head? = some 48 → decimal n = [48] := by
  induction n using Nat.strongRecOn with
  | ind n ih =>
    intro zero
    by_cases small : n < 10
    · have all : ∀ m < 10, (decimal m).head? = some 48 → decimal m = [48] := by decide
      exact all n small zero
    · have split : decimal n = decimal (n / 10) ++ [(Nat.digitChar (n % 10)).toNat] := by
        rw [decimal, Nat.toDigits_of_base_le (by decide) (by omega)]
        simp [decimal]
      have first : (decimal (n / 10)).head? = some 48 := by
        rw [split, List.head?_append_of_ne_nil _ (decimal_ne_nil _)] at zero
        exact zero
      have value := number_decimal (n / 10)
      rw [ih (n / 10) (by omega) first] at value
      have : n / 10 = 0 := value.symm
      omega

theorem takeWhile_digits {digits rest : Text} (all : ∀ c ∈ digits, isDigit c = true)
    (ends : Ends rest) :
    (digits ++ rest).takeWhile isDigit = digits := by
  rw [List.takeWhile_append_of_pos all]
  cases rest with
  | nil => simp
  | cons c later =>
    have stop : isDigit c = false := by
      rcases ends c rfl with rfl | rfl | rfl <;> rfl
    rw [List.takeWhile_cons_of_neg (by simp [stop]), List.append_nil]

theorem tail_of_ends {rest : Text} (ends : Ends rest) :
    fraction rest = [] ∧ power rest = [] := by
  cases rest with
  | nil => exact ⟨rfl, rfl⟩
  | cons c later =>
    rcases ends c rfl with rfl | rfl | rfl <;> exact ⟨rfl, rfl⟩

theorem decimal_split (n : Nat) : ∃ d tail, decimal n = d :: tail ∧ 48 ≤ d ∧ d ≤ 57 := by
  cases written : decimal n with
  | nil => exact absurd written (decimal_ne_nil n)
  | cons d tail =>
    have digit := decimal_digits n d (by rw [written]; exact List.mem_cons_self)
    simp only [isDigit, Bool.and_eq_true, decide_eq_true_eq] at digit
    exact ⟨d, tail, rfl, digit.1, digit.2⟩

/-- The digits of a number are read as a whole. -/
theorem whole_decimal (n : Nat) {rest : Text} (ends : Ends rest) :
    (if (decimal n ++ rest).head? = some 48 then [48] else (decimal n ++ rest).takeWhile isDigit) =
      decimal n := by
  rw [List.head?_append_of_ne_nil _ (decimal_ne_nil n)]
  split
  · rename_i zero
    exact (decimal_head n zero).symm
  · exact takeWhile_digits (decimal_digits n) ends

theorem readNumber_decimal (n : Nat) {rest : Text} (ends : Ends rest) :
    readNumber (decimal n ++ rest) = some (.int n, rest) := by
  obtain ⟨d, tail, written, low, high⟩ := decimal_split n
  have unsigned : (decimal n ++ rest).head? ≠ some 45 := by
    rw [written, List.cons_append, List.head?_cons, ne_eq, Option.some.injEq]
    omega
  have plain := tail_of_ends ends
  simp only [readNumber, if_neg unsigned, List.length_nil, List.drop_zero, whole_decimal n ends,
    List.drop_left, plain.1, plain.2, List.append_nil, if_neg (decimal_ne_nil n), if_true,
    number_decimal]

theorem readNumber_negative (n : Nat) {rest : Text} (ends : Ends rest) :
    readNumber (45 :: (decimal n ++ rest)) = some (.int (-(n : ℤ)), rest) := by
  have plain := tail_of_ends ends
  have signed : ([45] : Text) ≠ [] := by decide
  simp only [readNumber, List.head?_cons, if_true, List.length_cons, List.length_nil, Nat.zero_add,
    List.drop_succ_cons, List.drop_zero, whole_decimal n ends, List.drop_left, plain.1, plain.2,
    List.append_nil, if_neg (decimal_ne_nil n), if_neg signed, number_decimal]

theorem writeInt_start (n : ℤ) : ∃ d tail, writeInt n = d :: tail ∧
    (d = 45 ∨ (48 ≤ d ∧ d ≤ 57)) := by
  obtain ⟨d, tail, written, low, high⟩ := decimal_split n.natAbs
  unfold writeInt
  split
  · exact ⟨45, _, rfl, .inl rfl⟩
  · exact ⟨d, tail, written, .inr ⟨low, high⟩⟩

theorem readAtom_int (n : ℤ) {rest : Text} (ends : Ends rest) :
    readAtom (writeInt n ++ rest) = some (.int n, rest) := by
  obtain ⟨d, tail, written, low, high⟩ := decimal_split n.natAbs
  have none_ : words.find? (fun word => word.1.isPrefixOf (writeInt n ++ rest)) = none := by
    rw [List.find?_eq_none]
    intro word listed
    have shape : (∃ c later, word.1 = c :: later ∧ c ≠ 45 ∧ (c < 48 ∨ 57 < c)) ∨
        ∃ c later, word.1 = 45 :: c :: later ∧ (c < 48 ∨ 57 < c) := by
      simp only [words, List.mem_cons, List.not_mem_nil, or_false] at listed
      rcases listed with rfl | rfl | rfl | rfl | rfl | rfl
      · exact .inl ⟨110, lit "ull", rfl, by decide, by decide⟩
      · exact .inl ⟨116, lit "rue", rfl, by decide, by decide⟩
      · exact .inl ⟨102, lit "alse", rfl, by decide, by decide⟩
      · exact .inl ⟨78, lit "aN", rfl, by decide, by decide⟩
      · exact .inl ⟨73, lit "nfinity", rfl, by decide, by decide⟩
      · exact .inr ⟨73, lit "nfinity", rfl, by decide⟩
    intro found
    have start := List.isPrefixOf_iff_prefix.mp found
    unfold writeInt at start
    rw [written] at start
    rcases shape with ⟨c, later, same, other, away⟩ | ⟨c, later, same, away⟩
    · rw [same] at start
      split at start
      · exact other (List.cons_prefix_cons.mp start).1
      · have := (List.cons_prefix_cons.mp start).1
        omega
    · rw [same] at start
      split at start
      · have := (List.cons_prefix_cons.mp (List.cons_prefix_cons.mp start).2).1
        omega
      · have := (List.cons_prefix_cons.mp start).1
        omega
  simp only [readAtom, none_]
  by_cases negative : n < 0
  · have value : -(n.natAbs : ℤ) = n := by omega
    rw [writeInt, if_pos negative, List.cons_append, readNumber_negative _ ends, value]
  · have value : (n.natAbs : ℤ) = n := by omega
    rw [writeInt, if_neg negative, readNumber_decimal _ ends, value]

/-- Documents without fractions, whose texts and names hold no surrogates and whose
objects repeat no name. -/
inductive Portable : Json → Prop where
  | null : Portable .null
  | bool (b : Bool) : Portable (.bool b)
  | int (n : ℤ) : Portable (.int n)
  | text (s : Text) (inside : s.all scalar = true) : Portable (.text s)
  | array (vs : List Json) (each : ∀ v ∈ vs, Portable v) : Portable (.array vs)
  | object (members : Members) (distinct : (members.map Prod.fst).Nodup)
      (names : ∀ member ∈ members, member.1.all scalar = true)
      (each : ∀ member ∈ members, Portable member.2) : Portable (.object members)

def Reads (v : Json) : Prop := ∀ (fuel : Nat) (rest : Text), 2 * v.write.length ≤ fuel → Ends rest →
  readValue fuel (v.write ++ rest) = some (v, rest)

/-- A value starts with a sign that is no blank and closes nothing. -/
theorem write_start {v : Json} (portable : Portable v) :
    ∃ c tail, v.write = c :: tail ∧ blank c = false ∧ c ≠ 93 := by
  cases portable with
  | null => exact ⟨110, lit "ull", rfl, rfl, by decide⟩
  | bool b =>
    cases b with
    | true => exact ⟨116, lit "rue", rfl, rfl, by decide⟩
    | false => exact ⟨102, lit "alse", rfl, rfl, by decide⟩
  | int n =>
    obtain ⟨d, tail, written, start⟩ := writeInt_start n
    refine ⟨d, tail, written, ?_, by omega⟩
    simp only [blank, Bool.or_eq_false_iff, beq_eq_false_iff_ne]
    omega
  | text s => exact ⟨34, _, rfl, rfl, by decide⟩
  | array vs =>
    cases vs with
    | nil => exact ⟨91, _, rfl, rfl, by decide⟩
    | cons v rest => exact ⟨91, _, rfl, rfl, by decide⟩
  | object members =>
    cases members with
    | nil => exact ⟨123, _, rfl, rfl, by decide⟩
    | cons member rest => exact ⟨123, _, rfl, rfl, by decide⟩

theorem skipBlank_start {c : Nat} (solid : blank c = false) (tail : Text) :
    skipBlank (c :: tail) = c :: tail := List.dropWhile_cons_of_neg (by simp [solid])

theorem skipBlank_write {v : Json} (portable : Portable v) (rest : Text) :
    skipBlank (v.write ++ rest) = v.write ++ rest := by
  obtain ⟨c, tail, written, solid, _⟩ := write_start portable
  rw [written, List.cons_append, skipBlank_start solid]

theorem readItems_write (v : Json) (vs : List Json) (portable : ∀ w ∈ v :: vs, Portable w)
    (reads : ∀ w ∈ v :: vs, Reads w) (fuel : Nat) (rest : Text)
    (enough : 2 * (v.write ++ writeItems vs).length < fuel) :
    readItems fuel (v.write ++ (writeItems vs ++ rest)) = some (v :: vs, rest) := by
  induction vs generalizing v fuel with
  | nil =>
    cases fuel with
    | zero => omega
    | succ fuel =>
      rw [List.length_append] at enough
      have read := reads v List.mem_cons_self fuel (93 :: rest) (by omega) (by simp [Ends])
      simp only [writeItems, List.cons_append, List.nil_append, readItems, read,
        Option.bind_eq_bind,
        Option.bind_some, skipBlank_start (show blank 93 = false from rfl)]
  | cons w later ih =>
    cases fuel with
    | zero => omega
    | succ fuel =>
      simp only [writeItems, List.length_append, List.length_cons] at enough
      have read := reads v List.mem_cons_self fuel (44 :: (w.write ++ (writeItems later ++ rest)))
        (by omega) (by simp [Ends])
      have following := ih w (List.forall_mem_cons.mp portable).2
        (List.forall_mem_cons.mp reads).2 fuel
        (by rw [List.length_append]; omega)
      simp only [writeItems, List.cons_append, List.append_assoc, readItems, read,
        Option.bind_eq_bind,
        Option.bind_some, skipBlank_start (show blank 44 = false from rfl),
        skipBlank_write (portable w (by simp)), following]

theorem readBody_quoted {k : Text} (inside : k.all scalar = true) (rest : Text) :
    readBody (k.flatMap escape ++ 34 :: rest).length (k.flatMap escape ++ 34 :: rest) =
      some (k, rest) := by
  apply readBody_escape inside
  have := length_le_escaped k
  rw [List.length_append, List.length_cons]
  omega

theorem readMembers_write (k : Text) (v : Json) (members : Members)
    (names : ∀ member ∈ (k, v) :: members, member.1.all scalar = true)
    (portable : ∀ member ∈ (k, v) :: members, Portable member.2)
    (reads : ∀ member ∈ (k, v) :: members, Reads member.2) (fuel : Nat) (rest : Text)
    (enough : 2 * (quote k ++ 58 :: (v.write ++ writeMembers members)).length < fuel) :
    readMembers fuel (quote k ++ 58 :: (v.write ++ (writeMembers members ++ rest))) =
      some ((k, v) :: members, rest) := by
  induction members generalizing k v fuel with
  | nil =>
    cases fuel with
    | zero => omega
    | succ fuel =>
      simp only [List.length_append, List.length_cons] at enough
      have name := readBody_quoted (names (k, v) List.mem_cons_self)
        (58 :: (v.write ++ (writeMembers [] ++ rest)))
      have read := reads (k, v) List.mem_cons_self fuel (125 :: rest) (by simp only; omega)
        (by simp [Ends])
      simp only [writeMembers, List.cons_append, List.nil_append] at name
      simp only [quote, writeMembers, List.cons_append, List.nil_append, List.append_assoc,
        readMembers, name,
        Option.bind_eq_bind, Option.bind_some, skipBlank_start (show blank 58 = false from rfl),
        skipBlank_write (portable (k, v) List.mem_cons_self), read,
        skipBlank_start (show blank 125 = false from rfl)]
  | cons member later ih =>
    obtain ⟨j, w⟩ := member
    cases fuel with
    | zero => omega
    | succ fuel =>
      simp only [writeMembers, List.length_append, List.length_cons] at enough
      have name := readBody_quoted (names (k, v) List.mem_cons_self)
        (58 :: (v.write ++ 44 :: (quote j ++ 58 :: (w.write ++ (writeMembers later ++ rest)))))
      have read := reads (k, v) List.mem_cons_self fuel
        (44 :: (quote j ++ 58 :: (w.write ++ (writeMembers later ++ rest)))) (by simp only; omega)
        (by simp [Ends])
      have following := ih j w (List.forall_mem_cons.mp names).2
        (List.forall_mem_cons.mp portable).2
        (List.forall_mem_cons.mp reads).2 fuel
        (by simp only [List.length_append, List.length_cons]; omega)
      have start : skipBlank (quote j ++ 58 :: (w.write ++ (writeMembers later ++ rest))) =
          quote j ++ 58 :: (w.write ++ (writeMembers later ++ rest)) := skipBlank_start rfl _
      conv_lhs => rw [quote]
      simp only [List.cons_append, List.nil_append, List.append_assoc, readMembers, name,
        writeMembers, Option.bind_eq_bind, Option.bind_some,
          skipBlank_start (show blank 58 = false from rfl),
        skipBlank_write (portable (k, v) List.mem_cons_self), read,
        skipBlank_start (show blank 44 = false from rfl), start, following]

/-- The reader takes back exactly what the writer wrote, whatever follows. -/
theorem reads (v : Json) : Portable v → Reads v := by
  apply Json.rec (motive_1 := fun v => Portable v → Reads v)
    (motive_2 := fun vs => ∀ v ∈ vs, Portable v → Reads v)
    (motive_3 := fun members => ∀ member ∈ members, Portable member.2 → Reads member.2)
    (motive_4 := fun member => Portable member.2 → Reads member.2)
  · intro _ fuel rest enough ends
    cases fuel with
    | zero => exact absurd enough (by decide)
    | succ fuel => rfl
  · intro b _ fuel rest enough ends
    cases fuel with
    | zero => cases b <;> exact absurd enough (by decide)
    | succ fuel => cases b <;> rfl
  · intro n _ fuel rest enough ends
    obtain ⟨d, tail, written, start⟩ := writeInt_start n
    cases fuel with
    | zero =>
      rw [write, written, List.length_cons] at enough
      omega
    | succ fuel =>
      have read := readAtom_int n ends
      rw [write, readValue]
      · exact read
      · intro more same
        rw [written, List.cons_append, List.cons.injEq] at same
        omega
      · intro more same
        rw [written, List.cons_append, List.cons.injEq] at same
        omega
      · intro more same
        rw [written, List.cons_append, List.cons.injEq] at same
        omega
  · intro literal portable
    cases portable
  · intro s portable fuel rest enough ends
    cases portable with
    | text _ inside =>
      cases fuel with
      | zero => simp [write, quote] at enough
      | succ fuel =>
        have body := readBody_quoted inside rest
        simp only [write, quote, List.cons_append, List.append_assoc, List.nil_append,
          readValue, body,
          Option.map_some]
  · intro vs ih portable fuel rest enough ends
    cases portable with
    | array _ each =>
      cases fuel with
      | zero => cases vs <;> simp [write] at enough
      | succ fuel =>
        cases vs with
        | nil => rfl
        | cons v later =>
          have whole := readItems_write v later each
            (fun w there => ih w there (each w there)) fuel rest
            (by rw [write, List.length_cons] at enough; omega)
          obtain ⟨c, tail, written, _, open_⟩ := write_start (each v List.mem_cons_self)
          have first : (v.write ++ (writeItems later ++ rest)).head? ≠ some 93 := by
            rw [written]
            simpa using open_
          simp only [write, List.cons_append, List.append_assoc, readValue,
            skipBlank_write (each v List.mem_cons_self), if_neg first, whole, Option.map_some]
  · intro members ih portable fuel rest enough ends
    cases portable with
    | object _ distinct names each =>
      cases fuel with
      | zero => cases members <;> simp [write] at enough
      | succ fuel =>
        cases members with
        | nil => rfl
        | cons member later =>
          obtain ⟨k, v⟩ := member
          have whole := readMembers_write k v later names each
            (fun w there => ih w there (each w there)) fuel rest
            (by rw [write, List.length_cons] at enough; omega)
          have start : skipBlank (quote k ++ 58 :: (v.write ++ (writeMembers later ++ rest))) =
              quote k ++ 58 :: (v.write ++ (writeMembers later ++ rest)) := skipBlank_start rfl _
          have first : (quote k ++ 58 :: (v.write ++ (writeMembers later ++ rest))).head? ≠
              some 125 := by
            simp [quote]
          have kept : fromMembers ((k, v) :: later) = .object ((k, v) :: later) := by
            rw [fromMembers, foldl_setEntry _ [] distinct, List.nil_append]
          simp only [write, List.cons_append, List.append_assoc, readValue, start,
            if_neg first, whole,
            Option.map_some, kept]
  · exact List.forall_mem_nil _
  · intro v rest here later
    exact List.forall_mem_cons.mpr ⟨here, later⟩
  · exact List.forall_mem_nil _
  · intro member rest here later
    exact List.forall_mem_cons.mpr ⟨here, later⟩
  · intro k v ih
    exact ih

theorem loads_write {v : Json} (portable : Portable v) : loads v.write = some v := by
  have whole := reads v portable (2 * v.write.length) [] (Nat.le_refl _) (by simp [Ends])
  have start := skipBlank_write portable []
  rw [List.append_nil] at whole start
  have done : skipBlank [] = [] := rfl
  simp only [loads, start, whole, done, if_true]

/-- How many signs a code point takes between quotes. -/
def escapeSize (c : Nat) : Nat :=
  if (member? shortEscapes c).isSome then 2 else if 32 ≤ c ∧ c ≤ 126 then 1 else if c < 0x10000
    then 6 else 12

theorem escape_length (c : Nat) : (escape c).length = escapeSize c := by
  unfold escape escapeSize
  cases member? shortEscapes c with
  | some k => rfl
  | none =>
    simp only [Option.isSome_none, Bool.false_eq_true, if_false]
    split
    · rfl
    · split <;> rfl

theorem quote_length (s : Text) : (quote s).length = (s.map escapeSize).sum + 2 := by
  have sizes : s.map (fun c => (escape c).length) = s.map escapeSize :=
    List.map_congr_left fun c _ => escape_length c
  simp only [quote, List.length_cons, List.length_append, List.length_flatMap, sizes,
    List.length_nil]

theorem decimal_length_le {n k : Nat} (positive : 0 < k) (small : n < 10 ^ k) :
    (decimal n).length ≤ k := by
  rw [decimal, List.length_map]
  exact (Nat.length_toDigits_le_iff (by decide) positive).mpr small

/-! The text that is written is ASCII. -/

theorem hex4_ascii (n : Nat) : ∀ c ∈ hex4 n, c < 128 := by
  have digit : ∀ m < 16, hexDigit m < 128 := by decide
  have each : ∀ m, hexDigit (m % 16) < 128 := fun m => digit _ (Nat.mod_lt m (by decide))
  simp [hex4, each]

theorem escape_ascii (c : Nat) : ∀ d ∈ escape c, d < 128 := by
  have unicode : ∀ n, ∀ d ∈ unicodeEscape n, d < 128 := fun n =>
    List.forall_mem_cons.mpr ⟨by decide, List.forall_mem_cons.mpr ⟨by decide, hex4_ascii n⟩⟩
  rcases escape_cases c with ⟨k, short, written⟩ | ⟨_, high, _, _, written⟩ | ⟨_, written⟩ | ⟨_,
    written⟩ <;>
    rw [written]
  · have known : ∀ p ∈ shortEscapes, p.2 < 128 := by decide
    have low := known _ short
    simpa using low
  · simpa using Nat.lt_succ_of_le (Nat.le_succ_of_le high)
  · exact unicode c
  · exact List.forall_mem_append.mpr ⟨unicode _, unicode _⟩

theorem quote_ascii (s : Text) : ∀ c ∈ quote s, c < 128 := by
  have body : ∀ c ∈ s.flatMap escape, c < 128 := by
    intro c member
    obtain ⟨d, _, written⟩ := List.mem_flatMap.mp member
    exact escape_ascii d c written
  exact List.forall_mem_cons.mpr ⟨by decide, List.forall_mem_append.mpr ⟨body, by simp⟩⟩

theorem writeInt_ascii (n : ℤ) : ∀ c ∈ writeInt n, c < 128 := by
  have digits : ∀ c ∈ decimal n.natAbs, c < 128 := by
    intro c member
    have digit := decimal_digits _ c member
    simp only [isDigit, Bool.and_eq_true, decide_eq_true_eq] at digit
    omega
  unfold writeInt
  split
  · exact List.forall_mem_cons.mpr ⟨by decide, digits⟩
  · exact digits

theorem write_ascii (v : Json) : Portable v → ∀ c ∈ v.write, c < 128 := by
  apply Json.rec (motive_1 := fun v => Portable v → ∀ c ∈ v.write, c < 128)
    (motive_2 := fun vs => (∀ v ∈ vs, Portable v) →
      ∀ c ∈ (Json.array vs).write ++ writeItems vs, c < 128)
    (motive_3 := fun members => (∀ member ∈ members, Portable member.2) →
      ∀ c ∈ (Json.object members).write ++ writeMembers members, c < 128)
    (motive_4 := fun member => Portable member.2 → ∀ c ∈ member.2.write, c < 128)
  · intro _
    decide
  · intro b _
    cases b <;> decide
  · exact fun n _ => writeInt_ascii n
  · intro literal portable
    cases portable
  · exact fun s _ => quote_ascii s
  · intro vs ih portable
    cases portable with
    | array _ each => exact (List.forall_mem_append.mp (ih each)).1
  · intro members ih portable
    cases portable with
    | object _ _ _ each => exact (List.forall_mem_append.mp (ih each)).1
  · intro _
    decide
  · intro v rest here later portable
    obtain ⟨first, others⟩ := List.forall_mem_cons.mp portable
    have value := here first
    have tail := (List.forall_mem_append.mp (later others)).2
    have inner : ∀ c ∈ v.write ++ writeItems rest, c < 128 :=
      List.forall_mem_append.mpr ⟨value, tail⟩
    exact List.forall_mem_append.mpr
      ⟨List.forall_mem_cons.mpr ⟨by decide, inner⟩, List.forall_mem_cons.mpr ⟨by decide, inner⟩⟩
  · intro _
    decide
  · intro member rest here later portable
    obtain ⟨k, v⟩ := member
    obtain ⟨first, others⟩ := List.forall_mem_cons.mp portable
    have value := here first
    have tail := (List.forall_mem_append.mp (later others)).2
    have inner : ∀ c ∈ quote k ++ 58 :: (v.write ++ writeMembers rest), c < 128 :=
      List.forall_mem_append.mpr ⟨quote_ascii k, List.forall_mem_cons.mpr
        ⟨by decide, List.forall_mem_append.mpr ⟨value, tail⟩⟩⟩
    exact List.forall_mem_append.mpr
      ⟨List.forall_mem_cons.mpr ⟨by decide, inner⟩, List.forall_mem_cons.mpr ⟨by decide, inner⟩⟩
  · intro k v ih
    exact ih

end Json

end Metahumotonic.Library
