import Metahumotonic.Library.Binary64
import Metahumotonic.Library.JsonCodec
import Mathlib.Tactic.Ring

/-! How ECMAScript writes a finite number (`Number::toString`): the shortest decimal that rounds to
it, and of two of that length the nearer one. Numbers of different values have different texts. -/
namespace Metahumotonic.Library.NumberText
open Json

/-- The least double is `2 ^ -grid`. -/
def grid : ℕ := 1074

/-- `s * 10 ^ t`, as a fraction of units of the least double. -/
def numerator (s : ℕ) (t : ℤ) : ℕ := s * Nat.pow 2 grid * Nat.pow 10 t.toNat

def denominator (t : ℤ) : ℕ := Nat.pow 10 (-t).toNat

def roundsTo (units s : ℕ) (t : ℤ) : Bool := Double.rounded (numerator s t) (denominator t) = units

/-- The decimal with the last digit at `10 ^ t` that is next to a magnitude and rounds to it: of the
one below and the one above the nearer one, or the even one. -/
def nearby (units : ℕ) (t : ℤ) : Option ℕ :=
  let size := Nat.pow 2 grid * Nat.pow 10 t.toNat
  let parts := units * Nat.pow 10 (-t).toNat
  let lower := parts / size
  let upper := lower + 1
  let rest := 2 * (parts % size)
  if lower ≠ 0 ∧ roundsTo units lower t then
    if roundsTo units upper t ∧ (size < rest ∨ size = rest ∧ lower % 2 = 1) then some upper
      else some lower
  else if roundsTo units upper t then some upper else none

/-- The places at which the last digit may stand, the highest first. -/
def places : List ℤ := (List.range (310 + grid)).map fun i : ℕ => 309 - (i : ℤ)

/-- The digits of a magnitude and the place of the last one; the highest place leaves the fewest
digits. -/
def shortest (units : ℕ) : ℕ × ℤ :=
  (places.findSome? fun t => (nearby units t).map fun s => (s, t)).getD (0, 0)

/-- `e+7`, `e-7`. -/
def exponentText (n : ℤ) : Text := 101 :: (if n < 0 then 45 else 43) :: decimal n.natAbs

/-- The layout of `s * 10 ^ t`, where the first digit stands below `10 ^ n`. -/
def layout (s : ℕ) (t : ℤ) : Text :=
  let digits := decimal s
  let n := t + digits.length
  if 0 ≤ t ∧ n ≤ 21 then digits ++ List.replicate t.toNat 48
  else if 0 < n ∧ n ≤ 21 then digits.take n.toNat ++ 46 :: digits.drop n.toNat
  else if -6 < n ∧ n ≤ 0 then 48 :: 46 :: (List.replicate (-n).toNat 48 ++ digits)
  else if digits.length = 1 then digits ++ exponentText (n - 1)
  else digits.take 1 ++ 46 :: digits.drop 1 ++ exponentText (n - 1)

/-- `Number::toString` in base ten. -/
def numberText (x : Double) : Text :=
  if x.units = 0 then [48]
  else
    let decimal := shortest x.units
    (if x.negative then [45] else []) ++ layout decimal.1 decimal.2

/-! What a text stands for. -/

/-- The digits before an exponent, and how many of them are a fraction. -/
def mantissaOf (text : Text) : ℕ × ℕ :=
  let whole := text.takeWhile (· != 46)
  let fraction := text.drop (whole.length + 1)
  (number (whole ++ fraction), fraction.length)

/-- The exponent of `e+7`, of `e-7`, or of nothing. -/
def powerOf (text : Text) : ℤ :=
  let size : ℤ := number (text.drop 2)
  if (text.drop 1).head? = some 45 then -size else size

/-- The decimal of a text without a sign, as a number and the place of its last digit. -/
def readDecimal (text : Text) : ℕ × ℤ :=
  let mantissa := text.takeWhile (· != 101)
  let digits := mantissaOf mantissa
  (digits.1, powerOf (text.drop mantissa.length) - digits.2)

def magnitudeOf (text : Text) : ℕ :=
  let decimal := readDecimal text
  Double.rounded (numerator decimal.1 decimal.2) (denominator decimal.2)

/-- The value of the double nearest to a text. -/
def valueOf (text : Text) : ℤ := if text.head? = some 45 then -magnitudeOf text.tail
    else magnitudeOf text

theorem takeWhile_until {sign : ℕ} {before : Text} (absent : sign ∉ before) (after : Text) :
    (before ++ sign :: after).takeWhile (· != sign) = before := by
  have all : ∀ c ∈ before, (c != sign) = true := by
    intro c member
    simp only [bne_iff_ne, ne_eq]
    rintro rfl
    exact absent member
  rw [List.takeWhile_append_of_pos all, List.takeWhile_cons_of_neg (by simp), List.append_nil]

theorem takeWhile_absent {sign : ℕ} {text : Text} (absent : sign ∉ text) : text.takeWhile
    (· != sign) = text := by
  induction text with
  | nil => rfl
  | cons c rest ih =>
    simp only [List.mem_cons, not_or] at absent
    have first : (c != sign) = true := bne_iff_ne.mpr (Ne.symm absent.1)
    rw [List.takeWhile_cons, first, ih absent.2, if_pos rfl]

theorem mantissaOf_whole {whole : Text} (plain : 46 ∉ whole) :
    mantissaOf whole = (number whole, 0) := by
  simp only [mantissaOf, takeWhile_absent plain]
  rw [List.drop_eq_nil_of_le (Nat.le_succ _), List.append_nil]
  rfl

theorem mantissaOf_point {whole : Text} (plain : 46 ∉ whole) (fraction : Text) :
    mantissaOf (whole ++ 46 :: fraction) = (number (whole ++ fraction), fraction.length) := by
  have rest : (whole ++ 46 :: fraction).drop (whole.length + 1) = fraction := by
    rw [← List.drop_drop, List.drop_left]
    rfl
  simp only [mantissaOf, takeWhile_until plain, rest]

theorem powerOf_exponentText (n : ℤ) : powerOf (exponentText n) = n := by
  have size : number (decimal n.natAbs) = n.natAbs := number_decimal _
  simp only [powerOf, exponentText, List.drop_succ_cons, List.drop_zero, List.head?_cons, size]
  by_cases negative : n < 0
  · rw [if_pos negative, if_pos rfl]
    omega
  · rw [if_neg negative, if_neg (by decide)]
    omega

theorem readDecimal_plain {mantissa : Text} (plain : 101 ∉ mantissa) :
    readDecimal mantissa = ((mantissaOf mantissa).1, -((mantissaOf mantissa).2 : ℤ)) := by
  have none_ : powerOf [] = 0 := rfl
  simp only [readDecimal, takeWhile_absent plain, List.drop_length, none_, Int.zero_sub]

theorem readDecimal_power {mantissa : Text} (plain : 101 ∉ mantissa) (n : ℤ) :
    readDecimal (mantissa ++ exponentText n) =
      ((mantissaOf mantissa).1, n - (mantissaOf mantissa).2) := by
  have first : (mantissa ++ exponentText n).takeWhile (· != 101) = mantissa :=
    takeWhile_until plain _
  simp only [readDecimal, first, List.drop_left, powerOf_exponentText]

/-! Digits. -/

theorem foldl_digits (digits : Text) (n : ℕ) :
    digits.foldl (fun n c => 10 * n + (c - 48)) n = n * Nat.pow 10 digits.length +
      number digits := by
  induction digits generalizing n with
  | nil => simp [number]
  | cons c rest ih =>
    have first : number (c :: rest) = (c - 48) * Nat.pow 10 rest.length + number rest := by
      rw [number, List.foldl_cons, Nat.mul_zero, Nat.zero_add, ih]
    have size : Nat.pow 10 (c :: rest).length = Nat.pow 10 rest.length * 10 := Nat.pow_succ ..
    rw [List.foldl_cons, ih, first, size]
    ring

theorem number_append (first second : Text) :
    number (first ++ second) = number first * Nat.pow 10 second.length + number second := by
  rw [number, List.foldl_append, foldl_digits]
  rfl

theorem number_zeros (k : ℕ) : number (List.replicate k 48) = 0 := by
  induction k with
  | zero => rfl
  | succ k ih => rw [List.replicate_succ, number, List.foldl_cons, Nat.mul_zero]; exact ih

theorem digits_no_sign {text : Text} (digits : ∀ c ∈ text, isDigit c = true) {sign : ℕ}
    (other : isDigit sign = false) :
    sign ∉ text := by
  intro member
  rw [digits sign member] at other
  cases other

theorem number_decimal_append (s : ℕ) (zeros : ℕ) :
    number (decimal s ++ List.replicate zeros 48) = s * Nat.pow 10 zeros := by
  rw [number_append, number_decimal, number_zeros, List.length_replicate, Nat.add_zero]

theorem number_zeros_append (zeros s : ℕ) : number (List.replicate zeros 48 ++ decimal s) = s := by
  rw [number_append, number_decimal, number_zeros, Nat.zero_mul, Nat.zero_add]

/-! The digits round to the number. -/

theorem denominator_pos (t : ℤ) : 0 < denominator t := Nat.pow_pos (by decide)

theorem nearby_rounds {units s : ℕ} {t : ℤ} (found : nearby units t = some s) :
    roundsTo units s t = true := by
  simp only [nearby] at found
  split at found
  · rename_i lower
    split at found
    · rename_i upper
      cases found
      exact upper.1
    · cases found
      exact lower.2
  · split at found
    · rename_i upper
      cases found
      exact upper
    · cases found

theorem ten_power (k : ℕ) : Nat.pow 10 k = Nat.pow 5 k * Nat.pow 2 k := Nat.mul_pow 5 2 k

theorem power_pos {base : ℕ} (positive : 0 < base) (k : ℕ) : 0 < Nat.pow base k :=
  Nat.pow_pos positive

theorem mul_mul_div (a b : ℕ) {c : ℕ} (positive : 0 < c) : a * (b * c) / c = a * b := by
  rw [← Nat.mul_assoc, Nat.mul_div_cancel _ positive]

theorem no_power : Nat.pow 10 0 = 1 := rfl

theorem grid_digits : (-(-(grid : ℤ))).toNat = grid := by omega

theorem grid_zeros : (-(grid : ℤ)).toNat = 0 := by omega

/-- A double is a whole number of its least decimal units, so that some decimal is exact. -/
theorem exact_rounds (x : Double) : roundsTo x.units (x.units * Nat.pow 5 grid) (-grid) = true := by
  have bottom : denominator (-grid) = Nat.pow 5 grid * Nat.pow 2 grid := by
    rw [denominator, grid_digits, ten_power]
  have top : numerator (x.units * Nat.pow 5 grid) (-grid) = x.units * denominator (-grid) := by
    rw [numerator, grid_zeros, no_power, Nat.mul_one, bottom, Nat.mul_assoc]
  rw [roundsTo, top, Double.rounded_units x (denominator_pos _)]
  exact decide_eq_true rfl

theorem nearby_least (x : Double) (nonzero : x.units ≠ 0) : nearby x.units (-grid) ≠ none := by
  have twos := power_pos Nat.two_pos grid
  have five : 0 < 5 := by decide
  have fives := power_pos five grid
  have size : Nat.pow 2 grid * Nat.pow 10 (-(grid : ℤ)).toNat = Nat.pow 2 grid := by
    rw [grid_zeros, no_power, Nat.mul_one]
  have ten : Nat.pow 10 (-(-(grid : ℤ))).toNat = Nat.pow 5 grid * Nat.pow 2 grid := by
    rw [grid_digits, ten_power]
  have lower : x.units * (Nat.pow 5 grid * Nat.pow 2 grid) / Nat.pow 2 grid = x.units *
      Nat.pow 5 grid := by
    rw [mul_mul_div _ _ twos]
  have large := Nat.mul_pos (Nat.pos_of_ne_zero nonzero) fives
  simp only [nearby, size, ten, lower, if_pos (And.intro large.ne' (exact_rounds x))]
  split <;> exact Option.some_ne_none _

theorem place_mem {k n : ℕ} (below : k < n) : 309 - (k : ℤ) ∈ (List.range n).map fun i :
    ℕ => 309 - (i : ℤ) :=
  List.mem_map.mpr ⟨k, List.mem_range.mpr below, rfl⟩

theorem least_place : -(grid : ℤ) ∈ places := by
  have below : 309 + grid < 310 + grid := by omega
  have last : 309 - ((309 + grid : ℕ) : ℤ) = -(grid : ℤ) := by omega
  exact last ▸ place_mem below

/-- The shortest decimal of a double rounds to it. -/
theorem shortest_rounds (x : Double) (nonzero : x.units ≠ 0) :
    roundsTo x.units (shortest x.units).1 (shortest x.units).2 = true := by
  rw [shortest]
  cases found : places.findSome? fun t => (nearby x.units t).map fun s => (s, t) with
  | none =>
    have missing := List.findSome?_eq_none_iff.mp found (-grid) least_place
    exact absurd (Option.map_eq_none_iff.mp missing) (nearby_least x nonzero)
  | some decimal =>
    obtain ⟨t, -, here⟩ := List.exists_of_findSome?_eq_some found
    obtain ⟨s, near, rfl⟩ := Option.map_eq_some_iff.mp here
    exact nearby_rounds near

/-! A layout reads back as its decimal. -/

theorem decimal_plain (s : ℕ) {sign : ℕ} (other : isDigit sign = false) : sign ∉ decimal s :=
  digits_no_sign (decimal_digits s) other

theorem not_mem_take {sign k : ℕ} {text : Text} (absent : sign ∉ text) : sign ∉ text.take k :=
  fun member => absent (List.mem_of_mem_take member)

theorem not_mem_drop {sign k : ℕ} {text : Text} (absent : sign ∉ text) : sign ∉ text.drop k :=
  fun member => absent (List.mem_of_mem_drop member)

theorem zeros_plain {k sign : ℕ} (other : sign ≠ 48) : sign ∉ List.replicate k 48 :=
  fun member => other (List.eq_of_mem_replicate member)

/-- The digits with a point before the last `n - k` of them. -/
theorem mantissaOf_digits (s k : ℕ) :
    mantissaOf ((decimal s).take k ++ 46 :: (decimal s).drop k) = (s, (decimal s).length - k) := by
  have whole : 46 ∉ (decimal s).take k := not_mem_take (decimal_plain s rfl)
  rw [mantissaOf_point whole, List.take_append_drop, number_decimal, List.length_drop]

theorem point_plain {sign : ℕ} (other : sign ≠ 46) {before after : Text} (first : sign ∉ before)
    (second : sign ∉ after) :
    sign ∉ before ++ 46 :: after := by
  simp only [List.mem_append, List.mem_cons, not_or]
  exact ⟨first, other, second⟩

/-- The decimal of a layout, up to the zeros that a whole number is written with. -/
theorem readDecimal_layout (s : ℕ) (t : ℤ) :
    readDecimal (layout s t) = (s, t) ∨ 0 ≤ t ∧
      readDecimal (layout s t) = (s * Nat.pow 10 t.toNat, 0) := by
  have power : 101 ∉ decimal s := decimal_plain s rfl
  have point : 46 ∉ decimal s := decimal_plain s rfl
  have some_ : 0 < (decimal s).length := List.length_pos_of_ne_nil (decimal_ne_nil s)
  simp only [layout]
  split
  · rename_i whole
    have plain : 46 ∉ decimal s ++ List.replicate t.toNat 48 := by
      rw [List.mem_append, not_or]
      exact ⟨point, zeros_plain (by decide)⟩
    have simple : 101 ∉ decimal s ++ List.replicate t.toNat 48 := by
      rw [List.mem_append, not_or]
      exact ⟨power, zeros_plain (by decide)⟩
    rw [readDecimal_plain simple, mantissaOf_whole plain, number_decimal_append]
    exact .inr ⟨whole.1, rfl⟩
  · rename_i split_
    left
    split
    · rename_i inside
      rw [readDecimal_plain (point_plain (by decide) (not_mem_take power) (not_mem_drop power)),
        mantissaOf_digits]
      refine Prod.ext rfl ?_
      simp only
      omega
    · split
      · rename_i below
        have whole : 46 ∉ [48] := by decide
        have simple : 101 ∉ [48] ++ 46 ::
            (List.replicate (-(t + (decimal s).length)).toNat 48 ++ decimal s) := by
          refine point_plain (by decide) (by decide) ?_
          rw [List.mem_append, not_or]
          exact ⟨zeros_plain (by decide), power⟩
        have digits : number
            ([48] ++ (List.replicate (-(t + (decimal s).length)).toNat 48 ++ decimal s)) = s :=
          number_zeros_append _ s
        refine (readDecimal_plain simple).trans ?_
        rw [mantissaOf_point whole, digits, List.length_append, List.length_replicate]
        refine Prod.ext rfl ?_
        simp only
        omega
      · split
        · rename_i single
          rw [readDecimal_power power, mantissaOf_whole point, number_decimal]
          refine Prod.ext rfl ?_
          simp only
          omega
        · have simple : 101 ∉ (decimal s).take 1 ++ 46 :: (decimal s).drop 1 :=
            point_plain (by decide) (not_mem_take power) (not_mem_drop power)
          rw [readDecimal_power simple, mantissaOf_digits]
          refine Prod.ext rfl ?_
          simp only
          omega

theorem magnitudeOf_layout (s : ℕ) (t : ℤ) :
    magnitudeOf (layout s t) = Double.rounded (numerator s t) (denominator t) := by
  rcases readDecimal_layout s t with same | ⟨whole, same⟩
  · rw [magnitudeOf, same]
  · have top : numerator (s * Nat.pow 10 t.toNat) 0 = numerator s t := by
      rw [numerator, numerator, Int.toNat_zero, no_power, Nat.mul_one]
      ring
    have none_ : (-t).toNat = 0 := by omega
    have bottom : denominator t = denominator 0 := by
      rw [denominator, denominator, none_]
      rfl
    rw [magnitudeOf, same, top, bottom]

/-! A number's text stands for its value. -/

theorem layout_head (s : ℕ) (t : ℤ) : ∃ first rest, layout s t = first :: rest ∧
    isDigit first = true := by
  obtain ⟨first, rest, same, low, high⟩ := decimal_split s
  have digit : isDigit first = true := decimal_digits s first (same ▸ List.mem_cons_self)
  have zero : isDigit 48 = true := rfl
  simp only [layout, same]
  split
  · exact ⟨first, _, rfl, digit⟩
  · split
    · rename_i inside
      obtain ⟨n, whole⟩ : ∃ n, (t + ((first :: rest).length : ℕ)).toNat = n + 1 :=
        Nat.exists_eq_succ_of_ne_zero (by omega)
      rw [whole]
      exact ⟨first, _, rfl, digit⟩
    · split
      · exact ⟨48, _, rfl, zero⟩
      · split
        · exact ⟨first, _, rfl, digit⟩
        · exact ⟨first, _, rfl, digit⟩

theorem valueOf_digit {first : ℕ} {rest : Text} (digit : isDigit first = true) :
    valueOf (first :: rest) = magnitudeOf (first :: rest) := by
  have other : ¬ (first :: rest).head? = some 45 := by
    rw [List.head?_cons, Option.some_inj]
    rintro rfl
    cases digit
  rw [valueOf, if_neg other]

theorem valueOf_minus (text : Text) : valueOf ([45] ++ text) = -magnitudeOf text := by
  rw [valueOf, List.singleton_append, List.head?_cons, if_pos rfl, List.tail_cons]

theorem rounded_zero (x : Double) (zero : x.units = 0) : Double.rounded 0 1 = 0 := by
  have self := Double.rounded_units x Nat.one_pos
  rwa [zero, Nat.zero_mul] at self

/-- A number's text stands for the number's value. -/
theorem valueOf_numberText (x : Double) : valueOf (numberText x) = x.value := by
  by_cases zero : x.units = 0
  · have read : magnitudeOf [48] = Double.rounded 0 1 := by
      have top : numerator 0 0 = 0 := by rw [numerator, Nat.zero_mul, Nat.zero_mul]
      have bottom : denominator 0 = 1 := rfl
      have decimal : readDecimal [48] = (0, 0) := rfl
      rw [magnitudeOf, decimal, top, bottom]
    have value : x.value = 0 := by
      rw [Double.value, zero]
      split <;> rfl
    rw [numberText, if_pos zero, valueOf_digit rfl, read, rounded_zero x zero, value]
    rfl
  · have rounds := of_decide_eq_true (shortest_rounds x zero)
    obtain ⟨first, rest, same, digit⟩ := layout_head (shortest x.units).1 (shortest x.units).2
    have magnitude : magnitudeOf (layout (shortest x.units).1 (shortest x.units).2) = x.units := by
      rw [magnitudeOf_layout, rounds]
    rw [numberText, if_neg zero, Double.value]
    cases x.negative
    · rw [if_neg Bool.false_ne_true, if_neg Bool.false_ne_true, List.nil_append, same,
        valueOf_digit digit, ← same, magnitude]
    · rw [if_pos rfl, if_pos rfl, valueOf_minus, magnitude]

/-- Numbers have one text when they have one value: the two zeros do. -/
theorem numberText_eq_iff (x y : Double) : numberText x = numberText y ↔ x.value = y.value := by
  constructor
  · intro same
    rw [← valueOf_numberText x, same, valueOf_numberText]
  · intro same
    by_cases zero : x.units = 0
    · have other : y.units = 0 := by
        simp only [Double.value, zero] at same
        split at same <;> split at same <;> omega
      rw [numberText, if_pos zero, numberText, if_pos other]
    · have units : x.units = y.units := by
        simp only [Double.value] at same
        split at same <;> split at same <;> omega
      have sign : x.negative = y.negative := by
        simp only [Double.value] at same
        cases first : x.negative <;> cases second : y.negative <;> simp [first, second] at same <;>
          first | rfl | omega
      rw [numberText, numberText, units, sign]

/-! The signs of a number's text. -/

/-- A digit, or one of `+`, `-`, `.` and `e`. -/
def isSign (c : ℕ) : Bool := isDigit c || c == 43 || c == 45 || c == 46 || c == 101

theorem isSign_digit {c : ℕ} (digit : isDigit c = true) : isSign c = true := by
  rw [isSign, digit]
  rfl

theorem isSign_exponentText (n : ℤ) : ∀ c ∈ exponentText n, isSign c = true := by
  intro c member
  simp only [exponentText, List.mem_cons] at member
  rcases member with rfl | rfl | digit
  · rfl
  · split <;> rfl
  · exact isSign_digit (decimal_digits _ c digit)

theorem isSign_layout (s : ℕ) (t : ℤ) : ∀ c ∈ layout s t, isSign c = true := by
  have digits : ∀ c ∈ decimal s, isSign c = true := fun c member =>
    isSign_digit (decimal_digits s c member)
  have taken : ∀ k, ∀ c ∈ (decimal s).take k, isSign c = true := fun k c member =>
    digits c (List.mem_of_mem_take member)
  have dropped : ∀ k, ∀ c ∈ (decimal s).drop k, isSign c = true := fun k c member =>
    digits c (List.mem_of_mem_drop member)
  have zeros : ∀ k, ∀ c ∈ List.replicate k 48, isSign c = true := by
    intro k c member
    rw [List.eq_of_mem_replicate member]
    rfl
  have power := isSign_exponentText (t + (decimal s).length - 1)
  intro c member
  simp only [layout] at member
  split at member
  · rcases List.mem_append.mp member with first | second
    · exact digits c first
    · exact zeros _ c second
  · split at member
    · simp only [List.mem_append, List.mem_cons] at member
      rcases member with first | rfl | second
      · exact taken _ c first
      · rfl
      · exact dropped _ c second
    · split at member
      · simp only [List.mem_append, List.mem_cons] at member
        rcases member with rfl | rfl | first | second
        · rfl
        · rfl
        · exact zeros _ c first
        · exact digits c second
      · split at member
        · rcases List.mem_append.mp member with first | second
          · exact digits c first
          · exact power c second
        · simp only [List.mem_append, List.mem_cons] at member
          rcases member with (first | rfl | second) | third
          · exact taken _ c first
          · rfl
          · exact dropped _ c second
          · exact power c third

theorem isSign_numberText (x : Double) : ∀ c ∈ numberText x, isSign c = true := by
  intro c member
  simp only [numberText] at member
  split at member
  · rw [List.mem_singleton.mp member]
    rfl
  · rcases List.mem_append.mp member with minus | digits
    · split at minus
      · rw [List.mem_singleton.mp minus]
        rfl
      · cases minus
    · exact isSign_layout _ _ c digits

/-- A number's text starts with a digit or with `-`. -/
theorem numberText_head (x : Double) : ∃ first rest, numberText x = first :: rest ∧
    (isDigit first = true ∨ first = 45) := by
  simp only [numberText]
  split
  · exact ⟨48, [], rfl, .inl rfl⟩
  · obtain ⟨first, rest, same, digit⟩ := layout_head (shortest x.units).1 (shortest x.units).2
    rw [same]
    split
    · exact ⟨45, _, rfl, .inr rfl⟩
    · exact ⟨first, rest, rfl, .inl digit⟩

end Metahumotonic.Library.NumberText
