import Metahumotonic.Library.JsonCodec

/-! Dates of JavaScript: milliseconds since 1970 in the proleptic Gregorian calendar, their
ISO text with a `Z`, and the reading of date-time texts. A text in another format than the
ISO one is not read, and one without an offset neither. -/
namespace Metahumotonic.Library.IsoDate

open Json (isDigit number)

def isLeap (year : ℤ) : Bool := year % 4 = 0 && (year % 100 ≠ 0 || year % 400 = 0)

/-- The days from the start of year 0 to the start of a year. -/
def daysToYear (year : ℤ) : ℤ :=
  365 * year + (year + 3) / 4 - (year + 99) / 100 + (year + 399) / 400

/-- The days of a year before a month. -/
def daysToMonth (leap : Bool) (month : ℕ) : ℕ :=
  [0, 0, 31, 59, 90, 120, 151, 181, 212, 243, 273, 304, 334].getD month 365 + if leap && 2 < month
    then 1 else 0

/-- The first day of 1970. -/
def epochDay : ℤ := 719528

def msPerDay : ℤ := 86400000

/-- The year of a day, from an estimate that is off by at most one. -/
def yearOf (day : ℤ) : ℤ :=
  let year := day * 400 / 146097
  if daysToYear (year + 1) ≤ day then year + 1 else if day < daysToYear year then year - 1 else year

/-- The month of a day in its year: how many months have begun. -/
def monthOf (leap : Bool) (day : ℕ) : ℕ :=
  ((List.range 12).filter fun i => daysToMonth leap (i + 1) ≤ day).length

def pad2 (n : ℕ) : Text := [48 + n / 10 % 10, 48 + n % 10]

def pad3 (n : ℕ) : Text := [48 + n / 100 % 10, 48 + n / 10 % 10, 48 + n % 10]

def pad4 (n : ℕ) : Text := [48 + n / 1000 % 10, 48 + n / 100 % 10, 48 + n / 10 % 10, 48 + n % 10]

/-- Years of four digits are written plain, others with a sign and six digits. -/
def yearText (year : ℤ) : Text :=
  if 0 ≤ year ∧ year ≤ 9999 then pad4 year.toNat
  else (if year < 0 then 45 else 43) :: (pad2 (year.natAbs / 10000) ++ pad4 year.natAbs)

def dayOf (t : ℤ) : ℤ := t / msPerDay + epochDay

/-- `new Date(t).toISOString()`. -/
def toISOString (t : ℤ) : Text :=
  let year := yearOf (dayOf t)
  let inYear := (dayOf t - daysToYear year).toNat
  let month := monthOf (isLeap year) inYear
  let date := inYear - daysToMonth (isLeap year) month + 1
  let ms := (t % msPerDay).toNat
  yearText year ++ (45 :: (pad2 month ++ (45 :: (pad2 date ++ (84 :: (pad2 (ms / 3600000) ++ (58 ::
    (pad2 (ms / 60000 % 60) ++
      (58 :: (pad2 (ms / 1000 % 60) ++ (46 :: (pad3 (ms % 1000) ++ [90]))))))))))))

/-- Every sign is of its kind. -/
def shaped (mask : List (ℕ → Bool)) (s : Text) : Bool :=
  mask.length == s.length && (List.zipWith (fun kind c => kind c) mask s).all id

def readYear (s : Text) : Option (ℤ × Text) :=
  if s.head? = some 43 ∨ s.head? = some 45 then
    let digits := (s.drop 1).take 6
    if digits.length = 6 ∧ digits.all isDigit ∧ ¬(s.head? = some 45 ∧ number digits = 0) then
      some (if s.head? = some 45 then -(number digits : ℤ) else number digits, s.drop 7)
    else none
  else
    let digits := s.take 4
    if digits.length = 4 ∧ digits.all isDigit then some (number digits, s.drop 4) else none

/-- `-MM-DDTHH:mm:ss`. -/
def restMask : List (ℕ → Bool) :=
  let sign := fun k : ℕ => fun c : ℕ => c == k
  [sign 45, isDigit, isDigit, sign 45, isDigit, isDigit, sign 84, isDigit, isDigit, sign 58,
    isDigit, isDigit,
    sign 58, isDigit, isDigit]

/-- The milliseconds of a fraction; further digits are dropped. V8 reads a fraction of ten or more
digits otherwise where it begins with a zero. -/
def readFraction (s : Text) : Option (ℕ × Text) :=
  if s.head? = some 46 then
    let digits := (s.drop 1).takeWhile isDigit
    if digits = [] then none
      else some (number ((digits ++ [48, 48]).take 3), s.drop (1 + digits.length))
  else some (0, s)

/-- The offset in minutes. -/
def readZone (s : Text) : Option ℤ :=
  if s = [90] then some 0
  else if shaped [fun c => c == 43 || c == 45, isDigit, isDigit, fun c => c == 58, isDigit,
    isDigit] s then
    let hours := number ((s.drop 1).take 2)
    let minutes := number ((s.drop 4).take 2)
    if hours ≤ 23 ∧ minutes ≤ 59 then
      some (if s.head? = some 45 then -(hours * 60 + minutes : ℤ) else (hours * 60 + minutes : ℤ))
    else none
  else none

/-- `Date.parse(s)`. A day past the end of its month runs into the next. -/
def dateParse (s : Text) : Option ℤ := do
  let (year, rest) ← readYear s
  let (ms, after) ← readFraction (rest.drop 15)
  let offset ← readZone after
  let part := fun i : ℕ => number ((rest.drop i).take 2)
  let days := daysToYear year + daysToMonth (isLeap year) (part 1) + part 4 - 1 - epochDay
  let t := days * msPerDay + ((part 7 * 60 + part 10 - offset) * 60 + part 13) * 1000 + ms
  if shaped restMask (rest.take 15) ∧ (1 ≤ part 1 ∧ part 1 ≤ 12) ∧ (1 ≤ part 4 ∧ part 4 ≤ 31) ∧
      (part 7 ≤ 23 ∨ (part 7 = 24 ∧ part 10 = 0 ∧ part 13 = 0 ∧ ms = 0)) ∧ part 10 ≤ 59 ∧
        part 13 ≤ 59 ∧
      -8640000000000000 ≤ t ∧ t ≤ 8640000000000000 then some t
  else none

theorem daysToYear_bounds (year : ℤ) :
    146097 * year - 396 ≤ 400 * daysToYear year ∧ 400 * daysToYear year ≤ 146097 * year + 699 := by
  unfold daysToYear
  omega

theorem yearOf_spec (day : ℤ) : daysToYear (yearOf day) ≤ day ∧ day < daysToYear
    (yearOf day + 1) := by
  have here := daysToYear_bounds (day * 400 / 146097 - 1)
  have later := daysToYear_bounds (day * 400 / 146097 + 1 + 1)
  unfold yearOf
  dsimp only
  split
  · omega
  · split
    · rw [Int.sub_add_cancel]
      omega
    · omega

theorem isDigit_add {k : ℕ} (small : k < 10) : isDigit (48 + k) = true := by
  unfold isDigit; simp; omega

theorem daysToYear_succ (year : ℤ) :
    daysToYear (year + 1) = daysToYear year + if isLeap year then 366 else 365 := by
  unfold daysToYear isLeap
  simp
  split <;> omega

theorem calendar : ∀ leap : Bool, ∀ day < 366, day < (if leap then 366 else 365) →
    (1 ≤ monthOf leap day ∧ monthOf leap day ≤ 12) ∧ daysToMonth leap (monthOf leap day) ≤ day ∧
      day - daysToMonth leap (monthOf leap day) < 31 := by
  decide +kernel

theorem number_pad2 {n : ℕ} (small : n < 100) : number (pad2 n) = n := by
  simp [pad2, number]
  omega
theorem number_pad3 {n : ℕ} (small : n < 1000) : number (pad3 n) = n := by
  simp [pad3, number]
  omega
theorem number_pad4 {n : ℕ} (small : n < 10000) : number (pad4 n) = n := by
  simp [pad4, number]
  omega

theorem readYear_yearText {year : ℤ} (small : year.natAbs < 1000000) (rest : Text) :
    readYear (yearText year ++ rest) = some (year, rest) := by
  unfold yearText
  split
  · rename_i plain
    have value := number_pad4 (n := year.toNat) (by omega)
    have digits : (pad4 year.toNat).all isDigit = true := by
      simp only [pad4, List.all_cons, List.all_nil, Bool.and_true, Bool.and_eq_true]
      refine ⟨?_, ?_, ?_, ?_⟩ <;> exact isDigit_add (Nat.mod_lt _ (by decide))
    have unsigned : ¬((pad4 year.toNat ++ rest).head? = some 43 ∨
        (pad4 year.toNat ++ rest).head? = some 45) := by
      simp only [pad4, List.cons_append, List.head?_cons, Option.some.injEq]
      omega
    have taken : (pad4 year.toNat ++ rest).take 4 = pad4 year.toNat := rfl
    have left : (pad4 year.toNat ++ rest).drop 4 = rest := rfl
    rw [readYear, if_neg unsigned]
    simp only [taken, left, digits, value]
    simp [pad4]
    omega
  · rename_i signed
    have digits : (pad2 (year.natAbs / 10000) ++ pad4 year.natAbs).all isDigit = true := by
      simp only [pad2, pad4, List.all_cons, List.all_nil, List.cons_append, List.nil_append,
        Bool.and_true,
        Bool.and_eq_true]
      refine ⟨?_, ?_, ?_, ?_, ?_, ?_⟩ <;> exact isDigit_add (Nat.mod_lt _ (by decide))
    have value : number (pad2 (year.natAbs / 10000) ++ pad4 year.natAbs) = year.natAbs := by
      simp [pad2, pad4, number]
      omega
    obtain ⟨k, sign, same⟩ : ∃ k, ((k = 45 ∧ year < 0) ∨ (k = 43 ∧ 0 ≤ year)) ∧
        (if year < 0 then 45 else 43) = k := by
      by_cases negative : year < 0
      · exact ⟨45, .inl ⟨rfl, negative⟩, if_pos negative⟩
      · exact ⟨43, .inr ⟨rfl, by omega⟩, if_neg negative⟩
    rw [same]
    have marked : ((k :: (pad2 (year.natAbs / 10000) ++ pad4 year.natAbs)) ++ rest).head? =
        some 43 ∨
        ((k :: (pad2 (year.natAbs / 10000) ++ pad4 year.natAbs)) ++ rest).head? = some 45 := by
      simp only [List.cons_append, List.head?_cons, Option.some.injEq]
      omega
    have taken : ((k :: (pad2 (year.natAbs / 10000) ++ pad4 year.natAbs) ++ rest).drop 1).take 6 =
        pad2 (year.natAbs / 10000) ++ pad4 year.natAbs := rfl
    have left : (k :: (pad2 (year.natAbs / 10000) ++ pad4 year.natAbs) ++ rest).drop 7 = rest := rfl
    have first : (k :: (pad2 (year.natAbs / 10000) ++ pad4 year.natAbs) ++ rest).head? =
        some k := rfl
    rw [readYear, if_pos marked]
    simp only [taken, left, digits, value, first, Option.some.injEq]
    rcases sign with ⟨rfl, negative⟩ | ⟨rfl, positive⟩
    · have value : -(year.natAbs : ℤ) = year := by omega
      have positive : year.natAbs ≠ 0 := by omega
      have six : (pad2 (year.natAbs / 10000) ++ pad4 year.natAbs).length = 6 := rfl
      rw [if_pos ⟨six, trivial, fun zero => positive zero.2⟩, if_pos rfl, value]
    · have value : (year.natAbs : ℤ) = year := by omega
      have other : (43 : ℕ) ≠ 45 := by decide
      have six : (pad2 (year.natAbs / 10000) ++ pad4 year.natAbs).length = 6 := rfl
      rw [if_pos ⟨six, trivial, fun minus => other minus.1⟩, if_neg other, value]

/-- The millisecond of the day, in its parts. -/
theorem clock (ms : ℕ) : ((ms / 3600000 * 60 + ms / 60000 % 60) * 60 + ms / 1000 % 60) * 1000 +
    ms % 1000 = ms := by
  omega

theorem natAbs_yearOf {t : ℤ} (low : -8640000000000000 ≤ t) (high : t ≤ 8640000000000000) :
    (yearOf (dayOf t)).natAbs < 1000000 := by
  have placed := yearOf_spec (dayOf t)
  have here := daysToYear_bounds (yearOf (dayOf t))
  have next := daysToYear_bounds (yearOf (dayOf t) + 1)
  have day : -99280472 ≤ dayOf t ∧ dayOf t ≤ 100719528 := by
    unfold dayOf msPerDay epochDay
    omega
  omega


/-- What follows the year: the date, the time and its zone. -/
def timeText (month date ms : ℕ) : Text :=
  45 :: (pad2 month ++
    (45 :: (pad2 date ++ (84 :: (pad2 (ms / 3600000) ++ (58 :: (pad2 (ms / 60000 % 60) ++
    (58 :: (pad2 (ms / 1000 % 60) ++ (46 :: (pad3 (ms % 1000) ++ [90])))))))))))

theorem shaped_timeText (month date ms : ℕ) : shaped restMask
    ((timeText month date ms).take 15) = true := by
  have digit : ∀ k, isDigit (48 + k % 10) = true := fun k => isDigit_add (Nat.mod_lt _ (by decide))
  simp [shaped, restMask, timeText, pad2, digit]

theorem readFraction_timeText (month date ms : ℕ) :
    readFraction ((timeText month date ms).drop 15) = some (ms % 1000, [90]) := by
  have digit : ∀ k, isDigit (48 + k % 10) = true := fun k => isDigit_add (Nat.mod_lt _ (by decide))
  have dropped : (timeText month date ms).drop 15 = 46 :: (pad3 (ms % 1000) ++ [90]) := rfl
  have digits : (pad3 (ms % 1000) ++ [90]).takeWhile isDigit = pad3 (ms % 1000) := by
    have stop : isDigit 90 = false := rfl
    simp only [pad3, List.cons_append, List.nil_append, List.takeWhile_cons, digit, stop,
      if_true, if_false,
      Bool.false_eq_true]
  have value := number_pad3 (Nat.mod_lt ms (show 0 < 1000 by decide))
  rw [dropped, readFraction, if_pos (List.head?_cons ..)]
  simp only [List.drop_succ_cons, List.drop_zero, digits]
  rw [if_neg (by simp [pad3])]
  have padded : (pad3 (ms % 1000) ++ [48, 48]).take 3 = pad3 (ms % 1000) := rfl
  rw [padded, value]
  rfl

/-- Any date reads back from its ISO text. -/
theorem dateParse_toISOString {t : ℤ} (low : -8640000000000000 ≤ t) (high : t ≤ 8640000000000000) :
    dateParse (toISOString t) = some t := by
  obtain ⟨begun, before⟩ := yearOf_spec (dayOf t)
  rw [daysToYear_succ] at before
  have ends : (dayOf t - daysToYear (yearOf (dayOf t))).toNat <
      if isLeap (yearOf (dayOf t)) then 366 else 365 := by
    split at before <;> split <;> omega
  have inYear : (dayOf t - daysToYear (yearOf (dayOf t))).toNat < 366 := by
    split at ends <;> omega
  obtain ⟨months, first, date⟩ := calendar _ _ inYear ends
  have written : toISOString t = yearText (yearOf (dayOf t)) ++
      timeText (monthOf (isLeap (yearOf (dayOf t))) (dayOf t - daysToYear (yearOf (dayOf t))).toNat)
        ((dayOf t - daysToYear (yearOf (dayOf t))).toNat - daysToMonth (isLeap (yearOf (dayOf t)))
          (monthOf (isLeap (yearOf (dayOf t))) (dayOf t - daysToYear (yearOf (dayOf t))).toNat) + 1)
        (t % msPerDay).toNat := rfl
  have year := readYear_yearText (natAbs_yearOf low high)
  have begins : daysToYear (yearOf (dayOf t)) + (dayOf t - daysToYear (yearOf (dayOf t))).toNat =
      dayOf t := by
    omega
  have small : (t % msPerDay).toNat < 86400000 := by
    unfold msPerDay
    omega
  have whole : (dayOf t - epochDay) * msPerDay + (t % msPerDay).toNat = t := by
    unfold dayOf epochDay msPerDay
    omega
  rw [written]
  generalize yearOf (dayOf t) = y at *
  generalize (dayOf t - daysToYear y).toNat = d at *
  generalize monthOf (isLeap y) d = m at *
  generalize (t % msPerDay).toNat = ms at *
  have one : number (((timeText m (d - daysToMonth (isLeap y) m + 1) ms).drop 1).take 2) = m :=
    number_pad2 (by omega)
  have four : number (((timeText m (d - daysToMonth (isLeap y) m + 1) ms).drop 4).take 2) =
      d - daysToMonth (isLeap y) m + 1 := number_pad2 (by omega)
  have seven : number (((timeText m (d - daysToMonth (isLeap y) m + 1) ms).drop 7).take 2) =
      ms / 3600000 :=
    number_pad2 (by omega)
  have ten : number (((timeText m (d - daysToMonth (isLeap y) m + 1) ms).drop 10).take 2) =
      ms / 60000 % 60 :=
    number_pad2 (by omega)
  have thirteen : number (((timeText m (d - daysToMonth (isLeap y) m + 1) ms).drop 13).take 2) =
      ms / 1000 % 60 :=
    number_pad2 (by omega)
  have zone : readZone [90] = some 0 := rfl
  have total := clock ms
  have value : (daysToYear y + daysToMonth (isLeap y) m + (d - daysToMonth (isLeap y) m + 1 : ℕ) -
      1 - epochDay) * msPerDay +
      (((ms / 3600000 : ℕ) * 60 + (ms / 60000 % 60 : ℕ) - 0) * 60 + (ms / 1000 % 60 : ℕ)) * 1000 +
      (ms % 1000 : ℕ) = t := by
    have day : daysToYear y + daysToMonth (isLeap y) m + (d - daysToMonth (isLeap y) m + 1 : ℕ) -
        1 = dayOf t := by
      omega
    rw [day]
    omega
  simp only [dateParse, year, readFraction_timeText, zone, Option.bind_eq_bind, Option.bind_some,
    one, four, seven,
    ten, thirteen, value]
  rw [if_pos]
  exact ⟨shaped_timeText _ _ _, months, ⟨by omega, by omega⟩, .inl (by omega), by omega, by
    omega, low, high⟩

theorem dateParse_bounds {s : Text} {t : ℤ} (parsed : dateParse s = some t) :
    -8640000000000000 ≤ t ∧ t ≤ 8640000000000000 := by
  simp only [dateParse, bind, Option.bind_eq_some_iff] at parsed
  obtain ⟨year, -, fraction, -, offset, -, kept⟩ := parsed
  split at kept
  · rename_i held
    cases kept
    exact held.2.2.2.2.2.2
  · cases kept

/-- A text whose year is written plain. -/
theorem toISOString_plain {t : ℤ} (digit : ∀ c ∈ (toISOString t).head?, isDigit c = true) :
    ∃ year month date ms, toISOString t = pad4 year ++ timeText month date ms := by
  have written : ∃ month date ms, toISOString t = yearText (yearOf (dayOf t)) ++
      timeText month date ms :=
    ⟨_, _, _, rfl⟩
  obtain ⟨month, date, ms, whole⟩ := written
  rw [whole] at digit ⊢
  unfold yearText at digit ⊢
  split
  · exact ⟨_, month, date, ms, rfl⟩
  · rename_i large
    rw [if_neg large] at digit
    have sign := digit _ rfl
    split at sign <;> cases sign

end Metahumotonic.Library.IsoDate
