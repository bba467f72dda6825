import Metahumotonic.Library.IsoDate
import Mathlib.Data.List.Lex

/-! How ISO texts are ordered as texts: within the years of four digits like the dates themselves,
and the years with a sign before all of these. -/
namespace Metahumotonic.Library.IsoDate

theorem append_lt {xs ys : Text} (less : xs < ys) (same : xs.length = ys.length) (us vs : Text) :
    xs ++ us < ys ++ vs := by
  induction xs generalizing ys with
  | nil =>
    cases ys with
    | nil => exact absurd less (lt_irrefl _)
    | cons y ys => cases same
  | cons x xs ih =>
    cases ys with
    | nil => cases same
    | cons y ys =>
      rw [List.cons_append, List.cons_append, List.cons_lt_cons_iff]
      rcases List.cons_lt_cons_iff.mp less with first | ⟨rfl, later⟩
      · exact .inl first
      · exact .inr ⟨rfl, ih later (Nat.succ_inj.mp same)⟩

theorem pad2_lt {m n : ℕ} (less : m < n) (small : n < 100) : pad2 m < pad2 n := by
  simp only [pad2, List.cons_lt_cons_iff, List.not_lt_nil, and_false, or_false]
  omega

theorem pad3_lt {m n : ℕ} (less : m < n) (small : n < 1000) : pad3 m < pad3 n := by
  simp only [pad3, List.cons_lt_cons_iff, List.not_lt_nil, and_false, or_false]
  omega

theorem pad4_lt {m n : ℕ} (less : m < n) (small : n < 10000) : pad4 m < pad4 n := by
  have split : ∀ k, pad4 k = (48 + k / 1000 % 10) :: pad3 k := fun _ => rfl
  rw [split, split, List.cons_lt_cons_iff]
  by_cases thousand : m / 1000 < n / 1000
  · exact .inl (by omega)
  · right
    refine ⟨by omega, ?_⟩
    have inside := pad3_lt (m := m % 1000) (n := n % 1000) (by omega) (by omega)
    have cut : ∀ k, pad3 (k % 1000) = pad3 k := by
      intro k
      simp only [pad3, List.cons.injEq, and_true]
      omega
    rwa [cut, cut] at inside

/-- The time of a day, with its zone. -/
def clockText (ms : ℕ) : Text :=
  84 :: (pad2 (ms / 3600000) ++ (58 :: (pad2 (ms / 60000 % 60) ++ (58 :: (pad2 (ms / 1000 % 60) ++
    (46 :: (pad3 (ms % 1000) ++ [90])))))))

theorem clockText_lt {m n : ℕ} (less : m < n) (small : n < 86400000) :
    clockText m < clockText n := by
  unfold clockText
  refine List.cons_lt_cons_self.mpr ?_
  by_cases hour : m / 3600000 < n / 3600000
  · exact append_lt (pad2_lt hour (by omega)) rfl _ _
  · have hours : m / 3600000 = n / 3600000 := by omega
    rw [hours]
    refine List.append_left_lt (List.cons_lt_cons_self.mpr ?_)
    by_cases minute : m / 60000 % 60 < n / 60000 % 60
    · exact append_lt (pad2_lt minute (by omega)) rfl _ _
    · have minutes : m / 60000 % 60 = n / 60000 % 60 := by omega
      rw [minutes]
      refine List.append_left_lt (List.cons_lt_cons_self.mpr ?_)
      by_cases second : m / 1000 % 60 < n / 1000 % 60
      · exact append_lt (pad2_lt second (by omega)) rfl _ _
      · have seconds : m / 1000 % 60 = n / 1000 % 60 := by omega
        rw [seconds]
        have rest : m % 1000 < n % 1000 := by omega
        refine List.append_left_lt (List.cons_lt_cons_self.mpr ?_)
        exact append_lt (pad3_lt rest (Nat.mod_lt n (by decide))) rfl _ _

/-- Month and date of a day in its year. -/
def dateText (leap : Bool) (day : ℕ) : Text :=
  45 :: (pad2 (monthOf leap day) ++ (45 :: pad2 (day - daysToMonth leap (monthOf leap day) + 1)))

theorem monthOf_mono (leap : Bool) {d e : ℕ} (le : d ≤ e) : monthOf leap d ≤ monthOf leap e := by
  unfold monthOf
  rw [← List.countP_eq_length_filter, ← List.countP_eq_length_filter]
  apply List.countP_mono_left
  intro i _ begun
  rw [decide_eq_true_eq] at begun ⊢
  exact begun.trans le

theorem dateText_lt {leap : Bool} {d e : ℕ} (less : d < e) (bound : e < if leap then 366 else 365) :
    dateText leap d < dateText leap e := by
  have year : e < 366 := by
    split at bound <;> omega
  obtain ⟨months, first, date⟩ := calendar leap e year bound
  obtain ⟨-, first', -⟩ := calendar leap d (less.trans year) (less.trans bound)
  have mono := monthOf_mono leap less.le
  unfold dateText
  refine List.cons_lt_cons_self.mpr ?_
  by_cases month : monthOf leap d < monthOf leap e
  · exact append_lt (pad2_lt month (by omega)) rfl _ _
  · have same : monthOf leap d = monthOf leap e := by omega
    rw [same] at first' ⊢
    refine List.append_left_lt (List.cons_lt_cons_self.mpr ?_)
    exact pad2_lt (by omega) (by omega)

theorem yearOf_mono {d e : ℤ} (le : d ≤ e) : yearOf d ≤ yearOf e := by
  by_contra beyond
  have early := (yearOf_spec d).1
  have late := (yearOf_spec e).2
  have before : daysToYear (yearOf e + 1) ≤ daysToYear (yearOf d) := by
    have next : yearOf e + 1 ≤ yearOf d := by omega
    unfold daysToYear
    omega
  omega

def dayInYear (day : ℤ) : ℕ := (day - daysToYear (yearOf day)).toNat

theorem dayInYear_bound (day : ℤ) : dayInYear day < if isLeap (yearOf day) then 366 else 365 := by
  obtain ⟨begun, before⟩ := yearOf_spec day
  rw [daysToYear_succ] at before
  unfold dayInYear
  split at before <;> split <;> omega

theorem toISOString_eq (t : ℤ) : toISOString t = yearText (yearOf (dayOf t)) ++
    (dateText (isLeap (yearOf (dayOf t))) (dayInYear (dayOf t)) ++ clockText
      (t % msPerDay).toNat) := rfl

/-- In one year, or where the year's texts are ordered, the texts are ordered like the dates. -/
theorem toISOString_lt {t u : ℤ} (less : t < u)
    (years : yearOf (dayOf t) < yearOf (dayOf u) → yearText (yearOf (dayOf t)) < yearText
      (yearOf (dayOf u)))
    (width : (yearText (yearOf (dayOf t))).length = (yearText (yearOf (dayOf u))).length) :
    toISOString t < toISOString u := by
  have days : dayOf t ≤ dayOf u := by
    unfold dayOf msPerDay
    omega
  have later := yearOf_mono days
  rw [toISOString_eq, toISOString_eq]
  by_cases year : yearOf (dayOf t) < yearOf (dayOf u)
  · exact append_lt (years year) width _ _
  · have same : yearOf (dayOf t) = yearOf (dayOf u) := by omega
    rw [same]
    refine List.append_left_lt ?_
    by_cases day : dayOf t < dayOf u
    · have begun := (yearOf_spec (dayOf t)).1
      have start : daysToYear (yearOf (dayOf t)) = daysToYear (yearOf (dayOf u)) := by rw [same]
      have sooner : dayInYear (dayOf t) < dayInYear (dayOf u) := by
        unfold dayInYear
        omega
      have bound := dayInYear_bound (dayOf u)
      exact append_lt (dateText_lt sooner bound) rfl _ _
    · have today : dayOf t = dayOf u := by omega
      rw [today]
      refine List.append_left_lt (clockText_lt ?_ ?_)
      all_goals
        unfold dayOf msPerDay at *
        omega

theorem le_yearOf_iff (year day : ℤ) : year ≤ yearOf day ↔ daysToYear year ≤ day := by
  obtain ⟨begun, before⟩ := yearOf_spec day
  have mono : ∀ a b : ℤ, a ≤ b → daysToYear a ≤ daysToYear b := by
    intro a b le
    unfold daysToYear
    omega
  constructor
  · intro reached
    exact Int.le_trans (mono _ _ reached) begun
  · intro passed
    by_contra beyond
    have := mono (yearOf day + 1) year (by omega)
    omega

/-- Years past 9999 are written with a plus and come first, years before 0 with a minus. -/
def textRank (t : ℤ) : ℕ := if 253402300800000 ≤ t then 0 else if t < -62167219200000 then 1 else 2

/-- How the texts of two dates are ordered. -/
def ShownBefore (t u : ℤ) : Prop := textRank t < textRank u ∨ (textRank t = textRank u ∧ t < u)

instance (t u : ℤ) : Decidable (ShownBefore t u) := inferInstanceAs (Decidable (_ ∨ _))

/-- From the year before 0 to the year after 9999. -/
def NearCalendar (t : ℤ) : Prop := -62198755200000 ≤ t ∧ t < 253433923200000

theorem year_of_rank {t : ℤ} (near : NearCalendar t) :
    (textRank t = 0 ∧ yearOf (dayOf t) = 10000) ∨ (textRank t = 1 ∧ yearOf (dayOf t) = -1) ∨
      (textRank t = 2 ∧ 0 ≤ yearOf (dayOf t) ∧ yearOf (dayOf t) ≤ 9999) := by
  have low := le_yearOf_iff (-1) (dayOf t)
  have zero := le_yearOf_iff 0 (dayOf t)
  have myriad := le_yearOf_iff 10000 (dayOf t)
  have high := le_yearOf_iff 10001 (dayOf t)
  have day : dayOf t = t / 86400000 + 719528 := rfl
  have fixed : daysToYear (-1) = -365 ∧ daysToYear 0 = 0 ∧ daysToYear 10000 = 3652425 ∧
      daysToYear 10001 = 3652791 := by decide
  rw [fixed.1] at low
  rw [fixed.2.1] at zero
  rw [fixed.2.2.1] at myriad
  rw [fixed.2.2.2] at high
  unfold textRank
  unfold NearCalendar at near
  split
  · left
    omega
  · right
    split <;> omega

/-- The first sign of a text shows the rank. -/
theorem first_of_rank {t : ℤ} (near : NearCalendar t) : ∃ c rest, toISOString t = c :: rest ∧
    ((textRank t = 0 ∧ c = 43) ∨ (textRank t = 1 ∧ c = 45) ∨ (textRank t = 2 ∧ 48 ≤ c)) := by
  rw [toISOString_eq]
  rcases year_of_rank near with ⟨rank, year⟩ | ⟨rank, year⟩ | ⟨rank, low, high⟩
  · rw [year]
    exact ⟨43, _, rfl, .inl ⟨rank, rfl⟩⟩
  · rw [year]
    exact ⟨45, _, rfl, .inr (.inl ⟨rank, rfl⟩)⟩
  · rw [yearText, if_pos ⟨low, high⟩]
    exact ⟨_, _, rfl, .inr (.inr ⟨rank, Nat.le_add_right 48 _⟩)⟩

theorem toISOString_lt_of {t u : ℤ} (nearT : NearCalendar t) (nearU : NearCalendar u)
    (before : ShownBefore t u) :
    toISOString t < toISOString u := by
  rcases before with rank | ⟨rank, less⟩
  · obtain ⟨c, rest, shownT, firstT⟩ := first_of_rank nearT
    obtain ⟨d, others, shownU, firstU⟩ := first_of_rank nearU
    rw [shownT, shownU, List.cons_lt_cons_iff]
    omega
  · have days := year_of_rank nearT
    have later := year_of_rank nearU
    have width : ∀ year : ℤ, 0 ≤ year → year ≤ 9999 → yearText year = pad4 year.toNat :=
      fun year low high =>
      if_pos ⟨low, high⟩
    apply toISOString_lt less
    · intro years
      have plain : 0 ≤ yearOf (dayOf t) ∧ yearOf (dayOf u) ≤ 9999 := by omega
      rw [width _ plain.1 (by omega), width _ (by omega) plain.2]
      exact pad4_lt (by omega) (by omega)
    · by_cases same : yearOf (dayOf t) = yearOf (dayOf u)
      · rw [same]
      · rw [width _ (by omega) (by omega), width _ (by omega) (by omega)]
        rfl

theorem toISOString_lt_iff {t u : ℤ} (nearT : NearCalendar t) (nearU : NearCalendar u) :
    toISOString t < toISOString u ↔ ShownBefore t u := by
  constructor
  · intro less
    by_contra other
    by_cases same : t = u
    · rw [same] at less
      exact lt_irrefl _ less
    · have turned : ShownBefore u t := by
        unfold ShownBefore at other ⊢
        omega
      exact lt_asymm less (toISOString_lt_of nearU nearT turned)
  · exact toISOString_lt_of nearT nearU

end Metahumotonic.Library.IsoDate
