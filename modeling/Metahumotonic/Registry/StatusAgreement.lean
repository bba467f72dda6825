import Metahumotonic.Library.Positions
import Metahumotonic.Registry.Status

/-! When the two registry reports agree. -/
namespace Metahumotonic.Registry

open Library IsoDate

/-- The instant of an ISO text, in microseconds. -/
def instantOf (text : Option Text) : Option ℤ := (text.bind dateParse).map (· * 1000)

structure RowsAgree (a : Row Text) (b : Row ℤ) : Prop where
  badge : a.badge = b.badge
  stale : a.stale = b.stale
  lastCheck : instantOf a.lastCheckAt = b.lastCheckAt

/-- The reports give every item the same row, the same counts and the same last verification. -/
structure ReportsAgree (zone : TimeZone) (localeCompare : Text → Text → Bool)
    (items : List Item) (now : ℤ) :
    Prop where
  rows : ∀ item ∈ items, RowsAgree (registryRow zone now item) (statusRow now item)
  summary : (registryStatus zone now localeCompare items).summary =
    (statusPayload now items).summary
  lastVerify : instantOf (registryStatus zone now localeCompare items).lastVerifyAt =
    (statusPayload now items).lastVerifyAt

/-- Python reads it: no year 0, and no hour 24. -/
def IsoText.Readable (s : IsoText) : Prop := s.year ≠ 0 ∧ ∀ clock ∈ s.clock, clock.hour ≠ 24

/-- What the text denotes in microseconds, where a time without offset is in UTC. -/
def IsoText.instant (s : IsoText) : ℤ :=
  match s.clock with
  | none => s.midnight * 1000
  | some clock => s.midnight * 1000 + clock.ofDay * 1000000 + fractionUnits 6 clock.fraction -
      ((clock.offset.map Offset.minutes).getD 0) * 60000000

/-- Nothing is lost in JavaScript: no digit of a microsecond, and no offset that the server's zone
supplies. -/
def IsoText.Kept (zone : TimeZone) (s : IsoText) : Prop :=
  ∀ clock ∈ s.clock, (∀ d ∈ (clock.fraction.drop 3).take 3, d = 0) ∧
    (clock.offset = none →
      zone.toUtc (s.midnight + clock.ofDay * 1000 + fractionUnits 3 clock.fraction) =
      s.midnight + clock.ofDay * 1000 + fractionUnits 3 clock.fraction)

section
variable {zone : TimeZone} {s : IsoText}

theorem fractionUnits_lt {digits : List ℕ} (small : ∀ d ∈ digits, d < 10) (k : ℕ) :
    fractionUnits k digits < Nat.pow 10 k := by
  induction k generalizing digits with
  | zero => exact Nat.one_pos
  | succ k ih =>
    cases digits with
    | nil => exact Nat.pow_pos (by decide)
    | cons d rest =>
      have first := small d List.mem_cons_self
      have tail := ih fun e inside => small e (List.mem_cons_of_mem _ inside)
      have step : Nat.pow 10 (k + 1) = Nat.pow 10 k * 10 := rfl
      have scaled : d * Nat.pow 10 k ≤ 9 * Nat.pow 10 k := Nat.mul_le_mul_right _ (by omega)
      rw [fractionUnits, step]
      omega

theorem fractionUnits_zero {digits : List ℕ} {k : ℕ} :
    fractionUnits k digits = 0 ↔ ∀ d ∈ digits.take k, d = 0 := by
  induction k generalizing digits with
  | zero => simp [fractionUnits]
  | succ k ih =>
    cases digits with
    | nil => simp [fractionUnits]
    | cons d rest =>
      rw [fractionUnits, Nat.add_eq_zero_iff, ih, List.take_succ_cons, List.forall_mem_cons,
        Nat.mul_eq_zero]
      simp

/-- Six digits are three and then three more. -/
theorem fractionUnits_six (digits : List ℕ) :
    fractionUnits 6 digits = 1000 * fractionUnits 3 digits + fractionUnits 3 (digits.drop 3) := by
  have hundred : Nat.pow 10 2 = 100 ∧ Nat.pow 10 5 = 100000 ∧ Nat.pow 10 4 = 10000 ∧
      Nat.pow 10 3 = 1000 ∧
      Nat.pow 10 1 = 10 ∧ Nat.pow 10 0 = 1 := by decide
  obtain ⟨two, five, four, three, unit, nothing⟩ := hundred
  rcases digits with _ | ⟨a, _ | ⟨b, _ | ⟨c, rest⟩⟩⟩ <;>
    simp only [fractionUnits, two, five, four, three, unit, nothing, List.drop_nil,
      List.drop_succ_cons,
      List.drop_zero] <;> omega

/-- From the first day of year 0 to the last one of year 9999. -/
theorem midnight_bounds (s : IsoText) : -62167219200000 ≤ s.midnight ∧
    s.midnight ≤ 253402214400000 := by
  have tables : ∀ leap : Bool, ∀ m < 13, daysToMonth leap (m + 1) ≤ if leap then 366
      else 365 := by decide
  have ends := tables (isLeap s.year) s.month (by have := s.months; omega)
  have days := s.days
  have years := s.years
  have next := daysToYear_succ s.year
  have first : daysToYear 0 ≤ daysToYear s.year := by
    unfold daysToYear
    omega
  have last : daysToYear (s.year + 1) ≤ daysToYear 10000 := by
    unfold daysToYear
    omega
  have fixed : daysToYear 0 = 0 ∧ daysToYear 10000 = 3652425 := by decide
  have inYear : (daysToMonth (isLeap s.year) s.month + s.day : ℤ) ≤ if isLeap s.year then 366
      else 365 := by
    split at ends <;> split <;> omega
  unfold IsoText.midnight msPerDay epochDay
  omega

theorem ofDay_le (clock : Clock) : clock.ofDay * 1000 + fractionUnits 3 clock.fraction ≤
    86400000 := by
  have minutes := clock.minutes
  have seconds := clock.seconds
  have fraction := fractionUnits_lt clock.digits 3
  have thousand : Nat.pow 10 3 = 1000 := by decide
  have zero : (∀ d ∈ clock.fraction, d = 0) → fractionUnits 3 clock.fraction = 0 := fun all =>
    fractionUnits_zero.mpr fun d member => all d (List.mem_of_mem_take member)
  unfold Clock.ofDay
  rcases clock.hours with early | ⟨hour, minute, second, digits⟩
  · omega
  · have := zero digits
    omega

theorem newDate_near (zone : TimeZone) (s : IsoText) : NearCalendar (newDate zone s) := by
  have midnight := midnight_bounds s
  unfold NearCalendar newDate
  cases s.clock with
  | none =>
    dsimp only
    omega
  | some clock =>
    have inDay := ofDay_le clock
    dsimp only
    cases clock.offset with
    | none =>
      have shift := zone.near (s.midnight + clock.ofDay * 1000 + fractionUnits 3 clock.fraction)
      dsimp only
      omega
    | some offset =>
      have shift := offset.bounds
      dsimp only
      omega

theorem iso_some (zone : TimeZone) (s : IsoText) :
    iso zone (some s) = some (toISOString (newDate zone s)) := by
  have near := newDate_near zone s
  unfold NearCalendar at near
  unfold iso
  exact if_pos (by omega)

theorem dateParse_newDate (zone : TimeZone) (s : IsoText) :
    dateParse (toISOString (newDate zone s)) = some (newDate zone s) := by
  have near := newDate_near zone s
  unfold NearCalendar at near
  exact dateParse_toISOString (by omega) (by omega)

theorem instantOf_iso (zone : TimeZone) (s : IsoText) :
    instantOf (some (toISOString (newDate zone s))) = some (newDate zone s * 1000) := by
  rw [instantOf, Option.bind_some, dateParse_newDate, Option.map_some]

instance (s : IsoText) : Decidable s.Readable := inferInstanceAs (Decidable (_ ∧ _))

theorem parseTs_some (s : IsoText) : parseTs (some s) = if s.Readable then some s.instant
    else none := by
  obtain ⟨year, month, day, clock, -, -, -⟩ := s
  cases clock with
  | none => by_cases first : year = 0 <;>
    simp [parseTs, fromisoformat, dateFromisoformat, IsoText.Readable,
      IsoText.instant, IsoText.midnight, first]
  | some clock => by_cases first : year = 0 <;> by_cases hour : clock.hour = 24 <;>
    simp [parseTs, fromisoformat,
      dateFromisoformat, IsoText.Readable, IsoText.instant, IsoText.midnight, first, hour]

/-- JavaScript reads the instant that the text denotes exactly where nothing is lost. -/
theorem newDate_eq_iff (zone : TimeZone) (s : IsoText) : newDate zone s * 1000 = s.instant ↔
    s.Kept zone := by
  unfold newDate IsoText.instant IsoText.Kept
  cases s.clock with
  | none => simp
  | some clock =>
    have six := fractionUnits_six clock.fraction
    have later := fractionUnits_lt
      (fun d member => clock.digits d (List.mem_of_mem_drop (i := 3) member)) 3
    have thousand : Nat.pow 10 3 = 1000 := by decide
    rw [thousand] at later
    simp only [Option.mem_def, Option.some.injEq, forall_eq', ← fractionUnits_zero]
    cases clock.offset with
    | none =>
      simp only [Option.map_none, Option.getD_none, true_implies]
      omega
    | some offset =>
      simp only [Option.map_some, Option.getD_some, reduceCtorEq, false_implies, and_true]
      omega

end

/-! ### The reports -/

section
variable (zone : TimeZone) (now : ℤ)

theorem registry_lastVerify (items : List Item) (report : Report Text) :
    (items.foldl (registryStep zone now) report).lastVerifyAt =
      (items.map fun item => iso zone item.lastProbeAt).foldl later report.lastVerifyAt := by
  induction items generalizing report with
  | nil => rfl
  | cons item rest ih => rw [List.foldl_cons, ih, List.map_cons, List.foldl_cons, registryStep]

theorem payload_lastVerify (items : List Item) (report : Report ℤ) :
    (items.foldl (statusStep now) report).lastVerifyAt =
      (items.map fun item => parseTs item.lastProbeAt).foldl later report.lastVerifyAt := by
  induction items generalizing report with
  | nil => rfl
  | cons item rest ih => rw [List.foldl_cons, ih, List.map_cons, List.foldl_cons, statusStep]

/-- How many items have a row that meets a condition. -/
def counted {ι : Type} (row : Item → Row ι) (items : List Item) (met : Row ι → Bool) : ℕ :=
  items.countP fun item => met (row item)

theorem registry_summary (items : List Item) (report : Report Text) :
    (items.foldl (registryStep zone now) report).summary =
      { total := report.summary.total
        verified := report.summary.verified + counted (registryRow zone now) items fun row =>
          row.status = lit "verified"
        available := report.summary.available +
          counted (registryRow zone now) items fun row => row.status = lit "available"
        down := report.summary.down + counted (registryRow zone now) items fun row =>
          row.badge = lit "down"
        unused := report.summary.unused + counted (registryRow zone now) items fun row =>
          row.status = lit "unused"
        stale := report.summary.stale + counted (registryRow zone now) items fun row =>
          row.badge = lit "stale" } := by
  induction items generalizing report with
  | nil => rfl
  | cons item rest ih =>
    rw [List.foldl_cons, ih, registryStep]
    simp only [counted, List.countP_cons, one, decide_eq_true_eq, Summary.mk.injEq, true_and]
    omega

/-- One branch is taken at most. -/
theorem count_eq (counts : Summary) (status : Text) (stale : Bool) : counts.count status stale =
    { total := counts.total
      verified := counts.verified + one (status = lit "verified")
      available := counts.available + one (status = lit "available")
      down := counts.down + one (status = lit "unreachable")
      unused := counts.unused + one (status = lit "unused")
      stale := counts.stale + one ((status = lit "verified" && stale) = true) } := by
  have differ : lit "unreachable" ≠ lit "verified" ∧ lit "unreachable" ≠ lit "unused" ∧
      lit "unreachable" ≠ lit "available" ∧ lit "verified" ≠ lit "unused" ∧
        lit "verified" ≠ lit "available" ∧
      lit "unused" ≠ lit "available" := by decide
  obtain ⟨uv, uu, ua, vu, va, na⟩ := differ
  unfold Summary.count
  split
  · rename_i same
    subst same
    simp [one, uv, uu, ua]
  · split
    · rename_i same
      subst same
      cases stale <;> simp [one, uv.symm, vu, va]
    · split
      · rename_i same
        subst same
        simp [one, uu.symm, vu.symm, na]
      · split
        · rename_i same
          subst same
          simp [one, ua.symm, va.symm, na.symm]
        · rename_i a b c d
          simp [one, a, b, c, d]

theorem payload_summary (items : List Item) (report : Report ℤ) :
    (items.foldl (statusStep now) report).summary =
      { total := report.summary.total
        verified := report.summary.verified + counted (statusRow now) items fun row =>
          row.status = lit "verified"
        available := report.summary.available + counted (statusRow now) items fun row =>
          row.status = lit "available"
        down := report.summary.down + counted (statusRow now) items fun row =>
          row.status = lit "unreachable"
        unused := report.summary.unused + counted (statusRow now) items fun row =>
          row.status = lit "unused"
        stale := report.summary.stale +
          counted (statusRow now) items fun row => row.status = lit "verified" && row.stale } := by
  induction items generalizing report with
  | nil => rfl
  | cons item rest ih =>
    rw [List.foldl_cons, ih, statusStep, count_eq]
    simp only [counted, List.countP_cons, one, decide_eq_true_eq, Summary.mk.injEq, true_and]
    omega

end

/-! ### When they agree -/

def probes (items : List Item) : List IsoText := items.filterMap Item.lastProbeAt

/-- The same instant counts as the last check: the probe is read alike, or where Python cannot read
it `verified_at` names the instant that JavaScript reads. -/
def SameCheck (zone : TimeZone) (item : Item) : Prop :=
  match item.lastProbeAt, item.verifiedAt with
  | some probe, verified =>
    (probe.Readable ∧ probe.Kept zone) ∨
      (¬ probe.Readable ∧ ∃ other ∈ verified, other.Readable ∧
        newDate zone probe * 1000 = other.instant)
  | none, some verified => verified.Readable ∧ verified.Kept zone
  | none, none => True

/-- No text of a probe comes after that of the latest probe that Python reads. -/
def SameLatest (zone : TimeZone) (items : List Item) : Prop :=
  ∀ p ∈ probes items, ∃ q ∈ probes items, q.Readable ∧
    (∀ r ∈ probes items, r.Readable → r.instant ≤ q.instant) ∧
      ¬ ShownBefore (newDate zone q) (newDate zone p)

structure Comparable (zone : TimeZone) (items : List Item) : Prop where
  checks : ∀ item ∈ items, SameCheck zone item
  statuses : ∀ item ∈ items, item.status ≠ some (lit "down") ∧ item.status ≠ some (lit "stale")
  latest : SameLatest zone items

section
variable {zone : TimeZone} {now : ℤ} {item : Item} {items : List Item}
    {localeCompare : Text → Text → Bool}

theorem lastCheck_iff (item : Item) :
    instantOf ((iso zone item.lastProbeAt).or (iso zone item.verifiedAt)) =
    (parseTs item.lastProbeAt).or (parseTs item.verifiedAt) ↔ SameCheck zone item := by
  obtain ⟨-, -, verifiedAt, lastProbeAt⟩ := item
  unfold SameCheck
  cases lastProbeAt with
  | none =>
    cases verifiedAt with
    | none => exact iff_of_true rfl trivial
    | some verified =>
      have date : iso zone none = none := rfl
      have time : parseTs none = none := rfl
      dsimp only
      rw [date, time, Option.none_or, Option.none_or, iso_some, instantOf_iso, parseTs_some]
      by_cases readable : verified.Readable
      · rw [if_pos readable, Option.some.injEq, newDate_eq_iff, and_iff_right readable]
      · rw [if_neg readable]
        exact iff_of_false nofun fun both => readable both.1
  | some probe =>
    dsimp only
    rw [iso_some, Option.some_or, instantOf_iso, parseTs_some]
    by_cases readable : probe.Readable
    · rw [if_pos readable, Option.some_or, Option.some.injEq, newDate_eq_iff]
      simp [readable]
    · rw [if_neg readable, Option.none_or]
      cases verifiedAt with
      | none => exact iff_of_false nofun (by simp [readable])
      | some verified =>
        rw [parseTs_some]
        by_cases other : verified.Readable
        · simp [readable, other]
        · simp [readable, other]

theorem registryRow_badge (item : Item) : (registryRow zone now item).badge =
    if statusOf item.status = lit "unreachable" then lit "down"
    else if statusOf item.status = lit "verified" ∧ (registryRow zone now item).stale = true
      then lit "stale"
    else statusOf item.status := rfl

theorem statusRow_badge (item : Item) : (statusRow now item).badge =
    if statusOf item.status = lit "unreachable" then lit "down"
    else if statusOf item.status = lit "verified" ∧ (statusRow now item).stale = true
      then lit "stale"
    else statusOf item.status := by
  have own : (statusRow now item).badge = if statusOf item.status = lit "unreachable"
      then lit "down"
      else if statusOf item.status = lit "verified" then
        if (statusRow now item).stale then lit "stale" else lit "verified"
      else if statusOf item.status = lit "unused" then lit "unused"
      else if statusOf item.status = lit "available" then lit "available"
        else statusOf item.status := rfl
  rw [own]
  split
  · rfl
  · split
    · rename_i verified
      cases (statusRow now item).stale with
      | true => simp [verified]
      | false => simp [verified]
    · rename_i other
      have plain : ¬ (statusOf item.status = lit "verified" ∧ (statusRow now item).stale = true) :=
        fun both =>
        other both.1
      rw [if_neg plain]
      split
      · rename_i unused
        exact unused.symm
      · split
        · rename_i available
          exact available.symm
        · rfl

/-- The rows follow from the last check. -/
theorem rowsAgree_iff (item : Item) : RowsAgree (registryRow zone now item) (statusRow now item) ↔
    SameCheck zone item := by
  rw [← lastCheck_iff]
  constructor
  · exact RowsAgree.lastCheck
  · intro same
    have stale : (registryRow zone now item).stale = (statusRow now item).stale := by
      unfold registryRow statusRow
      dsimp only
      rw [← same]
      cases checked : (iso zone item.lastProbeAt).or (iso zone item.verifiedAt) with
      | none => rfl
      | some text =>
        have shown : ∃ s : IsoText, text = toISOString (newDate zone s) := by
          cases probe : item.lastProbeAt with
          | some s =>
            rw [probe, iso_some, Option.some_or] at checked
            exact ⟨s, (Option.some.inj checked).symm⟩
          | none =>
            rw [probe, show iso zone none = none from rfl, Option.none_or] at checked
            cases verified : item.verifiedAt with
            | some s =>
              rw [verified, iso_some] at checked
              exact ⟨s, (Option.some.inj checked).symm⟩
            | none =>
              rw [verified] at checked
              cases checked
        obtain ⟨s, rfl⟩ := shown
        rw [instantOf_iso]
        dsimp only
        rw [dateParse_newDate]
        change decide (86400000 < now - newDate zone s) = decide
            (86400000000 < now * 1000 - newDate zone s * 1000)
        rw [decide_eq_decide]
        omega
    refine ⟨?_, stale, same⟩
    rw [registryRow_badge, statusRow_badge, stale]

/-- `String(item.status || "unknown")` is a name other than that one only where the item gives it.
-/
theorem statusOf_eq_iff {name : Text} (given : name ≠ []) (other : name ≠ lit "unknown")
    (status : Option Text) :
    statusOf status = name ↔ status = some name := by
  unfold statusOf
  cases status with
  | none => exact iff_of_false other.symm nofun
  | some s =>
    rw [Option.some.injEq]
    dsimp only
    split
    · rename_i empty
      subst empty
      exact iff_of_false other.symm given.symm
    · exact Iff.rfl

theorem badge_down_iff (item : Item) : (registryRow zone now item).badge = lit "down" ↔
    statusOf item.status = lit "unreachable" ∨ item.status = some (lit "down") := by
  rw [registryRow_badge, ← statusOf_eq_iff (by decide) (by decide)]
  by_cases unreachable : statusOf item.status = lit "unreachable"
  · rw [if_pos unreachable]
    exact iff_of_true rfl (.inl unreachable)
  · rw [if_neg unreachable, or_iff_right unreachable]
    split
    · rename_i both
      rw [both.1]
      decide
    · exact Iff.rfl

theorem badge_stale_iff (item : Item) : (registryRow zone now item).badge = lit "stale" ↔
    (statusOf item.status = lit "verified" ∧ (registryRow zone now item).stale = true) ∨
      item.status = some (lit "stale") := by
  rw [registryRow_badge, ← statusOf_eq_iff (by decide) (by decide)]
  by_cases unreachable : statusOf item.status = lit "unreachable"
  · rw [if_pos unreachable, unreachable]
    refine iff_of_false (by decide) ?_
    rintro (⟨verified, -⟩ | stale)
    · exact absurd verified (by decide)
    · exact absurd stale (by decide)
  · rw [if_neg unreachable]
    split
    · rename_i both
      exact iff_of_true rfl (.inl both)
    · rename_i neither
      rw [or_iff_right neither]

/-- JavaScript counts every badge, Python only those that it gave. -/
theorem summary_iff
    (agree : ∀ item ∈ items, RowsAgree (registryRow zone now item) (statusRow now item)) :
    (registryStatus zone now localeCompare items).summary = (statusPayload now items).summary ↔
      ∀ item ∈ items, item.status ≠ some (lit "down") ∧ item.status ≠ some (lit "stale") := by
  have sorted : ∀ (le : Item → Item → Bool) (met : Item → Bool), (items.mergeSort le).countP met =
      items.countP met :=
    fun le met => (List.mergeSort_perm items le).countP_eq met
  have status : ∀ item, (registryRow zone now item).status = statusOf item.status := fun _ => rfl
  have status' : ∀ item, (statusRow now item).status = statusOf item.status := fun _ => rfl
  have gone : ∀ item ∈ items, decide (statusOf item.status = lit "unreachable") = true →
      decide ((registryRow zone now item).badge = lit "down") = true := by
    intro item _ unreachable
    rw [decide_eq_true_eq] at unreachable ⊢
    exact (badge_down_iff item).mpr (.inl unreachable)
  have aged : ∀ item ∈ items,
      (statusOf item.status = lit "verified" && (statusRow now item).stale) = true →
      decide ((registryRow zone now item).badge = lit "stale") = true := by
    intro item member given
    rw [Bool.and_eq_true, decide_eq_true_eq, ← (agree item member).stale] at given
    rw [decide_eq_true_eq]
    exact (badge_stale_iff item).mpr (.inl given)
  have down := countP_eq_iff gone
  have stale := countP_eq_iff aged
  rw [registryStatus, statusPayload, registry_summary, payload_summary]
  simp only [counted, sorted, status, status', Summary.mk.injEq, true_and, Nat.zero_add]
  rw [down, stale, ← forall₂_and]
  refine forall₂_congr fun item member => ?_
  have same := (agree item member).stale
  rw [decide_eq_true_eq, decide_eq_true_eq, decide_eq_true_eq, Bool.and_eq_true,
    decide_eq_true_eq, ← same,
    badge_down_iff, badge_stale_iff]
  constructor
  · rintro ⟨down, stale⟩
    constructor
    · intro given
      have unreachable := down (.inr given)
      rw [given] at unreachable
      exact absurd unreachable (by decide)
    · intro given
      have verified := (stale (.inr given)).1
      rw [given] at verified
      exact absurd verified (by decide)
  · rintro ⟨down, stale⟩
    exact ⟨fun either => either.resolve_right down, fun either => either.resolve_right stale⟩

theorem mem_probes {s : IsoText} : s ∈ probes items ↔ ∃ item ∈ items, item.lastProbeAt = some s :=
  List.mem_filterMap

theorem shown_iff {text : Text} : some text ∈ items.map (fun item => iso zone item.lastProbeAt) ↔
    ∃ p ∈ probes items, text = toISOString (newDate zone p) := by
  rw [List.mem_map]
  constructor
  · rintro ⟨item, member, shown⟩
    cases probe : item.lastProbeAt with
    | none =>
      rw [probe] at shown
      cases shown
    | some p =>
      rw [probe, iso_some] at shown
      exact ⟨p, mem_probes.mpr ⟨item, member, probe⟩, (Option.some.inj shown).symm⟩
  · rintro ⟨p, member, rfl⟩
    obtain ⟨item, inside, probe⟩ := mem_probes.mp member
    exact ⟨item, inside, by rw [probe, iso_some]⟩

theorem parsed_iff {t : ℤ} : some t ∈ items.map (fun item => parseTs item.lastProbeAt) ↔
    ∃ p ∈ probes items, p.Readable ∧ t = p.instant := by
  rw [List.mem_map]
  constructor
  · rintro ⟨item, member, parsed⟩
    cases probe : item.lastProbeAt with
    | none =>
      rw [probe] at parsed
      cases parsed
    | some p =>
      rw [probe, parseTs_some] at parsed
      split at parsed
      · rename_i readable
        exact ⟨p, mem_probes.mpr ⟨item, member, probe⟩, readable, (Option.some.inj parsed).symm⟩
      · cases parsed
  · rintro ⟨p, member, readable, rfl⟩
    obtain ⟨item, inside, probe⟩ := mem_probes.mp member
    exact ⟨item, inside, by rw [probe, parseTs_some, if_pos readable]⟩

theorem registryStatus_lastVerify : (registryStatus zone now localeCompare items).lastVerifyAt =
    latest (items.map fun item => iso zone item.lastProbeAt) := by
  rw [registryStatus, registry_lastVerify]
  exact latest_perm ((List.mergeSort_perm items _).map _)

theorem statusPayload_lastVerify : (statusPayload now items).lastVerifyAt =
    latest (items.map fun item => parseTs item.lastProbeAt) := by
  rw [statusPayload, payload_lastVerify]
  exact latest_perm ((List.mergeSort_perm items _).map _)

/-- A readable probe is read alike. -/
theorem newDate_of_check (checks : ∀ item ∈ items, SameCheck zone item) {p : IsoText}
    (member : p ∈ probes items)
    (readable : p.Readable) : newDate zone p * 1000 = p.instant := by
  obtain ⟨item, inside, probe⟩ := mem_probes.mp member
  have check := checks item inside
  simp only [SameCheck, probe] at check
  rcases check with ⟨-, kept⟩ | ⟨unreadable, -⟩
  · exact (newDate_eq_iff zone p).mpr kept
  · exact absurd readable unreadable

theorem lastVerify_iff (checks : ∀ item ∈ items, SameCheck zone item) :
    instantOf (registryStatus zone now localeCompare items).lastVerifyAt =
      (statusPayload now items).lastVerifyAt ↔
      SameLatest zone items := by
  rw [registryStatus_lastVerify, statusPayload_lastVerify]
  have order : ∀ p q : IsoText, toISOString (newDate zone p) ≤ toISOString (newDate zone q) ↔
      ¬ ShownBefore (newDate zone q) (newDate zone p) := fun p q => by
    rw [← toISOString_lt_iff (newDate_near zone q) (newDate_near zone p), not_lt]
  constructor
  · intro same p member
    rcases latest_cases (items.map fun item => iso zone item.lastProbeAt) with
      ⟨-, empty⟩ | ⟨m, found, last, beyond⟩
    · exact absurd (shown_iff.mpr ⟨p, member, rfl⟩) (empty _)
    · obtain ⟨top, -, rfl⟩ := shown_iff.mp last
      rw [found, instantOf_iso] at same
      obtain ⟨among, bound⟩ := latest_eq_some_iff.mp same.symm
      obtain ⟨q, there, readable, value⟩ := parsed_iff.mp among
      have read := newDate_of_check checks there readable
      have alike : newDate zone top = newDate zone q := by omega
      refine ⟨q, there, readable, fun r inside readable => ?_, ?_⟩
      · rw [← value]
        exact bound _ (parsed_iff.mpr ⟨r, inside, readable, rfl⟩)
      · rw [← order, ← alike]
        exact beyond _ (shown_iff.mpr ⟨p, member, rfl⟩)
  · intro last
    rcases latest_cases (items.map fun item => iso zone item.lastProbeAt) with
      ⟨nothing, empty⟩ | ⟨m, -, member, -⟩
    · rw [nothing]
      symm
      rw [show instantOf none = none from rfl, latest_eq_none_iff]
      intro t parsed
      obtain ⟨p, inside, -⟩ := parsed_iff.mp parsed
      exact empty _ (shown_iff.mpr ⟨p, inside, rfl⟩)
    · obtain ⟨p, inside, -⟩ := shown_iff.mp member
      obtain ⟨q, there, readable, top, -⟩ := last p inside
      have read := newDate_of_check checks there readable
      have shown : latest (items.map fun item => iso zone item.lastProbeAt) =
          some (toISOString (newDate zone q)) := by
        refine latest_eq_some_iff.mpr ⟨shown_iff.mpr ⟨q, there, rfl⟩, fun text listed => ?_⟩
        obtain ⟨r, among, rfl⟩ := shown_iff.mp listed
        obtain ⟨q', there', readable', top', after⟩ := last r among
        have read' := newDate_of_check checks there' readable'
        have one := top q' there' readable'
        have two := top' q there readable
        have alike : newDate zone q' = newDate zone q := by omega
        rw [← alike]
        exact (order r q').mpr after
      rw [shown, instantOf_iso, read]
      symm
      refine latest_eq_some_iff.mpr ⟨parsed_iff.mpr ⟨q, there, readable, rfl⟩, fun t parsed => ?_⟩
      obtain ⟨r, among, known, rfl⟩ := parsed_iff.mp parsed
      exact top r among known

/-- The two reports agree exactly on the lists that both readers read alike, with no status that
names a badge. -/
theorem reports_agree_iff (zone : TimeZone) (localeCompare : Text → Text → Bool)
    (items : List Item) (now : ℤ) :
    ReportsAgree zone localeCompare items now ↔ Comparable zone items := by
  constructor
  · intro agree
    have checks : ∀ item ∈ items, SameCheck zone item := fun item member =>
      (rowsAgree_iff item).mp (agree.rows item member)
    exact ⟨checks, (summary_iff agree.rows).mp agree.summary,
      (lastVerify_iff checks).mp agree.lastVerify⟩
  · intro comparable
    have rows : ∀ item ∈ items, RowsAgree (registryRow zone now item) (statusRow now item) :=
      fun item member =>
      (rowsAgree_iff item).mpr (comparable.checks item member)
    exact ⟨rows, (summary_iff rows).mpr comparable.statuses,
      (lastVerify_iff comparable.checks).mpr comparable.latest⟩

end

def inUtc : TimeZone where
  toUtc := id
  near := by simp

/-- 2026-09-26T12:00:00.0005Z, half a millisecond after noon. -/
def halfMillisecond : Item where
  name := lit "graph"
  status := some (lit "verified")
  verifiedAt := none
  lastProbeAt := some {
    year := 2026
    month := 9
    day := 26
    clock := some {
      hour := 12
      minute := 0
      second := 0
      fraction := [0, 0, 0, 5]
      offset := some ⟨0, by decide⟩
      minutes := by decide
      seconds := by decide
      digits := by decide
      hours := by decide }
    years := by decide
    months := by decide
    days := by decide }

/-- JavaScript drops the fourth digit of the second. -/
theorem half_millisecond_lost : ¬ ReportsAgree inUtc (fun _ _ => true)
    [halfMillisecond] 1790510400000 := by
  intro agree
  have check := (rowsAgree_iff halfMillisecond).mp (agree.rows _ (List.mem_singleton.mpr rfl))
  rcases check with ⟨-, kept⟩ | ⟨unreadable, -⟩
  · have digit := (kept _ rfl).1 5 (by decide)
    exact absurd digit (by decide)
  · exact unreadable ⟨by decide, by rintro clock ⟨⟩; decide⟩

end Metahumotonic.Registry
