import Metahumotonic.Library.IsoOrder
import Metahumotonic.Library.Latest
import Mathlib.Algebra.Order.Group.Int
import Mathlib

/-! The registry status in both back ends: `registryStatus` of `ports/McpRegistry.ts` and
`_status_payload` of `app/routers/mcp_registry.py`. Times are ISO texts, taken by their parts. -/
namespace Metahumotonic.Registry

open Library IsoDate

/-- The units of `10 ^ -k` that the first `k` digits of a fraction make. -/
def fractionUnits : ℕ → List ℕ → ℕ
  | 0, _ => 0
  | _, [] => 0
  | k + 1, d :: digits => d * Nat.pow 10 k + fractionUnits k digits

/-- Minutes ahead of UTC; `Z` is none ahead. -/
structure Offset where
  minutes : ℤ
  bounds : -1439 ≤ minutes ∧ minutes ≤ 1439

/-- `THH:MM`, then perhaps seconds, a fraction and an offset. -/
structure Clock where
  hour : ℕ
  minute : ℕ
  second : ℕ
  fraction : List ℕ
  offset : Option Offset
  minutes : minute ≤ 59
  seconds : second ≤ 59
  digits : ∀ d ∈ fraction, d < 10
  hours : hour ≤ 23 ∨ (hour = 24 ∧ minute = 0 ∧ second = 0 ∧ ∀ d ∈ fraction, d = 0)

/-- `YYYY-MM-DD`, then perhaps a time. -/
structure IsoText where
  year : ℕ
  month : ℕ
  day : ℕ
  clock : Option Clock
  years : year ≤ 9999
  months : 1 ≤ month ∧ month ≤ 12
  days : 1 ≤ day ∧ day + daysToMonth (isLeap year) month ≤ daysToMonth (isLeap year) (month + 1)

/-- The date, in milliseconds since 1970. -/
def IsoText.midnight (s : IsoText) : ℤ :=
  (daysToYear s.year + daysToMonth (isLeap s.year) s.month + s.day - 1 - epochDay) * msPerDay

def Clock.ofDay (clock : Clock) : ℕ := (clock.hour * 60 + clock.minute) * 60 + clock.second

structure Item where
  name : Text
  status : Option Text
  verifiedAt : Option IsoText
  lastProbeAt : Option IsoText

structure Row (ι : Type) where
  name : Text
  status : Text
  badge : Text
  stale : Bool
  verifiedAt : Option IsoText
  lastProbeAt : Option IsoText
  lastCheckAt : Option ι

structure Summary where
  total : ℕ
  verified : ℕ
  available : ℕ
  down : ℕ
  unused : ℕ
  stale : ℕ

structure Report (ι : Type) where
  lastVerifyAt : Option ι
  summary : Summary
  servers : List (Row ι)

def one (condition : Prop) [Decidable condition] : ℕ := if condition then 1 else 0

/-! ### TypeScript -/

/-- From local times to UTC, in milliseconds. -/
structure TimeZone where
  toUtc : ℤ → ℤ
  near : ∀ t, -86400000 ≤ toUtc t - t ∧ toUtc t - t ≤ 86400000

section TypeScript
variable (zone : TimeZone) (now : ℤ)

/-- `new Date(text).valueOf()`: a date is UTC, a time without offset is local, and further digits
are dropped. Not modelled is that V8 reads a fraction of ten or more digits otherwise where it
begins with a zero. -/
def newDate (s : IsoText) : ℤ :=
  match s.clock with
  | none => s.midnight
  | some clock =>
    let wall := s.midnight + clock.ofDay * 1000 + fractionUnits 3 clock.fraction
    match clock.offset with
    | some offset => wall - offset.minutes * 60000
    | none => zone.toUtc wall

def iso (value : Option IsoText) : Option Text :=
  match value with
  | none => none
  | some s =>
    if -8640000000000000 ≤ newDate zone s ∧ newDate zone s ≤ 8640000000000000
      then some (toISOString (newDate zone s))
    else none

/-- `status || "unknown"`. -/
def statusOf (status : Option Text) : Text :=
  match status with
  | none => lit "unknown"
  | some s => if s = [] then lit "unknown" else s

def registryRow (item : Item) : Row Text :=
  let status := statusOf item.status
  let checked := (iso zone item.lastProbeAt).or (iso zone item.verifiedAt)
  let stale := match checked with
    | none => true
    -- a comparison with NaN is false
    | some text => (dateParse text).any fun t => 86400000 < now - t
  { name := item.name
    status := status
    badge := if status = lit "unreachable" then lit "down"
      else if status = lit "verified" ∧ stale = true then lit "stale" else status
    stale := stale
    verifiedAt := item.verifiedAt
    lastProbeAt := item.lastProbeAt
    lastCheckAt := checked }

def registryStep (report : Report Text) (item : Item) : Report Text :=
  let row := registryRow zone now item
  let counts := report.summary
  { lastVerifyAt := later report.lastVerifyAt (iso zone item.lastProbeAt)
    summary := { counts with
      verified := counts.verified + one (row.status = lit "verified")
      available := counts.available + one (row.status = lit "available")
      unused := counts.unused + one (row.status = lit "unused")
      down := counts.down + one (row.badge = lit "down")
      stale := counts.stale + one (row.badge = lit "stale") }
    servers := report.servers ++ [row] }

/-- The items in the order of `localeCompare`. -/
def registryStatus (localeCompare : Text → Text → Bool) (items : List Item) : Report Text :=
  (items.mergeSort fun a b => localeCompare a.name b.name).foldl (registryStep zone now)
    ⟨none, ⟨items.length, 0, 0, 0, 0, 0⟩, []⟩

end TypeScript

/-! ### Python -/

section Python
variable (now : ℤ)

/-- `datetime.fromisoformat`, where a text without offset is then taken as UTC, in microseconds.
Years begin with 1 and hours end with 23. -/
def fromisoformat (s : IsoText) : Option ℤ :=
  if s.year = 0 then none
  else
    match s.clock with
    | none => some (s.midnight * 1000)
    | some clock =>
      if clock.hour = 24 then none
      else some (s.midnight * 1000 + clock.ofDay * 1000000 + fractionUnits 6 clock.fraction -
        ((clock.offset.map Offset.minutes).getD 0) * 60000000)

/-- `date.fromisoformat`, combined with midnight. -/
def dateFromisoformat (s : IsoText) : Option ℤ :=
  match s.clock with
  | none => if s.year = 0 then none else some (s.midnight * 1000)
  | some _ => none

def parseTs (value : Option IsoText) : Option ℤ :=
  match value with
  | none => none
  | some s => (fromisoformat s).or (dateFromisoformat s)

/-- Counts as the branches of the loop do. -/
def Summary.count (counts : Summary) (status : Text) (stale : Bool) : Summary :=
  if status = lit "unreachable" then { counts with down := counts.down + 1 }
  else if status = lit "verified" then
    { counts with verified := counts.verified + 1, stale := counts.stale + if stale then 1 else 0 }
  else if status = lit "unused" then { counts with unused := counts.unused + 1 }
  else if status = lit "available" then { counts with available := counts.available + 1 }
  else counts

def statusRow (item : Item) : Row ℤ :=
  let status := statusOf item.status
  let lastCheck := (parseTs item.lastProbeAt).or (parseTs item.verifiedAt)
  let stale := match lastCheck with
    | none => true
    | some check => 86400000000 < now * 1000 - check
  { name := item.name
    status := status
    badge := if status = lit "unreachable" then lit "down"
      else if status = lit "verified" then if stale then lit "stale" else lit "verified"
      else if status = lit "unused" then lit "unused"
      else if status = lit "available" then lit "available" else status
    stale := stale
    verifiedAt := item.verifiedAt
    lastProbeAt := item.lastProbeAt
    lastCheckAt := lastCheck }

def statusStep (report : Report ℤ) (item : Item) : Report ℤ :=
  let row := statusRow now item
  { lastVerifyAt := later report.lastVerifyAt (parseTs item.lastProbeAt)
    summary := report.summary.count row.status row.stale
    servers := report.servers ++ [row] }

def statusPayload (items : List Item) : Report ℤ :=
  (items.mergeSort fun a b => a.name ≤ b.name).foldl (statusStep now)
    ⟨none, ⟨items.length, 0, 0, 0, 0, 0⟩, []⟩

end Python

end Metahumotonic.Registry
