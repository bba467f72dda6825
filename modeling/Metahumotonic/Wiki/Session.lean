import Metahumotonic.Library.Base64
import Metahumotonic.Library.Doubles
import Metahumotonic.Library.JsonCodec
import Metahumotonic.Library.Utf8
import Mathlib.Data.Finset.Sort

/-! Session tokens (`app/wiki/security.py`): a payload as JSON in Base64, and the HMAC of
that text. HMAC-SHA256 is a given function on bytes; a datetime counts microseconds since
1970 and lies between the years 1 and 9999. -/
namespace Metahumotonic.Wiki

open Library

def earliestMicros : ℤ := -62135596800000000

def latestMicros : ℤ := 253402300799999999

structure Datetime where
  micros : ℤ
  earliest : earliestMicros ≤ micros
  latest : micros ≤ latestMicros

/-- `datetime + timedelta`, which overflows outside the calendar. -/
def Datetime.shift (d : Datetime) (delta : ℤ) : Option Datetime :=
  if earliest : earliestMicros ≤ d.micros + delta then
    if latest : d.micros + delta ≤ latestMicros
      then some ⟨d.micros + delta, earliest, latest⟩ else none
  else none

/-- `int(d.timestamp())`: the microseconds are divided as doubles. -/
def Datetime.seconds (d : Datetime) : ℤ :=
  if d.micros < 0 then -(Doubles.whole d.micros.natAbs 1000000 : ℤ)
    else Doubles.whole d.micros.natAbs 1000000

/-- A string without lone surrogates. -/
structure WellFormed where
  text : Text
  scalars : text.all scalar = true

def publicScopes : List Text :=
  [lit "wiki:edit", lit "wiki:read", lit "wiki:report", lit "wiki:submit"]

def PUBLIC_SCOPES : Finset Text := publicScopes.toFinset

structure SessionIdentity where
  actorId : Text
  displayName : Text
  actorKind : Text
  agentUrl : Option Text
  scopes : Finset Text
  csrfToken : Text
  expiresAt : Datetime

structure SessionSigner where
  secret : List Nat
  long : 32 ≤ secret.length
  ttl : ℤ

/-- The arguments of `issue`, and the bytes that `token_urlsafe` draws. -/
structure Issue where
  actorId : WellFormed
  displayName : WellFormed
  actorKind : WellFormed
  agentUrl : Option WellFormed
  now : Datetime
  random : List Nat

def Issue.identity (call : Issue) (expiresAt : Datetime) : SessionIdentity where
  actorId := call.actorId.text
  displayName := call.displayName.text
  actorKind := call.actorKind.text
  agentUrl := call.agentUrl.map WellFormed.text
  scopes := PUBLIC_SCOPES
  csrfToken := Base64.encode call.random
  expiresAt := expiresAt

def optionalText : Option Text → Json
  | some s => .text s
  | none => .null

/-- The members in the order in which `sort_keys` writes them. -/
def Issue.payload (call : Issue) (expiresAt : Datetime) : Members :=
  [(lit "actor_id", .text call.actorId.text), (lit "actor_kind", .text call.actorKind.text),
    (lit "agent_url", optionalText (call.agentUrl.map WellFormed.text)),
    (lit "csrf", .text (Base64.encode call.random)),
    (lit "display_name", .text call.displayName.text),
    (lit "exp", .int expiresAt.seconds), (lit "iat", .int call.now.seconds),
    (lit "scopes", .array (publicScopes.map .text)), (lit "v", .int 1)]

def Issue.encoded (call : Issue) (expiresAt : Datetime) : Text :=
  Base64.encode (Json.object (call.payload expiresAt)).write

section
variable (hmac : List Nat → List Nat → List Nat)

def SessionSigner.signature (signer : SessionSigner) (encoded : Text) : Text :=
  Base64.encode (hmac signer.secret encoded)

/-- The token and its identity, or none where the expiry leaves the calendar. -/
def SessionSigner.issue (signer : SessionSigner) (call : Issue) :
    Option (Text × SessionIdentity) := do
  let expiresAt ← call.now.shift signer.ttl
  let encoded := call.encoded expiresAt
  some (encoded ++ 46 :: signer.signature hmac encoded, call.identity expiresAt)

/-- `outside` is a signed text that no signer writes, which the reading below does not follow. -/
inductive Refusal where
  | invalidSession
  | outside
  deriving DecidableEq

def accept (condition : Prop) [Decidable condition] : Except Refusal Unit :=
  if condition then .ok () else .error .invalidSession

/-- `payload[name]`. -/
def item (payload : Members) (name : Text) : Except Refusal Json :=
  match member? payload name with
  | some v => .ok v
  | none => .error .invalidSession

/-- `v == 1`. -/
def isOne : Json → Except Refusal Unit
  | .int n => accept (n = 1)
  | .bool b => accept (b = true)
  | .float _ => .error .outside
  | _ => .error .invalidSession

def toInt : Json → Except Refusal ℤ
  | .int n => .ok n
  | .bool b => .ok (if b then 1 else 0)
  | .float _ => .error .outside
  | .text _ => .error .outside
  | _ => .error .invalidSession

def toStr : Json → Except Refusal Text
  | .text s => .ok s
  | .null => .ok (lit "None")
  | .bool b => .ok (if b then lit "True" else lit "False")
  | .int n => .ok (Json.writeInt n)
  | _ => .error .outside

/-- `frozenset(str(scope) for scope in v)`. -/
def toScopes : Json → Except Refusal (Finset Text)
  | .array items => do
    let scopes ← items.mapM toStr
    .ok scopes.toFinset
  | .object members => .ok (members.map Prod.fst).toFinset
  | .text s => .ok (s.map fun c => [c]).toFinset
  | _ => .error .invalidSession

/-- `str(v) if v else None`. -/
def toOptional : Json → Except Refusal (Option Text)
  | .null => .ok none
  | .bool b => .ok (if b then some (lit "True") else none)
  | .int n => .ok (if n = 0 then none else some (Json.writeInt n))
  | .text s => .ok (if s = [] then none else some s)
  | _ => .error .outside

/-- `datetime.fromtimestamp`; far from the calendar it raises errors that `verify` lets pass. -/
def fromTimestamp (seconds : ℤ) : Except Refusal Datetime :=
  if earliest : earliestMicros ≤ seconds * 1000000 then
    if latest : seconds * 1000000 ≤ latestMicros then .ok ⟨seconds * 1000000, earliest, latest⟩
    else if seconds < 36028797018963968 then .error .invalidSession
    else .error .outside
  else if -36028797018963968 < seconds then .error .invalidSession
  else .error .outside

def readPayload (payload : Members) (now : Datetime) : Except Refusal SessionIdentity := do
  isOne (field payload (lit "v"))
  let exp ← toInt (← item payload (lit "exp"))
  accept (now.seconds < exp)
  let scopes ← toScopes (← item payload (lit "scopes"))
  accept (scopes.Nonempty ∧ scopes ⊆ PUBLIC_SCOPES)
  let actorId ← toStr (← item payload (lit "actor_id"))
  let displayName ← toStr ((member? payload (lit "display_name")).getD (.text (lit "Anonymous")))
  let actorKind ← toStr ((member? payload (lit "actor_kind")).getD (.text (lit "human")))
  let agentUrl ← toOptional (field payload (lit "agent_url"))
  let csrfToken ← toStr (← item payload (lit "csrf"))
  let expiresAt ← fromTimestamp exp
  .ok ⟨actorId, displayName, actorKind, agentUrl, scopes, csrfToken, expiresAt⟩

def asciiOnly (s : Text) : Bool := s.all (· < 128)

def SessionSigner.verify (signer : SessionSigner) (token : Text) (now : Datetime) :
    Except Refusal SessionIdentity :=
  match token.dropWhile (· != 46) with
  | [] => .error .invalidSession
  | _ :: signature =>
    let encoded := token.takeWhile (· != 46)
    -- only ASCII is encoded, and only ASCII is compared
    if asciiOnly encoded = false ∨ asciiOnly signature = false then .error .invalidSession
    else if signature ≠ signer.signature hmac encoded then .error .invalidSession
    else
      match ((Base64.decode encoded).bind Utf8.decode).bind Json.loads with
      | some (.object payload) => readPayload payload now
      | _ => .error .outside

end

/-! ### Whole seconds -/

/-- Cut to whole seconds, toward 1970. -/
def wholeSeconds (micros : ℤ) : ℤ := micros.tdiv 1000000

theorem wholeSeconds_eq (micros : ℤ) :
    wholeSeconds micros = if micros < 0 then -((micros.natAbs / 1000000 : ℕ) : ℤ)
      else ((micros.natAbs / 1000000 : ℕ) : ℤ) := by
  unfold wholeSeconds
  split
  · rename_i negative
    obtain ⟨n, value⟩ := Int.eq_ofNat_of_zero_le (by omega : 0 ≤ -micros)
    obtain rfl : micros = -(n : ℤ) := by omega
    rw [Int.neg_tdiv, Int.natAbs_neg, Int.natAbs_natCast]
    exact congrArg Neg.neg (Int.ofNat_tdiv n 1000000).symm
  · rename_i positive
    obtain ⟨n, rfl⟩ := Int.eq_ofNat_of_zero_le (by omega : 0 ≤ micros)
    rw [Int.natAbs_natCast]
    exact (Int.ofNat_tdiv n 1000000).symm

theorem truncated_inside (d : Datetime) :
    earliestMicros ≤ wholeSeconds d.micros * 1000000 ∧
      wholeSeconds d.micros * 1000000 ≤ latestMicros := by
  have earliest := d.earliest
  have latest := d.latest
  rw [wholeSeconds_eq]
  unfold earliestMicros latestMicros at *
  split <;> omega

def Datetime.truncated (d : Datetime) : Datetime :=
  ⟨wholeSeconds d.micros * 1000000, (truncated_inside d).1, (truncated_inside d).2⟩

/-- The double keeps the second: with `2 ^ k` units a second, rounding adds less than the rest of
it. -/
def Datetime.KeepsSecond (d : Datetime) : Prop := Doubles.KeepsWhole d.micros.natAbs 1000000

instance (d : Datetime) : Decidable d.KeepsSecond := inferInstanceAs
    (Decidable (Doubles.KeepsWhole _ _))

theorem magnitude_bound (d : Datetime) : d.micros.natAbs / 1000000 ≤ 253402300799 := by
  have earliest := d.earliest
  have latest := d.latest
  unfold earliestMicros latestMicros at *
  omega

/-- Either the second is kept, or the double is that of the next one away from 1970. -/
theorem seconds_cases (d : Datetime) :
    (d.KeepsSecond ∧ d.seconds = wholeSeconds d.micros) ∨
      (¬ d.KeepsSecond ∧ d.seconds = if d.micros < 0 then -((d.micros.natAbs / 1000000 + 1 : ℕ) : ℤ)
        else ((d.micros.natAbs / 1000000 + 1 : ℕ) : ℤ)) := by
  have bound := magnitude_bound d
  have positive : 0 < 1000000 := by decide
  have low := Doubles.le_whole (n := d.micros.natAbs) positive
  have high := Doubles.whole_le (n := d.micros.natAbs) positive
  have up := Doubles.succ_le_whole_iff (n := d.micros.natAbs) positive (by omega)
  by_cases keeps : d.KeepsSecond
  · have whole := (Doubles.whole_eq_iff positive (by omega)).mpr keeps
    exact .inl ⟨keeps, by rw [Datetime.seconds, whole, wholeSeconds_eq]⟩
  · have whole := Nat.le_antisymm high (up.mpr keeps)
    exact .inr ⟨keeps, by rw [Datetime.seconds, whole]⟩

theorem keepsSecond_iff (d : Datetime) : d.KeepsSecond ↔ d.seconds = wholeSeconds d.micros := by
  rcases seconds_cases d with ⟨keeps, same⟩ | ⟨lost, next⟩
  · exact iff_of_true keeps same
  · refine iff_of_false lost ?_
    rw [next, wholeSeconds_eq]
    split <;> omega

/-! ### What is issued is read back -/

/-- The identity of an issued token as `verify` returns it. -/
def SessionIdentity.readBack (identity : SessionIdentity) : SessionIdentity :=
  { identity with
    agentUrl := identity.agentUrl.filter (· ≠ [])
    expiresAt := identity.expiresAt.truncated }

section
variable (call : Issue) (expiresAt now : Datetime)

theorem payload_portable : Json.Portable (.object (call.payload expiresAt)) := by
  have url : Json.Portable (optionalText (call.agentUrl.map WellFormed.text)) := by
    cases call.agentUrl with
    | none => exact .null
    | some url => exact .text _ url.scalars
  have csrf : (Base64.encode call.random).all scalar = true := by
    rw [List.all_eq_true]
    intro c member
    have plain := Base64.encode_plain _ c member
    simp only [Base64.plain, Bool.or_eq_true, Bool.and_eq_true, decide_eq_true_eq,
      beq_iff_eq] at plain
    simp only [scalar, Bool.or_eq_true, Bool.and_eq_true, decide_eq_true_eq]
    omega
  have scopes : Json.Portable (.array (publicScopes.map .text)) := by
    apply Json.Portable.array
    intro v member
    obtain ⟨s, listed, rfl⟩ := List.mem_map.mp member
    have scalars : ∀ s ∈ publicScopes, s.all scalar = true := by decide
    exact .text _ (scalars s listed)
  apply Json.Portable.object
  · change [lit "actor_id", lit "actor_kind", lit "agent_url", lit "csrf", lit "display_name",
        lit "exp", lit "iat",
      lit "scopes", lit "v"].Nodup
    decide
  · simp only [Issue.payload, List.forall_mem_cons]
    decide
  · simp only [Issue.payload, List.forall_mem_cons]
    exact ⟨.text _ call.actorId.scalars, .text _ call.actorKind.scalars, url, .text _ csrf,
      .text _ call.displayName.scalars, .int _, .int _, scopes, .int _, List.forall_mem_nil _⟩

theorem toOptional_optionalText (s : Option Text) : toOptional (optionalText s) = .ok
    (s.filter (· ≠ [])) := by
  cases s with
  | none => rfl
  | some s =>
    by_cases empty : s = []
    · simp [optionalText, toOptional, Option.filter, empty]
    · simp [optionalText, toOptional, Option.filter, empty]

theorem toScopes_public : toScopes (.array (publicScopes.map .text)) = .ok PUBLIC_SCOPES := rfl

theorem readPayload_payload :
    readPayload (call.payload expiresAt) now =
      if now.seconds < expiresAt.seconds then
        (fromTimestamp expiresAt.seconds).map fun end_ =>
          { call.identity expiresAt with
            agentUrl := (call.agentUrl.map WellFormed.text).filter (· ≠ []), expiresAt := end_ }
      else .error .invalidSession := by
  have scopes : item (call.payload expiresAt) (lit "scopes") = .ok
      (.array (publicScopes.map .text)) := rfl
  have public_ : accept (PUBLIC_SCOPES.Nonempty ∧ PUBLIC_SCOPES ⊆ PUBLIC_SCOPES) = .ok () :=
    if_pos ⟨⟨lit "wiki:edit", by decide⟩, Finset.Subset.refl _⟩
  have url : field (call.payload expiresAt) (lit "agent_url") =
    optionalText (call.agentUrl.map WellFormed.text) := rfl
  unfold readPayload
  change (accept (now.seconds < expiresAt.seconds)).bind _ = _
  by_cases live : now.seconds < expiresAt.seconds
  · rw [if_pos live, accept, if_pos live]
    simp only [bind, Except.bind, scopes, url, toScopes_public, public_, toOptional_optionalText]
    cases fromTimestamp expiresAt.seconds <;> rfl
  · rw [if_neg live, accept, if_neg live]
    rfl

end

/-! ### The calendar -/

theorem keepsSecond_of_whole {d : Datetime} (whole : d.micros.natAbs % 1000000 = 0) :
    d.KeepsSecond := by
  have units := Doubles.units_pos d.micros.natAbs 1000000
  unfold Datetime.KeepsSecond Doubles.KeepsWhole
  rw [whole]
  omega

theorem first_second_le (d : Datetime) : -62135596800 ≤ d.seconds := by
  have earliest := d.earliest
  unfold earliestMicros at earliest
  rcases seconds_cases d with ⟨keeps, same⟩ | ⟨lost, next⟩
  · rw [same, wholeSeconds_eq]
    split <;> omega
  · -- the first instant is whole, so what is rounded lies after it
    have fraction : d.micros.natAbs % 1000000 ≠ 0 := fun whole => lost (keepsSecond_of_whole whole)
    rw [next]
    split <;> omega

theorem fromTimestamp_kept {d : Datetime} (keeps : d.KeepsSecond) :
    fromTimestamp d.seconds = .ok d.truncated := by
  have inside := truncated_inside d
  rw [(keepsSecond_iff d).mp keeps, fromTimestamp, dif_pos inside.1, dif_pos inside.2]
  rfl

/-- Where the second is lost, another one is read or none. -/
theorem fromTimestamp_lost {d : Datetime} (lost : ¬ d.KeepsSecond) :
    fromTimestamp d.seconds ≠ .ok d.truncated := by
  have other : d.seconds ≠ wholeSeconds d.micros := fun same => lost ((keepsSecond_iff d).mpr same)
  unfold fromTimestamp
  split
  · split
    · intro same
      have := congrArg Datetime.micros (Except.ok.inj same)
      exact other (Int.eq_of_mul_eq_mul_right (by decide) this)
    · split <;> nofun
  · split <;> nofun

/-- The first instant of the calendar. -/
def Datetime.first : Datetime where
  micros := earliestMicros
  earliest := le_refl _
  latest := by decide

theorem first_seconds : Datetime.first.seconds = -62135596800 := by
  rw [(keepsSecond_iff _).mp (keepsSecond_of_whole (by decide))]
  decide

/-- A token can be presented before it expires unless it expires in the calendar's first second. -/
theorem live_iff (d : Datetime) (lost : ¬ d.KeepsSecond) :
    (∃ now : Datetime, now.seconds < d.seconds) ↔ earliestMicros + 1000000 ≤ d.micros := by
  have earliest := d.earliest
  obtain ⟨keeps, _⟩ | ⟨_, next⟩ := seconds_cases d
  · exact absurd keeps lost
  · unfold earliestMicros at *
    constructor
    · rintro ⟨now, live⟩
      have start := first_second_le now
      rw [next] at live
      split at live <;> omega
    · intro later
      refine ⟨Datetime.first, ?_⟩
      have fraction : d.micros.natAbs % 1000000 ≠ 0 :=
        fun whole => lost (keepsSecond_of_whole whole)
      rw [first_seconds, next]
      split <;> omega

/-! ### Tokens -/

section
variable (hmac : List Nat → List Nat → List Nat) (signer : SessionSigner)

/-- The text was signed in one of the calls. -/
def SessionSigner.Signed (calls : List Issue) (encoded : Text) : Prop :=
  ∃ call ∈ calls, ∃ expiresAt, call.now.shift signer.ttl = some expiresAt ∧
    encoded = call.encoded expiresAt

/-- The presented token carries no valid signature for a text that was not signed. -/
def SessionSigner.Unforged (calls : List Issue) (token : Text) : Prop :=
  (token.dropWhile (· != 46)).tail = signer.signature hmac (token.takeWhile (· != 46)) →
    signer.Signed calls (token.takeWhile (· != 46))

/-- Every issued token is accepted until it expires and gives its identity back; no other token is
accepted. -/
structure SessionSigner.RoundTrips (calls : List Issue) : Prop where
  issued : ∀ call ∈ calls, ∀ token identity,
    signer.issue hmac call = some (token, identity) → ∀ now,
    signer.verify hmac token now =
      if now.seconds < identity.expiresAt.seconds then .ok identity.readBack
        else .error .invalidSession
  other : ∀ token, signer.Unforged hmac calls token →
    (∀ call ∈ calls, ∀ identity, signer.issue hmac call ≠ some (token, identity)) →
      ∀ now, signer.verify hmac token now = .error .invalidSession

variable {hmac} {signer}

theorem issue_eq_some {call : Issue} {token : Text} {identity : SessionIdentity} :
    signer.issue hmac call = some (token, identity) ↔ ∃ expiresAt,
      call.now.shift signer.ttl = some expiresAt ∧
      token = call.encoded expiresAt ++ 46 :: signer.signature hmac (call.encoded expiresAt) ∧
      identity = call.identity expiresAt := by
  simp only [SessionSigner.issue, Option.bind_eq_bind, Option.bind_eq_some_iff, Option.some.injEq,
    Prod.mk.injEq,
    @eq_comm _ token, @eq_comm _ identity]

theorem asciiOnly_encode (bytes : List Nat) : asciiOnly (Base64.encode bytes) = true := by
  rw [asciiOnly, List.all_eq_true]
  intro c member
  have plain := Base64.encode_plain _ c member
  simp only [Base64.plain, Bool.or_eq_true, Bool.and_eq_true, decide_eq_true_eq,
    beq_iff_eq] at plain
  rw [decide_eq_true_eq]
  omega

theorem verify_issued (call : Issue) (expiresAt now : Datetime) :
    signer.verify hmac
      (call.encoded expiresAt ++ 46 :: signer.signature hmac (call.encoded expiresAt)) now =
      readPayload (call.payload expiresAt) now := by
  have portable := payload_portable call expiresAt
  have written := Json.write_ascii _ portable
  have bytes : Base64.decode (call.encoded expiresAt) =
      some (Json.object (call.payload expiresAt)).write :=
    Base64.decode_encode _ fun b there => (written b there).trans (by decide)
  obtain ⟨before, after⟩ := Base64.split_dot (signer.signature hmac (call.encoded expiresAt))
    (Base64.encode_no_dot (Json.object (call.payload expiresAt)).write)
  have plain : ¬ (asciiOnly (call.encoded expiresAt) = false ∨
      asciiOnly (signer.signature hmac (call.encoded expiresAt)) = false) := by
    rw [Issue.encoded, SessionSigner.signature, asciiOnly_encode, asciiOnly_encode]
    decide
  unfold SessionSigner.verify
  rw [Issue.encoded] at *
  simp only [before, after, if_neg plain, ne_eq, not_true_eq_false, if_false, bytes,
    Option.bind_some,
    Utf8.decode_ascii _ written, Json.loads_write portable]

/-- What is accepted is an issued token, unless it was forged. -/
theorem verify_other {calls : List Issue} {token : Text}
    (unforged : signer.Unforged hmac calls token)
    (other : ∀ call ∈ calls, ∀ identity, signer.issue hmac call ≠ some (token, identity))
    (now : Datetime) :
    signer.verify hmac token now = .error .invalidSession := by
  unfold SessionSigner.verify
  cases rest : token.dropWhile (· != 46) with
  | nil => rfl
  | cons dot signature =>
    by_cases foreign : asciiOnly (token.takeWhile (· != 46)) = false ∨ asciiOnly signature = false
    · exact if_pos foreign
    · refine (if_neg foreign).trans (if_pos ?_)
      intro valid
      have carried : (token.dropWhile (· != 46)).tail = signer.signature hmac
          (token.takeWhile (· != 46)) := by
        rw [rest, List.tail_cons, valid]
      obtain ⟨call, listed, expiresAt, ends, same⟩ := unforged carried
      obtain rfl : dot = 46 := by
        have stops := List.head?_dropWhile_not (· != 46) token
        rw [rest] at stops
        simpa using stops
      have whole : token = call.encoded expiresAt ++ 46 :: signer.signature hmac
          (call.encoded expiresAt) := by
        rw [← same, ← carried, rest, List.tail_cons, ← rest, List.takeWhile_append_dropWhile]
      exact other call listed _ (issue_eq_some.mpr ⟨expiresAt, ends, whole, rfl⟩)

end

/-- A token that expires at an instant whose second is lost shows it, if it can be presented at all.
-/
theorem SessionSigner.RoundTrips.keeps {hmac : List Nat → List Nat → List Nat}
    {signer : SessionSigner} {calls : List Issue}
    (trips : signer.RoundTrips hmac calls) {call : Issue} (listed : call ∈ calls)
    {expiresAt : Datetime}
    (ends : call.now.shift signer.ttl = some expiresAt) :
    expiresAt.KeepsSecond ∨ expiresAt.micros < earliestMicros + 1000000 := by
  by_contra both
  obtain ⟨lost, later⟩ := not_or.mp both
  obtain ⟨now, live⟩ := (live_iff expiresAt lost).mpr (not_lt.mp later)
  have read : _ = if now.seconds < expiresAt.seconds
      then Except.ok (call.identity expiresAt).readBack else _ :=
    trips.issued call listed _ _ (issue_eq_some.mpr ⟨expiresAt, ends, rfl, rfl⟩) now
  rw [verify_issued, readPayload_payload, if_pos live, if_pos live] at read
  cases stamp : fromTimestamp expiresAt.seconds with
  | error e =>
    rw [stamp] at read
    cases read
  | ok end_ =>
    rw [stamp] at read
    have same : end_ = expiresAt.truncated :=
      congrArg SessionIdentity.expiresAt (Except.ok.inj read)
    exact fromTimestamp_lost lost (stamp.trans (congrArg Except.ok same))

/-- Tokens round-trip exactly when the doubles keep the second of every expiry. -/
theorem round_trips_iff (hmac : List Nat → List Nat → List Nat) (signer : SessionSigner)
    (calls : List Issue) :
    signer.RoundTrips hmac calls ↔ ∀ call ∈ calls, ∀ expiresAt,
      call.now.shift signer.ttl = some expiresAt →
      expiresAt.KeepsSecond ∨ expiresAt.micros < earliestMicros + 1000000 := by
  constructor
  · intro trips call listed expiresAt ends
    exact trips.keeps listed ends
  · intro kept
    constructor
    · intro call listed token identity made now
      obtain ⟨expiresAt, ends, rfl, rfl⟩ := issue_eq_some.mp made
      rw [verify_issued, readPayload_payload]
      change _ = if now.seconds < expiresAt.seconds then _ else _
      by_cases live : now.seconds < expiresAt.seconds
      · rw [if_pos live, if_pos live]
        have keeps : expiresAt.KeepsSecond := by
          by_contra lost
          have later := (live_iff expiresAt lost).mp ⟨now, live⟩
          exact (kept call listed expiresAt ends).elim lost (not_lt.mpr later)
        rw [fromTimestamp_kept keeps]
        rfl
      · rw [if_neg live, if_neg live]
    · intro token unforged other now
      exact verify_other unforged other now

/-- The last microsecond before 2600-01-01T12:00:01. -/
def lateCall : Issue where
  actorId := ⟨lit "visitor", by decide⟩
  displayName := ⟨lit "Visitor", by decide⟩
  actorKind := ⟨lit "human", by decide⟩
  agentUrl := none
  now := ⟨19880899200999999, by decide, by decide⟩
  random := List.replicate 24 0

def twelveHours : SessionSigner where
  secret := List.replicate 32 0
  long := by decide
  ttl := 43200000000

/-- The double of the expiry is that of the next second, which the identity then names. -/
theorem late_expiry_not_kept : ¬ twelveHours.RoundTrips (fun _ _ => List.replicate 32 0)
    [lateCall] := by
  intro trips
  have ends : lateCall.now.shift twelveHours.ttl = some ⟨19880942400999999, by decide, by decide⟩ :=
    rfl
  have kept := trips.keeps (List.mem_singleton.mpr rfl) ends
  exact absurd kept (by decide)

end Metahumotonic.Wiki
