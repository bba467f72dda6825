import Metahumotonic.Library.Blank

/-! The key of a client for the limiters, in Python (`app/netutil.py`) and in TypeScript
(`ts/src/ports/ClientIp.ts`). Starlette answers the first line of a repeated header; Node joins the
lines. -/
namespace Metahumotonic.Limiter
open Library

structure Request where
  trustProxy : Bool
  cfConnectingIp : Option Text
  /-- The field lines, in the order in which they arrived. -/
  xForwardedFor : List Text
  peer : Option Text

/-- `split(",")[-1]`. -/
def lastEntry (line : Text) : Text := line.rtakeWhile (· != 44)

def unknown : Text := lit "unknown"

/-- An absent header is as good as an empty one. -/
def clientKey (r : Request) : Text :=
  let cf := r.cfConnectingIp.getD []
  let fwd := r.xForwardedFor.head?.getD []
  if r.trustProxy ∧ cf ≠ [] then trim pyBlank cf
  else if r.trustProxy ∧ fwd ≠ [] then trim pyBlank (lastEntry fwd)
  else r.peer.getD unknown

/-- A value that is there and not blank, trimmed. -/
def given (value : Option Text) : Option Text := (value.map (trim jsBlank)).filter (· ≠ [])

def resolve (trustProxy : Bool) (cfConnectingIp xForwardedFor remoteAddress : Option Text) : Text :=
  let proxied :=
    if trustProxy then
      (given cfConnectingIp).or ((given xForwardedFor).bind fun _ =>
        given (xForwardedFor.map lastEntry))
    else none
  (proxied.or (given remoteAddress)).getD unknown

/-- A header as Node presents it. -/
def joined (lines : List Text) : Option Text :=
  if lines = [] then none else some ([44, 32].intercalate lines)

def nodeKey (r : Request) : Text := resolve r.trustProxy r.cfConnectingIp
    (joined r.xForwardedFor) r.peer

/-- The proxy's entry is the key, whatever came before it, and both runtimes have the same key. -/
structure Steady (r : Request) : Prop where
  appended : r.trustProxy = true → r.cfConnectingIp = none → ∀ init line,
    r.xForwardedFor = init ++ [line] →
    trim jsBlank (lastEntry line) ≠ [] → trim pyBlank (lastEntry line) ≠ [] →
      clientKey r = trim jsBlank (lastEntry line) ∧ nodeKey r = trim jsBlank (lastEntry line)
  same : clientKey r = nodeKey r
  named : clientKey r ≠ []

/-- A value that both languages trim to the same text. -/
def Plain (value : Text) : Prop := (∃ c ∈ value, jsBlank c = false) ∧ EndsPlain value

def PlainPeer (peer : Option Text) : Prop := ∀ host ∈ peer, host ≠ [] ∧ ∀ c, AtEnd c host →
    jsBlank c = false

/-- Whom the first line names: the peer if the line is empty. -/
def firstNamed (peer : Option Text) (first : Text) : Text :=
  if first = [] then peer.getD unknown else trim pyBlank (lastEntry first)

/-- Whom the last line names: the peer if its last entry is blank. -/
def lastNamed (peer : Option Text) (last : Text) : Text :=
  ((given (some (lastEntry last))).or (given peer)).getD unknown

def ForwardedSettled (peer : Option Text) : List Text → Prop
  | [] => PlainPeer peer
  | [line] => if line = [] then PlainPeer peer else Plain (lastEntry line)
  | first :: next :: rest => firstNamed peer first = lastNamed peer ((next :: rest).getLastD next)

def Settled (r : Request) : Prop :=
  if r.trustProxy = false then PlainPeer r.peer
  else if r.cfConnectingIp.getD [] ≠ [] then Plain (r.cfConnectingIp.getD [])
  else ForwardedSettled r.peer r.xForwardedFor

theorem given_some (value : Text) :
    given (some value) = if trim jsBlank value = [] then none else some (trim jsBlank value) := by
  unfold given
  rw [Option.map_some, Option.filter_some]
  split_ifs with filled blank blank
  · exact absurd blank (by simpa using filled)
  · rfl
  · rfl
  · exact absurd (by simpa using blank) filled

/-- What is given is trimmed and not empty. -/
theorem given_trimmed {value : Option Text} {v : Text} (found : given value = some v) :
    v ≠ [] ∧ trim jsBlank v = v := by
  cases value with
  | none => cases found
  | some raw =>
    rw [given_some] at found
    split_ifs at found with blank
    cases found
    exact ⟨blank, trim_trim (fun _ same => same) raw⟩

theorem getD_trimmed (value : Option Text) {other : Text} (filled : other ≠ [])
    (trimmed : trim jsBlank other = other) :
    (given value).getD other ≠ [] ∧ trim jsBlank ((given value).getD other) =
    (given value).getD other := by
  cases found : given value with
  | none => exact ⟨filled, trimmed⟩
  | some v => exact given_trimmed found

/-- A raw value against the trimmed one, or what is taken in its place. -/
theorem plain_iff (value : Text) {other : Text} (trimmed : trim jsBlank other = other) :
    trim pyBlank value = (given (some value)).getD other ∧ trim pyBlank value ≠ [] ↔
      Plain value := by
  have visible : (∃ c ∈ value, jsBlank c = false) ↔ trim jsBlank value ≠ [] := by
    rw [ne_eq, trim_eq_nil_iff]
    simp
  rw [Plain, visible, ← trims_agree_iff, given_some]
  split_ifs with blank
  · refine iff_of_false ?_ fun plain => plain.1 blank
    rintro ⟨same, filled⟩
    -- what Python left of a blank value is blank for the other side as well
    have inner : trim jsBlank (trim pyBlank value) = [] := by
      rw [trim_eq_nil_iff]
      exact fun c member => trim_eq_nil_iff.mp blank c (mem_trim member)
    rw [Option.getD_none] at same
    rw [same, trimmed] at inner
    exact filled (same.trans inner)
  · rw [Option.getD_some]
    constructor
    · exact fun agreed => ⟨blank, agreed.1⟩
    · exact fun agreed => ⟨agreed.2, agreed.2 ▸ blank⟩

theorem unknown_trimmed : trim jsBlank unknown = unknown := by decide

theorem peer_iff (peer : Option Text) :
    peer.getD unknown = (given peer).getD unknown ∧ peer.getD unknown ≠ [] ↔ PlainPeer peer := by
  cases peer with
  | none => simp [PlainPeer, given, unknown, lit]
  | some host =>
    have plain : PlainPeer (some host) ↔ host ≠ [] ∧ trim jsBlank host = host := by
      rw [trim_eq_self_iff]
      simp [PlainPeer]
    rw [plain, given_some, Option.getD_some]
    split_ifs with blank
    · rw [blank, Option.getD_none]
      constructor
      · rintro ⟨same, -⟩
        rw [same, unknown_trimmed] at blank
        cases blank
      · rintro ⟨filled, empty⟩
        exact absurd empty.symm filled
    · rw [Option.getD_some, eq_comm, and_comm]

theorem lastEntry_of_not_mem {line : Text} (single : 44 ∉ line) : lastEntry line = line := by
  rw [lastEntry, List.rtakeWhile_eq_self_iff]
  intro c member
  rw [bne_iff_ne]
  rintro rfl
  exact single member

theorem lastEntry_append (front line : Text) :
    lastEntry (front ++ 44 :: line) = lastEntry line := by
  have stop : ∀ xs : Text, (xs ++ 44 :: front.reverse).takeWhile (· != 44) = xs.takeWhile
      (· != 44) := by
    intro xs
    induction xs with
    | nil => rfl
    | cons x xs ih =>
      rw [List.cons_append, List.takeWhile_cons, List.takeWhile_cons, ih]
  rw [lastEntry, lastEntry, List.rtakeWhile, List.rtakeWhile, List.reverse_append,
    List.reverse_cons,
    List.append_assoc, List.singleton_append, stop]

theorem trim_lastEntry_blank (line : Text) : trim jsBlank (lastEntry (32 :: line)) = trim jsBlank
    (lastEntry line) := by
  by_cases several : 44 ∈ line
  · obtain ⟨front, back, rfl⟩ := List.append_of_mem several
    rw [← List.cons_append, lastEntry_append, lastEntry_append]
  · rw [lastEntry_of_not_mem several, lastEntry_of_not_mem (by simpa using several)]
    rfl

/-- Of joined lines the last entry is the last one's. -/
theorem joined_last (init : List Text) (line : Text) : ∃ whole, joined
    (init ++ [line]) = some whole ∧
    trim jsBlank (lastEntry whole) = trim jsBlank (lastEntry line) := by
  refine ⟨_, if_neg (by simp), ?_⟩
  induction init with
  | nil => simp [List.intercalate]
  | cons first rest ih =>
    have more : [44, 32].intercalate (first :: rest ++ [line]) =
        first ++ 44 :: 32 :: [44, 32].intercalate (rest ++ [line]) := by
      cases rest <;> simp [List.intercalate]
    rw [more, lastEntry_append, trim_lastEntry_blank, ih]

theorem given_congr {v w : Text} (same : trim jsBlank v = trim jsBlank w) : given (some v) = given
    (some w) := by
  rw [given_some, given_some, same]

/-- Only the last entry decides whether a forwarded line names anyone. -/
theorem forwarded_eq (value : Option Text) :
    ((given value).bind fun _ => given (value.map lastEntry)) = given (value.map lastEntry) := by
  cases value with
  | none => rfl
  | some whole =>
    cases found : given (some whole) with
    | some v => rfl
    | none =>
      rw [given_some] at found
      split_ifs at found with blank
      have inner : trim jsBlank (lastEntry whole) = [] := by
        rw [trim_eq_nil_iff] at blank ⊢
        exact fun c member => blank c ((List.rtakeWhile_suffix _ _).subset member)
      rw [Option.bind_none, Option.map_some, given_some, if_pos inner]

theorem nodeKey_eq (r : Request) (trusted : r.trustProxy = true) :
    nodeKey r = (given r.cfConnectingIp).getD
      ((given ((joined r.xForwardedFor).map lastEntry)).getD ((given r.peer).getD unknown)) := by
  rw [nodeKey, resolve, if_pos trusted, forwarded_eq]
  cases given r.cfConnectingIp with
  | some v => rfl
  | none => cases given ((joined r.xForwardedFor).map lastEntry) <;> rfl

theorem nodeKey_direct (r : Request) (direct : r.trustProxy = false) :
    nodeKey r = (given r.peer).getD unknown := by
  simp [nodeKey, resolve, direct]

theorem given_nil : given (some []) = none := by decide

/-- The lines alone: the first against all of them joined. -/
theorem forwarded_iff (peer : Option Text) (lines : List Text) :
    firstNamed peer (lines.head?.getD []) = (given ((joined lines).map lastEntry)).getD
      ((given peer).getD unknown) ∧
      (given ((joined lines).map lastEntry)).getD ((given peer).getD unknown) ≠ [] ↔
    ForwardedSettled peer lines := by
  have unnamed := getD_trimmed peer (by decide) unknown_trimmed
  match lines with
  | [] =>
    rw [ForwardedSettled, ← peer_iff]
    have key : firstNamed peer (([] : List Text).head?.getD []) = peer.getD unknown := rfl
    rw [key]
    exact and_congr_right fun same => by rw [same]
  | [line] =>
    obtain ⟨whole, made, last⟩ := joined_last [] line
    rw [List.nil_append] at made
    rw [made, Option.map_some, given_congr last, ForwardedSettled]
    rw [List.head?_cons, Option.getD_some, firstNamed]
    by_cases empty : line = []
    · rw [if_pos empty, if_pos empty, ← peer_iff, empty]
      have blank : given (some (lastEntry [])) = none := given_nil
      rw [blank, Option.getD_none]
      exact and_congr_right fun same => by rw [same]
    · rw [if_neg empty, if_neg empty, ← plain_iff (lastEntry line) unnamed.2]
      exact and_congr_right fun same => by rw [same]
  | first :: next :: more =>
    obtain ⟨whole, made, last⟩ := joined_last (first :: (next :: more).dropLast)
      ((next :: more).getLast (List.cons_ne_nil _ _))
    rw [List.cons_append, List.dropLast_append_getLast] at made
    have named : lastNamed peer ((next :: more).getLastD next) =
        (given (some (lastEntry whole))).getD ((given peer).getD unknown) := by
      rw [List.getLastD_eq_getLast?, List.getLast?_eq_some_getLast (List.cons_ne_nil _ _),
        Option.getD_some,
        lastNamed, ← given_congr last]
      cases given (some (lastEntry whole)) <;> rfl
    rw [made, Option.map_some, ForwardedSettled, ← named]
    have filled : lastNamed peer ((next :: more).getLastD next) ≠ [] := by
      rw [named]
      exact (getD_trimmed _ unnamed.1 unnamed.2).1
    rw [and_iff_left filled]
    rfl

theorem same_iff (r : Request) : clientKey r = nodeKey r ∧ clientKey r ≠ [] ↔ Settled r := by
  have turn : clientKey r = nodeKey r ∧ clientKey r ≠ [] ↔ clientKey r = nodeKey r ∧
      nodeKey r ≠ [] :=
    and_congr_right fun same => by rw [same]
  rw [turn]
  cases trust : r.trustProxy with
  | false =>
    rw [nodeKey_direct r trust, Settled, if_pos trust, ← peer_iff]
    have key : clientKey r = r.peer.getD unknown := by simp [clientKey, trust]
    rw [key]
    exact and_congr_right fun same => by rw [same]
  | true =>
    have unnamed := getD_trimmed r.peer (by decide) unknown_trimmed
    have further := getD_trimmed ((joined r.xForwardedFor).map lastEntry) unnamed.1 unnamed.2
    rw [nodeKey_eq r trust, Settled, if_neg (by simp [trust])]
    cases cf : r.cfConnectingIp.getD [] with
    | nil =>
      have absent : given r.cfConnectingIp = none := by
        cases header : r.cfConnectingIp with
        | none => rfl
        | some v =>
          rw [header, Option.getD_some] at cf
          rw [cf, given_nil]
      have key : clientKey r = firstNamed r.peer (r.xForwardedFor.head?.getD []) := by
        simp [clientKey, trust, cf, firstNamed]
      rw [absent, Option.getD_none, if_neg (not_not.mpr rfl), key]
      exact forwarded_iff r.peer r.xForwardedFor
    | cons c rest =>
      have header : r.cfConnectingIp = some (c :: rest) := by
        cases header : r.cfConnectingIp with
        | none =>
          rw [header] at cf
          cases cf
        | some v =>
          rw [header, Option.getD_some] at cf
          rw [cf]
      have key : clientKey r = trim pyBlank (c :: rest) := by simp [clientKey, trust, cf]
      rw [if_pos (List.cons_ne_nil _ _), key, header, ← plain_iff (c :: rest) further.2]
      exact and_congr_right fun same => by rw [same]

/-- The client has no say about the key exactly where both runtimes read one line to the same text.
-/
theorem steady_iff (r : Request) : Steady r ↔ Settled r := by
  constructor
  · exact fun steady => (same_iff r).mp ⟨steady.same, steady.named⟩
  · intro settled
    obtain ⟨same, named⟩ := (same_iff r).mpr settled
    refine ⟨?_, same, named⟩
    intro trusted absent init line lines filled _
    obtain ⟨whole, made, last⟩ := joined_last init line
    have node : nodeKey r = trim jsBlank (lastEntry line) := by
      rw [nodeKey_eq r trusted, absent, lines, made, Option.map_some, given_congr last, given_some,
        if_neg filled]
      rfl
    exact ⟨same.trans node, node⟩

/-- A line that the client sent stands before the one of the proxy. -/
def spoofed : Request := ⟨true, none, [lit "6.6.6.6", lit "203.0.113.9"], some (lit "10.0.0.1")⟩

theorem first_line_steers_the_key : clientKey spoofed = lit "6.6.6.6" ∧
    nodeKey spoofed = lit "203.0.113.9" ∧
    ¬ Steady spoofed := by
  refine ⟨by decide, by decide, fun steady => absurd steady.same (by decide)⟩

example : clientKey ⟨true, none, [lit "6.6.6.6, 203.0.113.9"], none⟩ = lit "203.0.113.9" := by
  decide

end Metahumotonic.Limiter
