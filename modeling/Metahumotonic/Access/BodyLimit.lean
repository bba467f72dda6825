import Mathlib.Algebra.GroupWithZero.Nat
import Metahumotonic.Access.RequestLogging

/-! The guards of the wiki surface (`app/wiki/http.py`) where they stand: between the server and the
request logging (`app/main.py`). An application may read and answer in any order, and may catch what
a read raises. -/
namespace Metahumotonic.Access

open Library

/-- What the server hands out: a part of the body, or the end of the connection. -/
inductive Message where
  | request (body : Text) (moreBody : Bool)
  | disconnect
  deriving DecidableEq

inductive Failure where
  | requestBodyTooLarge
  | other
  deriving DecidableEq

/-- An application, by what it does next. -/
inductive Application where
  | finish
  | raises (failure : Failure)
  | send (frame : Frame) (rest : Application)
  | receive (rest : Except Failure Message → Application)

/-- What an application has sent, what it was handed, and what it raised. -/
structure Trace where
  frames : List Frame := []
  handed : List Message := []
  failure : Option Failure := none
  deriving DecidableEq

def Application.run {σ : Type*} (receive : σ → Except Failure Message × σ) : Application → σ → Trace
  | .finish, _ => {}
  | .raises failure, _ => { failure := some failure }
  | .send frame rest, s =>
    let t := rest.run receive s
    { t with frames := frame :: t.frames }
  | .receive rest, s =>
    let t := (rest (receive s).1).run receive (receive s).2
    match (receive s).1 with
    | .ok message => { t with handed := message :: t.handed }
    | .error _ => t

/-- The server; after the last message the connection is closed. -/
def serverReceive : List Message → Except Failure Message × List Message
  | [] => (.ok .disconnect, [])
  | message :: rest => (.ok message, rest)

/-- `limited_receive`, with the bytes that are consumed. -/
def limitedReceive (maxBytes : ℕ) (s : ℕ × List Message) : Except Failure Message ×
    (ℕ × List Message) :=
  match serverReceive s.2 with
  | (.ok (.request body moreBody), rest) =>
    let consumed := s.1 + body.length
    (if consumed > maxBytes then .error .requestBodyTooLarge else .ok (.request body moreBody),
      (consumed, rest))
  | (message, rest) => (message, (s.1, rest))

/-- Whether the guard looks at a request. -/
def limits (scope : Scope) : Bool :=
  scope.type = "http" ∧
    ((lit "/api/wiki/v1/").isPrefixOf (scope.path.getD []) ∨
      (lit "/internal/wiki/moderation/").isPrefixOf (scope.path.getD [])) ∧
    ((scope.method.getD (lit "GET")).map fun c => if 97 ≤ c ∧ c ≤ 122 then c - 32 else c) ∉
      [lit "GET", lit "HEAD", lit "OPTIONS"]

/-- White space of a byte string. -/
def byteSpace (c : ℕ) : Bool := (9 ≤ c ∧ c ≤ 13) ∨ c = 32

/-- Digits, with single underscores between them. -/
def digitsOf (text : Text) : Option ℕ :=
  let parts := text.splitOn 95
  let digits := parts.flatten
  if parts.all (fun part => !part.isEmpty && part.all fun c => 48 ≤ c ∧ c ≤ 57) ∧
    digits.length ≤ 4300 then
    some (digits.foldl (fun n c => 10 * n + (c - 48)) 0)
  else none

/-- `int` of a byte string; nothing where it raises a `ValueError`. -/
def intOf (raw : Text) : Option ℤ :=
  match ((raw.dropWhile byteSpace).reverse.dropWhile byteSpace).reverse with
  | 43 :: digits => (digitsOf digits).map (↑)
  | 45 :: digits => (digitsOf digits).map fun n => -(n : ℤ)
  | digits => (digitsOf digits).map (↑)

/-- The header lines of a request as a dict: a later line replaces an earlier one. -/
def rawLength (scope : Scope) : Option Text :=
  ((scope.headers.filter fun h => lower h.1 = lit "content-length").getLast?).map (·.2)

/-- `_reject`. -/
def reject (status : ℕ) (code : Text) : Trace :=
  let body := lit "\x7b\"detail\":\x7b\"code\":\"" ++ code ++
    lit "\",\"message\":\"wiki request body exceeds the configured limit\"\x7d\x7d"
  { frames := [
      .start status (some [(lit "content-type", lit "application/json"),
        (lit "content-length", (Nat.toDigits 10 body.length).map Char.toNat),
        (lit "cache-control", lit "no-store")]),
      .body body none] }

def tooLarge : Trace := reject 413 (lit "request_body_too_large")

section Stack

variable (setItem : List Header → Text → Text → List Header) (trustProxy : Bool) (hex : Text)
  (elapsed : List Frame → Nat) (maxBytes : ℕ) (scope : Scope) (app : Scope → Application)

/-- The scope that the application behind the request logging sees. -/
def seen : Scope := if scope.type ≠ "http" then scope
    else { scope with requestId := some (requestId hex) }

/-- The application behind the request logging, which hands on what the server hands out. -/
def logged {σ : Type*} (receive : σ → Except Failure Message × σ) (s : σ) : Trace :=
  let t := (app (seen hex scope)).run receive s
  let outcome := call setItem trustProxy hex elapsed scope fun _ => ⟨t.frames, t.failure.isSome⟩
  { frames := outcome.sent, handed := t.handed, failure := if outcome.raised
    then t.failure else none }

/-- The response is held back until the application is through; an exception of its own leaves
nothing of it. -/
def released (t : Trace) : Trace :=
  match t.failure with
  | some .requestBodyTooLarge => { tooLarge with handed := t.handed }
  | some .other => { t with frames := [] }
  | none => t

/-- `WikiBodyLimitMiddleware.__call__`. -/
def bodyLimit (messages : List Message) : Trace :=
  let plain := logged setItem trustProxy hex elapsed scope app serverReceive messages
  let limited := released (logged setItem trustProxy hex elapsed scope app (limitedReceive maxBytes)
    (0, messages))
  if limits scope then
    match rawLength scope with
    | none | some [] => limited
    | some raw =>
      match intOf raw with
      | none => reject 400 (lit "invalid_content_length")
      | some length => if length > maxBytes then tooLarge else limited
  else plain

/-- The paths that crawlers must not index. -/
def protectedPath : Bool :=
  scope.path.getD [] ∈ [lit "/api/wiki", lit "/internal/wiki/moderation"] ∨
    (lit "/api/wiki/").isPrefixOf (scope.path.getD []) ∨
    (lit "/internal/wiki/moderation/").isPrefixOf (scope.path.getD [])

def noindexSend : Frame → Frame
  | .start status headers =>
    .start status (some (((headers.getD []).filter fun h =>
      lower h.1 ∉ [lit "x-robots-tag", lit "cache-control"]) ++
      [(lit "x-robots-tag", lit "noindex, nofollow, noarchive"),
        (lit "cache-control", lit "no-store")]))
  | frame => frame

/-- `WikiRobotsMiddleware` over the body limit over the request logging. -/
def wikiStack (messages : List Message) : Trace :=
  let t := bodyLimit setItem trustProxy hex elapsed maxBytes scope app messages
  if scope.type = "http" ∧ protectedPath scope
    then { t with frames := t.frames.map noindexSend } else t

end Stack

def Message.size : Message → ℕ
  | .request body _ => body.length
  | .disconnect => 0

def bytes (messages : List Message) : ℕ := (messages.map Message.size).sum

@[simp] theorem bytes_cons (message : Message) (messages : List Message) :
    bytes (message :: messages) = message.size + bytes messages := by
  rw [bytes, List.map_cons, List.sum_cons]
  rfl

/-- The status of the response, if one has begun. -/
def answerStatus (frames : List Frame) : Option ℕ := (frames.filterMap Frame.status?).head?

/-- The values of a header, whatever the case of its name. -/
def headerValues (name : Text) (headers : List Header) : List Text :=
  (headers.filter fun h => lower h.1 = name).map (·.2)

section Reading

variable {maxBytes : ℕ}

/-- Whatever an application does about it, it is never handed more than what is left of the limit.
-/
theorem limited_bytes (app : Application) (consumed : ℕ) (messages : List Message) :
    bytes (app.run (limitedReceive maxBytes) (consumed, messages)).handed ≤ maxBytes -
      consumed := by
  induction app generalizing consumed messages with
  | finish => exact Nat.zero_le _
  | raises failure => exact Nat.zero_le _
  | send frame rest ih => exact ih consumed messages
  | receive rest ih =>
    rw [Application.run]
    cases messages with
    | nil =>
      simp only [limitedReceive, serverReceive, bytes_cons, Message.size, Nat.zero_add]
      exact ih _ consumed []
    | cons message messages =>
      cases message with
      | disconnect =>
        simp only [limitedReceive, serverReceive, bytes_cons, Message.size, Nat.zero_add]
        exact ih _ consumed messages
      | request body moreBody =>
        simp only [limitedReceive, serverReceive]
        split_ifs with beyond
        · exact le_trans (ih _ (consumed + body.length) messages) (by omega)
        · have later := ih (.ok (.request body moreBody)) (consumed + body.length) messages
          simp only [bytes_cons, Message.size]
          omega

/-- Within the limit an application runs as it would before the server. -/
theorem limited_run (app : Application) {consumed : ℕ} {messages : List Message}
    (within : consumed + bytes messages ≤ maxBytes) :
    app.run (limitedReceive maxBytes) (consumed, messages) = app.run serverReceive messages := by
  induction app generalizing consumed messages with
  | finish => rfl
  | raises failure => rfl
  | send frame rest ih => simp only [Application.run, ih within]
  | receive rest ih =>
    rw [Application.run, Application.run]
    cases messages with
    | nil => simp only [limitedReceive, serverReceive, ih _ within]
    | cons message messages =>
      rw [bytes_cons] at within
      cases message with
      | disconnect =>
        have rest_ : consumed + bytes messages ≤ maxBytes := by
          have none_ : Message.disconnect.size = 0 := rfl
          omega
        simp only [limitedReceive, serverReceive, ih _ rest_]
      | request body moreBody =>
        have size : (Message.request body moreBody).size = body.length := rfl
        have rest_ : consumed + body.length + bytes messages ≤ maxBytes := by omega
        simp only [limitedReceive, serverReceive,
          if_neg (show ¬ consumed + body.length > maxBytes by omega), ih _ rest_]

end Reading

/-- No length is declared, or one within the limit. -/
def Admitted (maxBytes : ℕ) (scope : Scope) : Prop :=
  ∀ raw, rawLength scope = some raw → raw ≠ [] → ∃ length, intOf raw = some length ∧
    length ≤ maxBytes

section Answering

variable {setItem : List Header → Text → Text → List Header} {trustProxy : Bool} {hex : Text}
  {elapsed : List Frame → Nat} {maxBytes : ℕ} {scope : Scope} {app : Scope → Application}

/-- The wrapper of the request logging sends every frame on with its status. -/
theorem wrapper_statuses (frames : List Frame) (s : State) :
    (frames.foldl (sendWrapper setItem trustProxy hex elapsed scope) s).sent.filterMap
      Frame.status? =
      s.sent.filterMap Frame.status? ++ frames.filterMap Frame.status? := by
  induction frames generalizing s with
  | nil => rw [List.foldl_nil, List.filterMap_nil, List.append_nil]
  | cons frame rest ih =>
    rw [List.foldl_cons, ih]
    cases frame with
    | start status headers =>
      simp only [sendWrapper, send_sent, List.filterMap_append, List.append_assoc]
      rfl
    | body content moreBody =>
      unfold sendWrapper
      dsimp only
      split_ifs <;> simp only [send_sent, emit_sent, List.filterMap_append, List.append_assoc] <;>
        rfl
    | other type =>
      simp only [sendWrapper, send_sent, List.filterMap_append, List.append_assoc]
      rfl

theorem wrapper_started (frames : List Frame) (s : State) :
    (frames.foldl (sendWrapper setItem trustProxy hex elapsed scope) s).started =
      (s.started || (answerStatus frames).isSome) := by
  induction frames generalizing s with
  | nil => rw [List.foldl_nil, answerStatus, List.filterMap_nil, List.head?_nil, Option.isSome_none,
    Bool.or_false]
  | cons frame rest ih =>
    rw [List.foldl_cons, ih]
    cases frame with
    | start status headers =>
      have begun : (answerStatus (.start status headers :: rest)).isSome = true := rfl
      rw [begun, Bool.or_true]
      exact Bool.true_or _
    | body content moreBody =>
      unfold sendWrapper
      dsimp only
      split_ifs <;> simp only [send_started, emit_started] <;> rfl
    | other type => rfl

theorem answerStatus_noindex (frames : List Frame) :
    answerStatus (frames.map noindexSend) = answerStatus frames := by
  rw [answerStatus, List.filterMap_map, answerStatus]
  congr 2
  funext frame
  cases frame <;> rfl

theorem handled_raised {app : Scope → Behaviour} {b : Behaviour} {s : State}
    (runs : app { scope with requestId := some (requestId hex) } = b)
    (reached : framesRun scope setItem trustProxy hex elapsed b = s) :
    (handled setItem trustProxy hex elapsed scope app).raised = (b.raises && s.started) := by
  unfold framesRun at reached
  by_cases raises : b.raises = true
  · by_cases started : s.started = true
    · simp [handled, runs, reached, raises, started]
    · simp [handled, runs, reached, raises, started]
  · simp [handled, runs, reached, raises]

variable (setItem trustProxy elapsed) in
/-- What is behind the request logging raises only within a response; else the logging answers
itself. -/
theorem logged_raised (http : scope.type = "http") {σ : Type*}
    (receive : σ → Except Failure Message × σ) (s : σ)
    {failure : Failure} (raised : ((app (seen hex scope)).run receive s).failure = some failure) :
    let through := logged setItem trustProxy hex elapsed scope app receive s
    if (answerStatus ((app (seen hex scope)).run receive s).frames).isSome
      then through.failure = some failure
    else through.failure = none ∧ answerStatus through.frames = some 500 := by
  dsimp only
  unfold logged
  generalize (app (seen hex scope)).run receive s = t at raised ⊢
  dsimp only
  have called : call setItem trustProxy hex elapsed scope (fun _ => ⟨t.frames, t.failure.isSome⟩) =
      handled setItem trustProxy hex elapsed scope fun _ => ⟨t.frames, t.failure.isSome⟩ :=
        if_neg (by simp [http])
  have raises : t.failure.isSome = true := by rw [raised]; rfl
  have started : (framesRun scope setItem trustProxy hex elapsed
      ⟨t.frames, t.failure.isSome⟩).started =
      (answerStatus t.frames).isSome := by
    rw [framesRun, wrapper_started, State.initial, Bool.false_or]
  rw [raises] at started called
  rw [raises, called, handled_raised rfl rfl, started, Bool.true_and]
  split_ifs with begun
  · exact raised
  · have none_ : t.frames.filterMap Frame.status? = [] := by
      rw [Option.not_isSome_iff_eq_none] at begun
      exact List.head?_eq_none_iff.mp begun
    refine ⟨rfl, ?_⟩
    rw [answerStatus, handled_sent rfl rfl, started, if_pos ⟨rfl, by simpa using begun⟩,
      List.filterMap_append,
      framesRun, wrapper_statuses, none_]
    rfl

theorem limits_http (limited : limits scope = true) : scope.type = "http" :=
  (of_decide_eq_true limited).1

theorem limits_protected (limited : limits scope = true) : protectedPath scope = true := by
  obtain ⟨-, path, -⟩ := of_decide_eq_true limited
  apply decide_eq_true
  rcases path with wiki | moderation
  · refine .inr (.inl ?_)
    rw [List.isPrefixOf_iff_prefix] at wiki ⊢
    exact List.IsPrefix.trans ⟨lit "v1/", rfl⟩ wiki
  · exact .inr (.inr moderation)

/-- What the surface does with a request that its guard looks at. -/
theorem wikiStack_limited (limited : limits scope = true) (messages : List Message) :
    wikiStack setItem trustProxy hex elapsed maxBytes scope app messages =
      let t := bodyLimit setItem trustProxy hex elapsed maxBytes scope app messages
      { t with frames := t.frames.map noindexSend } :=
  if_pos ⟨limits_http limited, limits_protected limited⟩

theorem bodyLimit_admitted (limited : limits scope = true) (admitted : Admitted maxBytes scope)
    (messages : List Message) :
    bodyLimit setItem trustProxy hex elapsed maxBytes scope app messages =
      released (logged setItem trustProxy hex elapsed scope app (limitedReceive maxBytes)
        (0, messages)) := by
  unfold bodyLimit
  dsimp only
  rw [if_pos limited]
  split
  · rfl
  · rfl
  · next raw full present =>
    obtain ⟨length, parsed, within⟩ := admitted raw present full
    rw [parsed]
    exact if_neg (Int.not_lt.mpr within)

/-- A response that `noindexSend` has marked. -/
def Marked (frames : List Frame) : Prop :=
  ∀ status headers, .start status headers ∈ frames →
    headerValues (lit "x-robots-tag") (headers.getD []) = [lit "noindex, nofollow, noarchive"] ∧
      headerValues (lit "cache-control") (headers.getD []) = [lit "no-store"]

/-- The lines of these names are gone, whatever their case. -/
theorem headerValues_removed {names : List Text} {name : Text} (member : name ∈ names)
    (headers : List Header) :
    headerValues name (headers.filter fun h => lower h.1 ∉ names) = [] := by
  rw [headerValues, List.filter_filter, List.map_eq_nil_iff, List.filter_eq_nil_iff]
  rintro h - both
  rw [Bool.and_eq_true, decide_eq_true_eq, decide_eq_true_eq] at both
  exact both.2 (both.1 ▸ member)

theorem headerValues_append (name : Text) (before after : List Header) :
    headerValues name (before ++ after) = headerValues name before ++ headerValues name after := by
  rw [headerValues, List.filter_append, List.map_append]
  rfl

theorem noindex_marked (frames : List Frame) : Marked (frames.map noindexSend) := by
  intro status headers member
  obtain ⟨frame, -, same⟩ := List.mem_map.mp member
  cases frame with
  | start status' headers' =>
    cases same
    rw [Option.getD_some, headerValues_append, headerValues_append,
      headerValues_removed (by decide),
      headerValues_removed (by decide)]
    constructor <;> decide
  | body content moreBody => cases same
  | other type => cases same

/-- What has a length that is no number, or too large a one, is refused unread. -/
theorem bodyLimit_refused (limited : limits scope = true) (refused : ¬ Admitted maxBytes scope)
    (messages : List Message) :
    bodyLimit setItem trustProxy hex elapsed maxBytes scope app messages = tooLarge ∨
      bodyLimit setItem trustProxy hex elapsed maxBytes scope app messages = reject
        400 (lit "invalid_content_length") := by
  unfold bodyLimit
  dsimp only
  rw [if_pos limited]
  split
  · next absent => exact absurd (fun raw present => by rw [absent] at present; cases present) refused
  · next empty =>
    refine absurd (fun raw present full => ?_) refused
    rw [empty] at present
    exact absurd (Option.some.inj present).symm full
  · next raw full present =>
    split
    · exact .inr rfl
    · next length parsed =>
      split_ifs with beyond
      · exact .inl rfl
      · refine absurd (fun other present' _ => ⟨length, ?_, Int.not_lt.mp beyond⟩) refused
        rw [← Option.some.inj (present.symm.trans present')]
        exact parsed

theorem released_handed (t : Trace) : (released t).handed = t.handed := by
  unfold released
  split <;> rfl

end Answering

/-- What the wiki surface makes of a request with a body: `plain` is what the request logging would
make of it without the guards, and `own` what the application itself does when its reads are
limited. -/
structure Guarded (maxBytes : ℕ) (scope : Scope) (messages : List Message)
    (plain own out : Trace) : Prop where
  bounded : bytes out.handed ≤ maxBytes
  marked : Marked out.frames
  refused : ¬ Admitted maxBytes scope → out.handed = [] ∧ out.failure = none ∧
    (answerStatus out.frames = some 413 ∨ answerStatus out.frames = some 400)
  within : Admitted maxBytes scope → bytes messages ≤ maxBytes → plain.failure = none →
    out = { plain with frames := plain.frames.map noindexSend }
  broken : Admitted maxBytes scope → bytes messages ≤ maxBytes → plain.failure = some .other →
    out = { plain with frames := [] }
  given_up : Admitted maxBytes scope → own.failure = some .requestBodyTooLarge →
    out.failure = none ∧
      answerStatus out.frames = some (if (answerStatus own.frames).isSome then 413 else 500)

/-- Whatever the application does, it is never handed more than the limit and every answer is kept
out of indexes and caches. Within the limit nothing else changes. An application that gives up on
too large a body is answered for with a 413 only if it had begun to answer: otherwise the request
logging comes first, with its 500. -/
theorem wiki_stack_guards (setItem : List Header → Text → Text → List Header) (trustProxy : Bool)
    (hex : Text)
    (elapsed : List Frame → Nat) (maxBytes : ℕ) (scope : Scope) (limited : limits scope = true)
    (app : Scope → Application) (messages : List Message) :
    Guarded maxBytes scope messages
      (logged setItem trustProxy hex elapsed scope app serverReceive messages)
      ((app (seen hex scope)).run (limitedReceive maxBytes) (0, messages))
      (wikiStack setItem trustProxy hex elapsed maxBytes scope app messages) := by
  rw [wikiStack_limited limited]
  have admitted_ : Admitted maxBytes scope → bodyLimit setItem trustProxy hex elapsed maxBytes scope
      app messages =
      released (logged setItem trustProxy hex elapsed scope app (limitedReceive maxBytes)
        (0, messages)) :=
    fun admitted => bodyLimit_admitted limited admitted messages
  have refused_ : ¬ Admitted maxBytes scope →
      bodyLimit setItem trustProxy hex elapsed maxBytes scope app messages = tooLarge ∨
        bodyLimit setItem trustProxy hex elapsed maxBytes scope app messages = reject 400
          (lit "invalid_content_length") :=
    fun refused => bodyLimit_refused limited refused messages
  have within_ : bytes messages ≤ maxBytes →
      logged setItem trustProxy hex elapsed scope app (limitedReceive maxBytes) (0, messages) =
        logged setItem trustProxy hex elapsed scope app serverReceive messages := by
    intro within
    rw [logged, limited_run _ (by rwa [Nat.zero_add])]
    rfl
  constructor
  · dsimp only
    by_cases admitted : Admitted maxBytes scope
    · rw [admitted_ admitted, released_handed]
      exact limited_bytes (app (seen hex scope)) 0 messages
    · rcases refused_ admitted with same | same
      · rw [same]; exact Nat.zero_le _
      · rw [same]; exact Nat.zero_le _
  · exact noindex_marked _
  · intro refused
    rcases refused_ refused with same | same
    · rw [same]; exact ⟨rfl, rfl, .inl rfl⟩
    · rw [same]; exact ⟨rfl, rfl, .inr rfl⟩
  · intro admitted within calm
    rw [admitted_ admitted, within_ within, released, calm]
    dsimp only
    rw [calm]
  · intro admitted within broken
    rw [admitted_ admitted, within_ within, released, broken]
    rfl
  · intro admitted given_up
    have through := logged_raised setItem trustProxy elapsed (limits_http limited)
      (limitedReceive maxBytes)
      (0, messages) given_up
    rw [admitted_ admitted]
    dsimp only at through ⊢
    rw [answerStatus_noindex, released]
    by_cases begun : (answerStatus
      ((app (seen hex scope)).run (limitedReceive maxBytes) (0, messages)).frames).isSome
    · rw [if_pos begun] at through ⊢
      rw [through]
      exact ⟨rfl, rfl⟩
    · rw [if_neg begun] at through ⊢
      rw [through.1]
      exact through

/-- Reads so many messages, and then answers. -/
def reads : ℕ → Application
  | 0 => .send (.start 200 none) (.send (.body (lit "\x7b\x7d") none) .finish)
  | n + 1 => .receive fun
    | .ok _ => reads n
    | .error failure => .raises failure

def commandScope : Scope :=
  ⟨"http", some (lit "POST"), some (lit "/api/wiki/v1/pages"), [], none, none⟩

/-- Two chunks without a declared length. -/
def chunks : List Message := [.request (lit "[1,2") true, .request (lit ",3]") false]

theorem wiki_stack_guards_chunked :
    Guarded 4 commandScope chunks
      (logged starletteSetItem false (lit "00112233445566778899aabbccddeeff")
        (fun _ => 1) commandScope (fun _ => reads 2)
        serverReceive chunks)
      ((reads 2).run (limitedReceive 4) (0, chunks))
      (wikiStack starletteSetItem false (lit "00112233445566778899aabbccddeeff")
        (fun _ => 1) 4 commandScope
        (fun _ => reads 2) chunks) ∧
      answerStatus (wikiStack starletteSetItem false (lit "00112233445566778899aabbccddeeff")
        (fun _ => 1) 4 commandScope
        (fun _ => reads 2) chunks).frames = some 500 :=
  ⟨wiki_stack_guards starletteSetItem false _ _ 4 commandScope (by decide)
    (fun _ => reads 2) chunks, by decide⟩

end Metahumotonic.Access
