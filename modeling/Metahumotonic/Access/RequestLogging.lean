import Metahumotonic.Limiter.ClientKey

/-! Request logging and the request id (`app/middleware.py`). The wrapper stands between the
server and an ASGI application: it sees every frame that the application sends, and how the
application ends. -/
namespace Metahumotonic.Access

open Library Limiter

/-- A header line, name and value, byte by byte. -/
abbrev Header := Text × Text

/-- `bytes.lower`. -/
def lower (name : Text) : Text := name.map fun c => if 65 ≤ c ∧ c ≤ 90 then c + 32 else c

/-- What an application sends. A key that a frame leaves out is `none`. -/
inductive Frame where
  | start (status : Nat) (headers : Option (List Header))
  | body (content : Text) (moreBody : Option Bool)
  | other (type : String)
  deriving DecidableEq, Repr

structure Scope where
  type : String
  method : Option Text
  path : Option Text
  headers : List Header
  /-- The host of the peer. -/
  client : Option Text
  /-- `scope["state"]["request_id"]`. -/
  requestId : Option Text
  deriving DecidableEq, Repr

/-- What an application does with a scope: its frames, and whether it then raises. -/
structure Behaviour where
  frames : List Frame
  raises : Bool
  deriving DecidableEq, Repr

inductive Log where
  | request (requestId method path : Text) (statusCode durationMs : Nat) (client : Text)
      (correlationId : Option Text)
  | requestFailed (requestId method path : Text)
  deriving DecidableEq, Repr

structure Outcome where
  sent : List Frame
  logs : List Log
  raised : Bool
  deriving DecidableEq, Repr

def excluded : List Text := [lit "/metrics", lit "/health", lit "/ready"]

def idHeader : Text := lit "x-request-id"

def body500 : Text := lit "\x7b\"detail\":\"Internal Server Error\"\x7d"

/-- `Headers.get` of a request. -/
def getHeader (headers : List Header) (name : Text) : Option Text :=
  (headers.find? fun h => h.1 = name).map (·.2)

/-- `_CID_RE.fullmatch`. -/
def wellFormedId (cid : Text) : Bool :=
  1 ≤ cid.length ∧ cid.length ≤ 64 ∧ ∀ c ∈ cid,
    (48 ≤ c ∧ c ≤ 57) ∨ (65 ≤ c ∧ c ≤ 90) ∨ (97 ≤ c ∧ c ≤ 122) ∨ c = 46 ∨ c = 95 ∨ c = 45

def inboundCorrelationId (scope : Scope) : Option Text :=
  (getHeader scope.headers idHeader).filter wellFormedId

/-- The wrapper's own state, with what it has sent and logged. -/
structure State where
  started : Bool
  logged : Bool
  status : Nat
  sent : List Frame
  logs : List Log

def State.initial : State := ⟨false, false, 500, [], []⟩

def State.send (s : State) (frame : Frame) : State := { s with sent := s.sent ++ [frame] }

def State.note (s : State) (entry : Log) : State := { s with logs := s.logs ++ [entry] }

section Program

/- Starlette's `MutableHeaders.__setitem__`, whether the proxy in front is trusted, the id drawn for
the request, and the time that has passed once some frames were sent. -/
variable (setItem : List Header → Text → Text → List Header) (trustProxy : Bool) (hex : Text)
  (elapsed : List Frame → Nat) (scope : Scope)

def requestId : Text := hex.take 16

def pathOf : Text := scope.path.getD []

def methodOf : Text := scope.method.getD []

def clientOf : Text :=
  clientKey
    { trustProxy
      cfConnectingIp := getHeader scope.headers (lit "cf-connecting-ip")
      xForwardedFor := (scope.headers.filter fun h => h.1 = lit "x-forwarded-for").map (·.2)
      peer := scope.client }

def emit (statusCode : Nat) (s : State) : State :=
  if s.logged then s
  else if pathOf scope ∈ excluded ∧ statusCode < 400 then s
  else
    let entry := Log.request (requestId hex) (methodOf scope) (pathOf scope) statusCode
      (elapsed s.sent)
      (clientOf trustProxy scope) (inboundCorrelationId scope)
    { s.note entry with logged := true }

def sendWrapper (s : State) : Frame → State
  | .start status headers =>
    let named := setItem (headers.getD []) (lit "X-Request-ID") (requestId hex)
    { s with started := true, status := status }.send (.start status (some named))
  | .body content moreBody =>
    let s := if moreBody.getD false then s else emit trustProxy hex elapsed scope s.status s
    s.send (.body content moreBody)
  | .other type => s.send (.other type)

/-- The answer that the wrapper gives for an application that raised before it began one. -/
def ownStart : Frame :=
  .start 500 (some [(lit "content-type", lit "application/json"), (idHeader, requestId hex)])

def handled (app : Scope → Behaviour) : Outcome :=
  let behaviour := app { scope with requestId := some (requestId hex) }
  let s := behaviour.frames.foldl (sendWrapper setItem trustProxy hex elapsed scope) .initial
  if behaviour.raises then
    let failed := Log.requestFailed (requestId hex) (methodOf scope) (pathOf scope)
    let s := emit trustProxy hex elapsed scope 500 (s.note failed)
    if s.started then ⟨s.sent, s.logs, true⟩
    else
      let s := (s.send (ownStart hex)).send (.body body500 none)
      ⟨s.sent, s.logs, false⟩
  else ⟨s.sent, s.logs, false⟩

/-- `RequestLoggingMiddleware.__call__`. -/
def call (app : Scope → Behaviour) : Outcome :=
  if scope.type ≠ "http" then
    let behaviour := app scope
    ⟨behaviour.frames, [], behaviour.raises⟩
  else handled setItem trustProxy hex elapsed scope app

end Program

/-! What the wrapper is for: every answer is named, and every request accounted for once. -/

/-- What Starlette documents of setting a header: it replaces the line of that name, removes
the duplicates, and leaves the other lines as they are. -/
structure Replaces (setItem : List Header → Text → Text → List Header) : Prop where
  set : ∀ headers key value, (setItem headers key value).filter (·.1 = lower key) =
    [(lower key, value)]
  others : ∀ headers key value,
    (setItem headers key value).filter (·.1 ≠ lower key) = headers.filter (·.1 ≠ lower key)

/-- A body frame that announces more of them. -/
def Frame.More (frame : Frame) : Prop := ∃ content, frame = .body content (some true)

def Frame.Final (frame : Frame) : Prop :=
  ∃ content moreBody, frame = .body content moreBody ∧ moreBody.getD false = false

/-- A start frame with lower-case header names, body frames, and a last one. -/
def Response (frames : List Frame) : Prop :=
  ∃ status headers bodies last, frames = .start status headers :: (bodies ++ [last]) ∧
    (∀ h ∈ headers.getD [], lower h.1 = h.1) ∧ (∀ b ∈ bodies, b.More) ∧ last.Final

/-- A whole response, or a beginning of one that an exception ends. -/
structure WellFormed (b : Behaviour) : Prop where
  begun : ∃ rest, Response (b.frames ++ rest)
  whole : b.raises = false → Response b.frames

/-- The lines that a client reads as the request id. -/
def idsIn (headers : List Header) : List Text :=
  (headers.filter fun h => lower h.1 = idHeader).map (·.2)

def Frame.status? : Frame → Option Nat
  | .start status _ => some status
  | _ => none

def startStatus (frames : List Frame) : Option Nat := frames.head?.bind Frame.status?

def loggedStatuses (logs : List Log) : List Nat :=
  logs.filterMap fun
    | .request _ _ _ statusCode _ _ _ => some statusCode
    | .requestFailed .. => none

/-- The status to be logged for a request. -/
def dueStatus (b : Behaviour) : Nat := if b.raises then 500 else (startStatus b.frames).getD 500

def dueLogs (path : Text) (b : Behaviour) : List Nat :=
  if path ∈ excluded ∧ dueStatus b < 400 then [] else [dueStatus b]

/-- Every response that was sent carries the id once, and the request was logged as it is due. -/
structure Accounted (rid path : Text) (b : Behaviour) (o : Outcome) : Prop where
  named : ∀ status headers, .start status headers ∈ o.sent → idsIn (headers.getD []) = [rid]
  logged : loggedStatuses o.logs = dueLogs path b

/-- The application raises after a whole response that was logged already, and not as a failure. -/
def RaisesTooLate (path : Text) (b : Behaviour) : Prop :=
  b.raises = true ∧ (∃ last ∈ b.frames, last.Final) ∧ startStatus b.frames ≠ some 500 ∧
    (path ∈ excluded → 400 ≤ (startStatus b.frames).getD 500)

section Laws

variable {setItem : List Header → Text → Text → List Header} {trustProxy : Bool} {hex : Text}
  {elapsed : List Frame → Nat} {scope : Scope}

@[simp] theorem send_logs (s : State) (frame : Frame) : (s.send frame).logs = s.logs := rfl

@[simp] theorem send_sent (s : State) (frame : Frame) :
    (s.send frame).sent = s.sent ++ [frame] := rfl

@[simp] theorem send_logged (s : State) (frame : Frame) : (s.send frame).logged = s.logged := rfl

@[simp] theorem send_started (s : State) (frame : Frame) : (s.send frame).started = s.started := rfl

@[simp] theorem note_logs (s : State) (entry : Log) : (s.note entry).logs = s.logs ++ [entry] := rfl

@[simp] theorem note_sent (s : State) (entry : Log) : (s.note entry).sent = s.sent := rfl

@[simp] theorem note_logged (s : State) (entry : Log) : (s.note entry).logged = s.logged := rfl

@[simp] theorem note_started (s : State) (entry : Log) : (s.note entry).started = s.started := rfl

@[simp] theorem loggedStatuses_append (before after : List Log) :
    loggedStatuses (before ++ after) = loggedStatuses before ++ loggedStatuses after :=
      List.filterMap_append

/-- What `emit` adds to a state that has not logged yet. -/
def emitted (path : Text) (statusCode : Nat) : List Nat :=
  if path ∈ excluded ∧ statusCode < 400 then [] else [statusCode]

@[simp] theorem emit_sent (statusCode : Nat) (s : State) :
    (emit trustProxy hex elapsed scope statusCode s).sent = s.sent := by
  unfold emit
  split_ifs <;> rfl

@[simp] theorem emit_started (statusCode : Nat) (s : State) :
    (emit trustProxy hex elapsed scope statusCode s).started = s.started := by
  unfold emit
  split_ifs <;> rfl

theorem emit_again {s : State} (logged : s.logged = true) (statusCode : Nat) :
    emit trustProxy hex elapsed scope statusCode s = s := if_pos logged

theorem emit_statuses {s : State} (fresh : s.logged = false) (statusCode : Nat) :
    loggedStatuses (emit trustProxy hex elapsed scope statusCode s).logs =
      loggedStatuses s.logs ++ emitted (pathOf scope) statusCode := by
  unfold emit emitted
  rw [fresh]
  by_cases quiet : pathOf scope ∈ excluded ∧ statusCode < 400
  · simp [quiet]
  · simp [quiet, loggedStatuses]

theorem emit_logged {s : State} (fresh : s.logged = false) (statusCode : Nat) :
    (emit trustProxy hex elapsed scope statusCode s).logged = true ↔
      emitted (pathOf scope) statusCode ≠ [] := by
  unfold emit emitted
  rw [fresh]
  by_cases quiet : pathOf scope ∈ excluded ∧ statusCode < 400
  · simp [quiet, fresh]
  · simp [quiet]

/-- Body frames that announce more are passed on, and nothing else happens. -/
theorem more_run {bodies : List Frame} (more : ∀ b ∈ bodies, b.More) (s : State) :
    bodies.foldl (sendWrapper setItem trustProxy hex elapsed scope) s =
      { s with sent := s.sent ++ bodies } := by
  induction bodies generalizing s with
  | nil => simp
  | cons body rest ih =>
    obtain ⟨content, rfl⟩ := more body List.mem_cons_self
    rw [List.foldl_cons, ih fun b member => more b (List.mem_cons_of_mem _ member)]
    simp [sendWrapper, State.send]

/-- How far a behaviour goes: not at all, into the bodies of its response, or to its end. -/
theorem WellFormed.extent {b : Behaviour} (formed : WellFormed b) :
    (b.raises = true ∧ b.frames = []) ∨
      (b.raises = true ∧ ∃ status headers bodies, b.frames = .start status headers :: bodies ∧
        (∀ h ∈ headers.getD [], lower h.1 = h.1) ∧ ∀ f ∈ bodies, f.More) ∨
      Response b.frames := by
  by_cases raises : b.raises = true
  · obtain ⟨rest, status, headers, bodies, last, split, named, more, final⟩ := formed.begun
    cases frames : b.frames with
    | nil => exact .inl ⟨raises, rfl⟩
    | cons first tail =>
      rw [frames, List.cons_append] at split
      obtain ⟨rfl, later⟩ := List.cons.inj split
      rcases List.eq_nil_or_concat rest with rfl | ⟨rest, end_, rfl⟩
      · rw [List.append_nil] at later
        exact .inr (.inr ⟨status, headers, bodies, last, by rw [later], named, more, final⟩)
      · rw [List.concat_eq_append, ← List.append_assoc] at later
        obtain ⟨begun, -⟩ := List.append_inj' later rfl
        refine .inr (.inl ⟨raises, status, headers, tail, rfl, named, fun f member => more f ?_⟩)
        rw [← begun]
        exact List.mem_append_left _ member
  · exact .inr (.inr (formed.whole (by simpa using raises)))

theorem not_final_of_more {frame : Frame} (more : frame.More) : ¬ frame.Final := by
  obtain ⟨content, rfl⟩ := more
  rintro ⟨content', moreBody, same, final⟩
  cases same
  cases final

/-- Setting the id leaves it as the only one, if the names are in lower case. -/
theorem idsIn_setItem (replaces : Replaces setItem) {headers : List Header}
    (named : ∀ h ∈ headers, lower h.1 = h.1) (value : Text) :
    idsIn (setItem headers (lit "X-Request-ID") value) = [value] := by
  have key : lower (lit "X-Request-ID") = idHeader := by decide
  have idLower : lower idHeader = idHeader := by decide
  have here := replaces.set headers (lit "X-Request-ID") value
  have others := replaces.others headers (lit "X-Request-ID") value
  rw [key] at here others
  have same : (setItem headers (lit "X-Request-ID") value).filter (fun h => lower h.1 = idHeader) =
      (setItem headers (lit "X-Request-ID") value).filter (·.1 = idHeader) := by
    apply List.filter_congr
    intro h member
    rw [decide_eq_decide]
    by_cases id_ : h.1 = idHeader
    · rw [id_, idLower]
    · have kept : h ∈ headers.filter (·.1 ≠ idHeader) := by
        rw [← others, List.mem_filter]
        exact ⟨member, by simpa using id_⟩
      rw [named h (List.mem_filter.mp kept).1]
  rw [idsIn, same, here]
  rfl

theorem more_not_start {bodies : List Frame} (more : ∀ b ∈ bodies, b.More) (status : Nat)
    (headers : Option (List Header)) : .start status headers ∉ bodies := by
  intro member
  obtain ⟨content, same⟩ := more _ member
  cases same

/-- The state after a start frame and body frames that announce more. -/
theorem begun_run {status : Nat} {headers : Option (List Header)} {bodies : List Frame}
    (more : ∀ b ∈ bodies, b.More) :
    (Frame.start status headers :: bodies).foldl
    (sendWrapper setItem trustProxy hex elapsed scope) .initial =
      ⟨true, false, status,
        .start status (some (setItem (headers.getD []) (lit "X-Request-ID") (requestId hex))) ::
          bodies, []⟩ := by
  rw [List.foldl_cons, more_run more]
  rfl

/-- A last body frame is logged before it is sent. -/
theorem final_step {last : Frame} (final : last.Final) (s : State) :
    sendWrapper setItem trustProxy hex elapsed scope s last =
      (emit trustProxy hex elapsed scope s.status s).send last := by
  obtain ⟨content, moreBody, rfl, ends⟩ := final
  simp only [sendWrapper]
  rw [if_neg (by simpa using ends)]

theorem dueLogs_raised {b : Behaviour} (raises : b.raises = true) (path : Text) :
    dueLogs path b = [500] := by
  have due : dueStatus b = 500 := if_pos raises
  rw [dueLogs, due, if_neg]
  rintro ⟨-, small⟩
  omega

theorem emitted_500 (path : Text) : emitted path 500 = [500] := by
  unfold emitted
  rw [if_neg]
  rintro ⟨-, small⟩
  omega

theorem ownStart_named :
    idsIn [(lit "content-type", lit "application/json"), (idHeader, requestId hex)] =
    [requestId hex] := by
  have type_ : lower (lit "content-type") ≠ idHeader := by decide
  have id_ : lower idHeader = idHeader := by decide
  simp [idsIn, type_, id_]

/-- Of a response, only the start frame has headers. -/
theorem named_of_begun (replaces : Replaces setItem) {status : Nat} {headers : Option (List Header)}
    (named : ∀ h ∈ headers.getD [], lower h.1 = h.1) {bodies : List Frame}
    (plain : ∀ status headers, .start status headers ∉ bodies) {status' : Nat}
    {headers' : Option (List Header)}
    (member : .start status' headers' ∈
      Frame.start status (some (setItem (headers.getD []) (lit "X-Request-ID") (requestId hex))) ::
        bodies) :
    idsIn (headers'.getD []) = [requestId hex] := by
  rcases List.mem_cons.mp member with same | later
  · cases same
    exact idsIn_setItem replaces named _
  · exact absurd later (plain _ _)

variable (scope) in
/-- What the frames of a behaviour make of the wrapper's state. -/
def framesRun (setItem : List Header → Text → Text → List Header) (trustProxy : Bool) (hex : Text)
    (elapsed : List Frame → Nat) (b : Behaviour) : State :=
  b.frames.foldl (sendWrapper setItem trustProxy hex elapsed scope) .initial

section Outcome

variable {app : Scope → Behaviour} {b : Behaviour} {s : State}
  (runs : app { scope with requestId := some (requestId hex) } = b)
  (reached : framesRun scope setItem trustProxy hex elapsed b = s)

include runs reached

theorem handled_sent :
    (handled setItem trustProxy hex elapsed scope app).sent =
      s.sent ++ if b.raises = true ∧ s.started = false then [ownStart hex, .body body500 none]
        else [] := by
  unfold framesRun at reached
  by_cases raises : b.raises = true
  · by_cases started : s.started = true
    · simp [handled, runs, reached, raises, started]
    · simp [handled, runs, reached, raises, started]
  · simp [handled, runs, reached, raises]

theorem handled_statuses :
    loggedStatuses (handled setItem trustProxy hex elapsed scope app).logs =
      loggedStatuses s.logs ++ if b.raises = true ∧ s.logged = false then [500] else [] := by
  unfold framesRun at reached
  by_cases raises : b.raises = true
  · have failed : (handled setItem trustProxy hex elapsed scope app).logs =
        (emit trustProxy hex elapsed scope 500
          (s.note (.requestFailed (requestId hex) (methodOf scope) (pathOf scope)))).logs := by
      by_cases started : s.started = true
      · simp [handled, runs, reached, raises, started]
      · simp [handled, runs, reached, raises, started]
    rw [failed]
    by_cases logged : s.logged = true
    · rw [emit_again (by rw [note_logged, logged])]
      simp [logged, loggedStatuses]
    · have fresh : s.logged = false := by simpa using logged
      rw [emit_statuses (by rw [note_logged, fresh]), emitted_500]
      simp [raises, fresh, loggedStatuses]
  · simp [handled, runs, reached, raises]

end Outcome

variable (scope) in
/-- A request whose application raised before it began to answer. -/
theorem unstarted_accounted {app : Scope → Behaviour} {b : Behaviour}
    (runs : app { scope with requestId := some (requestId hex) } = b) (raises : b.raises = true)
    (empty : b.frames = []) :
    Accounted (requestId hex) (pathOf scope) b
      (handled setItem trustProxy hex elapsed scope app) := by
  have reached : framesRun scope setItem trustProxy hex elapsed b = .initial := by
    rw [framesRun, empty]; rfl
  constructor
  · intro status headers member
    rw [handled_sent runs reached, raises] at member
    simp only [State.initial, and_self, if_true, List.nil_append, List.mem_cons,
      List.not_mem_nil, or_false,
      reduceCtorEq, ownStart, Frame.start.injEq] at member
    rw [member.2]
    exact ownStart_named
  · rw [handled_statuses runs reached, dueLogs_raised raises, raises]
    rfl

variable (scope) in
/-- A request whose application raised within its response. -/
theorem broken_accounted (replaces : Replaces setItem) {app : Scope → Behaviour} {b : Behaviour}
    (runs : app { scope with requestId := some (requestId hex) } = b) (raises : b.raises = true)
    {status : Nat} {headers : Option (List Header)} {bodies : List Frame}
    (frames : b.frames = .start status headers :: bodies)
    (named : ∀ h ∈ headers.getD [], lower h.1 = h.1)
    (more : ∀ f ∈ bodies, f.More) :
    Accounted (requestId hex) (pathOf scope) b
      (handled setItem trustProxy hex elapsed scope app) := by
  have reached : framesRun scope setItem trustProxy hex elapsed b = ⟨true, false, status,
      .start status (some (setItem (headers.getD []) (lit "X-Request-ID") (requestId hex))) ::
        bodies, []⟩ := by
    rw [framesRun, frames, begun_run more]
  constructor
  · intro status' headers' member
    rw [handled_sent runs reached] at member
    simp only [reduceCtorEq, and_false, if_false, List.append_nil] at member
    exact named_of_begun replaces named (more_not_start more) member
  · rw [handled_statuses runs reached, dueLogs_raised raises, raises]
    rfl

/-- What is logged of a whole response is what is due, unless its application raises too late. -/
theorem due_iff {b : Behaviour} {status : Nat} (status_ : startStatus b.frames = some status)
    (final : ∃ last ∈ b.frames, last.Final) (path : Text) :
    (emitted path status ++ if b.raises = true ∧ emitted path status = [] then [500] else []) =
      dueLogs path b ↔
      ¬ RaisesTooLate path b := by
  by_cases raises : b.raises = true
  · rw [dueLogs_raised raises]
    by_cases quiet : path ∈ excluded ∧ status < 400
    · have none_ : emitted path status = [] := if_pos quiet
      simp only [none_, raises, and_self, if_true, List.nil_append, true_iff]
      rintro ⟨-, -, -, failing⟩
      have large := failing quiet.1
      rw [status_, Option.getD_some] at large
      omega
    · have one : emitted path status = [status] := if_neg quiet
      simp only [one, List.cons_ne_nil, and_false, if_false, List.append_nil,
        List.cons.injEq, and_true]
      constructor
      · rintro rfl ⟨-, -, other, -⟩
        exact other status_
      · intro timely
        by_contra other
        refine timely ⟨raises, final, fun same => other (Option.some.inj (status_ ▸ same)),
          fun member => ?_⟩
        rw [status_, Option.getD_some]
        by_contra small
        exact quiet ⟨member, by omega⟩
  · have due : dueLogs path b = emitted path status := by
      simp [dueLogs, dueStatus, raises, status_, emitted]
    rw [if_neg fun both => raises both.1, List.append_nil, due]
    exact iff_of_true rfl fun late => raises late.1

variable (scope) in
/-- A request whose application sent a whole response, and then perhaps raised. -/
theorem whole_accounted_iff (replaces : Replaces setItem) {app : Scope → Behaviour} {b : Behaviour}
    (runs : app { scope with requestId := some (requestId hex) } = b)
    (response : Response b.frames) :
    Accounted (requestId hex) (pathOf scope) b (handled setItem trustProxy hex elapsed scope app) ↔
      ¬ RaisesTooLate (pathOf scope) b := by
  obtain ⟨status, headers, bodies, last, frames, named, more, final⟩ := response
  obtain ⟨begun, run_⟩ : ∃ begun : State, begun = ⟨true, false, status,
      .start status (some (setItem (headers.getD []) (lit "X-Request-ID") (requestId hex))) ::
        bodies, []⟩ :=
    ⟨_, rfl⟩
  have reached : framesRun scope setItem trustProxy hex elapsed b =
      (emit trustProxy hex elapsed scope status begun).send last := by
    rw [framesRun, frames, ← List.cons_append, List.foldl_append, begun_run more, ← run_,
      List.foldl_cons,
      List.foldl_nil, final_step final, run_]
  have status_ : startStatus b.frames = some status := by rw [frames]; rfl
  have named_ : ∀ status headers,
      .start status headers ∈ (handled setItem trustProxy hex elapsed scope app).sent →
      idsIn (headers.getD []) = [requestId hex] := by
    intro status' headers' member
    rw [handled_sent runs reached, run_] at member
    simp only [send_started, emit_started, reduceCtorEq, and_false, if_false,
      List.append_nil, send_sent,
      emit_sent, List.cons_append] at member
    have plain : ∀ status headers, .start status headers ∉ bodies ++ [last] := by
      intro status headers member
      rcases List.mem_append.mp member with within | end_
      · exact more_not_start more _ _ within
      · obtain ⟨content, moreBody, same, -⟩ := final
        rw [same] at end_
        cases List.mem_singleton.mp end_
    exact named_of_begun replaces named plain member
  have final_ : ∃ last ∈ b.frames, last.Final := ⟨last, by simp [frames], final⟩
  have fresh : begun.logged = false := by rw [run_]
  have statuses := handled_statuses runs reached
  have unlogged : (emit trustProxy hex elapsed scope status begun).logged = false ↔
      emitted (pathOf scope) status = [] := by
    rw [← Bool.not_eq_true, emit_logged fresh, not_ne_iff]
  have empty : loggedStatuses begun.logs = [] := by rw [run_]; rfl
  simp only [send_logs, send_logged, emit_statuses fresh, empty, List.nil_append,
    unlogged] at statuses
  rw [← due_iff status_ final_, ← statuses]
  exact ⟨fun accounted => accounted.logged, fun logged => ⟨named_, logged⟩⟩

end Laws

/-- On every well-formed behaviour of the application, the request is accounted for exactly if the
application does not raise too late. -/
theorem accounted_iff (setItem : List Header → Text → Text → List Header)
    (replaces : Replaces setItem)
    (trustProxy : Bool) (hex : Text) (elapsed : List Frame → Nat) (scope : Scope)
    (http : scope.type = "http")
    (app : Scope → Behaviour)
    (formed : WellFormed (app { scope with requestId := some (requestId hex) })) :
    Accounted (requestId hex) (pathOf scope) (app { scope with requestId := some (requestId hex) })
        (call setItem trustProxy hex elapsed scope app) ↔
      ¬ RaisesTooLate (pathOf scope) (app { scope with requestId := some (requestId hex) }) := by
  have called : call setItem trustProxy hex elapsed scope app = handled setItem trustProxy hex
      elapsed scope app :=
    if_neg (by simp [http])
  rw [called]
  rcases formed.extent with ⟨raises, empty⟩ | ⟨raises, status, headers, bodies, frames, named,
    more⟩ | response
  · apply iff_of_true (unstarted_accounted scope rfl raises empty)
    rintro ⟨-, ⟨last, member, -⟩, -⟩
    rw [empty] at member
    cases member
  · apply iff_of_true (broken_accounted scope replaces rfl raises frames named more)
    rintro ⟨-, ⟨last, member, final⟩, -⟩
    rw [frames] at member
    rcases List.mem_cons.mp member with rfl | within
    · obtain ⟨content, moreBody, same, -⟩ := final
      cases same
    · exact not_final_of_more (more last within) final
  · exact whole_accounted_iff scope replaces rfl response

/-- Starlette's own code: the first line of the name is replaced, a further one removed; a name
that is not there is appended. -/
def starletteSetItem : List Header → Text → Text → List Header
  | [], key, value => [(lower key, value)]
  | h :: rest, key, value =>
    if h.1 = lower key then (lower key, value) :: rest.filter (·.1 ≠ lower key)
    else h :: starletteSetItem rest key value

theorem starletteSetItem_replaces : Replaces starletteSetItem := by
  constructor
  · intro headers key value
    induction headers with
    | nil => simp [starletteSetItem]
    | cons h rest ih =>
      by_cases here : h.1 = lower key
      · simp [starletteSetItem, here]
      · simp [starletteSetItem, here, ih]
  · intro headers key value
    induction headers with
    | nil => simp [starletteSetItem]
    | cons h rest ih =>
      by_cases here : h.1 = lower key
      · simp [starletteSetItem, here]
      · simp only [ne_eq, decide_not] at ih
        simp [starletteSetItem, here, ih]

def statsScope : Scope := ⟨"http", some (lit "GET"), some (lit "/api/stats"), [], none, none⟩

/-- A background task fails after the response. -/
def failsAfterwards : Scope → Behaviour :=
  fun _ => ⟨[.start 200 (some []), .body (lit "\x7b\x7d") none], true⟩

theorem failsAfterwards_formed (scope : Scope) : WellFormed (failsAfterwards scope) := by
  have response : Response (failsAfterwards scope).frames :=
    ⟨200, some [], [], .body (lit "\x7b\x7d") none, rfl, nofun, nofun, _, none, rfl, rfl⟩
  exact ⟨⟨[], by rwa [List.append_nil]⟩, fun _ => response⟩

theorem accounted_iff_sample :
    Accounted (requestId (lit "00112233445566778899aabbccddeeff")) (pathOf statsScope)
        (failsAfterwards { statsScope with
          requestId := some (requestId (lit "00112233445566778899aabbccddeeff")) })
        (call starletteSetItem false (lit "00112233445566778899aabbccddeeff")
          (fun _ => 125) statsScope
          failsAfterwards) ↔
      ¬ RaisesTooLate (pathOf statsScope)
        (failsAfterwards { statsScope with
          requestId := some (requestId (lit "00112233445566778899aabbccddeeff")) }) :=
  accounted_iff starletteSetItem starletteSetItem_replaces false _ _ statsScope rfl failsAfterwards
    (failsAfterwards_formed _)

/-- The failure is on record as a success. -/
theorem failure_logged_as_success :
    ∃ (scope : Scope) (app : Scope → Behaviour) (hex : Text) (elapsed : List Frame → Nat),
      scope.type = "http" ∧
      WellFormed (app { scope with requestId := some (requestId hex) }) ∧
      (app { scope with requestId := some (requestId hex) }).raises = true ∧
      loggedStatuses (call starletteSetItem false hex elapsed scope app).logs = [200] ∧
      ¬ Accounted (requestId hex) (pathOf scope)
        (app { scope with requestId := some (requestId hex) })
        (call starletteSetItem false hex elapsed scope app) := by
  have logs : loggedStatuses (call starletteSetItem false (lit "00112233445566778899aabbccddeeff")
      (fun _ => 125)
      statsScope failsAfterwards).logs = [200] := by decide
  refine ⟨statsScope, failsAfterwards, lit "00112233445566778899aabbccddeeff", fun _ => 125, rfl,
    failsAfterwards_formed _, rfl, logs, ?_⟩
  intro accounted
  have due := accounted.logged
  rw [logs] at due
  exact absurd due (by decide)

end Metahumotonic.Access
