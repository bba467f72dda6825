import Metahumotonic.Library.WorkerPool
import Metahumotonic.Platform.FixedProbeBatch
import Metahumotonic.Platform.Stringify

/-! A collected batch is replayed from its file, and does not depend on the order in which the
concurrent probes come back (`ts/src/platform/FixedProbeCollector.ts`). -/
namespace Metahumotonic.Platform
open Metahumotonic.Library Json

def smallLetters (s : Text) : Text := s.filter fun c => decide (97 ≤ c) && decide (c ≤ 122)

/-- `localeCompare`: whether a text comes no later than another. It orders all texts, and those
that differ in their letters do not compare as equal. -/
structure Collation where
  collates : Text → Text → Bool
  total : ∀ s t, collates s t = true ∨ collates t s = true
  trans : ∀ s t u, collates s t = true → collates t u = true → collates s u = true
  letters : ∀ s t, collates s t = true → collates t s = true → smallLetters s = smallLetters t

/-- The orders in which `bounded` ends the probes, two at a time. -/
def Completed (order : List Target) : Prop :=
  Pool.Completes fixedProbeTargets (min 2 fixedProbeTargets.length) order

/-- `collectFixedProbeBatch`, where the probes come back in an order. -/
def collectInOrder (collation : Collation) (request : FixedProbeRequest)
    (fetched : Target → Fetched)
    (order : List Target) : Option Json := do
  let collected ← order.mapM fun target => probe request target (fetched target)
  return batchOf (receiptPrefix ++ request.runId)
    (collected.insertionSort fun a b => collation.collates (idOf a) (idOf b) = true)

def fixedProbeBatchBytes (batch : Json) : List ℕ := encodeUnits (stringify batch)

/-- A status that a response can have. -/
def Answers : Fetched → Prop
  | .status code => 200 ≤ code ∧ code ≤ 599
  | .timeout => True
  | .network => True

def fourDigitYear (s : Text) : Bool := (s.takeWhile isDigit).length == 4

/-- The observation and its expiry have years of four digits. -/
def FourDigitYears (request : FixedProbeRequest) : Prop :=
  fourDigitYear request.observedAt = true ∧
    ∃ expiresAt, expiry request.observedAt request.ttlSeconds = some expiresAt ∧
      fourDigitYear expiresAt = true

/-! Times. -/

/-- A canonical time whose year has four digits. -/
structure PlainTime (s : Text) : Prop where
  canonical : isIsoTime s = true
  year : fourDigitYear s = true

theorem PlainTime.written {s : Text} (time : PlainTime s) :
    ∃ year month date ms, s = IsoDate.pad4 year ++ IsoDate.timeText month date ms := by
  obtain ⟨same, -, -⟩ := isIsoTime_spec time.canonical
  have digits := time.year
  rw [← same] at digits ⊢
  refine IsoDate.toISOString_plain fun c first => ?_
  cases whole : IsoDate.toISOString (timeOf s) with
  | nil =>
    rw [whole] at first
    cases first
  | cons d rest =>
    rw [whole] at first digits
    cases first
    by_cases digit : isDigit c = true
    · exact digit
    · rw [fourDigitYear, List.takeWhile_cons_of_neg digit] at digits
      cases digits

theorem isDigit_low (k : ℕ) : isDigit (48 + k % 10) = true := IsoDate.isDigit_add
    (Nat.mod_lt _ (by decide))

theorem isPlain_digit {c : ℕ} (digit : isDigit c = true) : isPlain c = true := by
  simp only [isDigit, Bool.and_eq_true, decide_eq_true_eq] at digit
  exact isPlain_iff.mpr ⟨by omega, by omega, by omega, by omega⟩

theorem plainText_digits {s : Text} (digits : ∀ c ∈ s, isDigit c = true) : plainText s = true :=
  List.all_eq_true.mpr fun c member => isPlain_digit (digits c member)

theorem PlainTime.plain {s : Text} (time : PlainTime s) : plainText s = true := by
  obtain ⟨year, month, date, ms, rfl⟩ := time.written
  have low : ∀ k, isPlain (48 + k % 10) = true := fun k => isPlain_digit (isDigit_low k)
  have signs : isPlain 45 = true ∧ isPlain 84 = true ∧ isPlain 58 = true ∧ isPlain 46 = true ∧
      isPlain 90 = true := by
    decide
  obtain ⟨hyphen, tee, colon, point, zee⟩ := signs
  simp [plainText, IsoDate.pad4, IsoDate.timeText, IsoDate.pad2, IsoDate.pad3, low, hyphen, tee,
    colon, point, zee]

theorem PlainTime.length {s : Text} (time : PlainTime s) : s.length = 24 := by
  obtain ⟨year, month, date, ms, rfl⟩ := time.written
  rfl

/-- A canonical time with a year of four digits is the time of an observation. -/
theorem PlainTime.observation {s : Text} (time : PlainTime s) : isObservationTime s = true := by
  have shape : IsoDate.shaped timeMask (s.take 19) = true ∧ isTimeTail (s.drop 19) = true := by
    obtain ⟨year, month, date, ms, rfl⟩ := time.written
    have tail : (IsoDate.pad4 year ++ IsoDate.timeText month date ms).drop 19 = 46 ::
        (IsoDate.pad3 (ms % 1000) ++ [90]) :=
      rfl
    have digits : (IsoDate.pad3 (ms % 1000) ++ [90]).takeWhile isDigit = IsoDate.pad3
        (ms % 1000) := by
      have stop : isDigit 90 = false := rfl
      simp only [IsoDate.pad3, List.cons_append, List.nil_append, List.takeWhile_cons, isDigit_low,
        stop, if_true,
        if_false, Bool.false_eq_true]
    constructor
    · simp [IsoDate.shaped, timeMask, IsoDate.restMask, IsoDate.pad4, IsoDate.timeText,
        IsoDate.pad2, isDigit_low]
    · rw [tail, isTimeTail, if_pos (List.head?_cons ..)]
      simp only [List.drop_succ_cons, List.drop_zero, digits]
      rfl
  have parsed := time.canonical
  simp only [isIsoTime, Option.any_eq_true, beq_iff_eq] at parsed
  obtain ⟨t, read, same⟩ := parsed
  rw [isObservationTime, shape.1, shape.2, read, Option.any_some, same]
  exact beq_self_eq_true _

theorem expiry_time {time expiresAt : Text} {ttl : ℕ}
    (expiring : expiry time ttl = some expiresAt) :
    timeOf expiresAt = timeOf time + ttl * 1000 := by
  unfold expiry at expiring
  dsimp only at expiring
  split at expiring
  · rename_i range
    cases expiring
    rw [timeOf, IsoDate.dateParse_toISOString range.1 range.2, Option.getD_some]
  · cases expiring

/-! Identifiers. -/

theorem isRunId_signs {s : Text} (run : isRunId s = true) : s.length ≤ 56 ∧
    ∀ c ∈ s, ((decide (97 ≤ c) && decide (c ≤ 122)) || isDigit c) = true ∨ c = 45 := by
  cases s with
  | nil => cases run
  | cons first rest =>
    simp only [isRunId, Bool.and_eq_true, decide_eq_true_eq, List.all_eq_true] at run
    obtain ⟨⟨⟨letter, -⟩, size⟩, all⟩ := run
    refine ⟨Nat.succ_le_succ size, ?_⟩
    rintro c (_ | ⟨_, member⟩)
    · exact .inl letter
    · have sign := all c member
      rw [Bool.or_eq_true, beq_iff_eq] at sign
      exact sign

theorem plainText_run {s : Text} (run : isRunId s = true) : plainText s = true := by
  refine List.all_eq_true.mpr fun c member => ?_
  rcases (isRunId_signs run).2 c member with letter | rfl
  · simp only [isDigit, Bool.or_eq_true, Bool.and_eq_true, decide_eq_true_eq] at letter
    exact isPlain_iff.mpr ⟨by omega, by omega, by omega, by omega⟩
  · rfl

/-- A sign of an identifier. -/
def idSign (c : ℕ) : Bool :=
  ((decide (97 ≤ c) && decide (c ≤ 122)) || isDigit c) || c == 58 || c == 46 || c == 95 || c ==
    47 || c == 45

/-- An identifier can be continued. -/
theorem isPlatformId_append {start rest : Text} (valid : isPlatformId start = true)
    (size : start.length + rest.length ≤ 160) (signs : rest.all idSign = true) :
    isPlatformId (start ++ rest) = true := by
  cases start with
  | nil => cases valid
  | cons first before =>
    simp only [isPlatformId, Bool.and_eq_true, decide_eq_true_eq] at valid
    obtain ⟨⟨letter, -⟩, all⟩ := valid
    have later : (before ++ rest).length ≤ 159 := by
      rw [List.length_cons] at size
      rw [List.length_append]
      omega
    have whole : (before ++ rest).all idSign = true := by
      rw [List.all_append, signs, Bool.and_true]
      exact all
    simp only [List.cons_append, isPlatformId, Bool.and_eq_true, decide_eq_true_eq]
    exact ⟨⟨letter, later⟩, whole⟩

theorem idSign_run {s : Text} (run : isRunId s = true) : s.all idSign = true := by
  refine List.all_eq_true.mpr fun c member => ?_
  rcases (isRunId_signs run).2 c member with letter | rfl
  · simp only [idSign, letter, Bool.true_or]
  · rfl

theorem receiptPrefix_valid : isPlatformId receiptPrefix = true ∧ receiptPrefix.length = 22 ∧
    plainText receiptPrefix = true := by decide

theorem receipt_accepted {run : Text} (valid : isRunId run = true) :
    isPlatformId (receiptPrefix ++ run) = true := by
  obtain ⟨start, length, -⟩ := receiptPrefix_valid
  have size := (isRunId_signs valid).1
  exact isPlatformId_append start (by omega) (idSign_run valid)

def observationPrefix : Text := lit "observation:fixed-probe:"

theorem observationPrefix_valid : isPlatformId observationPrefix = true ∧
    observationPrefix.length = 24 ∧
    plainText observationPrefix = true := by decide

theorem observationId_eq (run target : Text) :
    observationId run target = observationPrefix ++ (run ++ 58 :: target) :=
  List.append_assoc ..

/-- What the targets have in common. -/
structure Fixed (target : Target) : Prop where
  size : target.id.length ≤ 30
  signs : target.id.all idSign = true
  plain : plainText target.id = true
  subject : isPlatformId target.subjectId = true
  plainSubject : plainText target.subjectId = true
  subjectSize : target.subjectId.length ≤ 30
  check : target.check = lit "http"

theorem fixed_of_target {target : Target} (listed : target ∈ fixedProbeTargets) : Fixed target := by
  have sizes : ∀ t ∈ fixedProbeTargets, t.id.length ≤ 30 ∧ t.subjectId.length ≤ 30 := by decide
  have signs : ∀ t ∈ fixedProbeTargets, t.id.all idSign = true ∧
      isPlatformId t.subjectId = true := by decide
  have plain : ∀ t ∈ fixedProbeTargets, plainText t.id = true ∧
      plainText t.subjectId = true := by decide
  have checks : ∀ t ∈ fixedProbeTargets, t.check = lit "http" := by decide
  exact ⟨(sizes _ listed).1, (signs _ listed).1, (plain _ listed).1, (signs _ listed).2,
    (plain _ listed).2,
    (sizes _ listed).2, checks _ listed⟩

theorem observation_accepted {run : Text} (valid : isRunId run = true) {target : Target}
    (fixed : Fixed target) :
    isPlatformId (observationId run target.id) = true := by
  obtain ⟨start, length, -⟩ := observationPrefix_valid
  have size := (isRunId_signs valid).1
  have short := fixed.size
  rw [observationId_eq]
  refine isPlatformId_append start ?_ ?_
  · rw [List.length_append, List.length_cons]
    omega
  · rw [List.all_append, List.all_cons, idSign_run valid, fixed.signs]
    rfl

/-! Notes. -/

/-- What a probe may come to: a status of three digits or none, and one of the reasons. -/
theorem status_of_probe (target : Target) {fetched : Fetched} (answers : Answers fetched) :
    IsStatus (statusText (probeResult target fetched).status) := by
  have coded : ∀ code, 200 ≤ code ∧ code ≤ 599 → IsStatus (decimal code) := by
    intro code range
    have short : (decimal code).length ≤ 3 :=
      decimal_length_le (by decide) (show code < 1000 by omega)
    have large : ¬ (decimal code).length ≤ 2 := by
      rw [decimal, List.length_map, Nat.length_toDigits_le_iff (by decide) (by decide)]
      omega
    exact .inr ⟨by omega, decimal_digits code⟩
  cases fetched with
  | status code =>
    rw [probeResult]
    split
    · exact coded code answers
    · exact coded code answers
  | timeout => exact .inl rfl
  | network => exact .inl rfl

theorem outcome_of_probe (target : Target) (fetched : Fetched) :
    (probeResult target fetched).outcome = lit "reachable" ∨
    (probeResult target fetched).outcome = lit "failed" := by
  cases fetched with
  | status code =>
    rw [probeResult]
    split
    · exact .inl rfl
    · exact .inr rfl
  | timeout => exact .inr rfl
  | network => exact .inr rfl

theorem statusAt_status {s : Text} (status : IsStatus s) (rest : Text) :
    statusAt (s ++ rest) = s := by
  rcases status with rfl | ⟨three, digits⟩
  · exact if_pos (List.isPrefixOf_iff_prefix.mpr (List.prefix_append _ _))
  · have other : ¬ (lit "none").isPrefixOf (s ++ rest) = true := by
      intro start
      obtain ⟨first, tail, rfl⟩ := List.exists_cons_of_length_pos (show 0 < s.length by omega)
      have letter := (List.cons_prefix_cons.mp (List.isPrefixOf_iff_prefix.mp start)).1
      have digit := digits first List.mem_cons_self
      rw [← letter] at digit
      cases digit
    rw [statusAt, if_neg other, List.take_append_of_le_length (by omega),
      List.take_of_length_le (by omega)]

/-- The expression matches the note of every probe. -/
theorem matchNote_probe {target status : Text} {reason : Option Text} (valid : IsStatus status)
    (listed : reason ∈ reasons) :
    (matchNote target (noteText target status reason)).isNone = false := by
  have start : (noteStart target).isPrefixOf (noteText target status reason) = true :=
    List.isPrefixOf_iff_prefix.mpr (List.prefix_append _ _)
  have digits : status = lit "none" ∨ (status.length = 3 ∧ status.all isDigit = true) := by
    rw [List.all_eq_true]
    exact valid
  have found : (reasons.find? fun other => reasonText reason ++ noteEnd = reasonText other ++
      noteEnd).isSome = true := by
    rw [List.find?_isSome]
    exact ⟨reason, listed, decide_eq_true rfl⟩
  obtain ⟨other, chosen⟩ := Option.isSome_iff_exists.mp found
  have rest : (noteText target status reason).drop (noteStart target).length = status ++
      (reasonText reason ++ noteEnd) :=
    List.drop_left
  simp only [matchNote, if_pos start, rest, statusAt_status valid, if_pos digits,
    List.drop_left, chosen,
    Option.map_some, Option.isNone_some]

theorem plainText_status {s : Text} (status : IsStatus s) : plainText s = true ∧ s.length ≤ 4 := by
  rcases status with rfl | ⟨three, digits⟩
  · decide
  · exact ⟨plainText_digits digits, by omega⟩

theorem reason_facts : ∀ reason ∈ reasons, plainText (reasonText reason) = true ∧
    (reasonText reason).length ≤ 30 := by
  decide

theorem note_facts {target : Target} (fixed : Fixed target) {status : Text} {reason : Option Text}
    (valid : IsStatus status) (listed : reason ∈ reasons) :
    plainText (noteText target.id status reason) = true ∧
      (noteText target.id status reason).length ≤ 200 := by
  obtain ⟨plainStatus, sizeStatus⟩ := plainText_status valid
  obtain ⟨plainReason, sizeReason⟩ := reason_facts reason listed
  have first : plainText (lit "Fixed GET allowlist target=") = true ∧
      (lit "Fixed GET allowlist target=").length = 27 := by decide
  have second : plainText (lit "; status=") = true ∧ (lit "; status=").length = 9 := by decide
  have last : plainText noteEnd = true ∧ noteEnd.length = 34 := by decide
  constructor
  · simp only [noteText, noteStart, plainText_append]
    exact ⟨⟨⟨first.1, fixed.plain⟩, second.1⟩, plainStatus, plainReason, last.1⟩
  · have short := fixed.size
    simp only [noteText, noteStart, List.length_append]
    omega

/-! Accepted observations. -/

theorem isStruct_of {fields : List Field} {members : Members}
    (distinct : (members.map Prod.fst).Nodup)
    (each : ∀ m ∈ members, ∃ f ∈ fields, f.name = m.1 ∧ f.accepts m.2 = true)
    (whole : ∀ f ∈ fields, f.name ∈ members.map Prod.fst) :
    isStruct fields (.object members) = true :=
  isStruct_iff.mpr ⟨members, rfl, distinct, fun k x member => each (k, x) member, fun f listed _ =>
    whole f listed⟩

theorem evidence_accepted {time note : Text} (plain : PlainTime time) (size : note.length ≤ 200) :
    isEvidence (evidenceOf time note) = true := by
  have short : isBetween 0 1600 (.text note) = true := by
    simp only [isBetween, isText, Bool.and_eq_true, decide_eq_true_eq]
    omega
  refine isStruct_of evidence_distinct ?_ fun f listed => List.mem_map_of_mem listed
  simp only [List.forall_mem_cons, List.not_mem_nil, false_implies, implies_true, and_true]
  exact ⟨⟨_, .head _, rfl, by decide⟩, ⟨_, .tail _ (.head _), rfl, by decide⟩,
    ⟨_, .tail _ (.tail _ (.head _)), rfl, plain.observation⟩,
      ⟨_, .tail _ (.tail _ (.tail _ (.head _))), rfl, short⟩⟩

/-- What is asked of a probe's result, whatever it came to. -/
structure Reported (result : ProbeResult) : Prop where
  outcome : result.outcome = lit "reachable" ∨ result.outcome = lit "failed"
  status : IsStatus (statusText result.status)
  reason : result.reason ∈ reasons

theorem reported_of_probe (target : Target) {fetched : Fetched} (answers : Answers fetched) :
    Reported (probeResult target fetched) :=
  ⟨outcome_of_probe target fetched, status_of_probe target answers, reason_of_probe target fetched⟩

section Observation

variable {request : FixedProbeRequest} {expiresAt : Text} {target : Target} {result : ProbeResult}

theorem outcome_accepted (reported : Reported result) : isLiteral outcomes
    (.text result.outcome) = true ∧
    plainText result.outcome = true ∧ result.outcome.length ≤ 9 := by
  rcases reported.outcome with same | same <;> rw [same] <;> decide

theorem observationOf_accepted (observed : PlainTime request.observedAt)
    (expires : PlainTime expiresAt)
    (fixed : Fixed target) (reported : Reported result) :
    isPlatformObservation (observationOf request expiresAt target result) = true := by
  have check : isLiteral checks (.text target.check) = true := by
    rw [fixed.check]
    decide
  have evidence : isArray 1 20 isEvidence (.array [evidenceOf request.observedAt
      (noteText target.id (statusText result.status) result.reason)]) = true := by
    rw [isArray, List.all_cons, evidence_accepted observed
      (note_facts fixed reported.status reported.reason).2]
    rfl
  refine isStruct_of (observation_names.nodup_iff.mpr observation_distinct) ?_
    fun f listed => observation_names.mem_iff.mpr (List.mem_map_of_mem listed)
  simp only [List.forall_mem_cons, List.not_mem_nil, false_implies, implies_true, and_true]
  exact ⟨⟨_, .head _, rfl, observation_accepted request.run fixed⟩,
    ⟨_, .tail _ (.head _), rfl, fixed.subject⟩,
    ⟨_, .tail _ (.tail _ (.tail _ (.tail _ (.head _)))), rfl, check⟩,
    ⟨_, .tail _ (.tail _ (.tail _ (.tail _ (.tail _ (.head _))))), rfl,
      (outcome_accepted reported).1⟩,
    ⟨_, .tail _ (.tail _ (.head _)), rfl, observed.observation⟩,
    ⟨_, .tail _ (.tail _ (.tail _ (.head _))), rfl, expires.observation⟩,
    ⟨_, .tail _ (.tail _ (.tail _ (.tail _ (.tail _ (.tail _ (.head _)))))), rfl, evidence⟩⟩

theorem plain_id (run : isRunId request.runId = true) (fixed : Fixed target) :
    plainText (observationId request.runId target.id) = true ∧
      (observationId request.runId target.id).length ≤ 120 := by
  obtain ⟨-, length, start⟩ := observationPrefix_valid
  have size := (isRunId_signs run).1
  have short := fixed.size
  rw [observationId_eq]
  constructor
  · simp only [plainText_append, plainText_cons]
    exact ⟨start, plainText_run run, by decide, fixed.plain⟩
  · simp only [List.length_append, List.length_cons]
    omega

theorem evidence_plain {time note : Text} (plain : PlainTime time) (noted : plainText note = true) :
    Plain (evidenceOf time note) := by
  refine .object evidence_distinct ?_ ?_
  · have names : ∀ k ∈ evidenceFields.map Field.name, plainText k = true := by decide
    exact fun m member => names m.1 (List.mem_map_of_mem member)
  · simp only [List.forall_mem_cons, List.not_mem_nil, false_implies, implies_true, and_true]
    exact ⟨.text (by decide), .text (by decide), .text plain.plain, .text noted⟩

theorem observationOf_plain (observed : PlainTime request.observedAt)
    (expires : PlainTime expiresAt)
    (fixed : Fixed target) (reported : Reported result) :
    Plain (observationOf request expiresAt target result) := by
  have check : plainText target.check = true := by
    rw [fixed.check]
    decide
  have evidence := evidence_plain observed (note_facts fixed reported.status reported.reason).1
  refine .object (observation_names.nodup_iff.mpr observation_distinct) ?_ ?_
  · have names : ∀ k ∈ observationFields.map Field.name, plainText k = true := by decide
    exact fun m member => names m.1 (observation_names.mem_iff.mp (List.mem_map_of_mem member))
  · simp only [List.forall_mem_cons, List.not_mem_nil, false_implies, implies_true, and_true]
    exact ⟨.text (plain_id request.run fixed).1, .text fixed.plainSubject, .text check,
      .text (outcome_accepted reported).2.1, .text observed.plain, .text expires.plain,
      .array (List.forall_mem_singleton.mpr evidence)⟩

theorem evidence_length {time note : Text} (plain : PlainTime time) (noted : plainText note = true)
    (size : note.length ≤ 200) : (stringify (evidenceOf time note)).length ≤ 400 := by
  have names : ∀ k ∈ evidenceFields.map Field.name, plainText k = true := by decide
  have source : (stringify (.text (lit "collector:fixed-probe/v1"))).length = 26 := by decide
  have authority : (stringify (.text (lit "SYSTEM_DERIVED"))).length = 16 := by decide
  have keys : (lit "source").length = 6 ∧ (lit "authority").length = 9 ∧
      (lit "observedAt").length = 10 ∧
      (lit "note").length = 4 := by decide
  refine (stringify_object_length fun m member => names m.1 (List.mem_map_of_mem member)).trans ?_
  simp only [List.map_cons, List.map_nil, List.sum_cons, List.sum_nil, source, authority, keys,
    stringify_text_length plain.plain, stringify_text_length noted, plain.length]
  omega

theorem observationOf_length (observed : PlainTime request.observedAt)
    (expires : PlainTime expiresAt)
    (fixed : Fixed target) (reported : Reported result) :
    (stringify (observationOf request expiresAt target result)).length ≤ 1000 := by
  have names : ∀ k ∈ observationFields.map Field.name, plainText k = true := by decide
  obtain ⟨plainNote, sizeNote⟩ := note_facts fixed reported.status reported.reason
  obtain ⟨plainId, sizeId⟩ := plain_id request.run fixed
  obtain ⟨-, plainOutcome, sizeOutcome⟩ := outcome_accepted reported
  have evidence := evidence_length observed plainNote sizeNote
  have list := stringify_array_length [evidenceOf request.observedAt
    (noteText target.id (statusText result.status) result.reason)]
  have check : (stringify (.text target.check)).length = 6 := by
    rw [fixed.check]
    decide
  have keys : (lit "id").length = 2 ∧ (lit "subjectId").length = 9 ∧ (lit "check").length = 5 ∧
      (lit "outcome").length = 7 ∧ (lit "observedAt").length = 10 ∧ (lit "expiresAt").length = 9 ∧
      (lit "evidence").length = 8 := by decide
  have subject := fixed.subjectSize
  simp only [List.map_cons, List.map_nil, List.sum_cons, List.sum_nil] at list
  refine (stringify_object_length fun m member =>
    names m.1 (observation_names.mem_iff.mp (List.mem_map_of_mem member))).trans ?_
  simp only [List.map_cons, List.map_nil, List.sum_cons, List.sum_nil, keys, check,
    stringify_text_length plainId,
    stringify_text_length fixed.plainSubject, stringify_text_length plainOutcome,
    stringify_text_length observed.plain, stringify_text_length expires.plain, observed.length,
      expires.length]
  omega

end Observation

/-! The order of the observations. -/

theorem completed_iff (order : List Target) : Completed order ↔ order.Perm fixedProbeTargets :=
  Pool.completes_iff (by decide) order

theorem smallLetters_append (s t : Text) :
    smallLetters (s ++ t) = smallLetters s ++ smallLetters t := List.filter_append ..

/-- The letters of an observation's identifier tell its target. -/
theorem observationId_letters {run : Text} {target other : Target}
    (here : target ∈ fixedProbeTargets)
    (there : other ∈ fixedProbeTargets)
    (same : smallLetters (observationId run target.id) = smallLetters
      (observationId run other.id)) : target = other := by
  have letters : ∀ t ∈ fixedProbeTargets, ∀ u ∈ fixedProbeTargets,
      smallLetters (58 :: t.id) = smallLetters (58 :: u.id) → t = u := by decide
  simp only [observationId_eq, smallLetters_append] at same
  exact letters target here other there (List.append_cancel_left (List.append_cancel_left same))

section Order

variable (collation : Collation)

/-- The order of the sorted observations. -/
def comesFirst (a b : Json) : Prop := collation.collates (idOf a) (idOf b) = true

instance : DecidableRel (comesFirst collation) := fun a b =>
  inferInstanceAs (Decidable (collation.collates (idOf a) (idOf b) = true))

instance : Std.Total (comesFirst collation) := ⟨fun a b => collation.total (idOf a) (idOf b)⟩

instance : IsTrans Json (comesFirst collation) :=
  ⟨fun a b c => collation.trans (idOf a) (idOf b) (idOf c)⟩

/-- The observations of the targets have one sorted order, whichever they were collected in. -/
theorem sorted_order (request : FixedProbeRequest) (expiresAt : Text)
    (results : Target → ProbeResult)
    {order : List Target} (perm : order.Perm fixedProbeTargets) :
    (order.map fun t => observationOf request expiresAt t (results t)).insertionSort
    (comesFirst collation) =
      (fixedProbeTargets.map fun t => observationOf request expiresAt t (results t)).insertionSort
      (comesFirst collation) := by
  have whole := ((List.perm_insertionSort (comesFirst collation) _).trans (perm.map _)).trans
    (List.perm_insertionSort (comesFirst collation) (fixedProbeTargets.map fun t =>
      observationOf request expiresAt t (results t))).symm
  apply whole.eq_of_pairwise _ (List.pairwise_insertionSort _ _) (List.pairwise_insertionSort _ _)
  intro a b here there below above
  obtain ⟨s, memberS, rfl⟩ := List.mem_map.mp ((List.perm_insertionSort _ _).mem_iff.mp here)
  obtain ⟨t, memberT, rfl⟩ := List.mem_map.mp ((List.perm_insertionSort _ _).mem_iff.mp there)
  obtain rfl := observationId_letters (perm.mem_iff.mp memberS) memberT
    (collation.letters _ _ below above)
  rfl

/-- The batch of any order is the batch of the targets' own order. -/
theorem collectInOrder_eq {request : FixedProbeRequest} {fetched : Target → Fetched}
    {expiresAt : Text}
    (expiring : expiry request.observedAt request.ttlSeconds = some expiresAt) {order : List Target}
    (perm : order.Perm fixedProbeTargets) : collectInOrder collation request fetched order =
      some (batchOf (receiptPrefix ++ request.runId) ((fixedProbeTargets.map fun t =>
        observationOf request expiresAt t (probeResult t (fetched t))).insertionSort
          (comesFirst collation))) := by
  have collected : (order.mapM fun target => probe request target (fetched target)) =
      some (order.map fun t => observationOf request expiresAt t (probeResult t (fetched t))) := by
    simp only [probe, expiring, Option.map_some]
    exact List.mapM_pure ..
  have sorted := sorted_order collation request expiresAt (fun t => probeResult t (fetched t)) perm
  simp only [collectInOrder, collected, Option.bind_eq_bind, Option.bind_some]
  exact congrArg (fun list => some (batchOf (receiptPrefix ++ request.runId) list)) sorted

/-- What is collected does not depend on the order in which the probes come back. -/
theorem collectInOrder_collects (request : FixedProbeRequest) (fetched : Target → Fetched)
    {order : List Target}
    (completed : Completed order) : collectInOrder collation request fetched order =
      collectFixedProbeBatch collation.collates request fetched := by
  have perm := (completed_iff order).mp completed
  have own : collectFixedProbeBatch collation.collates request fetched =
      collectInOrder collation request fetched fixedProbeTargets := rfl
  rw [own]
  cases expiring : expiry request.observedAt request.ttlSeconds with
  | some expiresAt =>
    rw [collectInOrder_eq collation expiring perm, collectInOrder_eq collation expiring
      (List.Perm.refl _)]
  | none =>
    have fails : ∀ targets : List Target, targets ≠ [] →
        (targets.mapM fun target => probe request target (fetched target)) = none := by
      intro targets some_
      cases targets with
      | nil => exact absurd rfl some_
      | cons target rest => simp [probe, expiring]
    have some_ : order ≠ [] := by
      rintro rfl
      exact absurd perm.length_eq (by decide)
    simp only [collectInOrder, fails order some_, fails fixedProbeTargets (by decide)]

end Order

/-! The acceptance of the batch. -/

section Batch

variable {request : FixedProbeRequest} {expiresAt : Text} {results : Target → ProbeResult}
    {observations : List Json}

/-- Some order of the targets' observations. -/
structure Batched (request : FixedProbeRequest) (expiresAt : Text) (results : Target → ProbeResult)
    (observations : List Json) : Prop where
  observed : PlainTime request.observedAt
  expires : PlainTime expiresAt
  apart : timeOf expiresAt = timeOf request.observedAt + request.ttlSeconds * 1000
  reported : ∀ target ∈ fixedProbeTargets, Reported (results target)
  perm : observations.Perm (fixedProbeTargets.map fun t => observationOf request expiresAt t
    (results t))

theorem Batched.each (batched : Batched request expiresAt results observations) {o : Json}
    (member : o ∈ observations) :
    ∃ target ∈ fixedProbeTargets, observationOf request expiresAt target (results target) = o :=
  List.mem_map.mp (batched.perm.mem_iff.mp member)

theorem Batched.count (batched : Batched request expiresAt results observations) :
    observations.length = 2 :=
  batched.perm.length_eq

theorem Batched.accepted (batched : Batched request expiresAt results observations) :
    isObservationBatch (batchOf (receiptPrefix ++ request.runId) observations) = true := by
  have items : isArray 1 100 isPlatformObservation (.array observations) = true := by
    simp only [isArray, batched.count, Bool.and_eq_true, List.all_eq_true]
    refine ⟨by decide, fun o member => ?_⟩
    obtain ⟨target, listed, rfl⟩ := batched.each member
    exact observationOf_accepted batched.observed batched.expires (fixed_of_target listed)
      (batched.reported target listed)
  refine isStruct_of batch_distinct ?_ fun f listed => List.mem_map_of_mem listed
  simp only [List.forall_mem_cons, List.not_mem_nil, false_implies, implies_true, and_true]
  exact ⟨⟨_, .head _, rfl, receipt_accepted request.run⟩, ⟨_, .tail _ (.head _), rfl, items⟩⟩

theorem Batched.plain (batched : Batched request expiresAt results observations) :
    Plain (batchOf (receiptPrefix ++ request.runId) observations) := by
  have receipt : plainText (receiptPrefix ++ request.runId) = true :=
    plainText_append.mpr ⟨receiptPrefix_valid.2.2, plainText_run request.run⟩
  have items : Plain (.array observations) := by
    refine .array fun o member => ?_
    obtain ⟨target, listed, rfl⟩ := batched.each member
    exact observationOf_plain batched.observed batched.expires (fixed_of_target listed)
      (batched.reported target listed)
  refine .object batch_distinct ?_ ?_
  · have names : ∀ k ∈ batchFields.map Field.name, plainText k = true := by decide
    exact fun m member => names m.1 (List.mem_map_of_mem member)
  · simp only [List.forall_mem_cons, List.not_mem_nil, false_implies, implies_true, and_true]
    exact ⟨.text receipt, items⟩

theorem Batched.length (batched : Batched request expiresAt results observations) :
    (stringify (batchOf (receiptPrefix ++ request.runId) observations)).length ≤ 3000 := by
  have names : ∀ k ∈ batchFields.map Field.name, plainText k = true := by decide
  have receipt : plainText (receiptPrefix ++ request.runId) = true :=
    plainText_append.mpr ⟨receiptPrefix_valid.2.2, plainText_run request.run⟩
  have keys : (lit "receiptId").length = 9 ∧ (lit "observations").length = 12 := by decide
  have start := receiptPrefix_valid.2.1
  have run := (isRunId_signs request.run).1
  have each : ∀ o ∈ observations, (stringify o).length ≤ 1000 := by
    intro o member
    obtain ⟨target, listed, rfl⟩ := batched.each member
    exact observationOf_length batched.observed batched.expires (fixed_of_target listed)
      (batched.reported target listed)
  have list := stringify_array_length observations
  obtain ⟨first, second, pair⟩ := List.length_eq_two.mp batched.count
  have here := each first (pair ▸ List.mem_cons_self)
  have there := each second (pair ▸ List.mem_cons_of_mem _ List.mem_cons_self)
  rw [pair] at list ⊢
  simp only [List.map_cons, List.map_nil, List.sum_cons, List.sum_nil] at list
  refine (stringify_object_length fun m member => names m.1 (List.mem_map_of_mem member)).trans ?_
  simp only [List.map_cons, List.map_nil, List.sum_cons, List.sum_nil, keys,
    stringify_text_length receipt,
    List.length_append]
  omega

theorem runIdOf_receipt {run : Text} (valid : isRunId run = true) :
    runIdOf (receiptPrefix ++ run) = some run := by
  have start : receiptPrefix.isPrefixOf (receiptPrefix ++ run) = true :=
    List.isPrefixOf_iff_prefix.mpr (List.prefix_append _ _)
  rw [runIdOf, List.drop_left, start, valid]
  rfl

theorem evidenceProblem_none {target : Target} {time : Text} {result : ProbeResult}
    (reported : Reported result) :
    evidenceProblem target time
      (evidenceOf time (noteText target.id (statusText result.status) result.reason)) = none := by
  have source : (evidenceOf time
      (noteText target.id (statusText result.status) result.reason)).textAt (lit "source") =
      lit "collector:fixed-probe/v1" := rfl
  have authority : (evidenceOf time
      (noteText target.id (statusText result.status) result.reason)).textAt
      (lit "authority") = lit "SYSTEM_DERIVED" := rfl
  have observed : observedAtOf
      (evidenceOf time (noteText target.id (statusText result.status) result.reason)) = time := rfl
  have note : (evidenceOf time (noteText target.id (statusText result.status) result.reason)).textAt
      (lit "note") =
      noteText target.id (statusText result.status) result.reason := rfl
  rw [evidenceProblem, source, authority, observed, note,
    matchNote_probe reported.status reported.reason]
  simp only [ne_eq, not_true_eq_false, Bool.false_eq_true, or_self, if_false]

theorem Batched.find (batched : Batched request expiresAt results observations) {target : Target}
    (listed : target ∈ fixedProbeTargets) :
    observations.find? (fun item => idOf item = observationId request.runId target.id) =
      some (observationOf request expiresAt target (results target)) := by
  have there : observationOf request expiresAt target (results target) ∈ observations :=
    batched.perm.mem_iff.mpr (List.mem_map_of_mem listed)
  cases found : observations.find?
    (fun item => idOf item = observationId request.runId target.id) with
  | none =>
    have other := List.find?_eq_none.mp found _ there
    exact absurd (decide_eq_true rfl) other
  | some o =>
    have held := List.find?_some found
    have same := of_decide_eq_true held
    obtain ⟨other, known, rfl⟩ := batched.each (List.mem_of_find?_eq_some found)
    obtain rfl := observationId_injective known listed same
    rfl

theorem Batched.target_sound (batched : Batched request expiresAt results observations)
    {target : Target}
    (listed : target ∈ fixedProbeTargets) :
    targetProblem (batchOf (receiptPrefix ++ request.runId) observations) request.runId
      request.observedAt
      (timeOf expiresAt - timeOf request.observedAt) target = none := by
  have subject : subjectIdOf (observationOf request expiresAt target (results target)) =
      target.subjectId := rfl
  have check : checkOf (observationOf request expiresAt target (results target)) = target.check :=
    rfl
  have observed : observedAtOf (observationOf request expiresAt target (results target)) =
      request.observedAt := rfl
  have expires : expiresAtOf (observationOf request expiresAt target (results target)) =
      expiresAt := rfl
  have evidence : (observationOf request expiresAt target (results target)).itemsAt
      (lit "evidence") =
      [evidenceOf request.observedAt
        (noteText target.id (statusText (results target).status) (results target).reason)] :=
    rfl
  have found := batched.find listed
  rw [targetProblem, observationsOf_batchOf]
  simp only [found, subject, check, observed, expires, evidence, ne_eq, not_true_eq_false,
    or_self, if_false]
  exact evidenceProblem_none (batched.reported target listed)

theorem Batched.sound (batched : Batched request expiresAt results observations) :
    fixedBatchProblem (batchOf (receiptPrefix ++ request.runId) observations) = none := by
  have same : ∀ o ∈ observations, observedAtOf o = request.observedAt ∧
      expiresAtOf o = expiresAt := by
    intro o member
    obtain ⟨target, -, rfl⟩ := batched.each member
    exact ⟨rfl, rfl⟩
  cases items : observations with
  | nil =>
    have count := batched.count
    rw [items] at count
    cases count
  | cons first rest =>
    have count := batched.count
    obtain ⟨observed, expires⟩ := same first (items ▸ List.mem_cons_self)
    obtain ⟨low, high⟩ := request.ttl
    have apart := batched.apart
    have some_ : request.observedAt ≠ [] := by
      intro none_
      have length := batched.observed.length
      rw [none_] at length
      cases length
    rw [items] at count
    have targets : ¬ (first :: rest).length ≠ fixedProbeTargets.length := not_not.mpr count
    have receipt := runIdOf_receipt request.run
    simp only [fixedBatchProblem, receiptIdOf_batchOf, observationsOf_batchOf, receipt,
      observed, expires]
    rw [if_neg targets, if_neg some_, if_neg (by omega), List.findSome?_eq_none_iff]
    intro target listed
    exact items ▸ batched.target_sound listed

/-- The batch of the targets' observations, in any order, is read back from its bytes. -/
theorem Batched.replayed (batched : Batched request expiresAt results observations) :
    parseFixedProbeBatchBytes
      (fixedProbeBatchBytes (batchOf (receiptPrefix ++ request.runId) observations)) =
      .ok (batchOf (receiptPrefix ++ request.runId) observations) := by
  have plain := batched.plain
  have size := batched.length
  have bytes : fixedProbeBatchBytes (batchOf (receiptPrefix ++ request.runId) observations) =
      stringify (batchOf (receiptPrefix ++ request.runId) observations) :=
        encodeUnits_ascii _ (stringify_ascii plain)
  have some_ : (stringify (batchOf (receiptPrefix ++ request.runId) observations)).length ≠ 0 := by
    rw [batchOf, stringify_object]
    exact Nat.succ_ne_zero _
  have read : documentOf
      (fixedProbeBatchBytes (batchOf (receiptPrefix ++ request.runId) observations)) =
      some (batchOf (receiptPrefix ++ request.runId) observations) := decodeBytes_stringify plain
  have within_ : ¬ ((fixedProbeBatchBytes
      (batchOf (receiptPrefix ++ request.runId) observations)).length = 0 ∨
      524288 < (fixedProbeBatchBytes
        (batchOf (receiptPrefix ++ request.runId) observations)).length) := by
    rw [bytes]
    omega
  rw [parseFixedProbeBatchBytes, if_neg within_, read]
  simp only [batched.accepted, if_true, batched.sound]

end Batch

/-- A batch that was collected is replayed from its file, and it is one batch in whichever order the
probes come back. -/
theorem collected_replayed (collation : Collation) (request : FixedProbeRequest)
    (years : FourDigitYears request)
    (fetched : Target → Fetched) (answers : ∀ target ∈ fixedProbeTargets,
      Answers (fetched target)) :
    ∃ batch, (∀ order, Completed order → collectInOrder collation request fetched order =
      some batch) ∧
      parseFixedProbeBatchBytes (fixedProbeBatchBytes batch) = .ok batch := by
  obtain ⟨observed, expiresAt, expiring, expires⟩ := years
  have batched : Batched request expiresAt (fun t => probeResult t (fetched t))
      ((fixedProbeTargets.map fun t => observationOf request expiresAt t
        (probeResult t (fetched t))).insertionSort
        (comesFirst collation)) := by
    refine ⟨⟨request.time, observed⟩, ⟨expiry_spec expiring, expires⟩, expiry_time expiring, ?_, ?_⟩
    · intro target listed
      exact reported_of_probe target (answers target listed)
    · exact List.perm_insertionSort _ _
  refine ⟨_, ?_, batched.replayed⟩
  intro order completed
  exact collectInOrder_eq collation expiring ((completed_iff order).mp completed)

/-- The order of code units, which is that of `localeCompare` on the identifiers of the targets. -/
def unitCollation : Collation where
  collates s t := decide (s ≤ t)
  total s t := (le_total s t).imp decide_eq_true decide_eq_true
  trans _ _ _ first second :=
    decide_eq_true (le_trans (of_decide_eq_true first) (of_decide_eq_true second))
  letters _ _ first second :=
    congrArg smallLetters (le_antisymm (of_decide_eq_true first) (of_decide_eq_true second))

theorem collected_replayed_sample : ∃ batch,
    (∀ order, Completed order → collectInOrder unitCollation probedRequest (fun _ => .status 503)
      order = some batch) ∧
      parseFixedProbeBatchBytes (fixedProbeBatchBytes batch) = .ok batch := by
  have years : FourDigitYears probedRequest :=
    ⟨by decide, lit "2026-01-01T00:01:00.000Z", by decide, by decide⟩
  exact collected_replayed unitCollation probedRequest years _ fun _ _ => ⟨by decide, by decide⟩

end Metahumotonic.Platform
