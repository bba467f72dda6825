import Mathlib.Data.List.Perm.Basic
import Metahumotonic.Library.Checks
import Metahumotonic.Platform.FixedProbe

/-! The saved batches that a collector can make are those whose times are canonical and whose
outcomes agree with their notes. -/
namespace Metahumotonic.Platform
open Metahumotonic.Library Json

/-! Notes. -/

/-- No sign of a status ends it. -/
def Unbroken (s : Text) : Prop := ∀ c ∈ s, c ≠ 32 ∧ c ≠ 59

theorem unbroken_digits {s : Text} (digits : ∀ c ∈ s, isDigit c = true) : Unbroken s := by
  intro c member
  have digit := digits c member
  constructor <;> rintro rfl <;> cases digit

theorem unbroken_none : Unbroken (lit "none") := by
  unfold Unbroken
  decide

theorem unbroken_statusText (status : Option ℕ) : Unbroken (statusText status) := by
  cases status with
  | none => exact unbroken_none
  | some code => exact unbroken_digits (decimal_digits code)

/-- What follows a status starts with a sign that ends it. -/
theorem reason_break (reason : Option Text) : ∃ c tail, reasonText reason ++ noteEnd = c :: tail ∧
    (c = 32 ∨ c = 59) := by
  cases reason with
  | none => exact ⟨59, _, rfl, .inr rfl⟩
  | some r => exact ⟨32, _, rfl, .inl rfl⟩

theorem unbroken_split {s t x y : Text} {c d : ℕ} (first : Unbroken s) (second : Unbroken t)
    (endsX : c = 32 ∨ c = 59)
    (endsY : d = 32 ∨ d = 59) (same : s ++ c :: x = t ++ d :: y) : s = t ∧ c :: x = d :: y := by
  induction s generalizing t with
  | nil =>
    cases t with
    | nil => exact ⟨rfl, same⟩
    | cons b t =>
      obtain rfl : c = b := (List.cons.inj same).1
      have apart := second c List.mem_cons_self
      omega
  | cons a s ih =>
    cases t with
    | nil =>
      obtain rfl : a = d := (List.cons.inj same).1
      have apart := first a List.mem_cons_self
      omega
    | cons b t =>
      obtain ⟨rfl, later⟩ := List.cons.inj same
      obtain ⟨rfl, rest⟩ := ih (fun e member => first e (List.mem_cons_of_mem _ member))
        (fun e member => second e (List.mem_cons_of_mem _ member)) later
      exact ⟨rfl, rest⟩

theorem reasons_injective : ∀ r ∈ reasons, ∀ q ∈ reasons, reasonText r ++ noteEnd = reasonText q ++
    noteEnd → r = q := by
  decide

/-- A note has one status and one reason. -/
theorem noteText_injective {target s t : Text} {r q : Option Text} (first : Unbroken s)
    (second : Unbroken t)
    (listedR : r ∈ reasons) (listedQ : q ∈ reasons)
    (same : noteText target s r = noteText target t q) :
    s = t ∧ r = q := by
  have rest := List.append_cancel_left same
  obtain ⟨c, x, wroteR, endsR⟩ := reason_break r
  obtain ⟨d, y, wroteQ, endsQ⟩ := reason_break q
  rw [wroteR, wroteQ] at rest
  obtain ⟨rfl, tail⟩ := unbroken_split first second endsR endsQ rest
  rw [← wroteR, ← wroteQ] at tail
  exact ⟨rfl, reasons_injective r listedR q listedQ tail⟩

theorem noteStart_apart {target other : Target} (here : target ∈ fixedProbeTargets)
    (there : other ∈ fixedProbeTargets)
    {x y : Text} (same : noteStart target.id ++ x = noteStart other.id ++ y) : target = other := by
  have heads : ∀ t ∈ fixedProbeTargets, ∀ u ∈ fixedProbeTargets,
      (noteStart t.id).take 40 = (noteStart u.id).take 40 → t = u := by decide
  have long : ∀ t ∈ fixedProbeTargets, 40 ≤ (noteStart t.id).length := by decide
  apply heads target here other there
  have taken := congrArg (List.take 40) same
  rwa [List.take_append_of_le_length (long target here), List.take_append_of_le_length
    (long other there)] at taken

/-- A status as a note may state it. -/
def IsStatus (s : Text) : Prop := s = lit "none" ∨ (s.length = 3 ∧ ∀ c ∈ s, isDigit c = true)

theorem unbroken_of_isStatus {s : Text} (status : IsStatus s) : Unbroken s := by
  rcases status with rfl | ⟨-, digits⟩
  · exact unbroken_none
  · exact unbroken_digits digits

theorem statusAt_split (s : Text) : statusAt s ++ s.drop (statusAt s).length = s := by
  unfold statusAt
  split
  · rename_i word
    obtain ⟨later, rfl⟩ := List.isPrefixOf_iff_prefix.mp word
    rw [List.drop_left]
  · by_cases short : s.length ≤ 3
    · rw [List.take_of_length_le short, List.drop_length, List.append_nil]
    · rw [List.length_take, min_eq_left (by omega), List.take_append_drop]

theorem matchNote_spec {target note s : Text} {r : Option Text}
    (found : matchNote target note = some (s, r)) :
    note = noteText target s r ∧ r ∈ reasons ∧ IsStatus s := by
  unfold matchNote at found
  split at found
  · rename_i starts
    obtain ⟨rest, rfl⟩ := List.isPrefixOf_iff_prefix.mp starts
    rw [List.drop_left] at found
    dsimp only at found
    split at found
    · rename_i valid
      obtain ⟨reason, chosen, equal⟩ := Option.map_eq_some_iff.mp found
      obtain ⟨rfl, rfl⟩ := Prod.mk.inj equal
      have ends := List.find?_some chosen
      replace ends := of_decide_eq_true ends
      refine ⟨?_, List.mem_of_find?_eq_some chosen, ?_⟩
      · rw [noteText, ← ends, statusAt_split]
      · rcases valid with word | ⟨three, digits⟩
        · exact .inl word
        · exact .inr ⟨three, List.all_eq_true.mp digits⟩
    · cases found
  · cases found

/-- The expression reads what a probe writes, and nothing else. -/
theorem matchNote_noteText {target other : Target} (here : target ∈ fixedProbeTargets)
    (there : other ∈ fixedProbeTargets) {s t : Text} {r q : Option Text} (unbroken : Unbroken t)
    (listed : q ∈ reasons)
    (found : matchNote target.id (noteText other.id t q) = some (s, r)) : target = other ∧ s = t ∧
      r = q ∧ IsStatus s := by
  obtain ⟨same, known, status⟩ := matchNote_spec found
  obtain rfl := noteStart_apart here there same.symm
  obtain ⟨rfl, rfl⟩ := noteText_injective unbroken (unbroken_of_isStatus status) listed known same
  exact ⟨rfl, rfl, rfl, status⟩

/-! Accepted batches. -/

/-- What is checked of the observation of a target. -/
structure Checked (runId time : Text) (ttl : ℤ) (target : Target) (o : Json) : Prop where
  id : idOf o = observationId runId target.id
  subjectId : subjectIdOf o = target.subjectId
  check : checkOf o = target.check
  observedAt : observedAtOf o = time
  ttl : timeOf (expiresAtOf o) - timeOf (observedAtOf o) = ttl
  evidence : ∃ e s r, o.itemsAt (lit "evidence") = [e] ∧
    e.textAt (lit "source") = lit "collector:fixed-probe/v1" ∧
    e.textAt (lit "authority") = lit "SYSTEM_DERIVED" ∧ observedAtOf e = time ∧
    matchNote target.id (e.textAt (lit "note")) = some (s, r)

theorem targetProblem_none {batch : Json} {runId observedAt : Text} {ttl : ℤ} {target : Target}
    (sound : targetProblem batch runId observedAt ttl target = none) :
    ∃ o ∈ observationsOf batch, Checked runId observedAt ttl target o := by
  unfold targetProblem at sound
  split at sound
  · cases sound
  · rename_i o found
    have id : idOf o = observationId runId target.id := by
      have held := List.find?_some found
      exact of_decide_eq_true held
    refine ⟨o, List.mem_of_find?_eq_some found, ?_⟩
    split at sound
    · cases sound
    · rename_i subject
      split at sound
      · cases sound
      · rename_i times
        split at sound
        · rename_i e items
          unfold evidenceProblem at sound
          split at sound
          · cases sound
          · rename_i evidence
            simp only [not_or, not_not] at subject times evidence
            obtain ⟨⟨s, r⟩, note⟩ := Option.ne_none_iff_exists'.mp
              (fun none => evidence.2.2.2 (Option.isNone_iff_eq_none.mpr none))
            exact ⟨id, subject.1, subject.2, times.1, times.2, e, s, r, items, evidence.1,
              evidence.2.1,
              evidence.2.2.1, note⟩
        · cases sound

theorem observationId_injective {runId : Text} {target other : Target}
    (here : target ∈ fixedProbeTargets)
    (there : other ∈ fixedProbeTargets)
    (same : observationId runId target.id = observationId runId other.id) :
    target = other := by
  have ids : ∀ t ∈ fixedProbeTargets, ∀ u ∈ fixedProbeTargets, t.id = u.id → t = u := by decide
  exact ids target here other there (List.cons.inj (List.append_cancel_left same)).2

/-- The two observations of an accepted batch are those of the targets. -/
theorem fixedBatchProblem_none {batch : Json} (sound : fixedBatchProblem batch = none) :
    ∃ runId observedAt ttl found, runIdOf (receiptIdOf batch) = some runId ∧ 60000 ≤ ttl ∧
      ttl ≤ 3600000 ∧
      ttl % 1000 = 0 ∧ (observationsOf batch).Perm found ∧
      List.Forall₂ (Checked runId observedAt ttl) fixedProbeTargets found := by
  unfold fixedBatchProblem at sound
  split at sound
  · cases sound
  · rename_i runId first rest run items
    dsimp only at sound
    split at sound
    · cases sound
    · rename_i count
      split at sound
      · cases sound
      · split at sound
        · cases sound
        · rename_i range
          have checked : ∀ target ∈ fixedProbeTargets, ∃ o ∈ observationsOf batch,
              Checked runId (observedAtOf first)
              (timeOf (expiresAtOf first) - timeOf (observedAtOf first)) target o :=
                fun target member =>
            targetProblem_none (List.findSome?_eq_none_iff.mp sound target member)
          obtain ⟨one, hereOne, checkedOne⟩ := checked _ List.mem_cons_self
          obtain ⟨two, hereTwo, checkedTwo⟩ := checked _ (List.mem_cons_of_mem _ List.mem_cons_self)
          have apart : one ≠ two := by
            rintro rfl
            have same := observationId_injective List.mem_cons_self
              (List.mem_cons_of_mem _ List.mem_cons_self)
              (checkedOne.id.symm.trans checkedTwo.id)
            exact absurd same (by decide)
          refine ⟨runId, _, _, [one, two], run, by omega, by omega, by omega, ?_,
            .cons checkedOne (.cons checkedTwo .nil)⟩
          rw [not_not] at count
          rw [items] at hereOne hereTwo ⊢
          obtain ⟨second, rfl⟩ := List.length_eq_one_iff.mp (Nat.succ.inj count)
          rcases List.mem_pair.mp hereOne with rfl | rfl <;>
            rcases List.mem_pair.mp hereTwo with rfl | rfl
          · exact absurd rfl apart
          · exact .refl _
          · exact List.Perm.swap ..
          · exact absurd rfl apart
  · cases sound

/-! From a consistent batch to a collection. -/

theorem runIdOf_spec {id runId : Text} (found : runIdOf id = some runId) :
    id = receiptPrefix ++ runId ∧ isRunId runId = true := by
  unfold runIdOf at found
  split at found
  · rename_i held
    rw [Bool.and_eq_true] at held
    obtain ⟨rest, rfl⟩ := List.isPrefixOf_iff_prefix.mp held.1
    rw [List.drop_left] at held found
    cases found
    exact ⟨rfl, held.2⟩
  · cases found

theorem isIsoTime_spec {s : Text} (canonical : isIsoTime s = true) :
    IsoDate.toISOString (timeOf s) = s ∧ -8640000000000000 ≤ timeOf s ∧
      timeOf s ≤ 8640000000000000 := by
  simp only [isIsoTime, Option.any_eq_true, beq_iff_eq] at canonical
  obtain ⟨t, parsed, same⟩ := canonical
  have time : timeOf s = t := by rw [timeOf, parsed, Option.getD_some]
  rw [time]
  exact ⟨same, IsoDate.dateParse_bounds parsed⟩

/-- Three digits without a zero in front are the decimal of their number. -/
theorem decimal_number {s : Text} (three : s.length = 3) (digits : ∀ c ∈ s, isDigit c = true)
    (plain : s.head? ≠ some 48) : decimal (number s) = s := by
  obtain ⟨a, b, c, rfl⟩ := List.length_eq_three.mp three
  simp only [List.forall_mem_cons, isDigit, Bool.and_eq_true, decide_eq_true_eq] at digits
  obtain ⟨digitA, digitB, digitC, -⟩ := digits
  have first : a ≠ 48 := fun zero => plain (congrArg some zero)
  have value : number [a, b, c] = 10 * (10 * (a - 48) + (b - 48)) + (c - 48) := by
    simp [number]
  have sign : ∀ d < 10, (Nat.digitChar d).toNat = 48 + d := by decide
  rw [value, decimal, Nat.toDigits_of_base_le (by decide) (by omega), Nat.toDigits_of_base_le
    (by decide) (by omega),
    Nat.toDigits_of_lt_base (by omega)]
  simp only [List.map_cons, List.map_nil, List.cons_append, List.nil_append]
  rw [sign _ (by omega), sign _ (by omega), sign _ (by omega)]
  simp only [List.cons.injEq, and_true]
  omega

/-- An outcome that agrees with its note comes of some fetch. -/
theorem agrees_fetched {target : Target} (success : target.successStatus = 200) {outcome s : Text}
    {r : Option Text}
    (agrees : Agrees outcome s r) (status : IsStatus s) : ∃ fetched,
      (probeResult target fetched).outcome = outcome ∧
        statusText (probeResult target fetched).status = s ∧
      (probeResult target fetched).reason = r := by
  rcases agrees with ⟨rfl, rfl, rfl⟩ | ⟨rfl, rfl, rfl | rfl⟩ | ⟨rfl, word, other, plain, rfl⟩
  · refine ⟨.status 200, ?_⟩
    rw [probeResult, success, if_pos rfl]
    exact ⟨rfl, by decide, rfl⟩
  · exact ⟨.timeout, rfl, rfl, rfl⟩
  · exact ⟨.network, rfl, rfl, rfl⟩
  · obtain ⟨three, digits⟩ := status.resolve_left word
    have written := decimal_number three digits plain
    have unexpected : number s ≠ 200 := by
      intro same
      rw [same] at written
      exact other (written.symm.trans (by decide))
    refine ⟨.status (number s), ?_⟩
    rw [probeResult, success, if_neg unexpected]
    exact ⟨rfl, written, rfl⟩

theorem evidence_distinct : (evidenceFields.map Field.name).Nodup := by decide

theorem evidence_of_observation {o : Json} (accepted : isPlatformObservation o = true) :
    ∀ e ∈ o.itemsAt (lit "evidence"), isEvidence e = true := by
  have listed : required (lit "evidence") (isArray 1 20 isEvidence) ∈ observationFields := by
    simp [observationFields]
  exact (itemsAt_of_isStruct observation_distinct accepted listed).1

/-- A text of an accepted struct, in form. -/
theorem text_form {fields : List Field} (distinct : (fields.map Field.name).Nodup) {v : Json}
    (accepted : isStruct fields v = true) {name : Text} {accepts : Text → Bool}
    (listed : required name (isText accepts) ∈ fields) {s : Text} (reads : v.textAt name = s) :
    (v.get name).map form = some (Json.text s).form := by
  rw [(textAt_of_isStruct distinct accepted listed).1, reads]
  rfl

theorem evidence_same {e : Json} (accepted : isEvidence e = true) {time note : Text}
    (source : e.textAt (lit "source") = lit "collector:fixed-probe/v1")
    (authority : e.textAt (lit "authority") = lit "SYSTEM_DERIVED")
    (observed : observedAtOf e = time)
    (noted : e.textAt (lit "note") = note) : Same e (evidenceOf time note) := by
  apply same_of_fields accepted .rfl evidence_distinct
  intro k x member
  simp only [List.mem_cons, Prod.mk.injEq, List.not_mem_nil, or_false] at member
  rcases member with ⟨rfl, rfl⟩ | ⟨rfl, rfl⟩ | ⟨rfl, rfl⟩ | ⟨rfl, rfl⟩
  · exact text_form evidence_distinct accepted (.head _) source
  · exact text_form evidence_distinct accepted (.tail _ (.head _)) authority
  · exact text_form evidence_distinct accepted (.tail _ (.tail _ (.head _))) observed
  · exact text_form evidence_distinct accepted (.tail _ (.tail _ (.tail _ (.head _)))) noted

theorem noteOf_eq {o e : Json} (items : o.itemsAt (lit "evidence") = [e]) : noteOf o = e.textAt
    (lit "note") := by
  rw [noteOf, items]
  rfl

theorem observation_names :
    [lit "id", lit "subjectId", lit "check", lit "outcome", lit "observedAt", lit "expiresAt",
    lit "evidence"].Perm (observationFields.map Field.name) := by decide

/-- A checked observation whose outcome agrees with its note is made by a probe. -/
theorem observation_same {request : FixedProbeRequest} {ttl : ℤ} {target : Target} {o : Json}
    (success : target.successStatus = 200) (accepted : isPlatformObservation o = true)
    (checked : Checked request.runId request.observedAt ttl target o)
    (agrees : ∀ s r, matchNote target.id (noteOf o) = some (s, r) → Agrees (outcomeOf o) s r) :
    ∃ fetched, Same o (observationOf request (expiresAtOf o) target
      (probeResult target fetched)) := by
  obtain ⟨e, s, r, items, source, authority, observed, note⟩ := checked.evidence
  obtain ⟨written, -, status⟩ := matchNote_spec note
  rw [← noteOf_eq items] at note
  obtain ⟨fetched, outcome, stated, reason⟩ := agrees_fetched success (agrees s r note) status
  have whole : isEvidence e = true :=
    evidence_of_observation accepted e (items ▸ List.mem_cons_self)
  have evidence := evidence_same whole source authority observed written
  refine ⟨fetched, same_of_fields accepted observation_names observation_distinct ?_⟩
  intro k x member
  simp only [List.mem_cons, Prod.mk.injEq, List.not_mem_nil, or_false] at member
  rcases member with ⟨rfl, rfl⟩ | ⟨rfl, rfl⟩ | ⟨rfl, rfl⟩ | ⟨rfl, rfl⟩ | ⟨rfl, rfl⟩ | ⟨rfl,
    rfl⟩ | ⟨rfl, rfl⟩
  · exact text_form observation_distinct accepted (.head _) checked.id
  · exact text_form observation_distinct accepted (.tail _ (.head _)) checked.subjectId
  · exact text_form observation_distinct accepted (.tail _ (.tail _ (.tail _ (.tail _ (.head _)))))
      checked.check
  · exact text_form observation_distinct accepted
      (.tail _ (.tail _ (.tail _ (.tail _ (.tail _ (.head _))))))
      outcome.symm
  · exact text_form observation_distinct accepted (.tail _ (.tail _ (.head _))) checked.observedAt
  · exact text_form observation_distinct accepted (.tail _ (.tail _ (.tail _ (.head _)))) rfl
  · rw [get_of_itemsAt items, stated, reason, Option.map_some, form_array, form_array,
      List.map_singleton,
      List.map_singleton, show e.form = _ from evidence]

theorem collect_eq (collates : Text → Text → Bool) (request : FixedProbeRequest)
    (fetched : Target → Fetched) :
    collectFixedProbeBatch collates request fetched =
      (expiry request.observedAt request.ttlSeconds).map fun expiresAt =>
        batchOf (receiptPrefix ++ request.runId)
          ((fixedProbeTargets.map fun target =>
            observationOf request expiresAt target
              (probeResult target (fetched target))).insertionSort
              fun a b => collates (idOf a) (idOf b) = true) := by
  unfold collectFixedProbeBatch probe
  cases expiry request.observedAt request.ttlSeconds <;> rfl

theorem observationsOf_batchOf (receiptId : Text) (observations : List Json) :
    observationsOf (batchOf receiptId observations) = observations := rfl

theorem receiptIdOf_batchOf (receiptId : Text) (observations : List Json) :
    receiptIdOf (batchOf receiptId observations) = receiptId := rfl

theorem batch_same {batch : Json} (accepted : isObservationBatch batch = true) {first : Json}
    {rest : List Json}
    (items : observationsOf batch = first :: rest) {observations : List Json}
    (same : List.Forall₂ Same (first :: rest) observations) :
    Same batch (batchOf (receiptIdOf batch) observations) := by
  have forms : (first :: rest).map form = observations.map form := by
    rw [← List.forall₂_eq_eq_eq, List.forall₂_map_left_iff, List.forall₂_map_right_iff]
    exact same
  apply same_of_fields accepted .rfl batch_distinct
  intro k x member
  simp only [List.mem_cons, Prod.mk.injEq, List.not_mem_nil, or_false] at member
  rcases member with ⟨rfl, rfl⟩ | ⟨rfl, rfl⟩
  · exact text_form batch_distinct accepted (.head _) rfl
  · rw [get_of_itemsAt items, Option.map_some, form_array, form_array, forms]

theorem success_of_target {target : Target} (member : target ∈ fixedProbeTargets) :
    target.successStatus = 200 := by
  have all : ∀ t ∈ fixedProbeTargets, t.successStatus = 200 := by decide
  exact all target member

/-- The expiry of a checked observation whose times are canonical. -/
theorem expiresAt_of_checked {runId time : Text} {ttl : ℤ} {target : Target} {o : Json}
    (checked : Checked runId time ttl target o) (canonical : isIsoTime (expiresAtOf o) = true) :
    expiresAtOf o = IsoDate.toISOString (timeOf time + ttl) ∧
      -8640000000000000 ≤ timeOf time + ttl ∧
      timeOf time + ttl ≤ 8640000000000000 := by
  obtain ⟨written, low, high⟩ := isIsoTime_spec canonical
  have reached : timeOf (expiresAtOf o) = timeOf time + ttl := by
    have apart := checked.ttl
    rw [checked.observedAt] at apart
    omega
  rw [reached] at written low high
  exact ⟨written.symm, low, high⟩

/-- A consistent batch is collected by some request. -/
theorem collectable_of_consistent (collates : Text → Text → Bool) {batch : Json}
    (accepted : isObservationBatch batch = true) (sound : fixedBatchProblem batch = none)
    (consistent : Consistent batch) : Collectable collates batch := by
  obtain ⟨runId, time, ttl, found, run, low, high, whole, perm, checked⟩ :=
    fixedBatchProblem_none sound
  obtain ⟨receipt, valid⟩ := runIdOf_spec run
  have plain := (batch_observations accepted).1
  have website : (⟨lit "public-website-home", lit "service:website", lit "http", 200⟩ : Target) ∈
      fixedProbeTargets :=
    List.mem_cons_self
  obtain ⟨one, memberOne, checkedOne⟩ := forall₂_right checked website
  obtain ⟨observed, expires⟩ := consistent.times one (perm.mem_iff.mpr memberOne)
  obtain ⟨-, lowTime, highTime⟩ := expiresAt_of_checked checkedOne expires
  rw [checkedOne.observedAt] at observed
  let request : FixedProbeRequest := ⟨runId, time, (ttl / 1000).toNat, valid, observed, by omega⟩
  have expiring : expiry request.observedAt request.ttlSeconds =
      some (IsoDate.toISOString (timeOf time + ttl)) := by
    have seconds : timeOf time + ((ttl / 1000).toNat : ℤ) * 1000 = timeOf time + ttl := by omega
    rw [expiry, show timeOf request.observedAt + (request.ttlSeconds : ℤ) * 1000 = timeOf time +
      ttl from seconds]
    exact if_pos ⟨lowTime, highTime⟩
  have each : List.Forall₂ (fun target o => ∃ fetched, Same o (observationOf request
      (IsoDate.toISOString (timeOf time + ttl)) target (probeResult target fetched)))
        fixedProbeTargets found := by
    rw [List.forall₂_iff_zip] at checked ⊢
    refine ⟨checked.1, ?_⟩
    intro target o listed
    obtain ⟨here, there⟩ := List.of_mem_zip listed
    have member := perm.mem_iff.mpr there
    have held : Checked request.runId request.observedAt ttl target o := checked.2 listed
    rw [← (expiresAt_of_checked held (consistent.times o member).2).1]
    exact observation_same (success_of_target here) (plain o member) held fun s r note =>
      consistent.outcomes o member target here s r note
  obtain ⟨fetched, all⟩ := forall₂_choose .network each (by decide)
  have related : List.Forall₂ Same found (fixedProbeTargets.map fun target => observationOf request
      (IsoDate.toISOString (timeOf time + ttl)) target (probeResult target (fetched target))) :=
    List.forall₂_map_right_iff.mpr all.flip
  obtain ⟨made, same, order⟩ := List.perm_comp_forall₂ perm related
  refine ⟨request, fetched, _, made, by rw [collect_eq, expiring, Option.map_some], ?_, ?_⟩
  · rw [observationsOf_batchOf]
    exact order.trans (List.perm_insertionSort _ _).symm
  · rw [receiptIdOf_batchOf, show receiptPrefix ++ request.runId = receiptIdOf batch
      from receipt.symm]
    cases items : observationsOf batch with
    | nil =>
      rw [items] at perm
      rw [← perm.nil_eq] at memberOne
      cases memberOne
    | cons first rest =>
      rw [items] at same
      exact batch_same accepted items same

/-! From a collection to a consistent batch. -/

theorem noteOf_congr {o w : Json} (accepted : isPlatformObservation o = true) (same : Same o w) :
    noteOf o = noteOf w := by
  have forms := same_itemsAt same (named_of_isStruct accepted) (lit "evidence")
  have whole := evidence_of_observation accepted
  unfold noteOf
  cases items : o.itemsAt (lit "evidence") with
  | nil =>
    rw [items, List.map_nil, eq_comm, List.map_eq_nil_iff] at forms
    rw [forms]
  | cons e rest =>
    rw [items] at forms whole
    obtain ⟨f, later, there, here, -⟩ := List.map_eq_cons_iff.mp forms.symm
    rw [there]
    exact same_textAt (show Same e f from here.symm)
      (named_of_isStruct (whole e List.mem_cons_self)) _

theorem expiry_spec {time e : Text} {ttl : ℕ} (expiring : expiry time ttl = some e) :
    isIsoTime e = true := by
  unfold expiry at expiring
  dsimp only at expiring
  split at expiring
  · rename_i range
    cases expiring
    simp only [isIsoTime, IsoDate.dateParse_toISOString range.1 range.2, Option.any_some,
      beq_self_eq_true]
  · cases expiring

/-- What a probe writes agrees, where its status is one that a note may state. -/
theorem agrees_of_probe {target : Target} (success : target.successStatus = 200) (fetched : Fetched)
    (status : IsStatus (statusText (probeResult target fetched).status)) :
    Agrees (probeResult target fetched).outcome (statusText (probeResult target fetched).status)
      (probeResult target fetched).reason := by
  cases fetched with
  | timeout => exact .inr (.inl ⟨rfl, rfl, .inl rfl⟩)
  | network => exact .inr (.inl ⟨rfl, rfl, .inr rfl⟩)
  | status code =>
    rw [probeResult, success] at status ⊢
    by_cases reached : code = 200
    · rw [if_pos reached, reached]
      exact .inl ⟨rfl, by decide, rfl⟩
    · rw [if_neg reached] at status ⊢
      have digits := decimal_digits code
      have word : decimal code ≠ lit "none" := by
        intro same
        rw [same] at digits
        exact absurd (digits 110 (.head _)) (by decide)
      have three := (status.resolve_left word).1
      refine .inr (.inr ⟨rfl, word, ?_, ?_, rfl⟩)
      · intro same
        apply reached
        have value := number_decimal code
        rw [← value, show decimal code = lit "200" from same]
        decide
      · intro zero
        have short : (decimal code).length = 1 := by
          rw [decimal_head code zero]
          rfl
        have stated : (decimal code).length = 3 := three
        omega

theorem reason_of_probe (target : Target) (fetched : Fetched) :
    (probeResult target fetched).reason ∈ reasons := by
  cases fetched with
  | timeout => exact .tail _ (.head _)
  | network => exact .tail _ (.tail _ (.head _))
  | status code =>
    rw [probeResult]
    split
    · exact .head _
    · exact .tail _ (.tail _ (.tail _ (.head _)))

/-- A collected batch is consistent, in any order. -/
theorem consistent_of_collectable {collates : Text → Text → Bool} {batch : Json}
    (accepted : isObservationBatch batch = true) (collectable : Collectable collates batch) :
    Consistent batch := by
  obtain ⟨request, fetched, collected, observations, made, order, same⟩ := collectable
  rw [collect_eq] at made
  obtain ⟨e, expiring, rfl⟩ := Option.map_eq_some_iff.mp made
  have plain := (batch_observations accepted).1
  have forms : (observationsOf batch).map form = observations.map form :=
    same_itemsAt same (named_of_isStruct accepted) _
  have each : ∀ o ∈ observationsOf batch, ∃ target ∈ fixedProbeTargets,
      Same o (observationOf request e target (probeResult target (fetched target))) := by
    intro o member
    have mapped : o.form ∈ observations.map form := forms ▸ List.mem_map_of_mem member
    obtain ⟨w, listed, equal⟩ := List.mem_map.mp mapped
    rw [observationsOf_batchOf] at order
    have there := (List.perm_insertionSort _ _).mem_iff.mp (order.mem_iff.mp listed)
    obtain ⟨target, known, rfl⟩ := List.mem_map.mp there
    exact ⟨target, known, equal.symm⟩
  refine ⟨?_, ?_⟩
  · intro o member
    obtain ⟨target, -, alike⟩ := each o member
    have named := named_of_isStruct (plain o member)
    have observed : observedAtOf o = request.observedAt := same_textAt alike named _
    have expires : expiresAtOf o = e := same_textAt alike named _
    rw [observed, expires]
    exact ⟨request.time, expiry_spec expiring⟩
  · intro o member target known s r found
    obtain ⟨other, listed, alike⟩ := each o member
    have outcome : outcomeOf o = (probeResult other (fetched other)).outcome :=
      same_textAt alike (named_of_isStruct (plain o member)) _
    have note : noteOf o = noteText other.id (statusText (probeResult other (fetched other)).status)
        (probeResult other (fetched other)).reason := noteOf_congr (plain o member) alike
    rw [note] at found
    obtain ⟨rfl, rfl, rfl, status⟩ := matchNote_noteText known listed (unbroken_statusText _)
      (reason_of_probe other (fetched other)) found
    rw [outcome]
    exact agrees_of_probe (success_of_target known) _ status

/-! Files. -/

theorem parse_spec {bytes : List ℕ} {batch : Json}
    (parsed : parseFixedProbeBatchBytes bytes = .ok batch) :
    documentOf bytes = some batch ∧ isObservationBatch batch = true ∧
      fixedBatchProblem batch = none := by
  unfold parseFixedProbeBatchBytes at parsed
  split at parsed
  · cases parsed
  · split at parsed
    · cases parsed
    · rename_i document read
      split at parsed
      · rename_i accepted
        split at parsed
        · cases parsed
        · rename_i sound
          cases parsed
          exact ⟨read, accepted, sound⟩
      · cases parsed

/-- An accepted file holds a batch that can be collected exactly if its document is consistent. -/
theorem replayable_iff (collates : Text → Text → Bool) {bytes : List ℕ} {document : Json}
    (read : documentOf bytes = some document)
    (accepted : (parseFixedProbeBatchBytes bytes).isOk = true) :
    (∀ batch, parseFixedProbeBatchBytes bytes = .ok batch → Collectable collates batch) ↔
      Consistent document := by
  cases parsed : parseFixedProbeBatchBytes bytes with
  | error problem =>
    rw [parsed] at accepted
    cases accepted
  | ok batch =>
    obtain ⟨same, valid, sound⟩ := parse_spec parsed
    obtain rfl : document = batch := Option.some.inj (read.symm.trans same)
    constructor
    · intro all
      exact consistent_of_collectable valid (all document rfl)
    · rintro consistent other equal
      cases equal
      exact collectable_of_consistent collates valid sound consistent

/-! A file whose observations state success in their notes, with an outcome of choice. -/

theorem probed_run : isRunId (lit "run-1") = true := by decide

theorem probed_time : isIsoTime (lit "2026-01-01T00:00:00.000Z") = true := by decide

theorem probed_ttl : 60 ≤ 60 ∧ 60 ≤ 3600 := by decide

def probedRequest : FixedProbeRequest :=
  ⟨lit "run-1", lit "2026-01-01T00:00:00.000Z", 60, probed_run, probed_time, probed_ttl⟩

def probedFile (outcome : Text) : List ℕ :=
  canonicalJson (batchOf (receiptPrefix ++ probedRequest.runId) (fixedProbeTargets.map fun target =>
    observationOf probedRequest (lit "2026-01-01T00:01:00.000Z") target ⟨outcome, some 200, none⟩))

theorem replayable_sample : ∃ document, documentOf (probedFile (lit "reachable")) = some document ∧
    ((∀ batch, parseFixedProbeBatchBytes (probedFile (lit "reachable")) = .ok batch →
      Collectable (fun a b => decide (a ≤ b)) batch) ↔ Consistent document) := by
  have accepted : (parseFixedProbeBatchBytes (probedFile (lit "reachable"))).isOk = true := by
    decide +kernel
  cases parsed : parseFixedProbeBatchBytes (probedFile (lit "reachable")) with
  | error problem =>
    rw [parsed] at accepted
    cases accepted
  | ok document =>
    rw [← parsed]
    have read := (parse_spec parsed).1
    exact ⟨document, read, replayable_iff _ read accepted⟩

/-- A file is accepted whose observations failed with status 200. -/
theorem tampered_outcome_accepted : ¬ ∀ (collates : Text → Text → Bool) (bytes : List ℕ)
    (batch : Json),
    parseFixedProbeBatchBytes bytes = .ok batch → Collectable collates batch := by
  intro claim
  have stated : ((parseFixedProbeBatchBytes (probedFile (lit "failed"))).toOption.any fun batch =>
      (observationsOf batch).any fun o => decide (outcomeOf o = lit "failed") &&
        decide (matchNote (lit "public-website-home") (noteOf o) = some (lit "200", none))) =
          true := by
    decide +kernel
  cases parsed : parseFixedProbeBatchBytes (probedFile (lit "failed")) with
  | error problem =>
    rw [parsed] at stated
    cases stated
  | ok batch =>
    rw [parsed, Except.toOption, Option.any_some, List.any_eq_true] at stated
    obtain ⟨o, member, held⟩ := stated
    rw [Bool.and_eq_true, decide_eq_true_eq, decide_eq_true_eq] at held
    have valid := (parse_spec parsed).2.1
    have consistent := consistent_of_collectable valid (claim (fun _ _ => true) _ batch parsed)
    have agrees := consistent.outcomes o member _ (.head _) _ _ held.2
    rw [held.1] at agrees
    rcases agrees with ⟨outcome, -⟩ | ⟨-, status, -⟩ | ⟨-, -, other, -⟩
    · exact absurd outcome (by decide)
    · exact absurd status (by decide)
    · exact other rfl

end Metahumotonic.Platform
