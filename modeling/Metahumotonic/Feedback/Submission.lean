import Metahumotonic.Feedback.Homes

/-! `post_feedback` (`app/routers/feedback.py`): whether a submission was stored for good is asked
after the store has already kept it, in the database or in the deque. -/
namespace Metahumotonic.Feedback.Fallback
open Metahumotonic.Library

/-- A valid body; `details` are the fields that go into the record. -/
structure Payload (α : Type*) where
  honeypot : Text
  turnstileToken : Text
  details : α

inductive Receipt where
  | stored | accepted
  deriving DecidableEq, Repr

structure FeedbackResponse where
  ok : Bool := true
  id : Option String := none
  status : Receipt := .accepted
  deriving DecidableEq, Repr

inductive Answer where
  | response (body : FeedbackResponse)
  | rateLimited
  | challengeFailed
  | storageUnavailable
  deriving DecidableEq, Repr

def Answer.statusCode : Answer → ℕ
  | .response _ => 200
  | .rateLimited => 429
  | .challengeFailed => 403
  | .storageUnavailable => 503

/-- `result.durable`. -/
def Reply.durable {α : Type*} : Reply α → Bool
  | .saved _ durable => durable
  | _ => false

/-- What a submission meets on its way: the limiter and the check of its token, the identifier and
the time it is given, and the database. -/
structure Passage where
  allowed : Bool
  verified : Text → Bool
  id : String
  now : ℤ
  weather : Weather

variable {α : Type*} (s : Settings)

def postFeedback (p : Passage) (payload : Payload α) (store : FeedbackStore α) :
    Answer × FeedbackStore α :=
  if payload.honeypot ≠ [] then (.response {}, store)
  else if ¬ p.allowed then (.rateLimited, store)
  else if ¬ p.verified payload.turnstileToken then (.challengeFailed, store)
  else
    let result := saveResult s p.weather store ⟨p.id, p.now, some .new, none, none, payload.details⟩
    if s.feedbackRequireDurable ∧ ¬ result.1.durable then (.storageUnavailable, result.2)
    else (.response { id := some p.id, status := if result.1.durable then .stored else .accepted },
      result.2)

/-- The records of an identifier, in the database and in the deque. -/
def FeedbackStore.held (store : FeedbackStore α) (id : String) : List (Record α) :=
  (store.documents.values ++ store.memory).filter (·.id == id)

/-- What an answer says about the store: a refused submission left no trace, and an identifier that
was handed out names one record. -/
structure Kept (p : Passage) (before : FeedbackStore α)
    (result : Answer × FeedbackStore α) : Prop where
  refused : result.1 = .storageUnavailable → result.2.held p.id = [] ∧
    ∀ record, record ∈ before.documents.values ++ before.memory →
      record ∈ result.2.documents.values ++ result.2.memory
  named : ∀ body id, result.1 = .response body → body.id = some id → (result.2.held id).length = 1

/-- The database takes the record: one is configured, its breaker is closed, a client is there or
can be made, and the insertion goes through. -/
def Stores (w : Weather) (store : FeedbackStore α) : Prop :=
  s.mongoUri ≠ "" ∧ store.breaker.isOpen w.asked = false ∧
    (store.connected = true ∨ w.opens = true) ∧
    w.first = .served

/-- A submission that is turned away before the store is asked. -/
def TurnedAway (p : Passage) (payload : Payload α) : Prop :=
  payload.honeypot ≠ [] ∨ p.allowed = false ∨ p.verified payload.turnstileToken = false

instance (w : Weather) (store : FeedbackStore α) : Decidable (Stores s w store) :=
  inferInstanceAs (Decidable (_ ∧ _))

/-- No store holds a record of the identifier. -/
structure Unheld (store : FeedbackStore α) (id : String) : Prop where
  documents : id ∉ store.documents.keys
  values : ∀ record ∈ store.documents.values, record.id ≠ id
  memory : ∀ record ∈ store.memory, record.id ≠ id

variable {s} {p : Passage} {payload : Payload α} {store : FeedbackStore α} {w : Weather}
    {record : Record α}

theorem reached_iff : (getCollection s w store).1 = true ↔
    s.mongoUri ≠ "" ∧ store.breaker.isOpen w.asked = false ∧
      (store.connected = true ∨ w.opens = true) := by
  unfold getCollection
  split_ifs with skipped held opened
  · simpa [not_and_or] using fun configured closed => absurd skipped (by simp [configured, closed])
  · simp only [not_or, Bool.not_eq_true] at skipped
    simp [skipped, held]
  · simp only [not_or, Bool.not_eq_true] at skipped
    simp [skipped, opened]
  · simp [held, opened]

theorem saveResult_durable (fresh : record.id ∉ store.documents.keys) :
    (saveResult s w store record).1.durable = true ↔ Stores s w store := by
  have reached := @reached_iff _ s store w
  have documents := getCollection_documents s w store
  unfold saveResult Stores
  generalize getCollection s w store = got at reached documents
  obtain ⟨answered, left⟩ := got
  dsimp only at reached documents
  rw [← documents] at fresh
  cases answered with
  | false =>
    simp only [Bool.false_eq_true, false_iff] at reached
    simp only [Reply.durable, Bool.false_eq_true, false_iff]
    exact fun stored => reached ⟨stored.1, stored.2.1, stored.2.2.1⟩
  | true =>
    obtain ⟨configured, closed, client⟩ := reached.mp rfl
    dsimp only
    rw [insertOne, if_neg fresh]
    cases w.first with
    | served => simp [Reply.durable, configured, closed, client]
    | failed applied => simp [Reply.durable]

theorem held_append (memory : List (Record α)) (record : Record α)
    (absent : ∀ r ∈ memory, r.id ≠ record.id) :
    (append memory record).filter (·.id == record.id) = [record] := by
  have none_of : ∀ records, (∀ r ∈ records, r.id ≠ record.id) →
      (records ++ [record]).filter (·.id == record.id) = [record] := by
    intro records others
    have nothing : records.filter (·.id == record.id) = [] := by
      rw [List.filter_eq_nil_iff]
      exact fun r member same => others r member (beq_iff_eq.mp same)
    rw [List.filter_append, nothing]
    simp
  unfold append
  split
  · exact none_of memory absent
  · exact none_of memory.tail fun r member => absent r (List.mem_of_mem_tail member)

/-- A record that was not stored for good is in the deque alone. -/
theorem saveResult_lost (clean : w.first ≠ .failed true)
    (lost : (saveResult s w store record).1.durable = false) :
    (saveResult s w store record).2.documents = store.documents := by
  have documents := getCollection_documents s w store
  unfold saveResult at lost ⊢
  generalize getCollection s w store = got at documents lost ⊢
  obtain ⟨answered, left⟩ := got
  dsimp only at documents
  rw [← documents]
  cases answered with
  | false => rfl
  | true =>
    dsimp only at lost ⊢
    unfold insertOne at lost ⊢
    by_cases taken : record.id ∈ left.documents.keys
    · rw [if_pos taken]
      rfl
    · rw [if_neg taken] at lost ⊢
      cases ended : w.first with
      | served =>
        rw [ended] at lost
        cases lost
      | failed applied =>
        cases applied
        · rfl
        · exact absurd ended clean

/-- The new record is the only one of its identifier, wherever it went. -/
theorem saveResult_held (unheld : Unheld store record.id) (clean : w.first ≠ .failed true) :
    (saveResult s w store record).2.held record.id = [record] := by
  have documents : store.documents.values.filter (·.id == record.id) = [] := by
    rw [List.filter_eq_nil_iff]
    exact fun r member same => unheld.values r member (beq_iff_eq.mp same)
  rcases saveResult_cases s store w record unheld.documents with
    ⟨-, set, memory⟩ | ⟨lost, -, memory⟩
  · have others : store.memory.filter (·.id == record.id) = [] := by
      rw [List.filter_eq_nil_iff]
      exact fun r member same => unheld.memory r member (beq_iff_eq.mp same)
    rw [FeedbackStore.held, set, memory, List.filter_append, others,
      Table.values_set_new _ _ unheld.documents,
      List.filter_append, documents]
    simp
  · have untouched := saveResult_lost clean (congrArg Reply.durable lost)
    rw [FeedbackStore.held, untouched, memory, List.filter_append, documents,
      held_append _ _ unheld.memory]
    rfl

theorem postFeedback_turned_away (away : TurnedAway p payload) :
    (postFeedback s p payload store).2 = store ∧
    (postFeedback s p payload store).1 ≠ .storageUnavailable ∧
      ∀ body, (postFeedback s p payload store).1 = .response body → body.id = none := by
  by_cases bot : payload.honeypot ≠ []
  · rw [postFeedback, if_pos bot]
    refine ⟨rfl, nofun, ?_⟩
    rintro body same
    cases same
    rfl
  rw [postFeedback, if_neg bot]
  by_cases refused : p.allowed = true
  · have failed : ¬ p.verified payload.turnstileToken = true := by
      rcases away with caught | caught | caught
      · exact absurd caught bot
      · rw [refused] at caught
        cases caught
      · simp [caught]
    rw [if_neg (not_not.mpr refused), if_pos failed]
    exact ⟨rfl, nofun, nofun⟩
  · rw [if_pos refused]
    exact ⟨rfl, nofun, nofun⟩

theorem postFeedback_saved (passed : ¬ TurnedAway p payload) (unheld : Unheld store p.id)
    (clean : p.weather.first ≠ .failed true) :
    (postFeedback s p payload store).2.held p.id =
    [⟨p.id, p.now, some .new, none, none, payload.details⟩] ∧
      ((postFeedback s p payload store).1 = .storageUnavailable ↔
        s.feedbackRequireDurable = true ∧ ¬ Stores s p.weather store) ∧
      ∀ body id, (postFeedback s p payload store).1 = .response body → body.id = some id →
        id = p.id := by
  simp only [TurnedAway, not_or, not_not, Bool.not_eq_false] at passed
  obtain ⟨human, allowed, verified⟩ := passed
  have held := @saveResult_held _ s store p.weather ⟨p.id, p.now, some .new, none, none,
    payload.details⟩ unheld clean
  have durable := @saveResult_durable _ s store p.weather
    ⟨p.id, p.now, some .new, none, none, payload.details⟩ unheld.documents
  unfold postFeedback
  rw [if_neg (by simp [human]), if_neg (by simp [allowed]), if_neg (by simp [verified])]
  dsimp only
  split
  · rename_i refused
    rw [durable] at refused
    refine ⟨held, iff_of_true rfl refused, ?_⟩
    rintro body id same
    cases same
  · rename_i granted
    refine ⟨held, ?_, ?_⟩
    · rw [durable] at granted
      refine iff_of_false ?_ granted
      rintro same
      cases same
    · rintro body id same found
      cases same
      exact (Option.some.inj found).symm

/-- A refused submission leaves no trace exactly where none is refused for want of the database. -/
theorem refusal_leaves_no_trace_iff (s : Settings) (p : Passage) (payload : Payload α)
    (store : FeedbackStore α)
    (unheld : Unheld store p.id) (clean : p.weather.first ≠ .failed true) :
    Kept p store (postFeedback s p payload store) ↔
      TurnedAway p payload ∨ s.feedbackRequireDurable = false ∨ Stores s p.weather store := by
  by_cases away : TurnedAway p payload
  · obtain ⟨same, answered, unnamed⟩ := @postFeedback_turned_away _ s p payload store away
    refine iff_of_true ⟨fun refused => absurd refused answered, ?_⟩ (.inl away)
    intro body id reply named
    rw [unnamed body reply] at named
    cases named
  · obtain ⟨held, refused, named⟩ := @postFeedback_saved _ s p payload store away unheld clean
    constructor
    · intro kept
      by_contra others
      simp only [not_or, Bool.not_eq_false] at others
      have empty := (kept.refused (refused.mpr others.2)).1
      rw [held] at empty
      cases empty
    · intro stores
      constructor
      · intro lost
        obtain ⟨required, missed⟩ := refused.mp lost
        rcases stores with gone | lenient | stored
        · exact absurd gone away
        · rw [required] at lenient
          cases lenient
        · exact absurd stored missed
      · intro body id reply given
        rw [named body id reply given, held]
        rfl

section Samples

def quietWeather : Weather := ⟨0, true, .served, .served, 0⟩

def samplePassage : Passage := ⟨true, fun _ => true, "5f1d", 0, quietWeather⟩

theorem unheld_initial (id : String) : Unheld ({} : FeedbackStore α) id where
  documents := List.not_mem_nil
  values := List.forall_mem_nil _
  memory := List.forall_mem_nil _

theorem refusal_sample : Kept samplePassage ({} : FeedbackStore Unit)
    (postFeedback ⟨"mongodb://db", true⟩ samplePassage ⟨[], [], ()⟩ {}) :=
  (refusal_leaves_no_trace_iff ⟨"mongodb://db", true⟩ samplePassage ⟨[], [], ()⟩ {}
    (unheld_initial "5f1d")
    (by decide)).mpr (.inr (.inr (by decide)))

/-- Without a database a submission is refused, and yet its record is in the deque. -/
theorem refused_submission_held :
    let result := postFeedback ⟨"", true⟩ samplePassage (⟨[], [], ()⟩ : Payload Unit) {}
    result.1 = .storageUnavailable ∧ (result.2.held "5f1d").length = 1 ∧
      ¬ Kept samplePassage {} result := by
  refine ⟨by decide, by decide, fun kept => ?_⟩
  have empty := (kept.refused (by decide)).1
  exact absurd (congrArg List.length empty) (by decide)

end Samples

end Metahumotonic.Feedback.Fallback
