import Metahumotonic.Library.Raises
import Metahumotonic.Ontology.Accepted

/-! What the checks of a snapshot raise. Everything but the test for membership in a set of
known ids names its own error. -/
namespace Metahumotonic.Ontology

open Library

variable (u : Unicode)

/-- The module's own error. -/
def Raised.IsProjection : Raised → Prop
  | .projection _ _ _ => True
  | _ => False

/-- A value or the module's own error. -/
def Closed {α : Type} (outcome : Except Raised α) : Prop := RaisesOnly Raised.IsProjection outcome

/-- Texts, numbers, truth values and null can be looked up in a set. -/
def hashable : Json → Bool
  | .array _ => false
  | .object _ => false
  | _ => true

theorem closed_ensure {holds : Prop} [Decidable holds] {message : String} {path : Text}
    {names : List Text} :
    Closed (ensure holds (.projection message path names)) := raisesOnly_ensure trivial

theorem closed_requireMapping (v : Json) (path : Text) : Closed (requireMapping v path) := by
  cases v <;> simp [Closed, requireMapping, Raised.IsProjection]

theorem closed_requireList (v : Json) (path : Text) : Closed (requireList v path) := by
  cases v <;> simp [Closed, requireList, Raised.IsProjection]

theorem closed_requireText (v : Json) (path : Text) : Closed (requireText v path) := by
  cases v with
  | text s =>
    by_cases blank : strip s = [] <;> simp [Closed, requireText, blank, Raised.IsProjection]
  | _ => simp [Closed, requireText, Raised.IsProjection]

theorem closed_requireTexts (record : Members) (names : List Text) (path : Text → Text) :
    Closed (checkEach (fun k _ => do
      let _ ← requireText (field record k) (path k)) names 0) := by
  refine raisesOnly_checkEach names (fun k _ _ => ?_) 0
  exact raisesOnly_bind.mpr ⟨closed_requireText _ _, fun _ _ => raisesOnly_pure⟩

theorem closed_knownId {ids : List Text} {v : Json} {message : String} :
    Closed (knownId ids v message) ↔ hashable v = true := by
  cases v with
  | text s => exact iff_of_true closed_ensure rfl
  | _ => simp [Closed, knownId, hashable, Raised.IsProjection, refusal]

theorem closed_validateKeys (members : Members) (allowed required : List Text) (path : Text) :
    Closed (validateKeys members allowed required path) :=
  raisesOnly_bind.mpr ⟨closed_ensure, fun _ _ => closed_ensure⟩

theorem closed_validateAliases (v : Json) (path : Text) : Closed (validateAliases v path) := by
  refine raisesOnly_bind.mpr ⟨closed_requireList v path, fun aliases _ => ?_⟩
  exact raisesOnly_bind.mpr ⟨closed_ensure, fun _ _ => closed_ensure⟩

theorem closed_validateNoPrivateMaterial (v : Json) (path : Text) :
    Closed (validateNoPrivateMaterial u v path) := by
  apply Json.rec
    (motive_1 := fun v => ∀ path, Closed (validateNoPrivateMaterial u v path))
    (motive_2 := fun vs => ∀ path i, Closed (scanItems u vs path i))
    (motive_3 := fun members => ∀ path, Closed (scanMembers u members path))
    (motive_4 := fun member => ∀ path, Closed (validateNoPrivateMaterial u member.2 path))
  · exact fun _ => raisesOnly_ok
  · exact fun _ _ => raisesOnly_ok
  · exact fun _ _ => raisesOnly_ok
  · exact fun _ _ => raisesOnly_ok
  · exact fun _ _ => closed_ensure
  · exact fun vs ih path => ih path 0
  · exact fun members ih path => ih path
  · exact fun _ _ => raisesOnly_ok
  · intro v rest here later path i
    exact raisesOnly_bind.mpr ⟨here _, fun _ _ => later path (i + 1)⟩
  · exact fun _ => raisesOnly_ok
  · intro member rest here later path
    obtain ⟨k, v⟩ := member
    refine raisesOnly_bind.mpr ⟨closed_ensure, fun _ _ => ?_⟩
    refine raisesOnly_bind.mpr ⟨closed_ensure, fun _ _ => ?_⟩
    exact raisesOnly_bind.mpr ⟨here _, fun _ _ => later path⟩
  · exact fun k v ih path => ih path

theorem closed_validateEntity (v : Json) (path : Text) : Closed (validateEntity v path) := by
  have whole : Closed (do
      let members ← requireMapping v path
      validateKeys members entityAllowedKeys entityRequiredKeys path
      let _ ← requireText (field members (lit "canonical_name")) (path ++ lit ".canonical_name")
      validateAliases (field members (lit "aliases")) (path ++ lit ".aliases")) := by
    refine raisesOnly_bind.mpr ⟨closed_requireMapping v path, fun members _ => ?_⟩
    refine raisesOnly_bind.mpr ⟨closed_validateKeys _ _ _ _, fun _ _ => ?_⟩
    exact raisesOnly_bind.mpr ⟨closed_requireText _ _, fun _ _ => closed_validateAliases _ _⟩
  cases v with
  | null => exact raisesOnly_ok
  | _ => exact whole

theorem closed_validateCandidate (path : Text) (raw : Json) (i : Nat) :
    Closed (validateCandidate path raw i) := by
  refine raisesOnly_bind.mpr ⟨closed_requireMapping _ _, fun candidate _ => ?_⟩
  exact raisesOnly_bind.mpr ⟨closed_validateKeys _ _ _ _, fun _ _ => closed_requireTexts _ _ _⟩

theorem closed_validateRecord (c : Collection) (known : List Text) (raw : Json) (i : Nat) :
    Closed (validateRecord c known raw i) := by
  refine raisesOnly_bind.mpr ⟨closed_requireMapping _ _, fun record _ => ?_⟩
  refine raisesOnly_bind.mpr ⟨closed_validateKeys _ _ _ _, fun _ _ => ?_⟩
  refine raisesOnly_bind.mpr ⟨closed_requireText _ _, fun publicId _ => ?_⟩
  refine raisesOnly_bind.mpr ⟨closed_ensure, fun _ _ => ?_⟩
  refine raisesOnly_bind.mpr ⟨closed_ensure, fun _ _ => ?_⟩
  refine raisesOnly_bind.mpr ⟨raisesOnly_checkWhen.mpr fun _ => ?_, fun _ _ => ?_⟩
  · exact raisesOnly_bind.mpr ⟨closed_requireText _ _, fun _ _ => raisesOnly_pure⟩
  refine raisesOnly_bind.mpr ⟨raisesOnly_checkWhen.mpr fun _ => closed_validateAliases _ _,
    fun _ _ => ?_⟩
  refine raisesOnly_bind.mpr ⟨raisesOnly_checkWhen.mpr fun _ => ?_, fun _ _ => raisesOnly_pure⟩
  refine raisesOnly_bind.mpr ⟨closed_validateEntity _ _, fun _ _ =>
    raisesOnly_checkWhen.mpr fun _ => ?_⟩
  refine raisesOnly_bind.mpr ⟨closed_requireList _ _, fun candidates _ => ?_⟩
  exact raisesOnly_checkEach candidates (fun raw _ i => closed_validateCandidate _ raw i) 0

theorem closed_validateCollection (collections : Members) (known : List Text)
    (c : Collection) (i : Nat) :
    Closed (validateCollection collections known c i) := by
  refine raisesOnly_bind.mpr ⟨closed_requireList _ _, fun records _ => ?_⟩
  refine raisesOnly_bind.mpr
    ⟨closed_ensure, fun _ _ => (raisesOnly_foldChecks records 0 known).mpr ?_⟩
  exact fun _ raw _ before _ _ => closed_validateRecord c before raw _

theorem closed_validateSelected (record : Members) (i : Nat) :
    Closed (validateSelected record i) := by
  unfold validateSelected
  split
  · exact raisesOnly_ok
  · refine raisesOnly_bind.mpr ⟨closed_ensure, fun _ _ => ?_⟩
    exact raisesOnly_bind.mpr ⟨closed_ensure, fun _ _ => closed_ensure⟩

/-- `next` finds its record where one is known to be there. -/
theorem closed_next {records : List Members} {wanted : Members → Bool}
    (there : ∃ record ∈ records, wanted record = true) : Closed (next (records.find? wanted)) := by
  obtain ⟨record, member, found⟩ := there
  cases first : records.find? wanted with
  | none => exact absurd found (by simpa using List.find?_eq_none.mp first record member)
  | some record => exact raisesOnly_ok

theorem closed_validateSlot8 {apostles : List Members}
    (there : ∃ record ∈ apostles, atPosition 8 record = true) :
    Closed (validateSlot8 apostles) := by
  refine raisesOnly_bind.mpr ⟨closed_next there, fun slot8 _ => ?_⟩
  refine raisesOnly_bind.mpr ⟨closed_requireMapping _ _, fun entity _ => ?_⟩
  refine raisesOnly_bind.mpr ⟨closed_ensure, fun _ _ => ?_⟩
  exact raisesOnly_bind.mpr ⟨closed_ensure, fun _ _ => closed_ensure⟩

theorem next_mem {records : List Members} {wanted : Members → Bool} {record : Members}
    (found : next (records.find? wanted) = .ok record) : record ∈ records := by
  cases first : records.find? wanted with
  | none =>
    rw [first] at found
    cases found
  | some other =>
    rw [first] at found
    cases found
    exact List.mem_of_find?_eq_some first

/-! What is read of a record under a name was found to be a text when the record was checked. -/

theorem closed_textAt {record : Members} {k : Text} (there : ∃ s, field record k = .text s) :
    Closed (textAt record k) := by
  obtain ⟨s, text⟩ := there
  rw [textAt_ok.mpr text]
  exact raisesOnly_ok

theorem closed_texts {records : List Members} {k : Text}
    (there : ∀ record ∈ records, ∃ s, field record k = .text s) : Closed (texts records k) :=
  raisesOnly_mapM fun record member => closed_textAt (there record member)

theorem RecordOk.text {c : Collection} {record : Members} (good : RecordOk c record) :
    ∃ s, field record (lit "public_id") = .text s := ⟨_, good.publicId⟩

theorem closed_candidateText {k : Text} {v : Json} (named : k ∈ candidateKeys)
    (other : k ≠ lit "default_servable")
    (good : ∃ candidate, v = .object candidate ∧ CandidateOk candidate) :
    Closed (candidateText k v) := by
  obtain ⟨candidate, rfl, good⟩ := good
  exact closed_textAt (good.texts k named other)

theorem hasName_array {record : Members} {k : Text} {vs : List Json}
    (found : field record k = .array vs) :
    hasName record k = true := by
  unfold field at found
  unfold hasName
  cases read : member? record k with
  | none =>
    rw [read] at found
    cases found
  | some v => rfl

theorem closed_validateSlot9 {apostles : List Members}
    (records : ∀ record ∈ apostles, RecordOk .apostles record)
    (there : ∃ record ∈ apostles, atPosition 9 record = true) :
    Closed (validateSlot9 apostles) := by
  refine raisesOnly_bind.mpr ⟨closed_next there, fun slot9 found => ?_⟩
  refine raisesOnly_bind.mpr ⟨closed_ensure, fun _ _ => ?_⟩
  refine raisesOnly_bind.mpr ⟨closed_ensure, fun _ _ => ?_⟩
  refine raisesOnly_bind.mpr ⟨closed_requireList _ _, fun candidates listed => ?_⟩
  have each : ∀ v ∈ candidates, ∃ candidate, v = .object candidate ∧ CandidateOk candidate := by
    have array := requireList_ok.mp listed
    obtain ⟨vs, same, each⟩ := (records slot9 (next_mem found)).candidates rfl (hasName_array array)
    cases array.symm.trans same
    exact each
  refine raisesOnly_bind.mpr ⟨closed_ensure, fun _ _ => ?_⟩
  refine raisesOnly_bind.mpr ⟨raisesOnly_mapM fun v member => ?_, fun ids _ => ?_⟩
  · exact closed_candidateText (by decide) (by decide) (each v member)
  refine raisesOnly_bind.mpr ⟨closed_ensure, fun _ _ => ?_⟩
  refine raisesOnly_bind.mpr ⟨raisesOnly_mapM fun v member => ?_, fun names _ => ?_⟩
  · exact closed_candidateText (by decide) (by decide) (each v member)
  refine raisesOnly_bind.mpr ⟨closed_ensure, fun _ _ => ?_⟩
  exact raisesOnly_bind.mpr ⟨closed_ensure, fun _ _ => closed_ensure⟩

theorem closed_validateHarness (commanders : List Members) :
    Closed (validateHarness commanders) := by
  refine raisesOnly_bind.mpr ⟨closed_ensure, fun _ _ => ?_⟩
  exact raisesOnly_bind.mpr ⟨closed_ensure, fun _ _ => closed_ensure⟩

/-- The roster was checked before, so one of the commanders is HSWM. -/
theorem closed_validateOmc {commanders : List Members}
    (records : ∀ record ∈ commanders, RecordOk .omcCommanders record) :
    Closed (validateOmc u commanders) := by
  refine raisesOnly_bind.mpr ⟨closed_texts fun record member => ?_, fun names read => ?_⟩
  · exact (records record member).canonical (by decide)
  refine raisesOnly_bind.mpr ⟨closed_ensure, fun _ roster => ?_⟩
  have listed := (Bool.and_eq_true_iff.mp (ensure_ok.mp roster)).2
  have present := List.all_eq_true.mp listed (lit "HSWM") (by decide)
  obtain ⟨record, member, found⟩ :=
    forall₂_left (texts_ok.mp read) (List.contains_iff_mem.mp present)
  have there : ∃ record ∈ commanders, named (lit "HSWM") record = true :=
    ⟨record, member, isText_iff.mpr found⟩
  exact raisesOnly_bind.mpr ⟨closed_next there, fun hswm _ => closed_ensure⟩

/-- A record stands at every position from 1 to n. -/
theorem exists_atPosition {n : Nat} {records : List Members}
    (placed : (positions records).any (exactly n) = true)
    {i : Nat} (inside : i < n) : ∃ record ∈ records, atPosition ((i : ℤ) + 1) record = true := by
  cases read : positions records with
  | none =>
    rw [read] at placed
    cases placed
  | some ps =>
    rw [read, Option.any_some] at placed
    have there : (i : ℤ) + 1 ∈ ps := by
      rw [(exactly_perm placed).mem_iff]
      have counted : ∃ a, a < n ∧ (i : ℤ) = (a : ℤ) := ⟨i, inside, rfl⟩
      simpa using counted
    have listed : Json.int ((i : ℤ) + 1) ∈ records.map fun record =>
        field record (lit "position") := by
      rw [positions_some read]
      exact List.mem_map_of_mem there
    obtain ⟨record, member, same⟩ := List.mem_map.mp listed
    exact ⟨record, member, atPosition_iff.mpr same⟩

theorem closed_validateDomainInvariants {records : Collection → List Members}
    (good : ∀ c, ∀ record ∈ records c, RecordOk c record) :
    Closed (validateDomainInvariants u records) := by
  refine raisesOnly_bind.mpr ⟨closed_ensure, fun _ _ => ?_⟩
  refine raisesOnly_bind.mpr ⟨closed_ensure, fun _ placed => ?_⟩
  have each := ensure_ok.mp placed
  refine raisesOnly_bind.mpr ⟨?_, fun _ _ => ?_⟩
  · exact raisesOnly_checkEach _ (fun record _ i => closed_validateSelected record i) 0
  refine raisesOnly_bind.mpr ⟨closed_ensure, fun _ _ => ?_⟩
  refine raisesOnly_bind.mpr ⟨closed_ensure, fun _ _ => ?_⟩
  refine raisesOnly_bind.mpr ⟨closed_validateSlot8 (exists_atPosition each (i := 7) (by decide)),
    fun _ _ => ?_⟩
  refine raisesOnly_bind.mpr ⟨?_, fun _ _ => ?_⟩
  · exact closed_validateSlot9 (good .apostles) (exists_atPosition each (i := 8) (by decide))
  exact raisesOnly_bind.mpr ⟨closed_validateHarness _, fun _ _ =>
    closed_validateOmc u (good .omcCommanders)⟩

/-! The one check that may raise something else, and when a document comes to it. -/

def Known (ids : List Text) (v : Json) : Prop := ∃ s ∈ ids, v = .text s

/-- What is checked of a relationship before its endpoints are looked up. -/
structure RelationshipShape (relationship : Members) : Prop where
  named : Named relationship relationshipKeys
  required : ∀ k ∈ relationshipKeys, hasName relationship k = true
  id : ∃ s, field relationship (lit "relationship_id") = .text s ∧ strip s ≠ []
  texts : ∀ k ∈ [lit "predicate", lit "authority", lit "status"],
    ∃ s, field relationship k = .text s ∧ strip s ≠ []

/-- What is checked of a conflict before its subject is looked up. -/
structure ConflictShape (conflict : Members) : Prop where
  named : Named conflict conflictAllowedKeys
  required : ∀ k ∈ conflictRequiredKeys, hasName conflict k = true
  id : ∃ s, field conflict (lit "conflict_id") = .text s ∧ strip s ≠ []
  texts : ∀ k ∈ [lit "detail", lit "severity", lit "status"], ∃ s, field conflict k = .text s ∧
    strip s ≠ []
  subject : hasName conflict (lit "subject_public_id") ≠ hasName conflict (lit "subject_scope")

def RelationshipGood (ids : List Text) (relationship : Members) : Prop :=
  RelationshipShape relationship ∧ Known ids (field relationship (lit "from_public_id")) ∧
    Known ids (field relationship (lit "to_public_id"))

def ConflictGood (ids : List Text) (conflict : Members) : Prop :=
  ConflictShape conflict ∧ (field conflict (lit "subject_public_id") = .null ∨
    Known ids (field conflict (lit "subject_public_id")))

section Invariants

variable {ids : List Text}

theorem Known.text {v : Json} (known : Known ids v) : ∃ s, v = .text s := by
  obtain ⟨s, _, text⟩ := known
  exact ⟨s, text⟩

theorem RelationshipShape.predicate {relationship : Members}
    (shaped : RelationshipShape relationship) :
    ∃ s, field relationship (lit "predicate") = .text s := by
  obtain ⟨s, text, _⟩ := shaped.texts (lit "predicate") (by decide)
  exact ⟨s, text⟩

theorem closed_apostleIdAt {apostles : List Members}
    (records : ∀ record ∈ apostles, RecordOk .apostles record)
    {p : ℤ} (there : ∃ record ∈ apostles, atPosition p record = true) :
    Closed (apostleIdAt apostles p) := by
  obtain ⟨record, member, found⟩ := there
  unfold apostleIdAt
  cases first : apostles.find? (atPosition p) with
  | none => exact absurd found (by simpa using List.find?_eq_none.mp first record member)
  | some other => exact closed_textAt (records other (List.mem_of_find?_eq_some first)).text

theorem closed_validateStar {edges : List Members}
    (good : ∀ edge ∈ edges, RelationshipGood ids edge)
    (count : Nat) (source : Text) (targets : List Text) (authority status : Text)
    (message : String) :
    Closed (validateStar edges count source targets authority status message) := by
  refine raisesOnly_bind.mpr ⟨closed_texts fun edge member => (good edge member).2.1.text,
    fun _ _ => ?_⟩
  exact raisesOnly_bind.mpr ⟨closed_texts fun edge member => (good edge member).2.2.text, fun _ _ =>
    closed_ensure⟩

/-- The apostles stand at their positions, and all that is read was found to be a text. -/
theorem closed_validateRelationshipInvariants {records : Collection → List Members}
    {relationships : List Members}
    (each : ∀ c, ∀ record ∈ records c, RecordOk c record)
    (placed : (positions (records .apostles)).any (exactly 12) = true)
    (good : ∀ relationship ∈ relationships, RelationshipGood ids relationship) :
    Closed (validateRelationshipInvariants records relationships) := by
  have filtered : ∀ name, ∀ edge ∈ relationships.filter
      (fun edge => isText (field edge (lit "predicate")) name),
      RelationshipGood ids edge := fun name edge member => good edge (List.mem_of_mem_filter member)
  refine raisesOnly_bind.mpr ⟨closed_texts fun edge member => (good edge member).1.predicate,
    fun _ _ => ?_⟩
  refine raisesOnly_bind.mpr ⟨closed_ensure, fun _ _ => ?_⟩
  refine raisesOnly_bind.mpr
    ⟨closed_apostleIdAt (each .apostles) (exists_atPosition placed (i := 3) (by decide)),
    fun legionSource _ => ?_⟩
  refine raisesOnly_bind.mpr ⟨closed_texts fun record member => (each _ record member).text,
    fun _ _ => ?_⟩
  refine raisesOnly_bind.mpr ⟨closed_validateStar (filtered _) _ _ _ _ _ _, fun _ _ => ?_⟩
  refine raisesOnly_bind.mpr
    ⟨closed_apostleIdAt (each .apostles) (exists_atPosition placed (i := 7) (by decide)),
    fun omcSource _ => ?_⟩
  refine raisesOnly_bind.mpr ⟨closed_texts fun record member => (each _ record member).text,
    fun _ _ => ?_⟩
  refine raisesOnly_bind.mpr ⟨closed_validateStar (filtered _) _ _ _ _ _ _, fun _ _ => ?_⟩
  refine raisesOnly_bind.mpr
    ⟨closed_apostleIdAt (each .apostles) (exists_atPosition placed (i := 9) (by decide)),
    fun target _ => ?_⟩
  refine raisesOnly_bind.mpr ⟨closed_ensure, fun _ _ => ?_⟩
  refine raisesOnly_bind.mpr ⟨closed_texts fun edge member => (filtered _ edge member).2.1.text,
    fun _ _ => ?_⟩
  refine raisesOnly_bind.mpr
    ⟨closed_ensure, fun _ _ => raisesOnly_checkEach _ (fun phase member _ => ?_) 0⟩
  have fine := each .phases phase member
  refine raisesOnly_bind.mpr ⟨closed_textAt fine.text, fun _ _ => ?_⟩
  exact raisesOnly_bind.mpr ⟨closed_textAt (fine.canonical (by decide)), fun _ _ => closed_ensure⟩

end Invariants

def EndpointsHashable (ids : List Text) (relationship : Members) : Prop :=
  hashable (field relationship (lit "from_public_id")) = true ∧
    (Known ids (field relationship (lit "from_public_id")) →
      hashable (field relationship (lit "to_public_id")) = true)

def relationshipId (relationship : Members) : Text := textOf relationship (lit "relationship_id")

def conflictId (conflict : Members) : Text := textOf conflict (lit "conflict_id")

/-- Every relationship that the loop comes to has endpoints that can be looked up. -/
def RelationshipsHashable (ids : List Text) (relationships : List Json) : Prop :=
  ∀ (before : List Members) (relationship : Members) (after : List Json),
    relationships = before.map .object ++ .object relationship :: after →
      (∀ earlier ∈ before, RelationshipGood ids earlier) →
        ((before ++ [relationship]).map relationshipId).Nodup → RelationshipShape relationship →
          EndpointsHashable ids relationship

/-- Every conflict that the loop comes to has a subject that can be looked up. -/
def ConflictsHashable (ids : List Text) (conflicts : List Json) : Prop :=
  ∀ (before : List Members) (conflict : Members) (after : List Json),
    conflicts = before.map .object ++ .object conflict :: after →
      (∀ earlier ∈ before, ConflictGood ids earlier) →
      ((before ++ [conflict]).map conflictId).Nodup →
        ConflictShape conflict → hashable (field conflict (lit "subject_public_id")) = true

theorem validateRelationship_iff {ids known after : List Text} {raw : Json} {i : Nat} :
    validateRelationship ids known raw i = .ok after ↔
      ∃ relationship, raw = .object relationship ∧ RelationshipGood ids relationship ∧
        relationshipId relationship ∉ known ∧ after = known ++ [relationshipId relationship] := by
  simp only [validateRelationship, bind_ok, requireMapping_ok, validateKeys_ok,
    requireText_ok, ensure_ok,
    knownId_ok, pure_ok]
  constructor
  · rintro ⟨relationship, rfl, _, ⟨named, required⟩, id, ⟨text, solid⟩, _, fresh, _, each, _,
      source, _, target,
      rfl⟩
    have texts := (requireTexts_ok fun k => indexed (lit "$.data.relationships") i ++
      lit "." ++ k).mp each
    have same : relationshipId relationship = id := textOf_text text
    refine ⟨relationship, rfl, ⟨⟨named, required, ⟨id, text, solid⟩, texts⟩, source, target⟩, ?_,
      ?_⟩
    · rwa [same]
    · rw [same]
  · rintro ⟨relationship, rfl, ⟨shaped, source, target⟩, fresh, rfl⟩
    obtain ⟨id, text, solid⟩ := shaped.id
    have same : relationshipId relationship = id := textOf_text text
    have each := (requireTexts_ok (a := ()) fun k => indexed (lit "$.data.relationships") i ++
      lit "." ++ k).mpr
      shaped.texts
    rw [same] at fresh ⊢
    exact ⟨relationship, rfl, (), ⟨shaped.named, shaped.required⟩, id, ⟨text, solid⟩, (), fresh, (),
      each, (), source,
      (), target, rfl⟩

theorem closed_validateRelationship {ids known : List Text} {raw : Json} {i : Nat} :
    Closed (validateRelationship ids known raw i) ↔
      ∀ relationship, raw = .object relationship → RelationshipShape relationship →
        relationshipId relationship ∉ known → EndpointsHashable ids relationship := by
  constructor
  · rintro closed relationship rfl shaped fresh
    obtain ⟨id, text, solid⟩ := shaped.id
    have same : relationshipId relationship = id := textOf_text text
    rw [same] at fresh
    have each := (requireTexts_ok (a := ()) fun k => indexed (lit "$.data.relationships") i ++
      lit "." ++ k).mpr
      shaped.texts
    have keys := closed.after (requireMapping_ok.mpr rfl)
    have ids := keys.past (validateKeys_ok.mpr ⟨shaped.named, shaped.required⟩)
    have texts := (ids.after (requireText_ok.mpr ⟨text, solid⟩)).past (ensure_ok.mpr fresh)
    have endpoints := texts.past each
    refine ⟨closed_knownId.mp endpoints.first, fun known => ?_⟩
    exact closed_knownId.mp (endpoints.past (knownId_ok.mpr known)).first
  · intro each
    refine raisesOnly_bind.mpr ⟨closed_requireMapping _ _, fun relationship object => ?_⟩
    refine raisesOnly_bind.mpr ⟨closed_validateKeys _ _ _ _, fun _ keys => ?_⟩
    refine raisesOnly_bind.mpr ⟨closed_requireText _ _, fun id text => ?_⟩
    refine raisesOnly_bind.mpr ⟨closed_ensure, fun _ fresh => ?_⟩
    refine raisesOnly_bind.mpr ⟨closed_requireTexts _ _ _, fun _ texts => ?_⟩
    obtain ⟨named, required⟩ := validateKeys_ok.mp keys
    have written := requireText_ok.mp text
    have same : relationshipId relationship = id := textOf_text written.1
    obtain ⟨source, target⟩ := each relationship (requireMapping_ok.mp object)
      ⟨named, required, ⟨id, written⟩, (requireTexts_ok _).mp texts⟩
        (by rw [same]; exact ensure_ok.mp fresh)
    refine raisesOnly_bind.mpr ⟨closed_knownId.mpr source, fun _ known => ?_⟩
    exact raisesOnly_bind.mpr ⟨closed_knownId.mpr (target (knownId_ok.mp known)), fun _ _ =>
      raisesOnly_pure⟩

theorem validateConflict_iff {ids known after : List Text} {raw : Json} {i : Nat} :
    validateConflict ids known raw i = .ok after ↔
      ∃ conflict, raw = .object conflict ∧ ConflictGood ids conflict ∧ conflictId conflict ∉ known ∧
        after = known ++ [conflictId conflict] := by
  simp only [validateConflict, bind_ok, requireMapping_ok, validateKeys_ok,
    requireText_ok, ensure_ok,
    checkWhen_ok, knownId_ok, pure_ok]
  constructor
  · rintro ⟨conflict, rfl, _, ⟨named, required⟩, id, ⟨text, solid⟩, _, fresh, _, each, _, one, _,
      subject, rfl⟩
    have texts := (requireTexts_ok fun k => indexed (lit "$.data.conflicts") i ++
      lit "." ++ k).mp each
    have same : conflictId conflict = id := textOf_text text
    refine ⟨conflict, rfl, ⟨⟨named, required, ⟨id, text, solid⟩, texts, one⟩, ?_⟩, ?_, ?_⟩
    · by_cases null : isNull (field conflict (lit "subject_public_id")) = true
      · exact .inl (isNull_iff.mp null)
      · exact .inr (subject null)
    · rwa [same]
    · rw [same]
  · rintro ⟨conflict, rfl, ⟨shaped, subject⟩, fresh, rfl⟩
    obtain ⟨id, text, solid⟩ := shaped.id
    have same : conflictId conflict = id := textOf_text text
    have each := (requireTexts_ok (a := ()) fun k => indexed (lit "$.data.conflicts") i ++
      lit "." ++ k).mpr
      shaped.texts
    rw [same] at fresh ⊢
    refine ⟨conflict, rfl, (), ⟨shaped.named, shaped.required⟩, id, ⟨text, solid⟩, (), fresh,
      (), each, (),
      shaped.subject, (), fun present => ?_, rfl⟩
    exact subject.resolve_left fun null => present (isNull_iff.mpr null)

theorem closed_validateConflict {ids known : List Text} {raw : Json} {i : Nat} :
    Closed (validateConflict ids known raw i) ↔
      ∀ conflict, raw = .object conflict → ConflictShape conflict → conflictId conflict ∉ known →
        hashable (field conflict (lit "subject_public_id")) = true := by
  constructor
  · rintro closed conflict rfl shaped fresh
    obtain ⟨id, text, solid⟩ := shaped.id
    have same : conflictId conflict = id := textOf_text text
    rw [same] at fresh
    have each := (requireTexts_ok (a := ()) fun k => indexed (lit "$.data.conflicts") i ++
      lit "." ++ k).mpr
      shaped.texts
    have keys := closed.after (requireMapping_ok.mpr rfl)
    have ids := keys.past (validateKeys_ok.mpr ⟨shaped.named, shaped.required⟩)
    have texts := (ids.after (requireText_ok.mpr ⟨text, solid⟩)).past (ensure_ok.mpr fresh)
    have last := ((texts.past each).past (ensure_ok.mpr shaped.subject)).first
    cases subject : field conflict (lit "subject_public_id") with
    | array vs =>
      rw [subject] at last
      exact absurd (closed_knownId.mp (raisesOnly_checkWhen.mp last Bool.false_ne_true))
        Bool.false_ne_true
    | object members =>
      rw [subject] at last
      exact absurd (closed_knownId.mp (raisesOnly_checkWhen.mp last Bool.false_ne_true))
        Bool.false_ne_true
    | _ => rfl
  · intro each
    refine raisesOnly_bind.mpr ⟨closed_requireMapping _ _, fun conflict object => ?_⟩
    refine raisesOnly_bind.mpr ⟨closed_validateKeys _ _ _ _, fun _ keys => ?_⟩
    refine raisesOnly_bind.mpr ⟨closed_requireText _ _, fun id text => ?_⟩
    refine raisesOnly_bind.mpr ⟨closed_ensure, fun _ fresh => ?_⟩
    refine raisesOnly_bind.mpr ⟨closed_requireTexts _ _ _, fun _ texts => ?_⟩
    refine raisesOnly_bind.mpr ⟨closed_ensure, fun _ one => ?_⟩
    obtain ⟨named, required⟩ := validateKeys_ok.mp keys
    have written := requireText_ok.mp text
    have same : conflictId conflict = id := textOf_text written.1
    have subject := each conflict (requireMapping_ok.mp object)
      ⟨named, required, ⟨id, written⟩, (requireTexts_ok _).mp texts, ensure_ok.mp one⟩
      (by rw [same]; exact ensure_ok.mp fresh)
    refine raisesOnly_bind.mpr ⟨raisesOnly_checkWhen.mpr fun _ => closed_knownId.mpr subject,
      fun _ _ => ?_⟩
    exact raisesOnly_pure

theorem closed_relationships (ids : List Text) (relationships : List Json) :
    Closed (foldChecks (validateRelationship ids) relationships 0 []) ↔
      RelationshipsHashable ids relationships :=
  raisesOnly_collects (fun _ _ _ _ => validateRelationship_iff)
    (fun _ _ _ => closed_validateRelationship)
    relationships

theorem closed_conflicts (ids : List Text) (conflicts : List Json) :
    Closed (foldChecks (validateConflict ids) conflicts 0 []) ↔ ConflictsHashable ids conflicts :=
  raisesOnly_collects (fun _ _ _ _ => validateConflict_iff)
    (fun _ _ _ => closed_validateConflict) conflicts

/-- The checks of a document that come before its relationships are read; `ids` are then known. -/
structure ReachesRelationships (snapshot : Json) (digest : Text) (ids : List Text)
    (relationships : List Json) :
    Prop where
  root : snapshot = .object (rootOf snapshot)
  clean : validateNoPrivateMaterial u snapshot (lit "$") = .ok ()
  rootNames : sameNames (rootOf snapshot) [lit "meta", lit "data"] = true
  metaField : field (rootOf snapshot) (lit "meta") = .object (metaOf snapshot)
  metaSame : metaMatches (metaOf snapshot) digest = true
  digestShape : sha256Re digest = true
  dataField : field (rootOf snapshot) (lit "data") = .object (dataOf snapshot)
  dataNames : sameNames (dataOf snapshot) [lit "collections", lit "relationships",
    lit "conflicts"] = true
  collectionsField : field (dataOf snapshot) (lit "collections") = .object (collectionsOf snapshot)
  collectionsNames : sameNames (collectionsOf snapshot) (collectionKinds.map Collection.name) = true
  collections : foldChecks (validateCollection (collectionsOf snapshot)) collectionKinds 0
    [] = .ok ids
  domain : validateDomainInvariants u (recordsByCollection (collectionsOf snapshot)) = .ok ()
  relationshipsField : field (dataOf snapshot) (lit "relationships") = .array relationships
  count : relationships.length = 15

/-- The checks between the relationships and the conflicts. -/
structure ReachesConflicts (snapshot : Json) (ids : List Text)
    (relationships conflicts : List Json) : Prop where
  passed : ∃ rs : List Members, relationships = rs.map .object ∧
    (∀ r ∈ rs, RelationshipGood ids r) ∧
    (rs.map relationshipId).Nodup
  invariants : validateRelationshipInvariants (recordsByCollection (collectionsOf snapshot))
    (relationships.filterMap mapping?) = .ok ()
  conflictsField : field (dataOf snapshot) (lit "conflicts") = .array conflicts
  count : conflicts.length = 8

/-- The document is refused before, or has only values to look up that can be looked up. -/
def Hashable (snapshot : Json) (digest : Text) : Prop :=
  ∀ ids relationships, ReachesRelationships u snapshot digest ids relationships →
    RelationshipsHashable ids relationships ∧
      ∀ conflicts, ReachesConflicts snapshot ids relationships conflicts →
        ConflictsHashable ids conflicts

variable {u}

theorem passed_relationships {ids : List Text} {relationships : List Json} :
    (∃ after, foldChecks (validateRelationship ids) relationships 0 [] = .ok after) ↔
      ∃ rs : List Members, relationships = rs.map .object ∧ (∀ r ∈ rs, RelationshipGood ids r) ∧
        (rs.map relationshipId).Nodup := by
  simp only [foldChecks_collects (fun _ _ _ _ => validateRelationship_iff)]
  constructor
  · rintro ⟨_, rs, same, each, distinct, -, -⟩
    exact ⟨rs, same, each, distinct⟩
  · rintro ⟨rs, same, each, distinct⟩
    exact ⟨_, rs, same, each, distinct, fun _ _ => List.not_mem_nil, rfl⟩

/-- Validation accepts, refuses with its own error, or comes to a value that cannot be looked up. -/
theorem closed_validateSnapshot {snapshot : Json} {digest : Text} :
    Closed (validateSnapshot u snapshot digest) ↔ Hashable u snapshot digest := by
  constructor
  · intro closed ids relationships reaches
    have metaField : field (rootOf snapshot) (lit "meta") = .object (metaOf snapshot) :=
      reaches.metaField
    have scanned := (closed.after (requireMapping_ok.mpr reaches.root)).past reaches.clean
    have metadata := (scanned.past (ensure_ok.mpr reaches.rootNames)).after
      (requireMapping_ok.mpr metaField)
    have pinned := (metadata.past (ensure_ok.mpr reaches.metaSame)).past
      (ensure_ok.mpr reaches.digestShape)
    have data := (pinned.after (requireMapping_ok.mpr reaches.dataField)).past
      (ensure_ok.mpr reaches.dataNames)
    have named := (data.after (requireMapping_ok.mpr reaches.collectionsField)).past
      (ensure_ok.mpr reaches.collectionsNames)
    have domain := (named.after reaches.collections).past reaches.domain
    have loop := (domain.after (requireList_ok.mpr reaches.relationshipsField)).past
      (ensure_ok.mpr reaches.count)
    refine ⟨(closed_relationships ids relationships).mp loop.first, fun conflicts later => ?_⟩
    obtain ⟨_, passed⟩ := passed_relationships.mpr later.passed
    have listed := (loop.after passed).past later.invariants
    have counted := (listed.after (requireList_ok.mpr later.conflictsField)).past
      (ensure_ok.mpr later.count)
    exact (closed_conflicts ids conflicts).mp counted.first
  · intro each
    refine raisesOnly_bind.mpr ⟨closed_requireMapping _ _, fun root object => ?_⟩
    obtain rfl := requireMapping_ok.mp object
    refine raisesOnly_bind.mpr ⟨closed_validateNoPrivateMaterial u _ _, fun _ clean => ?_⟩
    refine raisesOnly_bind.mpr ⟨closed_ensure, fun _ rootNames => ?_⟩
    refine raisesOnly_bind.mpr ⟨closed_requireMapping _ _, fun members metaField => ?_⟩
    refine raisesOnly_bind.mpr ⟨closed_ensure, fun _ metaSame => ?_⟩
    refine raisesOnly_bind.mpr ⟨closed_ensure, fun _ digestShape => ?_⟩
    refine raisesOnly_bind.mpr ⟨closed_requireMapping _ _, fun data dataField => ?_⟩
    refine raisesOnly_bind.mpr ⟨closed_ensure, fun _ dataNames => ?_⟩
    refine raisesOnly_bind.mpr ⟨closed_requireMapping _ _, fun collections collectionsField => ?_⟩
    refine raisesOnly_bind.mpr ⟨closed_ensure, fun _ collectionsNames => ?_⟩
    refine raisesOnly_bind.mpr ⟨(raisesOnly_foldChecks _ _ _).mpr
      fun _ c _ known _ _ => closed_validateCollection _ known c _, fun ids eachCollection => ?_⟩
    have good := fun c => ((validateCollections_ok eachCollection).1 c).records
    refine raisesOnly_bind.mpr ⟨closed_validateDomainInvariants u good, fun _ domain => ?_⟩
    have placed := validateDomainInvariants_placed domain
    refine raisesOnly_bind.mpr ⟨closed_requireList _ _, fun relationships relationshipsField => ?_⟩
    refine raisesOnly_bind.mpr ⟨closed_ensure, fun _ count => ?_⟩
    have readMeta : metaOf (.object root) = members :=
      within_of_field (requireMapping_ok.mp metaField)
    have readData : dataOf (.object root) = data := within_of_field (requireMapping_ok.mp dataField)
    have readCollections : collectionsOf (.object root) = collections := by
      rw [collectionsOf, readData]
      exact within_of_field (requireMapping_ok.mp collectionsField)
    subst readMeta readData readCollections
    have reaches : ReachesRelationships u (.object root) digest ids relationships :=
      ⟨rfl, clean, ensure_ok.mp rootNames, requireMapping_ok.mp metaField, ensure_ok.mp metaSame,
        ensure_ok.mp digestShape, requireMapping_ok.mp dataField, ensure_ok.mp dataNames,
        requireMapping_ok.mp collectionsField, ensure_ok.mp collectionsNames,
          eachCollection, domain,
        requireList_ok.mp relationshipsField, ensure_ok.mp count⟩
    obtain ⟨endpoints, subjects⟩ := each ids relationships reaches
    refine raisesOnly_bind.mpr ⟨(closed_relationships ids relationships).mpr endpoints,
      fun _ passed => ?_⟩
    have edges : ∀ edge ∈ relationships.filterMap mapping?, RelationshipGood ids edge := by
      obtain ⟨rs, same, each, _⟩ := passed_relationships.mp ⟨_, passed⟩
      rw [same, filterMap_objects]
      exact each
    refine raisesOnly_bind.mpr ⟨closed_validateRelationshipInvariants good placed edges,
      fun _ invariants => ?_⟩
    refine raisesOnly_bind.mpr ⟨closed_requireList _ _, fun conflicts conflictsField => ?_⟩
    refine raisesOnly_bind.mpr ⟨closed_ensure, fun _ count => ?_⟩
    have reaches : ReachesConflicts (.object root) ids relationships conflicts :=
      ⟨passed_relationships.mp ⟨_, passed⟩, invariants, requireList_ok.mp conflictsField,
        ensure_ok.mp count⟩
    refine raisesOnly_bind.mpr ⟨(closed_conflicts ids conflicts).mpr (subjects conflicts reaches),
      fun _ _ => ?_⟩
    exact raisesOnly_pure

end Metahumotonic.Ontology
