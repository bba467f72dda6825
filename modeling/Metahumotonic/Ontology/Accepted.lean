import Metahumotonic.Ontology.Snapshot

/-! What the checks of an accepted snapshot establish. Everything later that is said
about an accepted snapshot is read off `Accepted`; the checks are not unfolded again. -/
namespace Metahumotonic.Ontology

open Library

variable {u : Unicode}

theorem isText_iff {v : Json} {s : Text} : isText v s = true ↔ v = .text s := by
  cases v <;> simp [isText]

theorem text?_eq {v : Json} {s : Text} : text? v = some s ↔ v = .text s := by
  cases v <;> simp [text?]

theorem int?_eq {v : Json} {n : ℤ} : int? v = some n ↔ v = .int n := by
  cases v <;> simp [int?]

theorem mapping?_eq {v : Json} {members : Members} : mapping? v = some members ↔
    v = .object members := by
  cases v <;> simp [mapping?]

theorem isNull_iff {v : Json} : isNull v = true ↔ v = .null := by
  cases v <;> simp [isNull]

theorem requireMapping_ok {v : Json} {path : Text} {members : Members} :
    requireMapping v path = .ok members ↔ v = .object members := by
  cases v <;> simp [requireMapping]

theorem requireList_ok {v : Json} {path : Text} {vs : List Json} :
    requireList v path = .ok vs ↔ v = .array vs := by
  cases v <;> simp [requireList]

theorem requireText_ok {v : Json} {path s : Text} :
    requireText v path = .ok s ↔ v = .text s ∧ strip s ≠ [] := by
  cases v with
  | text t =>
    by_cases blank : strip t = []
    · simp only [requireText, if_pos blank, Json.text.injEq]
      constructor
      · intro raised
        cases raised
      · rintro ⟨rfl, solid⟩
        exact absurd blank solid
    · simp only [requireText, if_neg blank, Except.ok.injEq, Json.text.injEq]
      constructor
      · rintro rfl
        exact ⟨rfl, blank⟩
      · exact And.left
  | _ => simp [requireText]

/-- Texts that are required under each of several names. -/
theorem requireTexts_ok {record : Members} {names : List Text} (path : Text → Text) {a : Unit} :
    checkEach (fun k _ => do
      let _ ← requireText (field record k) (path k)) names 0 = .ok a ↔
      ∀ k ∈ names, ∃ s, field record k = .text s ∧ strip s ≠ [] := by
  apply checkEach_ok
  intro k i
  simp only [bind_ok, requireText_ok, pure_ok, and_true]

def Named (members : Members) (allowed : List Text) : Prop := ∀ k v, (k, v) ∈ members → k ∈ allowed

theorem validateKeys_ok {members : Members} {allowed required : List Text} {path : Text}
    {a : Unit} :
    validateKeys members allowed required path = .ok a ↔
      Named members allowed ∧ ∀ k ∈ required, hasName members k = true := by
  simp only [validateKeys, bind_ok, ensure_ok, exists_const, List.filter_eq_nil_iff]
  simp [Named]

theorem sameNames_iff {members : Members} {names : List Text} :
    sameNames members names = true ↔ Named members names ∧ ∀ k ∈ names,
      hasName members k = true := by
  simp [sameNames, Named]

/-- The scanner accepts a document without forbidden names and marked texts. -/
theorem validateNoPrivateMaterial_ok (v : Json) (path : Text) :
    validateNoPrivateMaterial u v path = .ok () ↔ v.all u.permittedKey u.unmarked = true := by
  apply Json.rec
    (motive_1 := fun v => ∀ path, validateNoPrivateMaterial u v path = .ok () ↔
      v.all u.permittedKey u.unmarked = true)
    (motive_2 := fun vs => ∀ path i, scanItems u vs path i = .ok () ↔
      Json.allItems u.permittedKey u.unmarked vs = true)
    (motive_3 := fun members => ∀ path, scanMembers u members path = .ok () ↔
      Json.allMembers u.permittedKey u.unmarked members = true)
    (motive_4 := fun member => ∀ path, validateNoPrivateMaterial u member.2 path = .ok () ↔
      member.2.all u.permittedKey u.unmarked = true)
  · simp [validateNoPrivateMaterial]
  · simp [validateNoPrivateMaterial]
  · simp [validateNoPrivateMaterial]
  · simp [validateNoPrivateMaterial]
  · simp [validateNoPrivateMaterial]
  · intro vs ih path
    exact ih path 0
  · intro members ih path
    exact ih path
  · simp [scanItems, Json.allItems]
  · intro v rest here later path i
    simp [scanItems, Json.allItems, bind_ok, here, later]
  · simp [scanMembers, Json.allMembers]
  · intro member rest here later path
    obtain ⟨k, v⟩ := member
    have named : (u.casefold k ∉ forbiddenKeys ∧
        ((lit "sha256").isSuffixOf (u.casefold k) = true → u.casefold k = lit "content_sha256")) ↔
        u.permittedKey k = true := by
      simp only [Unicode.permittedKey, permitted, Bool.and_eq_true, Bool.or_eq_true,
        Bool.not_eq_true',
        List.contains_eq_mem, decide_eq_false_iff_not, beq_iff_eq, Decidable.imp_iff_not_or,
        Bool.not_eq_true]
    simp only [scanMembers, bind_ok, ensure_ok, exists_const, here, later, Json.allMembers,
      Bool.and_eq_true, ← named]
    tauto
  · intro k v ih path
    exact ih path

theorem validateAliases_ok {v : Json} {path : Text} (ok : validateAliases v path = .ok ()) :
    ∃ names : List Text, v = .array (names.map .text) := by
  simp only [validateAliases, bind_ok, requireList_ok, ensure_ok] at ok
  obtain ⟨vs, rfl, _, texts, _⟩ := ok
  clear * - texts
  refine ⟨vs.filterMap text?, ?_⟩
  congr 1
  induction vs with
  | nil => rfl
  | cons v rest ih =>
    obtain ⟨s, text⟩ := Option.isSome_iff_exists.mp (texts v List.mem_cons_self).1
    have later := ih fun w there => texts w (List.mem_cons_of_mem _ there)
    rw [List.filterMap_cons_some text, List.map_cons, ← later, text?_eq.mp text]

structure EntityOk (entity : Members) : Prop where
  named : Named entity entityAllowedKeys
  canonical : ∃ name, field entity (lit "canonical_name") = .text name
  aliases : ∃ names : List Text, field entity (lit "aliases") = .array (names.map .text)

theorem validateEntity_ok {v : Json} {path : Text} (ok : validateEntity v path = .ok ()) :
    v = .null ∨ ∃ entity, v = .object entity ∧ EntityOk entity := by
  unfold validateEntity at ok
  split at ok
  · exact .inl rfl
  · simp only [bind_ok, requireMapping_ok, validateKeys_ok, requireText_ok] at ok
    obtain ⟨entity, rfl, _, ⟨named, _⟩, name, ⟨canonical, _⟩, aliases⟩ := ok
    exact .inr ⟨entity, rfl, named, ⟨name, canonical⟩, validateAliases_ok aliases⟩

structure CandidateOk (candidate : Members) : Prop where
  named : Named candidate candidateKeys
  texts : ∀ k ∈ candidateKeys, k ≠ lit "default_servable" → ∃ s, field candidate k = .text s

theorem validateCandidate_ok {v : Json} {path : Text} {i : Nat}
    (ok : validateCandidate path v i = .ok ()) :
    ∃ candidate, v = .object candidate ∧ CandidateOk candidate := by
  simp only [validateCandidate, bind_ok, requireMapping_ok, validateKeys_ok] at ok
  obtain ⟨candidate, rfl, _, ⟨named, _⟩, each⟩ := ok
  have texts := (requireTexts_ok fun k => indexed path i ++ lit "." ++ k).mp each
  refine ⟨candidate, rfl, named, ?_⟩
  intro k listed other
  obtain ⟨s, text, _⟩ := texts k (List.mem_filter.mpr ⟨listed, by simpa using other⟩)
  exact ⟨s, text⟩

structure RecordOk (c : Collection) (record : Members) : Prop where
  named : Named record c.allowedKeys
  required : ∀ k ∈ c.requiredKeys, hasName record k = true
  publicId : field record (lit "public_id") = .text (textOf record (lit "public_id"))
  shape : publicIdRe (textOf record (lit "public_id")) = true
  canonical : c ≠ .apostles → ∃ name, field record (lit "canonical_name") = .text name
  aliases : hasName record (lit "aliases") = true →
    ∃ names : List Text, field record (lit "aliases") = .array (names.map .text)
  entity : c = .apostles → field record (lit "entity") = .null ∨
    ∃ entity, field record (lit "entity") = .object entity ∧ EntityOk entity
  candidates : c = .apostles → hasName record (lit "candidates") = true →
    ∃ vs, field record (lit "candidates") = .array vs ∧
      ∀ v ∈ vs, ∃ candidate, v = .object candidate ∧ CandidateOk candidate

theorem textOf_text {record : Members} {k s : Text} (text : field record k = .text s) :
    textOf record k = s := by
  simp [textOf, text, text?]

theorem textAt_ok {record : Members} {k s : Text} : textAt record k = .ok s ↔
    field record k = .text s := by
  unfold textAt
  split <;> simp_all

theorem texts_ok {records : List Members} {k : Text} {ts : List Text} :
    texts records k = .ok ts ↔ List.Forall₂ (fun record s => field record k = .text s)
      records ts := by
  simp only [texts, mapM_ok, textAt_ok]

theorem validateRecord_ok {c : Collection} {known ids : List Text} {raw : Json} {i : Nat}
    (ok : validateRecord c known raw i = .ok ids) :
    ∃ record, raw = .object record ∧ RecordOk c record ∧ textOf record (lit "public_id") ∉ known ∧
      ids = known ++ [textOf record (lit "public_id")] := by
  simp only [validateRecord, bind_ok, requireMapping_ok, validateKeys_ok, requireText_ok, ensure_ok,
    checkWhen_ok, pure_ok] at ok
  obtain ⟨record, rfl, _, ⟨named, required⟩, id, ⟨publicId, _⟩, _, shape, _, new, _,
      canonical, _, aliases,
    _, apostle, rfl⟩ := ok
  have same := textOf_text publicId
  refine ⟨record, rfl, ⟨named, required, ?_, ?_, ?_, ?_, ?_, ?_⟩, ?_, ?_⟩
  · rw [same, publicId]
  · rw [same, shape]
  · intro other
    obtain ⟨name, text, _⟩ := canonical other
    exact ⟨name, text.1⟩
  · exact fun present => validateAliases_ok (aliases present)
  · intro here
    obtain ⟨_, entity, _⟩ := apostle here
    exact validateEntity_ok entity
  · intro here present
    obtain ⟨_, _, candidates⟩ := apostle here
    obtain ⟨vs, array, each⟩ := candidates present
    refine ⟨vs, requireList_ok.mp array, ?_⟩
    have all : ∀ (vs : List Json) j,
        checkEach (validateCandidate
          (indexed (lit "$.data.collections." ++ c.name) i ++ lit ".candidates"))
          vs j = .ok () → ∀ v ∈ vs, ∃ candidate, v = .object candidate ∧ CandidateOk candidate := by
      intro vs
      induction vs with
      | nil => exact fun _ _ => List.forall_mem_nil _
      | cons v rest ih =>
        intro j passed
        obtain ⟨_, here, later⟩ := bind_ok.mp passed
        exact List.forall_mem_cons.mpr ⟨validateCandidate_ok here, ih (j + 1) later⟩
    exact all vs 0 each
  · rwa [same]
  · rw [same]

theorem filterMap_objects (records : List Members) :
    (records.map Json.object).filterMap mapping? = records := by
  induction records with
  | nil => rfl
  | cons record rest ih =>
    rw [List.map_cons, List.filterMap_cons_some
      (show mapping? (.object record) = some record from rfl), ih]

/-- A loop over raw records that checks each and collects its key. -/
theorem records_ok {step : List Text → Json → Nat → Except Raised (List Text)}
    {good : Members → Prop}
    {key : Members → Text}
    (meaning : ∀ known raw i ids, step known raw i = .ok ids →
      ∃ record, raw = .object record ∧ good record ∧ key record ∉ known ∧
        ids = known ++ [key record])
    {vs : List Json} {known ids : List Text} (ok : foldChecks step vs 0 known = .ok ids) :
    ∃ records : List Members, vs = records.map .object ∧ (∀ record ∈ records, good record) ∧
      ids = known ++ records.map key ∧ (known.Nodup → ids.Nodup) := by
  obtain ⟨news, all, rfl, kept⟩ := foldChecks_extends
    (fun raw new => ∃ record, raw = .object record ∧ good record ∧ new = [key record])
    (fun known raw i ids ok => by
      obtain ⟨record, same, fine, fresh, rfl⟩ := meaning known raw i ids ok
      refine ⟨_, ⟨record, same, fine, rfl⟩, rfl, fun nodup => ?_⟩
      rw [← List.concat_eq_append, List.nodup_concat]
      exact ⟨fresh, nodup⟩)
    vs 0 ok
  have shape : ∃ records : List Members, vs = records.map .object ∧
      (∀ record ∈ records, good record) ∧
      news.flatten = records.map key := by
    clear * - all
    induction all with
    | nil => exact ⟨[], rfl, List.forall_mem_nil _, rfl⟩
    | cons first _ ih =>
      obtain ⟨record, rfl, fine, rfl⟩ := first
      obtain ⟨records, rfl, each, flat⟩ := ih
      exact ⟨record :: records, rfl, List.forall_mem_cons.mpr ⟨fine, each⟩, by simp [flat]⟩
  obtain ⟨records, same, each, flat⟩ := shape
  exact ⟨records, same, each, by rw [flat], kept⟩

def idsOf (records : List Members) : List Text := records.map (textOf · (lit "public_id"))

/-- What validation establishes about a collection. -/
structure CollectionOk (collections : Members) (c : Collection) : Prop where
  content : field collections c.name = .array ((recordsByCollection collections c).map .object)
  size : (recordsByCollection collections c).length = c.expectedCardinality
  records : ∀ record ∈ recordsByCollection collections c, RecordOk c record

theorem validateCollection_ok {collections : Members} {known ids : List Text}
    {c : Collection} {i : Nat}
    (ok : validateCollection collections known c i = .ok ids) :
    ∃ new, (CollectionOk collections c ∧ new = idsOf (recordsByCollection collections c)) ∧
      ids = known ++ new ∧ (known.Nodup → ids.Nodup) := by
  simp only [validateCollection, bind_ok, requireList_ok, ensure_ok] at ok
  obtain ⟨vs, content, _, size, loop⟩ := ok
  obtain ⟨records, rfl, each, rfl, kept⟩ := records_ok (fun _ _ _ _ ok => validateRecord_ok ok) loop
  have read : recordsByCollection collections c = records := by
    rw [recordsByCollection, content, items, filterMap_objects]
  refine ⟨_, ⟨⟨?_, ?_, ?_⟩, rfl⟩, ?_, kept⟩
  · rw [read, content]
  · rw [read, ← size, List.length_map]
  · rwa [read]
  · rw [read]
    rfl

/-- The public ids of a snapshot, collection by collection. -/
def publicIds (collections : Members) : List Text :=
  collectionKinds.flatMap fun c => idsOf (recordsByCollection collections c)

theorem mem_collectionKinds (c : Collection) : c ∈ collectionKinds := by
  cases c <;> decide

theorem validateCollections_ok {collections : Members} {ids : List Text}
    (ok : foldChecks (validateCollection collections) collectionKinds 0 [] = .ok ids) :
    (∀ c, CollectionOk collections c) ∧ ids = publicIds collections ∧ ids.Nodup := by
  obtain ⟨news, all, rfl, kept⟩ := foldChecks_extends _
    (fun _ _ _ _ ok => validateCollection_ok ok) collectionKinds 0 ok
  have shape : ∀ kinds, List.Forall₂ (fun c new => CollectionOk collections c ∧
      new = idsOf (recordsByCollection collections c)) kinds news →
      (∀ c ∈ kinds, CollectionOk collections c) ∧
        news.flatten = kinds.flatMap fun c => idsOf (recordsByCollection collections c) := by
    clear * -
    intro kinds all
    induction all with
    | nil => exact ⟨List.forall_mem_nil _, rfl⟩
    | cons first _ ih =>
      obtain ⟨good, rfl⟩ := first
      refine ⟨List.forall_mem_cons.mpr ⟨good, ih.1⟩, ?_⟩
      rw [List.flatten_cons, List.flatMap_cons, ih.2]
  obtain ⟨good, flat⟩ := shape _ all
  exact ⟨fun c => good c (mem_collectionKinds c), flat, kept List.nodup_nil⟩

theorem knownId_ok {ids : List Text} {v : Json} {message : String} {a : Unit} :
    knownId ids v message = .ok a ↔ ∃ s ∈ ids, v = .text s := by
  cases v <;> simp [knownId]

structure RelationshipOk (ids : List Text) (relationship : Members) : Prop where
  named : Named relationship relationshipKeys
  id : field relationship (lit "relationship_id") = .text
    (textOf relationship (lit "relationship_id"))
  texts : ∀ k ∈ [lit "predicate", lit "authority", lit "status"], ∃ s,
    field relationship k = .text s
  source : ∃ s ∈ ids, field relationship (lit "from_public_id") = .text s
  target : ∃ s ∈ ids, field relationship (lit "to_public_id") = .text s

theorem validateRelationship_ok {ids known after : List Text} {raw : Json} {i : Nat}
    (ok : validateRelationship ids known raw i = .ok after) :
    ∃ relationship, raw = .object relationship ∧ RelationshipOk ids relationship ∧
      textOf relationship (lit "relationship_id") ∉ known ∧
      after = known ++ [textOf relationship (lit "relationship_id")] := by
  simp only [validateRelationship, bind_ok, requireMapping_ok, validateKeys_ok,
    requireText_ok, ensure_ok,
    knownId_ok, pure_ok] at ok
  obtain ⟨relationship, rfl, _, ⟨named, _⟩, id, ⟨text, _⟩, _, fresh, _, each, _, source, _,
      target, rfl⟩ := ok
  have texts := (requireTexts_ok fun k => indexed (lit "$.data.relationships") i ++
    lit "." ++ k).mp each
  have same := textOf_text text
  refine ⟨relationship, rfl, ⟨named, ?_, ?_, source, target⟩, ?_, ?_⟩
  · rw [same, text]
  · intro k listed
    obtain ⟨s, there, _⟩ := texts k listed
    exact ⟨s, there⟩
  · rwa [same]
  · rw [same]

structure ConflictOk (ids : List Text) (conflict : Members) : Prop where
  named : Named conflict conflictAllowedKeys
  id : field conflict (lit "conflict_id") = .text (textOf conflict (lit "conflict_id"))
  texts : ∀ k ∈ [lit "detail", lit "severity", lit "status"], ∃ s, field conflict k = .text s
  subject : field conflict (lit "subject_public_id") = .null ∨
    ∃ s ∈ ids, field conflict (lit "subject_public_id") = .text s

theorem validateConflict_ok {ids known after : List Text} {raw : Json} {i : Nat}
    (ok : validateConflict ids known raw i = .ok after) :
    ∃ conflict, raw = .object conflict ∧ ConflictOk ids conflict ∧
      textOf conflict (lit "conflict_id") ∉ known ∧
      after = known ++ [textOf conflict (lit "conflict_id")] := by
  simp only [validateConflict, bind_ok, requireMapping_ok, validateKeys_ok,
    requireText_ok, ensure_ok,
    checkWhen_ok, knownId_ok, pure_ok, Bool.not_eq_true] at ok
  obtain ⟨conflict, rfl, _, ⟨named, _⟩, id, ⟨text, _⟩, _, fresh, _, each, _, _, _, subject, rfl⟩ :=
    ok
  have texts := (requireTexts_ok fun k => indexed (lit "$.data.conflicts") i ++
    lit "." ++ k).mp each
  have same := textOf_text text
  refine ⟨conflict, rfl, ⟨named, ?_, ?_, ?_⟩, ?_, ?_⟩
  · rw [same, text]
  · intro k listed
    obtain ⟨s, there, _⟩ := texts k listed
    exact ⟨s, there⟩
  · cases null : isNull (field conflict (lit "subject_public_id")) with
    | true => exact .inl (isNull_iff.mp null)
    | false => exact .inr (subject null)
  · rwa [same]
  · rw [same]

theorem positions_some {records : List Members} {ps : List ℤ} (read : positions records = some ps) :
    records.map (fun record => field record (lit "position")) = ps.map .int := by
  induction records generalizing ps with
  | nil =>
    cases read
    rfl
  | cons record rest ih =>
    simp only [positions, List.mapM_cons, Option.bind_eq_bind, Option.bind_eq_some_iff,
      Option.pure_def, Option.some.injEq] at read
    obtain ⟨p, here, qs, later, rfl⟩ := read
    rw [List.map_cons, int?_eq.mp here, ih later, List.map_cons]

theorem exactly_perm {n : Nat} {ps : List ℤ} (all : exactly n ps = true) :
    ps.Perm ((List.range n).map fun i => (i : ℤ) + 1) := by
  rw [← beq_iff_eq.mp all]
  exact (List.perm_insertionSort _ ps).symm

theorem atPosition_iff {p : ℤ} {record : Members} :
    atPosition p record = true ↔ field record (lit "position") = .int p := by
  simp [atPosition, int?_eq]

structure SelectedOk (record : Members) : Prop where
  state : field record (lit "selection_state") = .text (lit "SELECTED")
  entity : ∃ entity, field record (lit "entity") = .object entity
  candidates : hasName record (lit "candidates") = false

structure Slot9Ok (record : Members) : Prop where
  state : field record (lit "selection_state") = .text (lit "CONFLICT_PENDING")
  entity : field record (lit "entity") = .null
  policy : field record (lit "body_policy") = .text (lit "NO_DEFAULT")
  candidates : ∃ vs, field record (lit "candidates") = .array vs ∧ ∀ v ∈ vs, notServable v = true

/-- What the domain invariants establish about the apostles. -/
structure SlotsOk (apostles : List Members) : Prop where
  placed : ∀ record ∈ apostles, ∃ p, field record (lit "position") = .int p
  once : (apostles.map fun record => field record (lit "position")).Nodup
  pending : ∃ record ∈ apostles, atPosition 9 record = true
  slot9 : ∀ record ∈ apostles, atPosition 9 record = true → Slot9Ok record
  selected : ∀ record ∈ apostles, atPosition 9 record = false → SelectedOk record

theorem validateSelected_ok (record : Members) (i : Nat) :
    validateSelected record i = .ok () ↔ (atPosition 9 record = false → SelectedOk record) := by
  unfold validateSelected
  cases nine : atPosition 9 record with
  | true => simp
  | false =>
    simp only [Bool.false_eq_true, if_false, bind_ok, ensure_ok, exists_const, isText_iff,
      forall_const]
    constructor
    · rintro ⟨state, entity, candidates⟩
      obtain ⟨members, found⟩ := Option.isSome_iff_exists.mp entity
      exact ⟨state, ⟨members, mapping?_eq.mp found⟩, by simpa using candidates⟩
    · rintro ⟨state, ⟨members, entity⟩, candidates⟩
      exact ⟨state, by simp [entity, mapping?], by simp [candidates]⟩

theorem validateSlot9_ok {apostles : List Members} {a : Unit}
    (ok : validateSlot9 apostles = .ok a) :
    ∃ record, apostles.find? (atPosition 9) = some record ∧ Slot9Ok record := by
  simp only [validateSlot9, bind_ok, ensure_ok, isText_iff, isNull_iff, requireList_ok] at ok
  obtain ⟨record, found, _, state, _, ⟨entity, policy⟩, vs, candidates, _, _, _, _, _, _, _, _, _,
      _, _, _, closed⟩ := ok
  refine ⟨record, ?_, state, entity, policy, vs, candidates, List.all_eq_true.mp closed⟩
  cases there : apostles.find? (atPosition 9) with
  | none =>
    rw [there] at found
    cases found
  | some first =>
    rw [there] at found
    cases found
    rfl

/-- The apostles stand at the positions from 1 to 12. -/
theorem validateDomainInvariants_placed {records : Collection → List Members} {a : Unit}
    (ok : validateDomainInvariants u records = .ok a) :
    (positions (records .apostles)).any (exactly 12) = true := by
  obtain ⟨_, _, rest⟩ := bind_ok.mp ok
  obtain ⟨_, placed, _⟩ := bind_ok.mp rest
  exact ensure_ok.mp placed

theorem validateDomainInvariants_ok {records : Collection → List Members} {a : Unit}
    (ok : validateDomainInvariants u records = .ok a) : SlotsOk (records .apostles) := by
  simp only [validateDomainInvariants, bind_ok, ensure_ok] at ok
  obtain ⟨_, read, _, all, _, each, _, _, _, _, _, _, _, nine, _⟩ := ok
  obtain ⟨ps, found⟩ := Option.isSome_iff_exists.mp read
  rw [found, Option.any_some] at all
  have placed := positions_some found
  have selected : ∀ record ∈ records .apostles, atPosition 9 record = false →
      SelectedOk record := by
    rwa [checkEach_ok validateSelected_ok] at each
  obtain ⟨slot9, first, good⟩ := validateSlot9_ok nine
  have distinct : (ps.map Json.int).Nodup := by
    apply List.Nodup.map (fun _ _ same => Json.int.inj same)
    rw [(exactly_perm all).nodup_iff]
    decide
  have once : ((records .apostles).map fun record => field record (lit "position")).Nodup := by
    rwa [placed]
  have inside := List.mem_of_find?_eq_some first
  have nineth := List.find?_some first
  refine ⟨?_, once, ⟨slot9, inside, nineth⟩, ?_, selected⟩
  · intro record member
    have there : field record (lit "position") ∈ ps.map Json.int := by
      rw [← placed]
      exact List.mem_map_of_mem (f := fun record => field record (lit "position")) member
    obtain ⟨p, _, same⟩ := List.mem_map.mp there
    exact ⟨p, same.symm⟩
  · intro record member at9
    have same : record = slot9 := by
      apply List.inj_on_of_nodup_map once member inside
      rw [atPosition_iff.mp at9, atPosition_iff.mp nineth]
    rwa [same]

theorem metaMatches_named {members : Members} {digest : Text}
    (same : metaMatches members digest = true) :
    Named members ((expectedMeta digest).map Prod.fst) ∧
      ∀ k v, (k, v) ∈ expectedMeta digest → field members k = v := by
  rw [metaMatches, Bool.and_eq_true] at same
  refine ⟨(sameNames_iff.mp same.1).1, fun k v listed => ?_⟩
  have each := List.all_eq_true.mp same.2 (k, v) listed
  cases text : text? v with
  | none => simp [text] at each
  | some s =>
    simp only [text, Option.any_some, isText_iff] at each
    rw [each, text?_eq.mp text]

/-- What validation establishes about a snapshot. -/
structure Accepted (u : Unicode) (snapshot : Json) (digest : Text) : Prop where
  root : snapshot = .object (rootOf snapshot)
  scanned : snapshot.all u.permittedKey u.unmarked = true
  rootNames : Named (rootOf snapshot) [lit "meta", lit "data"]
  metaField : field (rootOf snapshot) (lit "meta") = .object (metaOf snapshot)
  metaSame : metaMatches (metaOf snapshot) digest = true
  digestShape : sha256Re digest = true
  dataField : field (rootOf snapshot) (lit "data") = .object (dataOf snapshot)
  dataNames : Named (dataOf snapshot) [lit "collections", lit "relationships", lit "conflicts"]
  collectionsField : field (dataOf snapshot) (lit "collections") = .object (collectionsOf snapshot)
  collectionsNames : Named (collectionsOf snapshot) (collectionKinds.map Collection.name)
  collections : ∀ c, CollectionOk (collectionsOf snapshot) c
  publicIds : (publicIds (collectionsOf snapshot)).Nodup
  slots : SlotsOk (recordsByCollection (collectionsOf snapshot) .apostles)
  relationshipsField : field (dataOf snapshot) (lit "relationships") =
    .array ((relationshipsOf snapshot).map .object)
  relationshipsCount : (relationshipsOf snapshot).length = 15
  relationships : ∀ relationship ∈ relationshipsOf snapshot,
    RelationshipOk (Ontology.publicIds (collectionsOf snapshot)) relationship
  relationshipIds : ((relationshipsOf snapshot).map (textOf · (lit "relationship_id"))).Nodup
  conflictsField : field (dataOf snapshot) (lit "conflicts") = .array
    ((conflictsOf snapshot).map .object)
  conflictsCount : (conflictsOf snapshot).length = 8
  conflicts : ∀ conflict ∈ conflictsOf snapshot,
    ConflictOk (Ontology.publicIds (collectionsOf snapshot)) conflict
  conflictIds : ((conflictsOf snapshot).map (textOf · (lit "conflict_id"))).Nodup

theorem within_of_field {members inner : Members} {k : Text}
    (found : field members k = .object inner) :
    within members k = inner := by
  simp [within, found, mapping?]

theorem validateSnapshot_ok {snapshot : Json} {digest : Text} {a : Unit}
    (ok : validateSnapshot u snapshot digest = .ok a) : Accepted u snapshot digest := by
  simp only [validateSnapshot, bind_ok, requireMapping_ok, requireList_ok, ensure_ok] at ok
  obtain ⟨root, rfl, _, scan, _, rootNames, members, metaField, _, same, _, shape, data,
      dataField, _,
    dataNames, collections, collectionsField, _, collectionsNames, ids, eachCollection,
      _, domain, rs,
    relationshipsField, _, relationshipsCount, _, eachRelationship, _, _, cs, conflictsField, _,
      conflictsCount, _,
    eachConflict, _⟩ := ok
  have readMeta : metaOf (.object root) = members := within_of_field metaField
  have readData : dataOf (.object root) = data := within_of_field dataField
  have readCollections : collectionsOf (.object root) = collections := by
    rw [collectionsOf, readData]
    exact within_of_field collectionsField
  obtain ⟨good, rfl, nodup⟩ := validateCollections_ok eachCollection
  obtain ⟨relationships, rfl, relationshipsGood, rfl, relationshipIds⟩ :=
    records_ok (fun _ _ _ _ ok => validateRelationship_ok ok) eachRelationship
  obtain ⟨conflicts, rfl, conflictsGood, rfl, conflictIds⟩ :=
    records_ok (fun _ _ _ _ ok => validateConflict_ok ok) eachConflict
  have readRelationships : relationshipsOf (.object root) = relationships := by
    rw [relationshipsOf, readData, relationshipsField, items, filterMap_objects]
  have readConflicts : conflictsOf (.object root) = conflicts := by
    rw [conflictsOf, readData, conflictsField, items, filterMap_objects]
  constructor
  · rfl
  · exact (validateNoPrivateMaterial_ok _ _).mp scan
  · exact (sameNames_iff.mp rootNames).1
  · rw [readMeta]
    exact metaField
  · rwa [readMeta]
  · exact shape
  · rw [readData]
    exact dataField
  · rw [readData]
    exact (sameNames_iff.mp dataNames).1
  · rw [readData, readCollections]
    exact collectionsField
  · rw [readCollections]
    exact (sameNames_iff.mp collectionsNames).1
  · rwa [readCollections]
  · rwa [readCollections]
  · rw [readCollections]
    exact validateDomainInvariants_ok domain
  · rw [readData, readRelationships]
    exact relationshipsField
  · rwa [readRelationships, ← List.length_map (f := Json.object)]
  · rwa [readCollections, readRelationships]
  · rw [readRelationships]
    simpa using relationshipIds List.nodup_nil
  · rw [readData, readConflicts]
    exact conflictsField
  · rwa [readConflicts, ← List.length_map (f := Json.object)]
  · rwa [readCollections, readConflicts]
  · rw [readConflicts]
    simpa using conflictIds List.nodup_nil

/-! Two snapshots that are accepted. Case folding of ASCII letters is all they need of Unicode. -/

def sampleUnicode : Unicode where
  nfkc := id
  fold c := [asciiLower c]
  nfkc_scalar _ inside := inside
  fold_scalar c inside := by
    have bounds := inside
    simp only [scalar, Bool.or_eq_true, Bool.and_eq_true, decide_eq_true_eq] at bounds
    simp only [List.all_cons, List.all_nil, Bool.and_true, scalar, asciiLower, Bool.or_eq_true,
      Bool.and_eq_true, decide_eq_true_eq]
    split <;> omega
  fold_ascii _ _ := rfl
  fold_hangul c low _ := by
    unfold asciiLower
    rw [if_neg (by omega)]

def str (s : String) : Json := .text (lit s)

def sampleId (n : Nat) : Text :=
  lit "mtg1-" ++ List.replicate 13 48 ++ [48 + n / 100, 48 + n / 10 % 10, 48 + n % 10]

def numbered (s : Text) (i : Nat) : Json := .text (s ++ [48 + i / 10, 48 + i % 10])

def sampleAxiom (name definition : Json) (i : Nat) : Json :=
  .object [(lit "public_id", .text (sampleId i)), (lit "position", .int i),
    (lit "canonical_name", name),
    (lit "binding_state", str "BOUND"), (lit "body_policy", str "SERVE"),
    (lit "content_authority", str "USER_PRIMARY"), (lit "definition", definition),
    (lit "identity_authority", str "USER_PRIMARY"), (lit "status", str "ACTIVE")]

def sampleEntity (name : Json) (aliases : List Json) (more : Members) : Json :=
  .object ([(lit "canonical_name", name), (lit "aliases", .array aliases),
    (lit "binding_state", str "BOUND"),
    (lit "body_policy", str "SERVE"), (lit "content_authority", str "USER_PRIMARY"),
    (lit "identity_authority", str "USER_PRIMARY")] ++ more)

def sampleApostle (i : Nat) (entity : Json) : Json :=
  .object [(lit "public_id", .text (sampleId (100 + i))), (lit "position", .int i),
    (lit "structural_group", str "test_group"), (lit "selection_state", str "SELECTED"),
    (lit "entity", entity)]

def sampleCandidate (id : Nat) (name : Json) : Json :=
  .object [(lit "candidate_id", numbered (lit "candidate-") id), (lit "canonical_name", name),
    (lit "authority", str "USER_PRIMARY"), (lit "binding_state", str "BOUND"),
    (lit "default_servable", .bool false)]

def sampleSlot9 : Json :=
  .object [(lit "public_id", .text (sampleId 109)), (lit "position", .int 9),
    (lit "structural_group", str "test_group"), (lit "selection_state", str "CONFLICT_PENDING"),
    (lit "body_policy", str "NO_DEFAULT"), (lit "entity", .null),
    (lit "candidates", .array [sampleCandidate 1 (str "예수"), sampleCandidate 2 (str "검은 태양신 아텐")])]

def sampleApostles : List Json :=
  (List.range' 1 7).map
    (fun i => sampleApostle i (sampleEntity (numbered (lit "apostle ") i) [] [])) ++
  [sampleApostle 8 (sampleEntity (str "입체운행구름") [str "OMC"]
    [(lit "canonical_abbreviation", str "OMC")]),
    sampleSlot9] ++
  (List.range' 10 3).map fun i => sampleApostle i (sampleEntity (numbered (lit "apostle ") i) [] [])

def sampleCommander (name : Json) (i : Nat) (more : Members) : Json :=
  .object ([(lit "public_id", .text (sampleId (200 + i))), (lit "position", .int i),
    (lit "canonical_name", name), (lit "binding_state", str "BOUND"), (lit "status", str "ACTIVE"),
    (lit "verb", str "commands")] ++ more)

def sampleOmcCommander (name : Text) (i : Nat) : Json :=
  .object [(lit "public_id", .text (sampleId (300 + i))), (lit "canonical_name", .text name),
    (lit "binding_state", str "BOUND"), (lit "status", str "ACTIVE"),
    (lit "scope_note", str "not a claim of implementation")]

def samplePhase (name : Json) (i : Nat) : Json :=
  .object [(lit "public_id", .text (sampleId (400 + i))), (lit "canonical_name", name),
    (lit "binding_state", str "BOUND"), (lit "body_policy", str "SERVE"),
    (lit "content_authority", str "USER_PRIMARY"), (lit "status", str "ACTIVE")]

def samplePattern (i : Nat) : Json :=
  .object [(lit "public_id", .text (sampleId (500 + i))),
    (lit "canonical_name", numbered (lit "pattern ") i),
    (lit "binding_state", str "BOUND"), (lit "body_policy", str "SERVE"),
    (lit "status", str "ACTIVE")]

def sampleEdge (i source target : Nat) (predicate authority status : Json) : Json :=
  .object [(lit "relationship_id", numbered (lit "rel-") i),
    (lit "from_public_id", .text (sampleId source)),
    (lit "predicate", predicate), (lit "to_public_id", .text (sampleId target)),
    (lit "authority", authority),
    (lit "status", status)]

def sampleConflict (i : Nat) (subject : Members) : Json :=
  .object ([(lit "conflict_id", numbered (lit "conflict-") i),
    (lit "detail", numbered (lit "detail ") i),
    (lit "severity", str "WARN"), (lit "status", str "OPEN")] ++ subject)

def sampleDigest : Text := List.replicate 64 97

/-- A snapshot as in the tests. Left open are the name and the definition of the axioms
and what the conflict about slot 9 holds besides its subject. -/
def sampleSnapshot (name definition : Json) (conflict : Members) : Json :=
  .object [
    (lit "meta", .object (expectedMeta sampleDigest)),
    (lit "data", .object [
      (lit "collections", .object [
        (lit "axioms", .array ((List.range' 1 12).map (sampleAxiom name definition))),
        (lit "apostles", .array sampleApostles),
        (lit "legion_commanders", .array (
          (List.range' 1 6).map (fun i => sampleCommander (numbered (lit "commander ") i) i []) ++
          [sampleCommander (str "Harness") 7 [(lit "aliases", .array [str "Hades"]),
            (lit "identity_rule", str "ONE_ENTITY_ONE_SLOT")]])),
        (lit "omc_commanders",
          .array ((omcRoster.zipIdx 1).map fun m => sampleOmcCommander m.1 m.2)),
        (lit "phases", .array [samplePhase (str "공허진동자") 1, samplePhase (str "검은 태양신 아텐") 2]),
        (lit "structural_patterns", .array ((List.range' 1 4).map samplePattern))]),
      (lit "relationships", .array (
        (List.range' 1 7).map (fun i => sampleEdge i 104 (200 + i) (str "COMMANDS_LEGION")
          (str "PROJECT_CANON_WITH_USER_VERDICT") (str "ACTIVE")) ++
        (List.range' 1 6).map
          (fun i => sampleEdge (10 + i) 108 (300 + i) (str "HAS_DIRECT_COMMANDER")
          (str "USER_PRIMARY") (str "ACTIVE")) ++
        [sampleEdge 21 401 110 (str "PHASE_OF") (str "USER_PRIMARY")
          (str "PROJECTED_FROM_USER_SOURCE"),
          sampleEdge 22 402 110 (str "PHASE_OF") (str "PROJECT_CANON")
            (str "PROJECTED_FROM_PROJECT_CANON")])),
      (lit "conflicts", .array
        (sampleConflict 1 ((lit "subject_public_id", .text (sampleId 109)) :: conflict) ::
        (List.range' 2 7).map fun i => sampleConflict i [(lit "subject_scope", str "INTERNAL")]))])]

def plainSnapshot : Json := sampleSnapshot (str "axis") (str "definition") []

/-- A snapshot that uses what the checks leave open: long names, a marker in the name of
a nested field, and a selected candidate for slot 9. -/
def looseSnapshot : Json :=
  sampleSnapshot (.text (List.replicate 500 0xAC00)) (.object [(lit "sym:a", .null)])
    [(lit "selected_candidate", str "예수")]

/-- The accepted sample but for one endpoint, which is an array. -/
def listedEndpoint : Json :=
  let relationships := match relationshipsOf plainSnapshot with
    | first :: rest => setEntry (lit "from_public_id") (Json.array []) first :: rest
    | [] => []
  .object (setEntry (lit "data")
    (Json.object (setEntry (lit "relationships") (Json.array (relationships.map .object))
    (dataOf plainSnapshot))) (rootOf plainSnapshot))

/-! The samples share most of their texts, so they are scanned together, and then checked together.
-/

/-- The checks behind the scan. -/
def validateShape (u : Unicode) (root : Members) (expectedContentSha256 : Text) :
    Except Raised Unit := do
  ensure (sameNames root [lit "meta", lit "data"])
    (refusal "snapshot root must contain only meta and data")
  let members ← requireMapping (field root (lit "meta")) (lit "$.meta")
  ensure (metaMatches members expectedContentSha256)
    (refusal "ontology projection metadata mismatch")
  ensure (sha256Re expectedContentSha256) (refusal "ontology content SHA-256 is invalid")
  let data ← requireMapping (field root (lit "data")) (lit "$.data")
  ensure (sameNames data [lit "collections", lit "relationships", lit "conflicts"])
    (refusal "snapshot data shape mismatch")
  let collections ← requireMapping (field data (lit "collections")) (lit "$.data.collections")
  ensure (sameNames collections (collectionKinds.map Collection.name))
    (refusal "ontology collection set mismatch")
  let ids ← foldChecks (validateCollection collections) collectionKinds 0 []
  validateDomainInvariants u (recordsByCollection collections)
  let relationships ← requireList (field data (lit "relationships")) (lit "$.data.relationships")
  ensure (relationships.length = 15) (refusal "ontology relationship cardinality mismatch")
  let _ ← foldChecks (validateRelationship ids) relationships 0 []
  validateRelationshipInvariants (recordsByCollection collections)
    (relationships.filterMap mapping?)
  let conflicts ← requireList (field data (lit "conflicts")) (lit "$.data.conflicts")
  ensure (conflicts.length = 8) (refusal "ontology conflict cardinality mismatch")
  let _ ← foldChecks (validateConflict ids) conflicts 0 []

theorem validateSnapshot_scanned {root : Members} {digest : Text} {outcome : Except Raised Unit}
    (scan : validateNoPrivateMaterial sampleUnicode (.object root) (lit "$") = .ok ())
    (shape : validateShape sampleUnicode root digest = outcome) :
    validateSnapshot sampleUnicode (.object root) digest = outcome := by
  have split : validateSnapshot sampleUnicode (.object root) digest =
      (validateNoPrivateMaterial sampleUnicode (.object root) (lit "$")).bind fun _ =>
        validateShape sampleUnicode root digest := rfl
  rw [split, scan]
  exact shape

theorem samples_scanned : validateNoPrivateMaterial sampleUnicode plainSnapshot (lit "$") = .ok () ∧
    validateNoPrivateMaterial sampleUnicode looseSnapshot (lit "$") = .ok () ∧
    validateNoPrivateMaterial sampleUnicode listedEndpoint (lit "$") = .ok () := by
  decide +kernel

theorem samples_shaped : validateShape sampleUnicode (rootOf plainSnapshot) sampleDigest = .ok () ∧
    validateShape sampleUnicode (rootOf looseSnapshot) sampleDigest = .ok () ∧
    validateShape sampleUnicode (rootOf listedEndpoint) sampleDigest = .error .typeError := by
  decide +kernel

theorem samples_checked : validateSnapshot sampleUnicode plainSnapshot sampleDigest = .ok () ∧
    validateSnapshot sampleUnicode looseSnapshot sampleDigest = .ok () ∧
    validateSnapshot sampleUnicode listedEndpoint sampleDigest = .error .typeError :=
  ⟨validateSnapshot_scanned samples_scanned.1 samples_shaped.1,
    validateSnapshot_scanned samples_scanned.2.1 samples_shaped.2.1,
    validateSnapshot_scanned samples_scanned.2.2 samples_shaped.2.2⟩

theorem samples_distinct : plainSnapshot.distinct = true ∧
    looseSnapshot.distinct = true := by decide

theorem plainSnapshot_valid : validateSnapshot sampleUnicode plainSnapshot sampleDigest = .ok () :=
  samples_checked.1

theorem looseSnapshot_valid : validateSnapshot sampleUnicode looseSnapshot sampleDigest = .ok () :=
  samples_checked.2.1

theorem listedEndpoint_raises :
    validateSnapshot sampleUnicode listedEndpoint sampleDigest = .error .typeError :=
      samples_checked.2.2

end Metahumotonic.Ontology
