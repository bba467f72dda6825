import Metahumotonic.Ontology.Closed
import Metahumotonic.Ontology.Projection

/-! How a snapshot comes to be served (`load` and `OntologyRuntime.configure` in
`app/ontology.py`), and how each of them ends. -/
namespace Metahumotonic.Ontology

open Library

/-- A file as `load` finds it: its digest, and the document that it holds when it is UTF-8 JSON. -/
inductive File where
  | unavailable
  | unreadable
  | bytes (sha256 : Text) (document : Option Json)

def jsonLoads (document : Option Json) : Except Raised Json :=
  match document with
  | none => .error (refusal "ontology snapshot is not valid UTF-8 JSON")
  | some v => if v.writable then .ok v else .error .valueError

structure Settings where
  ontologyEnabled : Bool
  ontologyInternalKey : Text
  ontologySnapshotPath : Text
  ontologySnapshotSha256 : Text
  ontologyContentSha256 : Text

structure Runtime where
  enabled : Bool := false
  ready : Bool := false
  projection : Option Projection := none
  internalKey : Text := []

inductive Failure where
  | runtimeError (message : String) (cause : Option Raised)
  | unicodeEncodeError
  | escaped (raised : Raised)

variable (u : Unicode) (d : Digests)

def load (file : File) (expectedFileSha256 expectedContentSha256 : Text) (cursorSecret : Bytes) :
    Except Raised Projection := do
  ensure (sha256Re expectedFileSha256) (refusal "ontology snapshot SHA-256 is invalid")
  ensure (sha256Re expectedContentSha256) (refusal "ontology content SHA-256 is invalid")
  match file with
  | .unavailable => .error (refusal "ontology snapshot file is unavailable")
  | .unreadable => .error (refusal "ontology snapshot file is unreadable")
  | .bytes sha256 document => do
    ensure (sha256 = expectedFileSha256) (refusal "ontology snapshot byte digest mismatch")
    let snapshot ← jsonLoads document
    validateSnapshot u snapshot expectedContentSha256
    Projection.construct d snapshot cursorSecret

/-- What `configure` raises, and the runtime it leaves; it resets the runtime before anything else.
-/
def configure (settings : Settings) (disk : Text → File) : Except Failure Unit × Runtime :=
  if ¬ settings.ontologyEnabled then (.ok (), {})
  else
    match Utf8.encode settings.ontologyInternalKey with
    | none => (.error .unicodeEncodeError, {})
    | some key =>
      if key.length < 32 then
        (.error (.runtimeError "MHB_ONTOLOGY_INTERNAL_KEY must be at least 32 bytes" none), {})
      else if settings.ontologySnapshotPath = [] then
        (.error (.runtimeError "MHB_ONTOLOGY_SNAPSHOT_PATH is required when ontology is enabled"
          none), {})
      else
        match load u d (disk settings.ontologySnapshotPath) settings.ontologySnapshotSha256
          settings.ontologyContentSha256 key with
        | .ok projection =>
          (.ok (), { enabled := true, ready := true, projection := some projection,
                     internalKey := settings.ontologyInternalKey })
        | .error (.projection message path names) =>
          (.error (.runtimeError "ontology snapshot validation failed"
            (some (.projection message path names))), {})
        | .error raised => (.error (.escaped raised), {})

/-! How loading, construction and configuration end. -/

variable {u d}

theorem closed_jsonClone {snapshot : Json} : Closed (jsonClone snapshot) ↔
    snapshot.writable = true := by
  unfold jsonClone
  split <;> simp_all [Closed, Raised.IsProjection]

/-- What is read is what can be written. -/
theorem jsonLoads_some (snapshot : Json) : jsonLoads (some snapshot) = jsonClone snapshot := rfl

theorem closed_construct {snapshot : Json} {secret : Bytes} :
    Closed (Projection.construct d snapshot secret) ↔
      (32 ≤ secret.length → snapshot.writable = true) := by
  constructor
  · intro closed long
    exact closed_jsonClone.mp (closed.past (ensure_ok.mpr long)).first
  · intro short
    refine raisesOnly_bind.mpr ⟨closed_ensure, fun _ long => ?_⟩
    exact raisesOnly_bind.mpr ⟨closed_jsonClone.mpr (short (ensure_ok.mp long)), fun _ _ =>
      raisesOnly_pure⟩

/-- The digest that `from_mapping` pins: the one it was given, or else the document's own. -/
def pinned (snapshot : Json) (expected : Option Text) : Option Text :=
  expected.or (text? (field (metaOf snapshot) (lit "content_sha256")))

theorem closed_fromMapping {snapshot : Json} {secret : Bytes} {expected : Option Text} :
    Closed (fromMapping u d snapshot secret expected) ↔ ∀ digest ∈ pinned snapshot expected,
      Hashable u snapshot digest ∧
        (validateSnapshot u snapshot digest = .ok () → 32 ≤ secret.length →
          snapshot.writable = true) := by
  cases found : pinned snapshot expected with
  | none =>
    have raised : fromMapping u d snapshot secret expected = .error
        (refusal "ontology content SHA-256 is missing") := by
      rw [pinned] at found
      rw [fromMapping, found]
    rw [raised]
    exact iff_of_true (raisesOnly_error.mpr trivial) (by rintro _ ⟨⟩)
  | some digest =>
    have checked : fromMapping u d snapshot secret expected =
        (validateSnapshot u snapshot digest).bind fun _ =>
          Projection.construct d snapshot secret := by
      rw [pinned] at found
      rw [fromMapping, found]
      rfl
    rw [checked]
    simp only [Option.mem_some_iff, forall_eq']
    rw [← closed_validateSnapshot]
    constructor
    · intro closed
      exact ⟨closed.first, fun valid => closed_construct.mp (closed.past valid)⟩
    · rintro ⟨checks, short⟩
      exact raisesOnly_bind.mpr ⟨checks, fun _ valid => closed_construct.mpr (short valid)⟩

theorem closed_load {file : File} {fileSha256 contentSha256 : Text} {secret : Bytes} :
    Closed (load u d file fileSha256 contentSha256 secret) ↔
      ∀ snapshot, sha256Re fileSha256 = true → sha256Re contentSha256 = true →
        file = .bytes fileSha256 (some snapshot) →
          snapshot.writable = true ∧ Hashable u snapshot contentSha256 := by
  constructor
  · rintro closed snapshot fileShape contentShape rfl
    have opened := (closed.past (ensure_ok.mpr fileShape)).past (ensure_ok.mpr contentShape)
    have read := opened.past (ensure_ok.mpr rfl)
    have short := closed_jsonClone.mp read.first
    have loaded : jsonLoads (some snapshot) = .ok snapshot := jsonClone_ok.mpr ⟨short, rfl⟩
    exact ⟨short, closed_validateSnapshot.mp (read.after loaded).first⟩
  · intro each
    refine raisesOnly_bind.mpr ⟨closed_ensure, fun _ fileShape => ?_⟩
    refine raisesOnly_bind.mpr ⟨closed_ensure, fun _ contentShape => ?_⟩
    cases file with
    | unavailable => exact raisesOnly_error.mpr trivial
    | unreadable => exact raisesOnly_error.mpr trivial
    | bytes sha256 document =>
      refine raisesOnly_bind.mpr ⟨closed_ensure, fun _ same => ?_⟩
      obtain rfl := ensure_ok.mp same
      cases document with
      | none => exact raisesOnly_bind.mpr ⟨raisesOnly_error.mpr trivial, nofun⟩
      | some snapshot =>
        obtain ⟨short, hashable⟩ :=
          each snapshot (ensure_ok.mp fileShape) (ensure_ok.mp contentShape) rfl
        refine raisesOnly_bind.mpr ⟨closed_jsonClone.mpr short, fun read loaded => ?_⟩
        obtain ⟨_, rfl⟩ := jsonClone_ok.mp loaded
        refine raisesOnly_bind.mpr ⟨closed_validateSnapshot.mpr hashable, fun _ _ => ?_⟩
        exact closed_construct.mpr fun _ => short

/-- A document with the right digests comes to its checks. -/
theorem load_document {fileSha256 contentSha256 : Text} {secret : Bytes} {snapshot : Json}
    (fileShape : sha256Re fileSha256 = true) (contentShape : sha256Re contentSha256 = true)
    (short : snapshot.writable = true) :
    load u d (.bytes fileSha256 (some snapshot)) fileSha256 contentSha256 secret =
      validateSnapshot u snapshot contentSha256 >>= fun _ =>
        Projection.construct d snapshot secret := by
  have passes : ∀ {holds : Prop} [Decidable holds] {e : Raised}, holds → ensure holds e = .ok () :=
    fun met => ensure_ok.mpr met
  unfold load
  rw [passes fileShape, passes contentShape]
  dsimp only [bind, Except.bind]
  rw [passes rfl, jsonLoads_some, jsonClone_ok.mpr ⟨short, rfl⟩]

theorem load_ok {file : File} {fileSha256 contentSha256 : Text} {secret : Bytes} {p : Projection}
    (ok : load u d file fileSha256 contentSha256 secret = .ok p) :
    ∃ snapshot, file = .bytes fileSha256 (some snapshot) ∧
      validateSnapshot u snapshot contentSha256 = .ok () ∧
      p = Projection.init d snapshot secret := by
  obtain ⟨_, _, opened⟩ := bind_ok.mp ok
  obtain ⟨_, _, opened⟩ := bind_ok.mp opened
  cases file with
  | unavailable => cases opened
  | unreadable => cases opened
  | bytes sha256 document =>
    obtain ⟨_, same, read⟩ := bind_ok.mp opened
    obtain rfl := ensure_ok.mp same
    obtain ⟨snapshot, loaded, checked⟩ := bind_ok.mp read
    obtain ⟨_, valid, made⟩ := bind_ok.mp checked
    obtain ⟨_, _, rfl⟩ := construct_ok.mp made
    cases document with
    | none => cases loaded
    | some v =>
      obtain ⟨_, rfl⟩ := jsonClone_ok.mp loaded
      exact ⟨v, rfl, valid, rfl⟩

/-- The settings, the key and the digests let this document through to its checks. -/
structure Supplies (settings : Settings) (disk : Text → File) (secret : Bytes)
    (snapshot : Json) : Prop where
  enabled : settings.ontologyEnabled = true
  key : Utf8.encode settings.ontologyInternalKey = some secret
  long : 32 ≤ secret.length
  path : settings.ontologySnapshotPath ≠ []
  fileShape : sha256Re settings.ontologySnapshotSha256 = true
  contentShape : sha256Re settings.ontologyContentSha256 = true
  file : disk settings.ontologySnapshotPath = .bytes settings.ontologySnapshotSha256 (some snapshot)

/-- The outcomes that `configure` is meant to have, with the runtimes that it leaves. -/
inductive Settled (u : Unicode) (d : Digests) (settings : Settings) (disk : Text → File) :
    Except Failure Unit × Runtime → Prop where
  | off (disabled : settings.ontologyEnabled = false) : Settled u d settings disk (.ok (), {})
  | refused (message : String) (cause : Option Raised) :
      Settled u d settings disk (.error (.runtimeError message cause), {})
  | installed (secret : Bytes) (snapshot : Json) (supplied : Supplies settings disk secret snapshot)
      (valid : validateSnapshot u snapshot settings.ontologyContentSha256 = .ok ()) :
      Settled u d settings disk (.ok (),
        { enabled := true, ready := true, projection := some (Projection.init d snapshot secret),
          internalKey := settings.ontologyInternalKey })

/-- `load` of the file that the settings name. -/
def loaded (u : Unicode) (d : Digests) (settings : Settings) (disk : Text → File) (secret : Bytes) :
    Except Raised Projection :=
  load u d (disk settings.ontologySnapshotPath) settings.ontologySnapshotSha256
    settings.ontologyContentSha256 secret

theorem configure_of_loaded {settings : Settings} {disk : Text → File} {secret : Bytes}
    (enabled : settings.ontologyEnabled = true)
    (key : Utf8.encode settings.ontologyInternalKey = some secret)
    (long : 32 ≤ secret.length) (path : settings.ontologySnapshotPath ≠ []) :
    configure u d settings disk =
      match loaded u d settings disk secret with
      | .ok projection =>
        (.ok (), { enabled := true, ready := true, projection := some projection,
                   internalKey := settings.ontologyInternalKey })
      | .error (.projection message path names) =>
        (.error (.runtimeError "ontology snapshot validation failed"
          (some (.projection message path names))), {})
      | .error raised => (.error (.escaped raised), {}) := by
  unfold configure
  rw [if_neg (not_not.mpr enabled), key]
  dsimp only
  rw [if_neg (Nat.not_lt.mpr long), if_neg path]
  rfl

/-- What `load` does decides: a value and the module's own error are answered as they should be. -/
theorem settled_of_loaded {settings : Settings} {disk : Text → File} {secret : Bytes}
    (enabled : settings.ontologyEnabled = true)
    (key : Utf8.encode settings.ontologyInternalKey = some secret)
    (long : 32 ≤ secret.length) (path : settings.ontologySnapshotPath ≠ []) :
    Settled u d settings disk (configure u d settings disk) ↔
    Closed (loaded u d settings disk secret) := by
  rw [configure_of_loaded enabled key long path]
  cases made : loaded u d settings disk secret with
  | ok projection =>
    refine iff_of_true ?_ raisesOnly_ok
    obtain ⟨fileShape, contentShape⟩ : sha256Re settings.ontologySnapshotSha256 = true ∧
        sha256Re settings.ontologyContentSha256 = true := by
      obtain ⟨_, fileShape, opened⟩ := bind_ok.mp made
      obtain ⟨_, contentShape, _⟩ := bind_ok.mp opened
      exact ⟨ensure_ok.mp fileShape, ensure_ok.mp contentShape⟩
    obtain ⟨snapshot, file, valid, rfl⟩ := load_ok made
    exact .installed secret snapshot ⟨enabled, key, long, path, fileShape, contentShape, file⟩ valid
  | error raised =>
    cases raised with
    | projection message path names =>
      exact iff_of_true (.refused _ _) (raisesOnly_error.mpr trivial)
    | _ => exact iff_of_false nofun fun closed => raisesOnly_error.mp closed

/-- Nothing but a document is in the way: one with too long an integer, or with a value where
an id belongs that cannot be looked up. -/
theorem configure_settled_iff {settings : Settings} {disk : Text → File} :
    Settled u d settings disk (configure u d settings disk) ↔
      (settings.ontologyEnabled = true → (Utf8.encode settings.ontologyInternalKey).isSome = true) ∧
        ∀ secret snapshot, Supplies settings disk secret snapshot →
          snapshot.writable = true ∧ Hashable u snapshot settings.ontologyContentSha256 := by
  by_cases enabled : settings.ontologyEnabled = true
  · cases key : Utf8.encode settings.ontologyInternalKey with
    | none =>
      refine iff_of_false ?_ fun meets => absurd (meets.1 enabled) Bool.false_ne_true
      unfold configure
      rw [if_neg (not_not.mpr enabled), key]
      exact nofun
    | some secret =>
      by_cases ready : 32 ≤ secret.length ∧ settings.ontologySnapshotPath ≠ []
      · obtain ⟨long, path⟩ := ready
        rw [settled_of_loaded enabled key long path, loaded, closed_load]
        constructor
        · refine fun each => ⟨fun _ => rfl, fun other snapshot supplied => ?_⟩
          exact each snapshot supplied.fileShape supplied.contentShape supplied.file
        · rintro ⟨-, each⟩ snapshot fileShape contentShape file
          exact each secret snapshot ⟨enabled, key, long, path, fileShape, contentShape, file⟩
      · refine iff_of_true ?_ ⟨fun _ => rfl, fun other snapshot supplied => ?_⟩
        · unfold configure
          rw [if_neg (not_not.mpr enabled), key]
          dsimp only
          by_cases short : secret.length < 32
          · rw [if_pos short]
            exact .refused _ _
          · have missing : settings.ontologySnapshotPath = [] := by
              by_contra path
              exact ready ⟨Nat.le_of_not_lt short, path⟩
            rw [if_neg short, if_pos missing]
            exact .refused _ _
        · obtain rfl : secret = other := Option.some.inj (key.symm.trans supplied.key)
          exact absurd ⟨supplied.long, supplied.path⟩ ready
  · refine iff_of_true ?_ ⟨fun on => absurd on enabled, fun _ _ supplied =>
      absurd supplied.enabled enabled⟩
    unfold configure
    rw [if_pos enabled]
    exact .off (by simpa using enabled)

/-- Validation, construction and configuration fail with the errors that they name exactly on
the documents on which no lookup of an unhashable value and no too long an integer comes first. -/
theorem fails_closed_iff (u : Unicode) (d : Digests) (snapshot : Json) (digest : Text)
    (secret : Bytes)
    (expected : Option Text) (settings : Settings) (disk : Text → File) :
    (Closed (validateSnapshot u snapshot digest) ↔ Hashable u snapshot digest) ∧
    (Closed (fromMapping u d snapshot secret expected) ↔ ∀ digest ∈ pinned snapshot expected,
      Hashable u snapshot digest ∧
        (validateSnapshot u snapshot digest = .ok () → 32 ≤ secret.length →
          snapshot.writable = true)) ∧
    (Settled u d settings disk (configure u d settings disk) ↔
      (settings.ontologyEnabled = true → (Utf8.encode settings.ontologyInternalKey).isSome = true) ∧
        ∀ secret snapshot, Supplies settings disk secret snapshot →
          snapshot.writable = true ∧ Hashable u snapshot settings.ontologyContentSha256) :=
  ⟨closed_validateSnapshot, closed_fromMapping, configure_settled_iff⟩

def sampleSettings : Settings :=
  ⟨true, List.replicate 32 107, lit "snapshot.json", sampleDigest, sampleDigest⟩

/-- A document with a matching digest that configuration does not get past as it should. -/
theorem unhashable_endpoint_escapes :
    ¬ Closed (validateSnapshot sampleUnicode listedEndpoint sampleDigest) ∧
      ∀ d, (configure sampleUnicode d sampleSettings fun _ =>
        .bytes sampleDigest (some listedEndpoint)).1 =
        .error (.escaped .typeError) := by
  refine ⟨fun closed => closed _ listedEndpoint_raises, fun d => ?_⟩
  have key : Utf8.encode sampleSettings.ontologyInternalKey = some (List.replicate 32 107) := by
    decide
  have short : listedEndpoint.writable = true := by decide
  have shape : sha256Re sampleDigest = true := by decide
  have raises : loaded sampleUnicode d sampleSettings
      (fun _ => .bytes sampleDigest (some listedEndpoint))
      (List.replicate 32 107) = .error .typeError := by
    refine (load_document shape shape short).trans ?_
    rw [listedEndpoint_raises]
    rfl
  rw [configure_of_loaded rfl key (by decide) (by decide), raises]

end Metahumotonic.Ontology
