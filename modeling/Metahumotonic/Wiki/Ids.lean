import Metahumotonic.Wiki.Decision

/-! Ids at the HTTP boundary (`_command_id` and `_stable_id` of
`app/routers/wiki.py`): the id of a command comes from the actor and the
idempotency key, and every other id is derived from the id of the command. -/
namespace Metahumotonic.Wiki

inductive Purpose where
  | page
  | revision
  | submission
  | report
  | moderation
  deriving DecidableEq, Repr

def purposes : List Purpose := [.page, .revision, .submission, .report, .moderation]

theorem mem_purposes (purpose : Purpose) : purpose ∈ purposes := by
  cases purpose <;> decide

def Purpose.text : Purpose → String
  | .page => "page"
  | .revision => "revision"
  | .submission => "submission"
  | .report => "report"
  | .moderation => "moderation"

def stableId (lib : Stdlib) (commandId : String) (purpose : Purpose) : String :=
  lib.uuid5 ("metahumotonic-wiki:" ++ commandId ++ ":" ++ purpose.text)

def invalidIdempotencyKey : WikiError :=
  ⟨"invalid_idempotency_key", "Idempotency-Key is too long", 422⟩

/-- `uuid4` is the random id that is used when the request has no key. -/
def commandIdOf (lib : Stdlib) (uuid4 actorId : String) (idempotencyKey : Option String) :
    Except WikiError String :=
  match idempotencyKey with
  | none => .ok ("cmd:" ++ uuid4)
  | some key =>
    if key = "" then .ok ("cmd:" ++ uuid4)
    else if 200 < key.length then .error invalidIdempotencyKey
    else .ok ("idem:" ++ lib.sha256 (actorId ++ "\x00" ++ key))

def WikiCommand.purpose : WikiCommand → Purpose
  | .createPage _ | .editPage _ => .revision
  | .submitReview _ => .submission
  | .reportPage _ => .report
  | .quarantinePage _ | .releasePage _ => .moderation

/-- The ids of the command are the ones the router derives. The page of a command
that does not create it is any page. -/
structure RouterDerived (lib : Stdlib) (command : WikiCommand) : Prop where
  page : ∀ c, command = .createPage c → c.pageId = stableId lib c.commandId .page
  event : command.eventId = stableId lib command.commandId command.purpose

/-- No two derived ids of these commands collide. -/
def StableIdsDistinct (lib : Stdlib) (commandIds : Set String) : Prop :=
  ∀ c ∈ commandIds, ∀ d ∈ commandIds, ∀ p q,
    stableId lib c p = stableId lib d q → c = d ∧ p = q

section Sample

/-! One page, made, submitted for review and edited, with the digests of its texts. -/

def samplePageId := "b4df7858-101f-58fb-9980-09a6a4f53c96"
def sampleRevisionId := "a73b4003-99c6-5910-a874-b464ccf5acbd"

def sampleCreate : CreatePage where
  commandId := "cmd:11111111-1111-4111-8111-111111111111"
  actorId := "ann"
  scopes := ["wiki:edit", "wiki:submit"]
  occurredAt := 1
  pageId := samplePageId
  revisionId := sampleRevisionId
  slug := "home"
  title := "Home"
  content := "hello"

def sampleSubmit : SubmitReview where
  commandId := "cmd:22222222-2222-4222-8222-222222222222"
  actorId := "ann"
  scopes := ["wiki:edit", "wiki:submit"]
  occurredAt := 2
  pageId := samplePageId
  submissionId := "e6381718-83e6-51b0-90b1-4be2ccd5c3b3"
  expectedRevisionId := sampleRevisionId
  expectedContentHash := "2cf24dba5fb0a30e26e83b2ac5b9e29e1b161e5c1fa7425e73043362938b9824"

def sampleEdit : EditPage where
  commandId := "cmd:33333333-3333-4333-8333-333333333333"
  actorId := "bob"
  scopes := ["wiki:edit"]
  occurredAt := 3
  pageId := samplePageId
  revisionId := "56db5f2c-8bdd-59ab-961f-ba1dadadd245"
  expectedRevisionId := sampleRevisionId
  title := "Home"
  content := "hello again"

def sampleCommands : List WikiCommand :=
  [.createPage sampleCreate, .submitReview sampleSubmit, .editPage sampleEdit]

def sampleUuids : List (String × String) := [
    ("metahumotonic-wiki:cmd:11111111-1111-4111-8111-111111111111:page",
      "b4df7858-101f-58fb-9980-09a6a4f53c96"),
    ("metahumotonic-wiki:cmd:11111111-1111-4111-8111-111111111111:revision",
      "a73b4003-99c6-5910-a874-b464ccf5acbd"),
    ("metahumotonic-wiki:cmd:11111111-1111-4111-8111-111111111111:submission",
      "8cd6a3c0-5b95-5d67-a203-41f869da01d3"),
    ("metahumotonic-wiki:cmd:11111111-1111-4111-8111-111111111111:report",
      "6029d64d-ad85-5720-a06e-6a90e01e81a0"),
    ("metahumotonic-wiki:cmd:11111111-1111-4111-8111-111111111111:moderation",
      "f5d79e84-249c-5824-9f77-352481b4fef0"),
    ("metahumotonic-wiki:cmd:22222222-2222-4222-8222-222222222222:page",
      "20effaae-080b-5487-bbe3-c1a876dd61a7"),
    ("metahumotonic-wiki:cmd:22222222-2222-4222-8222-222222222222:revision",
      "358ba68d-f583-5dac-9943-a4ac198a4455"),
    ("metahumotonic-wiki:cmd:22222222-2222-4222-8222-222222222222:submission",
      "e6381718-83e6-51b0-90b1-4be2ccd5c3b3"),
    ("metahumotonic-wiki:cmd:22222222-2222-4222-8222-222222222222:report",
      "cc0072c2-66f9-5e27-9693-aedce144f02b"),
    ("metahumotonic-wiki:cmd:22222222-2222-4222-8222-222222222222:moderation",
      "6805e233-fed6-5e04-ae23-bf25bea151a4"),
    ("metahumotonic-wiki:cmd:33333333-3333-4333-8333-333333333333:page",
      "a9a5182d-09c4-568c-a98b-55d29af398fc"),
    ("metahumotonic-wiki:cmd:33333333-3333-4333-8333-333333333333:revision",
      "56db5f2c-8bdd-59ab-961f-ba1dadadd245"),
    ("metahumotonic-wiki:cmd:33333333-3333-4333-8333-333333333333:submission",
      "3edc8bb8-cf16-524a-95dc-6b86733ae08e"),
    ("metahumotonic-wiki:cmd:33333333-3333-4333-8333-333333333333:report",
      "43201042-0c0e-5be2-a81b-6be825dcad6c"),
    ("metahumotonic-wiki:cmd:33333333-3333-4333-8333-333333333333:moderation",
      "5c05d2c8-4d5a-5e51-8575-b023dffd594e")]

def sampleDigests : List (String × String) := [
    ("hello", "2cf24dba5fb0a30e26e83b2ac5b9e29e1b161e5c1fa7425e73043362938b9824"),
    ("hello again", "3908c567feda72bc0dbdb2dff040fe0d3470dcd51b942374378a476930dbf6b3"),
    (Library.JsonText.dumps (commandIntent (.createPage sampleCreate)),
      "29489efba14d3c4fe834ee2c398c814a80f8f94024c8942b38d14d8da41b8121"),
    (Library.JsonText.dumps (commandIntent (.submitReview sampleSubmit)),
      "b45d355a17640fcdb53fff04a174a537234857be01bf15299a69b370e6e57362"),
    (Library.JsonText.dumps (commandIntent (.editPage sampleEdit)),
      "2a1803428e4a9387d7b35e4d179749fe7f8bbaa6188ff759f7d7ea217c2cb07d")]

/-- The digests of the texts that the sample commands come with. -/
def sampleLib : Stdlib where
  sha256 text := (sampleDigests.lookup text).getD (String.ofList (List.replicate 64 '0'))
  uuid5 text := (sampleUuids.lookup text).getD "00000000-0000-5000-8000-000000000000"

theorem sample_derived : ∀ command ∈ sampleCommands, RouterDerived sampleLib command := by
  intro command member
  simp only [sampleCommands, List.mem_cons, List.not_mem_nil, or_false] at member
  rcases member with rfl | rfl | rfl
  · refine ⟨?_, by decide⟩
    rintro c ⟨⟩
    decide
  · exact ⟨nofun, by decide⟩
  · exact ⟨nofun, by decide⟩

theorem sample_distinct :
    StableIdsDistinct sampleLib {id | ∃ command ∈ sampleCommands, command.commandId = id} := by
  have all : ∀ c ∈ sampleCommands, ∀ d ∈ sampleCommands, ∀ p ∈ purposes, ∀ q ∈ purposes,
      stableId sampleLib c.commandId p = stableId sampleLib d.commandId q →
        c.commandId = d.commandId ∧ p = q := by decide
  rintro _ ⟨c, hc, rfl⟩ _ ⟨d, hd, rfl⟩ p q same
  exact all c hc d hd p (mem_purposes p) q (mem_purposes q) same

end Sample

end Metahumotonic.Wiki
