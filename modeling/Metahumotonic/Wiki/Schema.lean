import Mathlib.Data.List.Nodup
import Mathlib.Data.List.Sort
import Mathlib.Order.Basic
import Metahumotonic.Library.Run
import Metahumotonic.Library.Table

/-! The startup of the PostgreSQL store (`ensure_schema`, `ping` and `_migration_specs` of
`app/wiki/postgres.py`). What a script does to the database and whether the catalogues are as
required is left to PostgreSQL. -/
namespace Metahumotonic.Wiki

open Library

/-- A file of `migrations/wiki`, with its text. -/
structure MigrationFile where
  name : String
  content : String

structure MigrationSpec where
  version : String
  checksum : String
  sql : String
  deriving DecidableEq

/-- `[0-9][0-9][0-9]_*.sql`. -/
def packaged (name : String) : Bool :=
  match name.toList with
  | a :: b :: c :: '_' :: rest => a.isDigit && b.isDigit && c.isDigit &&
    ".sql".toList.isSuffixOf rest
  | _ => false

/-- `Path.stem` of a packaged name. -/
def stem (name : String) : String := String.ofList (name.toList.take (name.toList.length - 4))

/-- `_migration_specs`. -/
def migrationSpecs (sha256 : String → String) (root : List MigrationFile) : List MigrationSpec :=
  ((root.filter fun file => packaged file.name).insertionSort fun a b =>
    a.name ≤ b.name).map fun file =>
    ⟨stem file.name, sha256 file.content, file.content⟩

/-- A checkout: its directory, and whether the columns, constraints and indexes are the ones that it
requires. -/
structure Release (σ : Type*) where
  files : List MigrationFile
  names : (files.map (·.name)).Nodup
  contract : σ → Bool

/-- `wiki_schema_migrations`, if it is there, and all the rest of the database. -/
structure Database (σ : Type*) where
  objects : σ
  ledger : Option (Table String (Option String)) := none

inductive SchemaError where
  | noMigrations
  | checksumMismatch (version : String)
  | databaseError
  | otherSchema
  deriving DecidableEq

section Startup

variable {σ : Type*} (script : String → σ → Option σ) (sha256 : String → String)

/-- The loop of `ensure_schema`. -/
def applyEach (objects : σ) (ledger : Table String (Option String)) :
    List MigrationSpec → Except SchemaError (σ × Table String (Option String))
  | [] => .ok (objects, ledger)
  | m :: rest =>
    match ledger.get? m.version with
    | some checksum =>
      if checksum.getD "" ≠ m.checksum then .error (.checksumMismatch m.version)
        else applyEach objects ledger rest
    | none =>
      match script m.sql objects with
      | none => .error .databaseError
      | some objects => applyEach objects (ledger.set m.version (some m.checksum)) rest

/-- `applied == expected_migrations`. -/
def recordsExactly (ledger : Table String (Option String))
    (migrations : List MigrationSpec) : Bool :=
  ledger.entries.all (fun row => migrations.any fun m => m.version = row.1 ∧
    m.checksum = row.2.getD "") &&
    migrations.all fun m => (ledger.get? m.version).map (·.getD "") = some m.checksum

/-- `_schema_is_current`. -/
def schemaIsCurrent (release : Release σ) (migrations : List MigrationSpec) (objects : σ)
    (ledger : Table String (Option String)) : Bool :=
  release.contract objects && recordsExactly ledger migrations

/-- The transaction holds a lock of the whole database; where it raises, nothing is left of it. -/
def ensureSchema (db : Database σ) (release : Release σ) : Except SchemaError Unit × Database σ :=
  let migrations := migrationSpecs sha256 release.files
  if migrations = [] then (.error .noMigrations, db)
  else
    match applyEach script db.objects (db.ledger.getD .empty) migrations with
    | .error error => (.error error, db)
    | .ok (objects, ledger) =>
      if schemaIsCurrent release migrations objects ledger then (.ok (), ⟨objects, some ledger⟩)
      else (.error .otherSchema, db)

/-- Without the table the query fails. -/
def ping (db : Database σ) (release : Release σ) : Bool :=
  let migrations := migrationSpecs sha256 release.files
  match db.ledger with
  | none => false
  | some ledger => !migrations.isEmpty && schemaIsCurrent release migrations db.objects ledger

/-- The scripts, one after the other. -/
def install (objects : σ) (migrations : List MigrationSpec) : Option σ :=
  migrations.foldlM (fun objects m => script m.sql objects) objects

end Startup

/-- What is still to be applied. -/
def pending (applied migrations : List MigrationSpec) : List MigrationSpec :=
  migrations.filter fun m => m.version ∉ applied.map (·.version)

/-- Every applied script is in the directory as it was. -/
def Covers (migrations applied : List MigrationSpec) : Prop :=
  ∀ m ∈ applied, ∃ file ∈ migrations, file.version = m.version ∧ file.checksum = m.checksum

def rows (applied : List MigrationSpec) : List (String × Option String) :=
  applied.map fun m => (m.version, some m.checksum)

/-- The scripts that the ledger names have run, in this order and once each. -/
structure Applied {σ : Type*} (script : String → σ → Option σ) (fresh : σ)
    (applied : List MigrationSpec)
    (db : Database σ) : Prop where
  versions : (applied.map (·.version)).Nodup
  ledger : (db.ledger.getD .empty).entries = rows applied
  ran : install script fresh applied = some db.objects

section Versions

/-- A version names its file. -/
theorem packaged_stem {name : String} (its : packaged name = true) :
    (stem name).toList ++ ".sql".toList = name.toList := by
  unfold packaged at its
  split at its
  · rename_i a b c rest spelled
    simp only [Bool.and_eq_true, List.isSuffixOf_iff_suffix] at its
    obtain ⟨start, ends⟩ := its.2
    have length : rest.length = start.length + 4 := by rw [← ends]; simp
    rw [stem, String.toList_ofList, spelled, ← ends]
    simp
  · cases its

theorem versions_nodup (sha256 : String → String) {files : List MigrationFile}
    (names : (files.map (·.name)).Nodup) :
    ((migrationSpecs sha256 files).map (·.version)).Nodup := by
  have kept : ((files.filter fun file => packaged file.name).map (·.name)).Nodup :=
    names.sublist (List.filter_sublist.map _)
  have perm := List.perm_insertionSort (fun a b : MigrationFile => a.name ≤ b.name)
    (files.filter fun file => packaged file.name)
  have sorted := (perm.map (·.name)).nodup_iff.mpr kept
  rw [migrationSpecs, List.map_map]
  refine List.Nodup.map_on ?_ ((List.Nodup.of_map _ sorted))
  intro a first b second same
  have isPackaged : ∀ file ∈ (files.filter fun file => packaged file.name).insertionSort fun a b =>
      a.name ≤ b.name,
      packaged file.name = true := fun file member =>
        (List.mem_filter.mp (perm.mem_iff.mp member)).2
  have text : a.name = b.name := by
    apply String.toList_injective
    rw [← packaged_stem (isPackaged a first), ← packaged_stem (isPackaged b second)]
    exact congrArg (fun version => version.toList ++ ".sql".toList) same
  exact List.inj_on_of_nodup_map sorted first second text

end Versions

section Loop

variable {σ : Type*} {script : String → σ → Option σ} {sha256 : String → String}
    {fresh objects next : σ}
  {applied migrations : List MigrationSpec} {ledger after : Table String (Option String)}
  {db : Database σ}

theorem install_append (objects : σ) (before after : List MigrationSpec) :
    install script objects (before ++ after) = (install script objects before).bind
      (install script · after) := by
  rw [install, List.foldlM_append]
  rfl

theorem rows_lookup (same : ledger.entries = rows applied) (version : String)
    (row : Option String) :
    ledger.get? version = some row ↔ ∃ m ∈ applied, m.version = version ∧
      some m.checksum = row := by
  rw [← Table.mem_entries, same, rows, List.mem_map]
  simp only [Prod.mk.injEq]

theorem rows_missing (same : ledger.entries = rows applied) (version : String) :
    ledger.get? version = none ↔ version ∉ applied.map (·.version) := by
  rw [← Table.not_mem_keys, Table.keys, same, rows, List.map_map]
  rfl

theorem pending_snoc {m : MigrationSpec} (new : m.version ∉ migrations.map (·.version)) :
    pending (applied ++ [m]) migrations = pending applied migrations := by
  refine List.filter_congr fun other member => ?_
  have apart : other.version ≠ m.version := fun same => new (same ▸ List.mem_map_of_mem member)
  simp only [List.map_append, List.map_cons, List.map_nil, List.mem_append, List.mem_singleton,
    apart, or_false]

/-- The loop gets through exactly if no applied file was edited and the other scripts run. -/
theorem applyEach_ok (same : ledger.entries = rows applied) (held : (applied.map (·.version)).Nodup)
    (versions : (migrations.map (·.version)).Nodup) :
    applyEach script objects ledger migrations = .ok (next, after) ↔
      (∀ m ∈ applied, ∀ file ∈ migrations, file.version = m.version → file.checksum = m.checksum) ∧
        install script objects (pending applied migrations) = some next ∧
          after.entries = rows (applied ++ pending applied migrations) := by
  induction migrations generalizing objects ledger applied with
  | nil =>
    simp only [applyEach, pending, List.filter_nil, install, List.foldlM_nil, List.append_nil,
      Except.ok.injEq,
      Prod.mk.injEq, Option.pure_def, Option.some.injEq, List.not_mem_nil, false_imp_iff,
        implies_true, true_and]
    refine and_congr_right fun _ => ?_
    rw [← same]
    constructor
    · rintro rfl
      rfl
    · intro entries
      cases ledger
      cases after
      cases entries
      rfl
  | cons m rest ih =>
    rw [List.map_cons, List.nodup_cons] at versions
    rw [applyEach]
    by_cases there : m.version ∈ applied.map (·.version)
    · obtain ⟨old, member, its⟩ := List.mem_map.mp there
      have found : ledger.get? m.version = some (some old.checksum) :=
        (rows_lookup same _ _).mpr ⟨old, member, its, rfl⟩
      have skipped : pending applied (m :: rest) = pending applied rest := by
        rw [pending, List.filter_cons, if_neg (by simpa using there)]
        rfl
      rw [found, skipped]
      dsimp only [Option.getD_some]
      split_ifs with edited
      · constructor
        · intro failed
          cases failed
        · rintro ⟨agree, _⟩
          exact absurd (agree old member m List.mem_cons_self its.symm).symm edited
      · rw [ih same held versions.2]
        refine and_congr_left fun _ =>
          ⟨fun agree other inside file listed named => ?_, fun agree other inside file listed =>
          agree other inside file (List.mem_cons_of_mem _ listed)⟩
        rcases List.mem_cons.mp listed with rfl | later
        · have one := List.inj_on_of_nodup_map held member inside (its.trans named)
          rw [← one]
          exact (not_not.mp edited).symm
        · exact agree other inside file later named
    · have queued : pending applied (m :: rest) = m :: pending applied rest := by
        rw [pending, List.filter_cons, if_pos (by simpa using there)]
        rfl
      have absent := (rows_missing same m.version).mpr there
      rw [absent, queued]
      dsimp only
      rw [install, List.foldlM_cons]
      cases script m.sql objects with
      | none =>
        constructor
        · intro failed
          cases failed
        · rintro ⟨_, failed, _⟩
          cases failed
      | some changed =>
        have grown : (ledger.set m.version (some m.checksum)).entries = rows (applied ++ [m]) := by
          rw [ledger.entries_set_new _ ((Table.not_mem_keys _ _).mpr absent), same, rows, rows,
            List.map_append]
          rfl
        have distinct : ((applied ++ [m]).map (·.version)).Nodup := by
          rw [List.map_append]
          exact held.append (List.nodup_singleton _) (by simpa using there)
        dsimp only
        rw [ih grown distinct versions.2, pending_snoc versions.1, List.append_assoc]
        refine and_congr_left fun _ =>
          ⟨fun agree other inside file listed named =>
            ?_, fun agree other inside file listed named => ?_⟩
        · rcases List.mem_cons.mp listed with rfl | later
          · exact absurd (named ▸ List.mem_map_of_mem inside) there
          · exact agree other (List.mem_append_left _ inside) file later named
        · rcases List.mem_append.mp inside with old | new
          · exact agree other old file (List.mem_cons_of_mem _ listed) named
          · obtain rfl := List.mem_singleton.mp new
            exact absurd (named ▸ List.mem_map_of_mem listed) versions.1

theorem pending_versions (versions : (migrations.map (·.version)).Nodup)
    (held : (applied.map (·.version)).Nodup) :
    ((applied ++ pending applied migrations).map (·.version)).Nodup := by
  rw [List.map_append]
  refine held.append (versions.sublist (List.filter_sublist.map _)) fun version old new => ?_
  obtain ⟨m, member, rfl⟩ := List.mem_map.mp new
  simpa using (of_decide_eq_true (List.mem_filter.mp member).2) old

theorem recordsExactly_iff (same : ledger.entries = rows applied) :
    recordsExactly ledger migrations = true ↔ Covers migrations applied ∧
      Covers applied migrations := by
  simp only [recordsExactly, Bool.and_eq_true, List.all_eq_true, List.any_eq_true,
    decide_eq_true_eq, same, rows,
    List.forall_mem_map, Option.getD_some, Option.map_eq_some_iff]
  refine and_congr_right fun _ => forall₂_congr fun m member => ?_
  constructor
  · rintro ⟨row, found, its⟩
    obtain ⟨old, inside, named, rfl⟩ := (rows_lookup same _ _).mp found
    exact ⟨old, inside, named, its⟩
  · rintro ⟨old, inside, named, its⟩
    exact ⟨some old.checksum, (rows_lookup same _ _).mpr ⟨old, inside, named, rfl⟩, its⟩

theorem covers_append_pending (covers : Covers migrations applied)
    (versions : (migrations.map (·.version)).Nodup) :
    Covers migrations (applied ++ pending applied migrations) ∧
      Covers (applied ++ pending applied migrations) migrations := by
  constructor
  · intro m member
    rcases List.mem_append.mp member with old | new
    · exact covers m old
    · exact ⟨m, (List.mem_filter.mp new).1, rfl, rfl⟩
  · intro m member
    by_cases there : m.version ∈ applied.map (·.version)
    · obtain ⟨old, inside, its⟩ := List.mem_map.mp there
      obtain ⟨file, listed, named, checked⟩ := covers old inside
      obtain rfl := List.inj_on_of_nodup_map versions listed member (named.trans its)
      exact ⟨old, List.mem_append_left _ inside, its, checked.symm⟩
    · exact ⟨m, List.mem_append_right _ (List.mem_filter.mpr ⟨member, by simpa using there⟩), rfl,
        rfl⟩

theorem Covers.agree (covers : Covers migrations applied)
    (versions : (migrations.map (·.version)).Nodup) :
    ∀ m ∈ applied, ∀ file ∈ migrations, file.version = m.version → file.checksum = m.checksum := by
  intro m inside file listed named
  obtain ⟨other, member, its, checked⟩ := covers m inside
  obtain rfl := List.inj_on_of_nodup_map versions listed member (named.trans its.symm)
  exact checked

/-- The files of the release go on from what has run, their new scripts run, and what they make is
as required. -/
structure Startable (script : String → σ → Option σ) (sha256 : String → String)
    (applied : List MigrationSpec)
    (db : Database σ) (release : Release σ) (objects : σ) : Prop where
  files : migrationSpecs sha256 release.files ≠ []
  covers : Covers (migrationSpecs sha256 release.files) applied
  installs : install script db.objects (pending applied (migrationSpecs sha256 release.files)) =
    some objects
  contract : release.contract objects = true

/-- What a startup does to a database on which some scripts have run. -/
theorem Applied.ensure (held : Applied script fresh applied db) (sha256 : String → String)
    (release : Release σ) :
    (∃ objects ledger, Startable script sha256 applied db release objects ∧
        ensureSchema script sha256 db release = (.ok (), ⟨objects, some ledger⟩) ∧
        ledger.entries = rows (applied ++ pending applied (migrationSpecs sha256 release.files))) ∨
      (¬ ∃ objects, Startable script sha256 applied db release objects) ∧
        ∃ error, ensureSchema script sha256 db release = (.error error, db) := by
  have versions := versions_nodup sha256 release.names
  by_cases empty : migrationSpecs sha256 release.files = []
  · refine .inr ⟨fun ⟨_, started⟩ => started.files empty, .noMigrations, ?_⟩
    rw [ensureSchema, if_pos empty]
  · have unfolded := ensureSchema.eq_1 script sha256 db release
    rw [if_neg empty] at unfolded
    rw [unfolded]
    cases looped : applyEach script db.objects (db.ledger.getD .empty)
      (migrationSpecs sha256 release.files) with
    | error error =>
      refine .inr ⟨fun ⟨objects, started⟩ => ?_, error, rfl⟩
      have distinct := pending_versions versions held.versions
      let ledger : Table String (Option String) :=
        ⟨rows (applied ++ pending applied (migrationSpecs sha256 release.files)), by
          rw [rows, List.map_map]; exact distinct⟩
      have through : applyEach script db.objects (db.ledger.getD .empty)
          (migrationSpecs sha256 release.files) =
          .ok (objects, ledger) :=
        (applyEach_ok held.ledger held.versions versions).mpr
          ⟨started.covers.agree versions, started.installs, rfl⟩
      rw [looped] at through
      cases through
    | ok after =>
      obtain ⟨objects, ledger⟩ := after
      obtain ⟨agree, installed, entries⟩ :=
        (applyEach_ok held.ledger held.versions versions).mp looped
      have current : schemaIsCurrent release (migrationSpecs sha256 release.files) objects
          ledger = true ↔
          Startable script sha256 applied db release objects := by
        rw [schemaIsCurrent, Bool.and_eq_true, recordsExactly_iff entries]
        constructor
        · rintro ⟨contract, covers, _⟩
          exact ⟨empty, fun m inside => covers m (List.mem_append_left _ inside),
            installed, contract⟩
        · intro started
          exact ⟨started.contract, covers_append_pending started.covers versions⟩
      dsimp only
      split_ifs with its
      · exact .inl ⟨objects, ledger, current.mp its, rfl, entries⟩
      · refine .inr ⟨fun ⟨other, started⟩ => its (current.mpr ?_), _, rfl⟩
        obtain rfl := Option.some.inj (installed.symm.trans started.installs)
        exact started

/-- Ready is a database exactly if it has the schema of the release. -/
theorem Applied.ping_iff (held : Applied script fresh applied db) (sha256 : String → String)
    (release : Release σ) :
    ping sha256 db release = true ↔ migrationSpecs sha256 release.files ≠ [] ∧
      Covers (migrationSpecs sha256 release.files) applied ∧
        Covers applied (migrationSpecs sha256 release.files) ∧
      release.contract db.objects = true := by
  unfold ping
  cases there : db.ledger with
  | none =>
    have unapplied : applied = [] := by
      have empty := held.ledger
      rw [there] at empty
      exact List.map_eq_nil_iff.mp empty.symm
    simp only [Bool.false_eq_true, false_iff, not_and]
    rintro files - behind
    obtain ⟨m, member⟩ := List.exists_mem_of_ne_nil _ files
    obtain ⟨_, inside, _⟩ := behind m member
    rw [unapplied] at inside
    cases inside
  | some ledger =>
    have entries : ledger.entries = rows applied := by
      have same := held.ledger
      rwa [there] at same
    simp only [Bool.and_eq_true, Bool.not_eq_true', List.isEmpty_eq_false_iff, schemaIsCurrent,
      recordsExactly_iff entries]
    tauto

theorem Applied.grow (held : Applied script fresh applied db) {sha256 : String → String}
    {release : Release σ}
    (started : Startable script sha256 applied db release objects) (entries : ledger.entries =
      rows (applied ++ pending applied (migrationSpecs sha256 release.files))) :
    Applied script fresh (applied ++ pending applied (migrationSpecs sha256 release.files))
      ⟨objects, some ledger⟩ where
  versions := pending_versions (versions_nodup sha256 release.names) held.versions
  ledger := entries
  ran := by rw [install_append, held.ran, Option.bind_some, started.installs]

theorem fresh_applied (fresh : σ) : Applied script fresh [] ⟨fresh, none⟩ where
  versions := List.nodup_nil
  ledger := rfl
  ran := rfl

end Loop

/-- Whatever checkouts have been started, in whatever order: the ledger names the scripts that have
run, each once, and a checkout starts exactly if it has them all unchanged and what it adds makes
its schema. It is ready then, and a startup that fails leaves everything as it was. -/
theorem schema_startups {σ : Type*} (script : String → σ → Option σ)
    (sha256 : String → String) (fresh : σ)
    (releases : List (Release σ)) :
    let db := (serve (ensureSchema script sha256) ⟨fresh, none⟩ releases).2
    ∃ applied, Applied script fresh applied db ∧ ∀ release : Release σ,
      let start := ensureSchema script sha256 db release
      ((∃ objects, Startable script sha256 applied db release objects) ↔ start.1 = .ok ()) ∧
      (start.1 = .ok () → ping sha256 start.2 release = true ∧
        Applied script fresh
          (applied ++ pending applied (migrationSpecs sha256 release.files)) start.2) ∧
      (start.1 ≠ .ok () → start.2 = db) := by
  intro db
  have reached : ∃ applied, Applied script fresh applied db := by
    refine serve_invariant (ensureSchema script sha256) (fun _ => True)
      (fun db => ∃ applied, Applied script fresh applied db)
      ?_ releases (fun _ _ => trivial) _ ⟨[], fresh_applied fresh⟩
    rintro db release - ⟨applied, held⟩
    rcases held.ensure sha256 release with
      ⟨objects, ledger, started, same, entries⟩ | ⟨_, error, same⟩
    · rw [same]
      exact ⟨_, held.grow started entries⟩
    · rw [same]
      exact ⟨applied, held⟩
  obtain ⟨applied, held⟩ := reached
  refine ⟨applied, held, fun release => ?_⟩
  dsimp only
  rcases held.ensure sha256 release with
    ⟨objects, ledger, started, same, entries⟩ | ⟨never, error, same⟩
  · have grown := held.grow started entries
    have versions := versions_nodup sha256 release.names
    have covers := covers_append_pending started.covers versions
    rw [same]
    exact ⟨⟨fun _ => rfl, fun _ => ⟨objects, started⟩⟩, fun _ =>
      ⟨(grown.ping_iff sha256 release).mpr ⟨started.files, covers.1, covers.2, started.contract⟩,
        grown⟩,
      fun failed => absurd rfl failed⟩
  · rw [same]
    exact ⟨⟨fun some_ => absurd some_ never, nofun⟩, nofun, fun _ => rfl⟩

section History

variable {σ : Type*} {script : String → σ → Option σ} {sha256 : String → String} {fresh : σ}
  {applied migrations history : List MigrationSpec} {db : Database σ}

/-- In a history that only grows, what has run is covered exactly by what goes on from it. -/
theorem covers_iff_continued (versions : (history.map (·.version)).Nodup)
    (old : applied <+: history)
    (new : migrations <+: history) : Covers migrations applied ↔ applied <+: migrations := by
  constructor
  · intro covers
    rcases List.prefix_or_prefix_of_prefix old new with goesOn | ⟨rest, whole⟩
    · exact goesOn
    · cases rest with
      | nil => exact ⟨[], by rw [List.append_nil, ← whole, List.append_nil]⟩
      | cons m rest =>
        have nodup := versions.sublist (old.sublist.map _)
        rw [← whole, List.map_append] at nodup
        obtain ⟨file, member, named, _⟩ :=
          covers m (whole ▸ List.mem_append_right _ List.mem_cons_self)
        have listed : file.version ∈ (m :: rest).map (·.version) :=
          named ▸ List.mem_map_of_mem List.mem_cons_self
        exact (List.disjoint_of_nodup_append nodup (List.mem_map_of_mem member) listed).elim
  · intro goesOn m member
    exact ⟨m, goesOn.subset member, rfl, rfl⟩

theorem pending_prefix {rest : List MigrationSpec}
    (versions : ((applied ++ rest).map (·.version)).Nodup) :
    pending applied (applied ++ rest) = rest := by
  rw [List.map_append] at versions
  have apart := List.disjoint_of_nodup_append versions
  rw [pending, List.filter_append, List.filter_eq_nil_iff.mpr, List.nil_append,
    List.filter_eq_self.mpr]
  · intro m member
    simpa using fun there => apart there (List.mem_map_of_mem member)
  · intro m member
    simpa using List.mem_map_of_mem (f := (·.version)) member

/-- A release of the history starts exactly if it would start on an empty database and does not go
back. -/
theorem startable_iff (versions : (history.map (·.version)).Nodup)
    (held : Applied script fresh applied db)
    (old : applied <+: history) {release : Release σ}
    (new : migrationSpecs sha256 release.files <+: history)
    (objects : σ) : Startable script sha256 applied db release objects ↔
      Startable script sha256 [] ⟨fresh, none⟩ release objects ∧
        applied <+: migrationSpecs sha256 release.files := by
  have installs (goesOn : applied <+: migrationSpecs sha256 release.files) :
      install script db.objects (pending applied (migrationSpecs sha256 release.files)) =
        install script fresh (pending [] (migrationSpecs sha256 release.files)) := by
    obtain ⟨rest, whole⟩ := goesOn
    have nodup : ((applied ++ rest).map (·.version)).Nodup :=
      whole ▸ versions.sublist (new.sublist.map _)
    have all : pending [] (applied ++ rest) = applied ++ rest := pending_prefix nodup
    rw [← whole, pending_prefix nodup, all, install_append, held.ran, Option.bind_some]
  constructor
  · intro started
    have goesOn := (covers_iff_continued versions old new).mp started.covers
    exact ⟨⟨started.files, List.forall_mem_nil _, installs goesOn ▸ started.installs,
      started.contract⟩, goesOn⟩
  · rintro ⟨started, goesOn⟩
    exact ⟨started.files, (covers_iff_continued versions old new).mpr goesOn,
      (installs goesOn).trans started.installs,
      started.contract⟩

/-- A release that lacks an applied script does not start, and changes nothing. -/
theorem older_refused (versions : (history.map (·.version)).Nodup) {later older : Release σ}
    (held : Applied script fresh (migrationSpecs sha256 later.files) db)
    (new : migrationSpecs sha256 later.files <+: history)
    (back : migrationSpecs sha256 older.files <+: migrationSpecs sha256 later.files)
    (other : migrationSpecs sha256 older.files ≠ migrationSpecs sha256 later.files) :
    (ensureSchema script sha256 db older).1 ≠ .ok () ∧
    (ensureSchema script sha256 db older).2 = db := by
  rcases held.ensure sha256 older with ⟨objects, _, started, _, _⟩ | ⟨_, error, same⟩
  · have goesOn := ((startable_iff versions held new (back.trans new) objects).mp started).2
    exact absurd (back.eq_of_length (Nat.le_antisymm back.length_le goesOn.length_le)) other
  · rw [same]
    exact ⟨nofun, rfl⟩

end History

/-- Where every checkout goes on from the earlier ones, it does not matter by which of them a
database has come to a release: it is the database that the release makes from nothing. No release
starts on the schema of a later one. -/
theorem schema_upgrades {σ : Type*} (script : String → σ → Option σ)
    (sha256 : String → String) (fresh : σ)
    (history : List MigrationSpec) (versions : (history.map (·.version)).Nodup)
    (releases : List (Release σ))
    (appendOnly : ∀ release ∈ releases, migrationSpecs sha256 release.files <+: history) :
    let db := (serve (ensureSchema script sha256) ⟨fresh, none⟩ releases).2
    ∃ applied, Applied script fresh applied db ∧
      (applied = [] ∨ ∃ release ∈ releases, applied = migrationSpecs sha256 release.files) ∧
      ∀ release : Release σ, migrationSpecs sha256 release.files <+: history →
        let upgrade := ensureSchema script sha256 db release
        let installation := ensureSchema script sha256 ⟨fresh, none⟩ release
        (upgrade.1 = .ok () ↔ installation.1 = .ok () ∧
          applied <+: migrationSpecs sha256 release.files) ∧
        (upgrade.1 = .ok () → upgrade.2.objects = installation.2.objects ∧
          upgrade.2.ledger.map (·.entries) = installation.2.ledger.map (·.entries)) ∧
        (upgrade.1 = .ok () → ∀ older : Release σ,
          migrationSpecs sha256 older.files <+: migrationSpecs sha256 release.files →
          migrationSpecs sha256 older.files ≠ migrationSpecs sha256 release.files →
          (ensureSchema script sha256 upgrade.2 older).1 ≠ .ok () ∧
            (ensureSchema script sha256 upgrade.2 older).2 = upgrade.2) := by
  intro db
  have whole {applied : List MigrationSpec} {release : Release σ}
      (new : migrationSpecs sha256 release.files <+: history)
      (goesOn : applied <+: migrationSpecs sha256 release.files) :
      applied ++ pending applied (migrationSpecs sha256 release.files) = migrationSpecs sha256
        release.files := by
    obtain ⟨rest, same⟩ := goesOn
    rw [← same, pending_prefix (same ▸ versions.sublist (new.sublist.map _))]
  have within {applied : List MigrationSpec}
      (its : applied = [] ∨ ∃ release ∈ releases, applied = migrationSpecs sha256 release.files) :
      applied <+: history := by
    rcases its with rfl | ⟨release, member, rfl⟩
    · exact List.nil_prefix
    · exact appendOnly release member
  have reached : ∃ applied,
      (applied = [] ∨ ∃ release ∈ releases, applied = migrationSpecs sha256 release.files) ∧
      Applied script fresh applied db := by
    refine serve_invariant (ensureSchema script sha256) (· ∈ releases) (fun db => ∃ applied,
      (applied = [] ∨ ∃ release ∈ releases, applied = migrationSpecs sha256 release.files) ∧
        Applied script fresh applied db)
      ?_ releases (fun _ member => member) _ ⟨[], .inl rfl, fresh_applied fresh⟩
    rintro db release member ⟨applied, its, held⟩
    rcases held.ensure sha256 release with
      ⟨objects, ledger, started, same, entries⟩ | ⟨_, error, same⟩
    · have new := appendOnly release member
      have goesOn := ((startable_iff versions held (within its) new objects).mp started).2
      rw [same]
      exact ⟨_, .inr ⟨release, member, whole new goesOn⟩, held.grow started entries⟩
    · rw [same]
      exact ⟨applied, its, held⟩
  obtain ⟨applied, its, held⟩ := reached
  refine ⟨applied, held, its, fun release new => ?_⟩
  dsimp only
  have bare : Applied script fresh [] ⟨fresh, none⟩ := fresh_applied fresh
  rcases held.ensure sha256 release with
    ⟨objects, ledger, started, same, entries⟩ | ⟨never, error, same⟩
  · obtain ⟨alone, goesOn⟩ := (startable_iff versions held (within its) new objects).mp started
    rcases bare.ensure sha256 release with ⟨others, table, installed, made, lines⟩ | ⟨never, _⟩
    · have one : objects = others := Option.some.inj (alone.installs.symm.trans installed.installs)
      rw [same, made, Option.map_some, Option.map_some, entries, lines, whole new goesOn,
        whole new List.nil_prefix]
      refine ⟨⟨fun _ => ⟨rfl, goesOn⟩, fun _ => rfl⟩, fun _ => ⟨one, rfl⟩,
        fun _ older back other => ?_⟩
      have grown := held.grow started entries
      rw [whole new goesOn] at grown
      exact older_refused versions grown new back other
    · exact absurd ⟨objects, alone⟩ never
  · rw [same]
    refine ⟨⟨nofun, fun ⟨alone, goesOn⟩ => ?_⟩, nofun, nofun⟩
    rcases bare.ensure sha256 release with ⟨others, _, installed, _, _⟩ | ⟨_, failure, made⟩
    · exact absurd ⟨others, (startable_iff versions held (within its) new others).mpr
        ⟨installed, goesOn⟩⟩ never
    · rw [made] at alone
      cases alone

section Sample

def firstFile : MigrationFile :=
  ⟨"001_wiki_event_store.sql", "CREATE TABLE wiki_pages (page_id UUID PRIMARY KEY);"⟩
def secondFile : MigrationFile :=
  ⟨"002_reactive_moderation.sql", "ALTER TABLE wiki_pages ADD COLUMN head_actor_id TEXT;"⟩

def fileDigest (content : String) : String :=
  if content = firstFile.content
    then "280c937e7eb23d019ff641285da844bb172dc41796189e1080ae4b96c87df148"
  else if content = secondFile.content
    then "cab983eb21cc3d4ce290d172869c9bd8ec62410e4fc5aff9c1e7986195085071" else ""

/-- A database that keeps its scripts. -/
def keepScript (sql : String) (scripts : List String) : Option (List String) :=
  some (scripts ++ [sql])

def firstRelease : Release (List String) :=
  ⟨[firstFile], by decide, fun scripts => scripts.length = 1⟩
def secondRelease : Release (List String) :=
  ⟨[secondFile, firstFile], by decide, fun scripts => scripts.length = 2⟩

def sampleHistory : List MigrationSpec := migrationSpecs fileDigest secondRelease.files

/-- The second release, over the first one. -/
theorem schema_upgrades_sample :
    let db := (serve (ensureSchema keepScript fileDigest) ⟨[], none⟩ [firstRelease]).2
    ∃ applied, Applied keepScript [] applied db ∧
      (applied = [] ∨ ∃ release ∈ [firstRelease],
        applied = migrationSpecs fileDigest release.files) ∧
      let upgrade := ensureSchema keepScript fileDigest db secondRelease
      let installation := ensureSchema keepScript fileDigest ⟨[], none⟩ secondRelease
      (upgrade.1 = .ok () ↔ installation.1 = .ok () ∧ applied <+: sampleHistory) ∧
      (upgrade.1 = .ok () → upgrade.2.objects = installation.2.objects ∧
        upgrade.2.ledger.map (·.entries) = installation.2.ledger.map (·.entries)) ∧
      (upgrade.1 = .ok () → (ensureSchema keepScript fileDigest upgrade.2 firstRelease).1 ≠ .ok () ∧
        (ensureSchema keepScript fileDigest upgrade.2 firstRelease).2 = upgrade.2) := by
  have earlier : migrationSpecs fileDigest firstRelease.files <+: sampleHistory :=
    List.isPrefixOf_iff_prefix.mp (by decide +kernel)
  have fewer : migrationSpecs fileDigest firstRelease.files ≠ sampleHistory := by decide +kernel
  have upgrades := schema_upgrades keepScript fileDigest [] sampleHistory
    (versions_nodup fileDigest secondRelease.names) [firstRelease] (by
      intro release member
      obtain rfl := List.mem_singleton.mp member
      exact earlier)
  obtain ⟨applied, held, its, all⟩ := upgrades
  obtain ⟨starts, same, refused⟩ := all secondRelease (List.prefix_refl _)
  exact ⟨applied, held, its, starts, same, fun upgraded =>
    refused upgraded firstRelease earlier fewer⟩

end Sample

end Metahumotonic.Wiki
