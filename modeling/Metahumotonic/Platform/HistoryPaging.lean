import Metahumotonic.Platform.History

/-! A reader of the history sees what was committed before its first page, each observation once:
the lock keeps values of the identity column in the order of the commits, so that nothing appears
below a cursor. -/
namespace Metahumotonic.Platform
open Metahumotonic.Library Json

/-- The transaction that holds the lock works on what is committed, and has taken larger values. -/
structure WritingHeld (db : Postgres) (w : World) (writing : Writing) : Prop where
  step : ∃ call, db.step w.tables call = (writing.answer, writing.written)
  increasing : writing.values.Pairwise (· < ·)
  above : ∀ value ∈ writing.values, value ≤ w.taken ∧ ∀ n ∈ w.numbered, n.sequence < value

structure Held (db : Postgres) (w : World) : Prop where
  ledger : Ledger db w.tables
  sound : ∃ calls, Sound db calls w.tables
  migrated : w.tables.schemaMigrations = [(1, db.checksum)]
  rows : w.numbered.map Numbered.row = w.tables.observations
  increasing : w.numbered.Pairwise fun a b => a.sequence < b.sequence
  bounded : ∀ n ∈ w.numbered, n.sequence ≤ w.taken
  writing : ∀ writing ∈ w.writing, WritingHeld db w writing

/-- What a step leaves: committed observations stay, and values are never given out again. -/
structure Grows (w u : World) : Prop where
  numbered : w.numbered <+: u.numbered
  taken : w.taken ≤ u.taken

section Steps

variable {db : Postgres} {subjectId : Option Text} {w u : World}

theorem held_migrated (db : Postgres) : Held db (.migrated db) where
  ledger := ledger_migrated db
  sound := ⟨[], sound_migrated db⟩
  migrated := rfl
  rows := rfl
  increasing := .nil
  bounded := nofun
  writing := nofun

/-! What each step does. -/

theorem holder_some {writer : ℕ} {writing : Writing} (holds : w.holder writer = some writing) :
    w.writing = some writing :=
  (Option.filter_eq_some_iff.mp holds).1

theorem lock_cases {writer : ℕ} {call : Call} (step : w.lock db writer call = some u) :
    u = { w with writing := some ⟨writer, (db.step w.tables call).1,
      (db.step w.tables call).2, []⟩ } := by
  unfold World.lock at step
  split at step
  · exact (Option.some.inj step).symm
  · cases step

theorem insert_cases {writer : ℕ} (step : w.insert writer = some u) :
    ∃ writing, w.writing = some writing ∧
      u = { w with taken := w.taken + 1, writing := some { writing with
        values := writing.values ++ [w.taken + 1] } } := by
  obtain ⟨writing, holds, rest⟩ := Option.bind_eq_some_iff.mp step
  split at rest
  · exact ⟨writing, holder_some holds, (Option.some.inj rest).symm⟩
  · cases rest

theorem commit_cases {writer : ℕ} (step : w.commit writer = some u) :
    ∃ writing, w.writing = some writing ∧ writing.values.length = (writing.rows w.tables).length ∧
      u = { w with tables := writing.written
                   numbered := w.numbered ++ (writing.values.zip (writing.rows w.tables)).map
                     fun p => ⟨p.1, p.2⟩
                   writing := none } := by
  obtain ⟨writing, holds, rest⟩ := Option.bind_eq_some_iff.mp step
  split at rest
  · rename_i all
    exact ⟨writing, holder_some holds, all.2, (Option.some.inj rest).symm⟩
  · cases rest

theorem rollback_cases {writer : ℕ} (step : w.rollback writer = some u) :
    u = { w with writing := none } := by
  obtain ⟨writing, -, rest⟩ := Option.map_eq_some_iff.mp step
  exact rest.symm

theorem page_cases {limit : Option ℤ} (step : w.page db subjectId limit = some u) :
    w.cursor ≠ .done ∧ ∃ page, db.history (w.cursor.query subjectId limit) w.tables
      w.numbered = .ok page ∧
      u = { w with cursor := page.nextBefore.elim .done .before, pages := w.pages ++ [page] } := by
  unfold World.page at step
  split at step
  · cases step
  · rename_i going
    refine ⟨going, ?_⟩
    split at step
    · rename_i page answer
      exact ⟨page, answer, (Option.some.inj step).symm⟩
    · cases step

/-! The invariant. -/

theorem held_lock (held : Held db w) {writer : ℕ} {call : Call}
    (step : w.lock db writer call = some u) : Held db u := by
  obtain rfl := lock_cases step
  refine { held with writing := ?_ }
  rintro writing ⟨⟩
  exact ⟨⟨call, rfl⟩, .nil, nofun⟩

theorem held_insert (held : Held db w) {writer : ℕ} (step : w.insert writer = some u) :
    Held db u := by
  obtain ⟨before, holds, rfl⟩ := insert_cases step
  have kept := held.writing before holds
  refine { held with bounded := fun n member =>
    (held.bounded n member).trans (Nat.le_succ _), writing := ?_ }
  rintro writing ⟨⟩
  refine ⟨kept.step, ?_, ?_⟩
  · dsimp only
    rw [List.pairwise_append]
    refine ⟨kept.increasing, List.pairwise_singleton _ _, ?_⟩
    intro a here b there
    rw [List.mem_singleton.mp there]
    exact Nat.lt_succ_of_le (kept.above a here).1
  · intro value member
    rcases List.mem_append.mp member with old | new
    · exact ⟨(kept.above value old).1.trans (Nat.le_succ _), (kept.above value old).2⟩
    · rw [List.mem_singleton.mp new]
      exact ⟨le_refl _, fun n member => Nat.lt_succ_of_le (held.bounded n member)⟩

theorem held_lose (held : Held db w) : Held db { w with taken := w.taken + 1 } := by
  refine { held with bounded := fun n member =>
    (held.bounded n member).trans (Nat.le_succ _), writing := ?_ }
  intro writing holds
  have kept := held.writing writing holds
  exact ⟨kept.step, kept.increasing, fun value member =>
    ⟨(kept.above value member).1.trans (Nat.le_succ _), (kept.above value member).2⟩⟩

theorem held_commit (held : Held db w) {writer : ℕ} (step : w.commit writer = some u) :
    Held db u := by
  obtain ⟨writing, holds, all, rfl⟩ := commit_cases step
  have kept := held.writing writing holds
  obtain ⟨call, done⟩ := kept.step
  have written : (db.step w.tables call).2 = writing.written := by rw [done]
  obtain ⟨ledger, grown⟩ := step_ledger held.ledger call
  obtain ⟨calls, sound⟩ := held.sound
  have sound' := step_sound held.ledger sound call
  rw [written] at ledger grown sound'
  obtain ⟨added, observations⟩ := grown.observations
  have rows : writing.rows w.tables = added := by rw [Writing.rows, ← observations, List.drop_left]
  have values : ((writing.values.zip added).map fun p => (⟨p.1, p.2⟩ : Numbered)).map
      Numbered.sequence =
      writing.values := by
    rw [List.map_map]
    exact List.map_fst_zip (by rw [all, rows])
  have taken : ∀ n ∈ (writing.values.zip added).map fun p => (⟨p.1, p.2⟩ : Numbered),
      n.sequence ∈ writing.values := by
    intro n member
    rw [← values]
    exact List.mem_map_of_mem member
  rw [rows]
  refine ⟨ledger, ⟨_, sound'⟩, grown.schemaMigrations.trans held.migrated, ?_, ?_, ?_, nofun⟩
  · dsimp only
    rw [List.map_append, held.rows, List.map_map, ← observations]
    congr 1
    exact List.map_snd_zip (by rw [all, rows])
  · dsimp only
    rw [List.pairwise_append]
    refine ⟨held.increasing, ?_, fun a here b there => (kept.above _ (taken b there)).2 a here⟩
    rw [← List.pairwise_map (f := Numbered.sequence) (R := (· < ·)), values]
    exact kept.increasing
  · intro n member
    rcases List.mem_append.mp member with old | new
    · exact held.bounded n old
    · exact (kept.above _ (taken n new)).1

theorem advance_held (held : Held db w) {event : Event}
    (step : w.advance db subjectId event = some u) : Held db u := by
  cases event with
  | lock writer call => exact held_lock held step
  | insert writer => exact held_insert held step
  | lose =>
    cases step
    exact held_lose held
  | commit writer => exact held_commit held step
  | rollback writer =>
    obtain rfl := rollback_cases step
    exact { held with writing := nofun }
  | page limit =>
    obtain ⟨-, page, -, rfl⟩ := page_cases step
    exact { held with writing := fun writing holds => { held.writing writing holds with } }

theorem advance_grows {event : Event} (step : w.advance db subjectId event = some u) :
    Grows w u := by
  cases event with
  | lock writer call =>
    obtain rfl := lock_cases step
    exact ⟨List.prefix_refl _, le_refl _⟩
  | insert writer =>
    obtain ⟨writing, -, rfl⟩ := insert_cases step
    exact ⟨List.prefix_refl _, Nat.le_succ _⟩
  | lose =>
    cases step
    exact ⟨List.prefix_refl _, Nat.le_succ _⟩
  | commit writer =>
    obtain ⟨writing, -, -, rfl⟩ := commit_cases step
    exact ⟨List.prefix_append _ _, le_refl _⟩
  | rollback writer =>
    obtain rfl := rollback_cases step
    exact ⟨List.prefix_refl _, le_refl _⟩
  | page limit =>
    obtain ⟨-, page, -, rfl⟩ := page_cases step
    exact ⟨List.prefix_refl _, le_refl _⟩

end Steps

/-! The answers. -/

/-- What an item shows of an observation. -/
def HistoryItem.label (item : HistoryItem) : ℕ × Text × Json :=
  (item.sequence, item.receiptId, item.observation)

def Numbered.label (n : Numbered) : ℕ × Text × Json := (n.sequence, n.row.receiptId, n.row.document)

theorem filterMap_first {α β : Type*} {f : α → Option β} {items : List α}
    (found : ∀ a ∈ items, (f a).isSome = true) :
    (items.filterMap fun a => (f a).map fun b => (a, b)).map Prod.fst = items := by
  induction items with
  | nil => rfl
  | cons a rest ih =>
    obtain ⟨b, here⟩ := Option.isSome_iff_exists.mp (found a List.mem_cons_self)
    rw [List.filterMap_cons, here, Option.map_some, List.map_cons, ih fun c member =>
      found c (List.mem_cons_of_mem _ member)]

section Answers

variable {db : Postgres} {w : World}

/-- Every stored observation has its receipt. -/
theorem receipt_of_numbered (held : Held db w) {n : Numbered} (member : n ∈ w.numbered) :
    ∃ receipt ∈ w.tables.ingestReceipts, receipt.id = n.row.receiptId ∧
      w.tables.receipt? n.row.receiptId = some receipt := by
  have stored : n.row ∈ w.tables.observations := held.rows ▸ List.mem_map_of_mem member
  obtain ⟨receipt, listed, same⟩ := held.ledger.pointed n.row stored
  exact ⟨receipt, listed, same, same ▸ receipt?_of_mem held.ledger.receipts listed⟩

theorem joined_first (held : Held db w) : (Postgres.joined w.tables w.numbered).map Prod.fst =
    w.numbered := by
  apply filterMap_first
  intro n member
  obtain ⟨receipt, -, -, found⟩ := receipt_of_numbered held member
  rw [found]
  rfl

theorem historyRows_first (held : Held db w) (query : HistoryQuery) (most : ℕ) :
    (Postgres.historyRows w.tables w.numbered query most).map Prod.fst =
      (below Numbered.sequence (w.matching query.subjectId) query.before).take most := by
  have listed : ((Postgres.joined w.tables w.numbered).filter fun r =>
      Postgres.asked query r.1).map Prod.fst =
      w.numbered.filter (Postgres.asked query) := by
    conv_rhs => rw [← joined_first held, List.filter_map]
    rfl
  have sorted : ((Postgres.joined w.tables w.numbered).filter fun r =>
      Postgres.asked query r.1).Pairwise
      fun a b => a.1.sequence < b.1.sequence := by
    rw [← List.pairwise_map (f := Prod.fst) (R := fun a b : Numbered => a.sequence < b.sequence),
      listed]
    exact held.increasing.filter _
  rw [Postgres.historyRows, insertionSort_newest (fun r : Numbered × ReceiptRow =>
    r.1.sequence) sorted,
    List.map_take, List.map_reverse, listed, below, World.matching, List.filter_filter]
  rfl

theorem item_decodes (held : Held db w) {r : Numbered × ReceiptRow}
    (member : r ∈ Postgres.joined w.tables w.numbered) :
    (HistoryItem.of r).decodes = true := by
  obtain ⟨n, here, joined⟩ := List.mem_filterMap.mp member
  obtain ⟨receipt, listed, id, found⟩ := receipt_of_numbered held here
  rw [found, Option.map_some, Option.some.injEq] at joined
  subst joined
  obtain ⟨calls, sound⟩ := held.sound
  have stored : n.row ∈ w.tables.observations := held.rows ▸ List.mem_map_of_mem here
  obtain ⟨answer, decoded⟩ := held.ledger.decodes receipt listed
  simp only [receiptRow] at decoded
  split at decoded
  · rename_i accepted
    rw [id] at accepted
    rw [HistoryItem.decodes, HistoryItem.of, accepted, Bool.true_and]
    exact (sound.rows n.row stored).accepted
  · cases decoded

theorem mem_historyRows {tables : Tables} {numbered : List Numbered}
    {query : HistoryQuery} {most : ℕ}
    {r : Numbered × ReceiptRow} (member : r ∈ Postgres.historyRows tables numbered query most) :
    r ∈ Postgres.joined tables numbered :=
  (List.mem_filter.mp ((List.mem_insertionSort _).mp (List.mem_of_mem_take member))).1

/-- The page that the history answers. -/
theorem history_answers (held : Held db w) (safe : w.taken ≤ maxSafeInteger)
    (query : HistoryQuery) :
    ∃ page, db.history query w.tables w.numbered = .ok page ∧
      page.items.map HistoryItem.label =
        (keysetPage Numbered.sequence
          ((below Numbered.sequence (w.matching query.subjectId) query.before).take
          (query.pageLimit + 1)) query.pageLimit).1.map Numbered.label ∧
      page.nextBefore =
        (keysetPage Numbered.sequence
          ((below Numbered.sequence (w.matching query.subjectId) query.before).take
          (query.pageLimit + 1)) query.pageLimit).2 := by
  have verified : db.verifyMigration w.tables = .ok () := by
    rw [Postgres.verifyMigration, if_pos held.migrated]
  have rows := historyRows_first held query (query.pageLimit + 1)
  have inside : ∀ r ∈ (Postgres.historyRows w.tables w.numbered query (query.pageLimit + 1)).take
      query.pageLimit,
      r ∈ Postgres.joined w.tables w.numbered := fun r member =>
        mem_historyRows (List.mem_of_mem_take member)
  have few : (((Postgres.historyRows w.tables w.numbered query (query.pageLimit + 1)).take
      query.pageLimit).map
      HistoryItem.of).any (fun item => maxSafeInteger < item.sequence) = false := by
    rw [List.any_eq_false]
    intro item member
    obtain ⟨r, here, rfl⟩ := List.mem_map.mp member
    have numbered : r.1 ∈ w.numbered := by
      rw [← joined_first held]
      exact List.mem_map_of_mem (inside r here)
    have bound := (held.bounded r.1 numbered).trans safe
    rw [HistoryItem.of, decide_eq_true_eq]
    exact not_lt.mpr bound
  have decodes : (((Postgres.historyRows w.tables w.numbered query (query.pageLimit + 1)).take
      query.pageLimit).map
      HistoryItem.of).all HistoryItem.decodes = true := by
    rw [List.all_eq_true]
    intro item member
    obtain ⟨r, here, rfl⟩ := List.mem_map.mp member
    exact item_decodes held (inside r here)
  have answer : db.history query w.tables w.numbered = .ok
      { items := ((Postgres.historyRows w.tables w.numbered query (query.pageLimit + 1)).take
        query.pageLimit).map
          HistoryItem.of
        nextBefore := if query.pageLimit <
          (Postgres.historyRows w.tables w.numbered query (query.pageLimit + 1)).length
          then (((Postgres.historyRows w.tables w.numbered query (query.pageLimit + 1)).take
            query.pageLimit).map
            HistoryItem.of).getLast?.map HistoryItem.sequence else none } := by
    unfold Postgres.history Postgres.reciting
    rw [verified]
    simp only [bind, Except.bind, few, decodes]
    rfl
  refine ⟨_, answer, ?_, ?_⟩
  · rw [keysetPage, ← rows, ← List.map_take, List.map_map, List.map_map]
    rfl
  · rw [keysetPage, ← rows, ← List.map_take, List.length_map, List.getLast?_map, List.getLast?_map,
      Option.map_map,
      Option.map_map]
    rfl

end Answers

theorem pageLimit_pos (query : HistoryQuery) : 0 < query.pageLimit := by
  unfold HistoryQuery.pageLimit
  omega

/-! The reader. -/

/-- What the reader has seen, against the observations `whole` that match and were committed before
its first page. -/
structure Follows (whole : List Numbered) (w : World) : Prop where
  /-- What is left lies below the cursor. -/
  going : ∀ k, w.cursor = .before k → (∃ n ∈ whole, n.sequence = k) ∧
    w.seen.map HistoryItem.label ++ (below Numbered.sequence whole (some k)).map Numbered.label =
      whole.reverse.map Numbered.label ∧
    below Numbered.sequence whole (some k) ≠ [] ∧ w.pages.length ≤ w.seen.length
  finished : w.cursor = .done → w.seen.map HistoryItem.label = whole.reverse.map Numbered.label ∧
    w.pages.length ≤ max 1 whole.length
  started : w.cursor ≠ .start

section Reader

variable {db : Postgres} {subjectId : Option Text} {s w u : World}

theorem matching_prefix (subjectId : Option Text) (grown : w.numbered <+: u.numbered) :
    w.matching subjectId <+: u.matching subjectId :=
  grown.filter _

theorem matching_increasing (subjectId : Option Text) (held : Held db w) :
    (w.matching subjectId).Pairwise fun a b => a.sequence < b.sequence := held.increasing.filter _

/-- Below a cursor lies what lay there when its observation was committed. -/
theorem below_matching (held : Held db w) (grown : s.numbered <+: w.numbered) {k : ℕ}
    (known : ∃ n ∈ s.matching subjectId, n.sequence = k) :
    below Numbered.sequence (w.matching subjectId) (some k) = below Numbered.sequence
      (s.matching subjectId) (some k) := by
  obtain ⟨later, more⟩ := matching_prefix subjectId grown
  obtain ⟨n, member, rfl⟩ := known
  have sorted := matching_increasing subjectId held
  rw [← more, List.pairwise_append] at sorted
  rw [← more]
  exact below_append fun a here => (sorted.2.2 n member a here).le

theorem seen_page {page : ObservationHistory} {cursor : Cursor} :
    World.seen { w with cursor, pages := w.pages ++ [page] } = w.seen ++ page.items := by
  simp [World.seen]

/-- One more page, of what is left. -/
theorem follows_page (held : Held db w) (safe : w.taken ≤ maxSafeInteger)
    {limit : Option ℤ} (step : w.page db subjectId limit = some u)
    (rest : List Numbered)
    (left : rest = below Numbered.sequence (s.matching subjectId)
      (w.cursor.query subjectId limit).before)
    (now : below Numbered.sequence (w.matching subjectId)
      (w.cursor.query subjectId limit).before = rest)
    (soFar : w.seen.map HistoryItem.label ++ rest.map Numbered.label =
      (s.matching subjectId).reverse.map Numbered.label)
    (count : w.pages.length ≤ w.seen.length) (some_ : rest = [] → w.pages = []) :
      Follows (s.matching subjectId) u := by
  obtain ⟨-, page, answer, rfl⟩ := page_cases step
  obtain ⟨found, answered, items, next⟩ :=
    history_answers held safe (w.cursor.query subjectId limit)
  rw [answer, Except.ok.injEq] at answered
  subst answered
  have filter : (w.cursor.query subjectId limit).subjectId = subjectId := rfl
  rw [filter, now] at items next
  have sorted : rest.Pairwise fun a b => b.sequence < a.sequence := by
    rw [← now]
    exact below_sorted (matching_increasing subjectId held) _
  have positive := pageLimit_pos (w.cursor.query subjectId limit)
  have total := congrArg List.length soFar
  simp only [List.length_append, List.length_map, List.length_reverse] at total
  by_cases few : rest.length ≤ (w.cursor.query subjectId limit).pageLimit
  · -- The last page.
    rw [keysetPage_last few] at items next
    have shown := congrArg List.length items
    rw [List.length_map, List.length_map] at shown
    refine ⟨?_, fun _ => ⟨?_, ?_⟩, ?_⟩
    · intro k cursor
      rw [next] at cursor
      cases cursor
    · rw [seen_page, List.map_append, items, soFar]
    · dsimp only
      rw [List.length_append, List.length_singleton]
      cases rest with
      | nil =>
        rw [some_ rfl]
        exact Nat.le_max_left _ _
      | cons n more =>
        rw [List.length_cons] at total
        omega
    · rw [next]
      nofun
  · obtain ⟨last, member, page_, after⟩ := keysetPage_more sorted positive (by omega)
    rw [page_] at items next
    have shown := congrArg List.length items
    rw [List.length_map, List.length_map, List.length_take] at shown
    have lower : below Numbered.sequence (s.matching subjectId) (some last.sequence) =
        rest.drop (w.cursor.query subjectId limit).pageLimit := by
      rw [← after, left]
      exact below_last (left ▸ member)
    refine ⟨?_, ?_, ?_⟩
    · intro k cursor
      rw [next] at cursor
      cases cursor
      refine ⟨⟨last, ?_, rfl⟩, ?_, ?_, ?_⟩
      · rw [left] at member
        exact (mem_below.mp member).1
      · rw [seen_page, List.map_append, items, lower, List.append_assoc, ← List.map_append,
          List.take_append_drop, soFar]
      · rw [lower, ne_eq, List.drop_eq_nil_iff]
        omega
      · rw [seen_page, List.length_append, List.length_append, List.length_singleton]
        omega
    · intro cursor
      rw [next] at cursor
      cases cursor
    · rw [next]
      nofun

theorem follows_first (held : Held db s) (safe : s.taken ≤ maxSafeInteger)
    (unread : s.cursor = .start)
    (fresh : s.pages = []) {limit : Option ℤ} (step : s.page db subjectId limit = some u) :
    Follows (s.matching subjectId) u := by
  have seen : s.seen = [] := by rw [World.seen, fresh, List.flatMap_nil]
  apply follows_page held safe step (s.matching subjectId).reverse
  · rw [unread]
    exact (below_start _).symm
  · rw [unread]
    exact below_start _
  · rw [seen]
    rfl
  · rw [fresh]
    exact Nat.zero_le _
  · exact fun _ => fresh

theorem follows_congr {whole : List Numbered} (follows : Follows whole w)
    (cursor : u.cursor = w.cursor)
    (pages : u.pages = w.pages) : Follows whole u := by
  have seen : u.seen = w.seen := by rw [World.seen, World.seen, pages]
  constructor
  · rw [cursor, pages, seen]
    exact follows.going
  · rw [cursor, pages, seen]
    exact follows.finished
  · rw [cursor]
    exact follows.started

theorem follows_step (held : Held db w) (safe : w.taken ≤ maxSafeInteger)
    (grown : s.numbered <+: w.numbered)
    (follows : Follows (s.matching subjectId) w) {event : Event}
    (step : w.advance db subjectId event = some u) :
    Follows (s.matching subjectId) u := by
  cases event with
  | lock writer call =>
    obtain rfl := lock_cases step
    exact follows_congr follows rfl rfl
  | insert writer =>
    obtain ⟨writing, -, rfl⟩ := insert_cases step
    exact follows_congr follows rfl rfl
  | lose =>
    cases step
    exact follows_congr follows rfl rfl
  | commit writer =>
    obtain ⟨writing, -, -, rfl⟩ := commit_cases step
    exact follows_congr follows rfl rfl
  | rollback writer =>
    obtain rfl := rollback_cases step
    exact follows_congr follows rfl rfl
  | page limit =>
    cases cursor : w.cursor with
    | start => exact absurd cursor follows.started
    | done => exact absurd cursor (page_cases step).1
    | before k =>
      obtain ⟨known, soFar, some_, count⟩ := follows.going k cursor
      apply follows_page held safe step (below Numbered.sequence (s.matching subjectId) (some k))
      · rw [cursor]
        rfl
      · rw [cursor]
        exact below_matching held grown known
      · exact soFar
      · exact count
      · exact fun empty => absurd empty some_

theorem reads_grows {events : List Event} (run : Reads db subjectId w events u) : Grows w u := by
  induction run with
  | nil => exact ⟨List.prefix_refl _, le_refl _⟩
  | cons step _ ih =>
    have first := advance_grows step
    exact ⟨first.numbered.trans ih.numbered, first.taken.trans ih.taken⟩

theorem reads_held {events : List Event} (run : Reads db subjectId w events u) (held : Held db w) :
    Held db u :=
  run.invariant (Held db) (fun _ _ _ step held => advance_held held step) held

theorem follows_run {events : List Event} (run : Reads db subjectId w events u) (held : Held db w)
    (safe : u.taken ≤ maxSafeInteger) (grown : s.numbered <+: w.numbered)
    (follows : Follows (s.matching subjectId) w) :
    Follows (s.matching subjectId) u := by
  induction run with
  | nil => exact follows
  | cons step rest ih =>
    have first := advance_grows step
    have small := (first.taken.trans (reads_grows rest).taken).trans safe
    exact ih (advance_held held step) safe (grown.trans first.numbered)
      (follows_step held small grown follows step)

/-- Before its first page the reader has seen nothing. -/
theorem unread_pages {events : List Event} (run : Reads db subjectId (.migrated db) events w)
    (unread : w.cursor = .start) : w.pages = [] := by
  have kept : w.cursor = .start → w.pages = [] := by
    apply run.invariant (fun w => w.cursor = .start → w.pages = [])
    · intro w event u step before cursor
      cases event with
      | lock writer call =>
        obtain rfl := lock_cases step
        exact before cursor
      | insert writer =>
        obtain ⟨writing, -, rfl⟩ := insert_cases step
        exact before cursor
      | lose =>
        cases step
        exact before cursor
      | commit writer =>
        obtain ⟨writing, -, -, rfl⟩ := commit_cases step
        exact before cursor
      | rollback writer =>
        obtain rfl := rollback_cases step
        exact before cursor
      | page limit =>
        obtain ⟨-, page, -, rfl⟩ := page_cases step
        cases next : page.nextBefore with
        | none =>
          rw [next] at cursor
          cases cursor
        | some k =>
          rw [next] at cursor
          cases cursor
    · exact fun _ => rfl
  exact kept unread

end Reader

/-- What a reader has seen in `t`, whose first page was asked for in `s`. -/
structure HistoryComplete (db : Postgres) (subjectId : Option Text) (s t : World) : Prop where
  /-- Every page is answered, and after so many there is no next one. -/
  answered : t.cursor ≠ .done → ∀ limit, ∃ u, t.page db subjectId limit = some u
  ends : t.cursor ≠ .done → t.pages.length < max 1 (s.matching subjectId).length
  descending : t.seen.Pairwise fun a b => b.sequence < a.sequence
  once : (t.seen.map fun item => idOf item.observation).Nodup
  committed : ∀ item ∈ t.seen, ∃ n ∈ s.matching subjectId, item.label = n.label
  complete : t.cursor = .done → t.seen.map HistoryItem.label = (s.matching subjectId).reverse.map
    Numbered.label

theorem follows_prefix {whole : List Numbered} {w : World} (follows : Follows whole w) :
    w.seen.map HistoryItem.label <+: whole.reverse.map Numbered.label := by
  cases cursor : w.cursor with
  | start => exact absurd cursor follows.started
  | before k => exact ⟨_, (follows.going k cursor).2.1⟩
  | done =>
    obtain ⟨all, -⟩ := follows.finished cursor
    exact all ▸ List.prefix_refl _

/-- The observations that match have ids of their own. -/
theorem matching_ids {db : Postgres} {w : World} (held : Held db w) (subjectId : Option Text) :
    ((w.matching subjectId).map fun n => idOf n.row.document).Nodup := by
  obtain ⟨calls, sound⟩ := held.sound
  have ids : (w.numbered.map fun n => n.row.id).Nodup := by
    have observations := held.ledger.observations
    rwa [← held.rows, List.map_map] at observations
  have documents : (w.matching subjectId).map (fun n => idOf n.row.document) =
      (w.matching subjectId).map fun n => n.row.id := by
    apply List.map_congr_left
    intro n member
    have stored : n.row ∈ w.tables.observations :=
      held.rows ▸ List.mem_map_of_mem (List.mem_filter.mp member).1
    exact (sound.rows n.row stored).id.symm
  rw [documents]
  exact ids.sublist (List.filter_sublist.map _)

theorem history_complete (db : Postgres) (subjectId : Option Text) {before after : List Event}
    {limit : Option ℤ}
    {s t : World} (reached : Reads db subjectId (.migrated db) before s)
    (unread : s.cursor = .start)
    (run : Reads db subjectId s (.page limit :: after) t) (safe : t.taken ≤ maxSafeInteger) :
    HistoryComplete db subjectId s t := by
  have held := reads_held reached (held_migrated db)
  have final := reads_held run held
  have follows : Follows (s.matching subjectId) t := by
    cases run with
    | cons step rest =>
      have first := advance_grows step
      have small := (first.taken.trans (reads_grows rest).taken).trans safe
      exact follows_run rest (advance_held held step) safe first.numbered
        (follows_first held small unread (unread_pages reached unread) step)
  obtain ⟨rest, more⟩ := follows_prefix follows
  constructor
  · intro going limit
    obtain ⟨page, answer, -⟩ := history_answers final safe (t.cursor.query subjectId limit)
    exact ⟨_, by rw [World.page, if_neg going, answer]⟩
  · intro going
    cases cursor : t.cursor with
    | start => exact absurd cursor follows.started
    | done => exact absurd cursor going
    | before k =>
      obtain ⟨-, whole, some_, count⟩ := follows.going k cursor
      have total := congrArg List.length whole
      have left := List.length_pos_iff.mpr some_
      simp only [List.length_append, List.length_map, List.length_reverse] at total
      omega
  · have sorted : ((s.matching subjectId).reverse.map Numbered.label).Pairwise fun a b =>
        b.1 < a.1 :=
      List.pairwise_map.mpr (List.pairwise_reverse.mpr (matching_increasing subjectId held))
    rw [← more, List.pairwise_append] at sorted
    exact List.pairwise_map.mp sorted.1
  · have ids := matching_ids held subjectId
    rw [← List.nodup_reverse, ← List.map_reverse] at ids
    have labels : ((s.matching subjectId).reverse.map Numbered.label).map (fun l => idOf l.2.2) =
        (s.matching subjectId).reverse.map fun n => idOf n.row.document := by
      rw [List.map_map]
      rfl
    rw [← labels, ← more, List.map_append, List.nodup_append, List.map_map] at ids
    exact ids.1
  · intro item member
    have shown : item.label ∈ (s.matching subjectId).reverse.map Numbered.label := by
      rw [← more]
      exact List.mem_append_left _ (List.mem_map_of_mem member)
    obtain ⟨n, listed, same⟩ := List.mem_map.mp shown
    exact ⟨n, List.mem_reverse.mp listed, same.symm⟩
  · exact fun done => (follows.finished done).1

def observationNamed (id : String) : Json := sampleObservation.put (lit "id") (.text (lit id))

/-- The append of a batch of some observations. -/
def appendOf (receipt : String) (ids : List String) : Call :=
  .append (sampleDb.contentDigest sampleCatalog)
    (.object [(lit "receiptId", .text (lit receipt)),
      (lit "observations", .array (ids.map observationNamed))])
    sampleNow sampleNow

/-- An import and two appends; in the first a value of the column is lost. -/
def sampleWrites : List Event := [.lock 0 sampleImport, .commit 0,
  .lock 1 (appendOf "r:1" ["o:1", "o:2"]), .insert 1, .lose, .insert 1, .commit 1,
  .lock 2 (appendOf "r:2" ["o:3"]), .insert 2, .commit 2]

/-- After the first page one writer commits another observation, and a second one rolls back. -/
def sampleReads : List Event :=
  [.page (some 2), .lock 3 (appendOf "r:3" ["o:4"]), .insert 3, .commit 3,
  .lock 4 .outage, .rollback 4, .page (some 2)]

theorem history_complete_sample : ∃ s t, s.cursor = .start ∧ (s.matching none).length = 3 ∧
    t.numbered.length = 4 ∧ t.pages.length = 2 ∧ t.cursor = .done ∧
      HistoryComplete sampleDb none s t := by
  have runs : ((follow (World.advance sampleDb none) (.migrated sampleDb) sampleWrites).any fun s =>
      decide (s.cursor = .start ∧ (s.matching none).length = 3) &&
        (follow (World.advance sampleDb none) s sampleReads).any fun t =>
          decide (t.numbered.length = 4 ∧ t.pages.length = 2 ∧ t.cursor = .done ∧
            t.taken ≤ maxSafeInteger)) = true := by
    decide +kernel
  obtain ⟨s, written, held⟩ := (Option.any_eq_true _ _).mp runs
  rw [Bool.and_eq_true, decide_eq_true_eq] at held
  obtain ⟨t, read, seen⟩ := (Option.any_eq_true _ _).mp held.2
  obtain ⟨four, two, done, safe⟩ := of_decide_eq_true seen
  exact ⟨s, t, held.1.1, held.1.2, four, two, done,
    history_complete sampleDb none (path_iff_follow _ |>.mpr written) held.1.1
      (path_iff_follow _ |>.mpr read) safe⟩

end Metahumotonic.Platform
