import Metahumotonic.Library.Run
import Metahumotonic.Feedback.Stores

/-! The list in memory mirrors the collection: it holds the decoded documents, the last one
saved first. What the two stores answer follows from that, call by call. -/
namespace Metahumotonic.Feedback
open Metahumotonic.Library FeedbackStoreLive

theorem newDate_nowIso (now : Moment) : newDate now.nowIso = now.ms := by
  rw [newDate, Moment.nowIso, IsoDate.dateParse_toISOString now.earliest now.latest,
    Option.getD_some]

section Memory

variable {id : Text} {items front back : List FeedbackRecord} {record : FeedbackRecord}

theorem memory_triage_absent (absent : ∀ r ∈ items, r.id ≠ id) (status : FeedbackStatus)
    (note now : Text) :
    FeedbackStoreMemory.triage items id status note now = (.failed .conflict, items) := by
  have missing : items.findIdx? (·.id == id) = none := by
    rw [List.findIdx?_eq_none_iff]
    intro r member
    exact beq_false_of_ne (absent r member)
  simp only [FeedbackStoreMemory.triage, missing, Option.bind_none]

/-- The first record of the id is looked at and replaced where it stands. -/
theorem memory_triage_split (absent : ∀ r ∈ front, r.id ≠ id) (here : record.id = id)
    (status : FeedbackStatus) (note now : Text) :
    FeedbackStoreMemory.triage (front ++ record :: back) id status note now =
      if record.status ∈ allowedFrom status then
        (.triaged { record with status, operatorNote := note, reviewedAt := some now },
          front ++ { record with status, operatorNote := note, reviewedAt := some now } :: back)
      else (.failed .conflict, front ++ record :: back) := by
  have missing : front.findIdx? (·.id == id) = none := by
    rw [List.findIdx?_eq_none_iff]
    intro r member
    exact beq_false_of_ne (absent r member)
  have found : (front ++ record :: back).findIdx? (·.id == id) = some front.length := by
    rw [List.findIdx?_append, missing, List.findIdx?_cons, here]
    simp
  have same : (front ++ record :: back)[front.length]? = some record := by
    simp
  simp only [FeedbackStoreMemory.triage, found, Option.bind_some, same, Option.map_some]
  split
  · simp
  · rfl

end Memory

section Database

variable {id : Text} {collection : Collection} {front back : List (Text × Document)}
    {document : Document}

/-- Where the one document of the id stands. -/
theorem split_collection (split : collection.entries = front ++ (id, document) :: back) :
    (∀ row ∈ front, row.1 ≠ id) ∧ ∀ row ∈ back, row.1 ≠ id := by
  have distinct := collection.nodup
  rw [split, List.map_append, List.map_cons, List.nodup_append, List.nodup_cons] at distinct
  constructor
  · intro row member same
    exact distinct.2.2 row.1 (List.mem_map_of_mem member) id List.mem_cons_self same
  · intro row member same
    have repeated : row.1 ∈ back.map Prod.fst := List.mem_map_of_mem member
    exact distinct.2.1.1 (same ▸ repeated)

theorem set_split (split : collection.entries = front ++ (id, document) :: back)
    (fresh : Document) :
    (collection.set id fresh).entries = front ++ (id, fresh) :: back := by
  have absent := (split_collection split).1
  have entries : (collection.set id fresh).entries = setEntry id fresh collection.entries := rfl
  rw [entries, split]
  clear split entries
  induction front with
  | nil => simp [setEntry]
  | cons row front ih =>
    rw [List.cons_append, setEntry, if_neg (absent row List.mem_cons_self),
      ih fun later member => absent later (List.mem_cons_of_mem _ member)]
    rfl

/-- The filter asks of the document what the table of transitions asks of the record. -/
theorem selected_iff (status : FeedbackStatus) (row : Text × Document) :
    selected id status row = true ↔ row.1 = id ∧
      (decodeRecord row).status ∈ allowedFrom status := by
  obtain ⟨key, document⟩ := row
  simp only [selected, Bool.and_eq_true, decide_eq_true_eq]
  apply and_congr_right'
  rcases document with ⟨_, _, _, _, _, _, _, before, _, _⟩
  cases status <;> rcases before with _ | _ | _ | _ | _ <;>
    simp [decodeRecord, allowed, allowedFrom]

theorem live_triage_absent (absent : ∀ row ∈ collection.entries, row.1 ≠ id)
    (status : FeedbackStatus)
    (note now : Text) :
    FeedbackStoreLive.triage collection id status note now = (.failed .conflict, collection) := by
  have missing : collection.entries.find? (selected id status) = none := by
    rw [List.find?_eq_none]
    intro row member chosen
    exact absent row member ((selected_iff status row).mp chosen).1
  simp only [FeedbackStoreLive.triage, missing]

theorem live_triage_split (split : collection.entries = front ++ (id, document) :: back)
    (status : FeedbackStatus) (note now : Text) :
    FeedbackStoreLive.triage collection id status note now =
      if (decodeRecord (id, document)).status ∈ allowedFrom status then
        (.triaged { decodeRecord (id, document) with
            status, operatorNote := note, reviewedAt := some (IsoDate.toISOString (newDate now)) },
          collection.set id { document with
            status := some status, operatorNote := note, reviewedAt := some (newDate now) })
      else (.failed .conflict, collection) := by
  have passed : front.find? (selected id status) = none := by
    rw [List.find?_eq_none]
    intro row member chosen
    exact (split_collection split).1 row member ((selected_iff status row).mp chosen).1
  by_cases met : (decodeRecord (id, document)).status ∈ allowedFrom status
  · have chosen : selected id status (id, document) = true := (selected_iff status _).mpr ⟨rfl, met⟩
    have found : collection.entries.find? (selected id status) = some (id, document) := by
      rw [split, List.find?_append, passed, List.find?_cons, chosen]
      rfl
    simp only [FeedbackStoreLive.triage, found, if_pos met]
    rfl
  · have missing : collection.entries.find? (selected id status) = none := by
      rw [List.find?_eq_none]
      intro row member chosen
      obtain ⟨same, allowed⟩ := (selected_iff status row).mp chosen
      rw [split] at member
      rcases List.mem_append.mp member with early | late
      · exact (split_collection split).1 row early same
      · rcases List.mem_cons.mp late with rfl | later
        · exact met allowed
        · exact (split_collection split).2 row later same
    simp only [FeedbackStoreLive.triage, missing, if_neg met]

end Database

/-- The items are the decoded documents, and the last one saved comes first. -/
structure Mirrors (items : List FeedbackRecord) (collection : Collection) : Prop where
  records : items = (collection.entries.map decodeRecord).reverse
  ordered : (collection.entries.map (·.2.createdAt)).Pairwise (· < ·)

theorem Mirrors.initial : Mirrors [] Table.empty := ⟨rfl, .nil⟩

section Mirrored

variable {items : List FeedbackRecord} {collection : Collection}

theorem decodeRecord_id (row : Text × Document) : (decodeRecord row).id = row.1 := rfl

theorem Mirrors.ids (mirrors : Mirrors items collection) (r : FeedbackRecord) :
    r ∈ items ↔ ∃ row ∈ collection.entries, decodeRecord row = r := by
  rw [mirrors.records, List.mem_reverse, List.mem_map]

theorem Mirrors.absent (mirrors : Mirrors items collection) {id : Text}
    (missing : id ∉ collection.keys) :
    (∀ row ∈ collection.entries, row.1 ≠ id) ∧ ∀ r ∈ items, r.id ≠ id := by
  have rows : ∀ row ∈ collection.entries, row.1 ≠ id := by
    intro row member same
    exact missing (List.mem_map.mpr ⟨row, member, same⟩)
  refine ⟨rows, ?_⟩
  intro r member
  obtain ⟨row, there, rfl⟩ := (mirrors.ids r).mp member
  exact rows row there

/-- The two places of an id that is stored. -/
theorem Mirrors.split (mirrors : Mirrors items collection) {id : Text}
    (stored : id ∈ collection.keys) :
    ∃ front document back, collection.entries = front ++ (id, document) :: back ∧
      items = (back.map decodeRecord).reverse ++ decodeRecord (id, document) ::
        (front.map decodeRecord).reverse := by
  obtain ⟨⟨key, document⟩, member, rfl⟩ := List.mem_map.mp stored
  obtain ⟨front, back, split⟩ := List.append_of_mem member
  refine ⟨front, document, back, split, ?_⟩
  rw [mirrors.records, split]
  simp

/-- A document that keeps its time is replaced in both stores at once. -/
theorem Mirrors.replace (mirrors : Mirrors items collection) {id : Text}
    {front back : List (Text × Document)}
    {document fresh : Document} (split : collection.entries = front ++ (id, document) :: back)
    (same : fresh.createdAt = document.createdAt) :
    Mirrors ((back.map decodeRecord).reverse ++ decodeRecord (id, fresh) ::
      (front.map decodeRecord).reverse)
      (collection.set id fresh) where
  records := by
    rw [set_split split]
    simp
  ordered := by
    have ordered := mirrors.ordered
    rw [split, List.map_append, List.map_cons] at ordered
    rwa [set_split split, List.map_append, List.map_cons, same]

theorem Mirrors.triage (mirrors : Mirrors items collection) (id : Text) (status : FeedbackStatus)
    (note : Text)
    (now : Moment) :
    (FeedbackStoreMemory.triage items id status note now.nowIso).1 =
        (FeedbackStoreLive.triage collection id status note now.nowIso).1 ∧
      Mirrors (FeedbackStoreMemory.triage items id status note now.nowIso).2
        (FeedbackStoreLive.triage collection id status note now.nowIso).2 := by
  by_cases stored : id ∈ collection.keys
  · obtain ⟨front, document, back, split, rfl⟩ := mirrors.split stored
    have absent : ∀ r ∈ (back.map decodeRecord).reverse, r.id ≠ id := by
      intro r member
      obtain ⟨row, there, rfl⟩ := List.mem_map.mp (List.mem_reverse.mp member)
      exact (split_collection split).2 row there
    rw [memory_triage_split absent (decodeRecord_id _), live_triage_split split]
    split
    · rw [newDate_nowIso]
      have replaced : Mirrors _ (collection.set id { document with
          status := some status, operatorNote := note, reviewedAt := some now.ms }) :=
            mirrors.replace split rfl
      exact ⟨rfl, replaced⟩
    · exact ⟨rfl, mirrors⟩
  · obtain ⟨rows, records⟩ := mirrors.absent stored
    rw [memory_triage_absent records, live_triage_absent rows]
    exact ⟨rfl, mirrors⟩

theorem Mirrors.erase (mirrors : Mirrors items collection) (id : Text) :
    (FeedbackStoreMemory.erase items id).1 = (FeedbackStoreLive.erase collection id).1 ∧
      Mirrors (FeedbackStoreMemory.erase items id).2 (FeedbackStoreLive.erase collection id).2 := by
  constructor
  · have gone : (items.filter (·.id ≠ id)).length ≠ items.length ↔ id ∈ collection.keys := by
      rw [Ne, List.length_filter_eq_length_iff]
      constructor
      · intro some
        by_contra missing
        exact some fun r member => decide_eq_true ((mirrors.absent missing).2 r member)
      · intro stored all
        obtain ⟨front, document, back, -, rfl⟩ := mirrors.split stored
        have kept := all (decodeRecord (id, document)) (by simp)
        exact of_decide_eq_true kept rfl
    simp only [FeedbackStoreMemory.erase, FeedbackStoreLive.erase, gone]
  · constructor
    · simp only [FeedbackStoreMemory.erase, FeedbackStoreLive.erase, Table.erase, Table.filter,
        mirrors.records,
        List.filter_reverse, List.filter_map]
      rfl
    · exact mirrors.ordered.sublist (List.Sublist.map _ List.filter_sublist)

theorem Mirrors.save (mirrors : Mirrors items collection) (input : FeedbackRequest) {id : Text}
    (fresh : id ∉ collection.keys) {now : Moment} (later : ∀ row ∈ collection.entries,
      row.2.createdAt < now.ms) :
    (FeedbackStoreLive.save collection input id now.nowIso).1 = .saved ⟨id, .stored⟩ ∧
      Mirrors (FeedbackStoreMemory.save items input id now.nowIso).2
        (FeedbackStoreLive.save collection input id now.nowIso).2 := by
  simp only [FeedbackStoreLive.save, if_neg fresh, newDate_nowIso, true_and]
  constructor
  · rw [collection.entries_set_new _ fresh, List.map_append, List.reverse_append, ← mirrors.records]
    rfl
  · rw [collection.entries_set_new _ fresh, List.map_append, List.pairwise_append]
    refine ⟨mirrors.ordered, List.pairwise_singleton _ _, ?_⟩
    intro early member late last
    obtain ⟨row, there, rfl⟩ := List.mem_map.mp member
    obtain rfl := List.mem_singleton.mp last
    exact later row there

theorem orderedInsert_last {α : Type*} {r : α → α → Prop} [DecidableRel r] {a : α} {l : List α}
    (after : ∀ b ∈ l, ¬ r a b) : l.orderedInsert r a = l ++ [a] := by
  induction l with
  | nil => rfl
  | cons b l ih =>
    rw [List.orderedInsert_cons, if_neg (after b List.mem_cons_self),
      ih fun c member => after c (List.mem_cons_of_mem _ member), List.cons_append]

/-- Sorting by time turns the documents around. -/
theorem newest_first {rows : List (Text × Document)}
    (ordered : (rows.map (·.2.createdAt)).Pairwise (· < ·)) :
    (rows.insertionSort fun a b => b.2.createdAt ≤ a.2.createdAt) = rows.reverse := by
  induction rows with
  | nil => rfl
  | cons row rows ih =>
    rw [List.map_cons, List.pairwise_cons] at ordered
    rw [List.insertionSort_cons, ih ordered.2, List.reverse_cons]
    apply orderedInsert_last
    intro other member
    exact not_le.mpr (ordered.1 _ (List.mem_map_of_mem (List.mem_reverse.mp member)))

theorem Mirrors.list (mirrors : Mirrors items collection) {limit : ℕ} (positive : 1 ≤ limit) :
    FeedbackStoreMemory.list items limit = FeedbackStoreLive.list collection limit ↔
      items.length ≤ limit := by
  have unbounded : ¬ limit = 0 := Nat.ne_of_gt positive
  simp only [FeedbackStoreMemory.list, FeedbackStoreLive.list, newest_first mirrors.ordered,
    if_neg unbounded,
    List.map_take, List.map_reverse, ← mirrors.records, Reply.listed.injEq, Page.mk.injEq, true_and,
    List.length_take]
  omega

end Mirrored

end Metahumotonic.Feedback
