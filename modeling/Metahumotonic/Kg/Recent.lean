import Metahumotonic.Library.Blank
import Metahumotonic.Library.Newest
import Mathlib.Data.List.Lex

/-! The unified feed of findings, lessons and consensus records (`recent` and `mergeRecent` of
`ts/src/ports/KgPort.ts`). -/
namespace Metahumotonic.Kg.Recent

open Library

structure FindingRecord where
  name : Text
  finding : Text
  axis : Text
  subAxis : Text
  createdAt : Text
  deriving DecidableEq, Repr

structure LessonRecord where
  name : Text
  problem : Text
  solution : Text
  wrongAssumption : Text
  truth : Text
  createdAt : Text
  deriving DecidableEq, Repr

structure ConsensusRecord where
  name : Text
  summary : Text
  createdAt : Text
  deriving DecidableEq, Repr

inductive ItemType where
  | finding
  | lesson
  | consensus
  deriving DecidableEq, Repr

structure RecentItem where
  type : ItemType
  name : Text
  title : Text
  summary : Text
  createdAt : Text
  deriving DecidableEq, Repr

/-- `[\s·]` -/
def titleBlank (c : Nat) : Bool := jsBlank c || c == 0xB7

def ofFinding (f : FindingRecord) : RecentItem :=
  let title := trim titleBlank (f.axis ++ [0x20, 0xB7, 0x20] ++ f.subAxis)
  { type := .finding
    name := f.name
    title := if title = [] then lit "ResearchFinding" else title
    summary := f.finding
    createdAt := f.createdAt }

def ofLesson (l : LessonRecord) : RecentItem :=
  { type := .lesson
    name := l.name
    title := if l.problem = [] then l.name else l.problem
    summary := if l.truth ≠ [] then l.wrongAssumption ++ [0x20, 0x2192, 0x20] ++ l.truth
      else l.solution
    createdAt := l.createdAt }

def ofConsensus (c : ConsensusRecord) : RecentItem :=
  { type := .consensus
    name := c.name
    title := c.name
    summary := c.summary
    createdAt := c.createdAt }

def itemsOf (findings : List FindingRecord) (lessons : List LessonRecord)
    (consensus : List ConsensusRecord) :
    List RecentItem :=
  findings.map ofFinding ++ lessons.map ofLesson ++ consensus.map ofConsensus

/-- `localeCompare` tells by its sign which text comes first. -/
def mergeRecent (localeCompare : Text → Text → Int) (findings : List FindingRecord)
    (lessons : List LessonRecord)
    (consensus : List ConsensusRecord) (limit : Nat) : List RecentItem :=
  ((itemsOf findings lessons consensus).mergeSort fun a b => localeCompare b.createdAt a.createdAt ≤
    0).take limit

/-- The records of a graph, each kind in the order in which its statement returns it: newest first.
-/
structure Content where
  findings : List FindingRecord
  lessons : List LessonRecord
  consensus : List ConsensusRecord
  findingsSorted : findings.Pairwise fun a b => b.createdAt < a.createdAt
  lessonsSorted : lessons.Pairwise fun a b => b.createdAt < a.createdAt
  consensusSorted : consensus.Pairwise fun a b => b.createdAt < a.createdAt

namespace Content

variable (content : Content)

def items : List RecentItem := itemsOf content.findings content.lessons content.consensus

/-- No two records were made at one time. -/
def Distinct : Prop := (content.items.map RecentItem.createdAt).Nodup

/-- What the statements return under a limit for findings and lessons, and one for consensus
records. -/
def cut (per perConsensus : Nat) : Content where
  findings := content.findings.take per
  lessons := content.lessons.take per
  consensus := content.consensus.take perConsensus
  findingsSorted := content.findingsSorted.sublist (List.take_sublist _ _)
  lessonsSorted := content.lessonsSorted.sublist (List.take_sublist _ _)
  consensusSorted := content.consensusSorted.sublist (List.take_sublist _ _)

end Content

def perSource (limit : Nat) : Nat := max 8 (min limit 40)

/-- What `recent` reads of a graph that answers. -/
def readFor (content : Content) (limit : Nat) : Content := content.cut (perSource limit)
    (min (perSource limit) 25)

def recent (localeCompare : Text → Text → Int) (content : Content) (limit : Nat) :
    List RecentItem :=
  let read := readFor content limit
  mergeRecent localeCompare read.findings read.lessons read.consensus limit

/-- The locale orders the times of the graph as their code units do. -/
def Agrees (localeCompare : Text → Text → Int) (content : Content) : Prop :=
  ∀ a ∈ content.items, ∀ b ∈ content.items,
    localeCompare a.createdAt b.createdAt ≤ 0 ↔ a.createdAt ≤ b.createdAt

section Laws

variable {localeCompare : Text → Text → Int} {content : Content} {limit : Nat}

theorem cut_sublist (content : Content) (per perConsensus : Nat) :
    (content.cut per perConsensus).items.Sublist content.items :=
  ((((List.take_sublist _ _).map _).append ((List.take_sublist _ _).map _)).append
    ((List.take_sublist _ _).map _))

theorem nodup_of_distinct (distinct : content.Distinct) : content.items.Nodup :=
  List.Nodup.of_map _ distinct

/-- The feed is newest of what was read. -/
theorem recent_newest (agrees : Agrees localeCompare content) (distinct : content.Distinct)
    (limit : Nat) :
    Newest RecentItem.createdAt limit (readFor content limit).items
      (recent localeCompare content limit) := by
  have sublist : (readFor content limit).items.Sublist content.items := cut_sublist content _ _
  have order : ((readFor content limit).items.mergeSort fun a b =>
      localeCompare b.createdAt a.createdAt ≤ 0) =
      (readFor content limit).items.mergeSort fun a b => b.createdAt ≤ a.createdAt := by
    have same := List.map_mergeSort (f := id) (l := (readFor content limit).items)
      (r := fun a b => localeCompare b.createdAt a.createdAt ≤ 0)
      (s := fun a b => b.createdAt ≤ a.createdAt)
      fun a ha b hb => decide_eq_decide.mpr (agrees b (sublist.subset hb) a (sublist.subset ha))
    simpa using same
  have newest := newest_mergeSort ((sublist.map RecentItem.createdAt).nodup distinct) limit
  rw [← order] at newest
  exact newest

/-- What a source has at or before its cut. -/
theorem mem_cut_of_mem {newest : List RecentItem}
    (newest_ : Newest RecentItem.createdAt limit content.items newest)
    {per perConsensus : Nat} (deep : limit ≤ per) (deepConsensus : limit ≤ perConsensus)
    {item : RecentItem}
    (member : item ∈ newest) : item ∈ (content.cut per perConsensus).items := by
  have kinds := newest_.within item member
  simp only [Content.items, itemsOf, Content.cut, List.mem_append, List.map_take] at kinds ⊢
  rcases kinds with (finding | lesson) | consensus
  · refine .inl (.inl
      (newest_.take_keeps ?_ (List.pairwise_map.mpr content.findingsSorted) deep member finding))
    exact fun b there => List.mem_append_left _ (List.mem_append_left _ there)
  · refine .inl (.inr
      (newest_.take_keeps ?_ (List.pairwise_map.mpr content.lessonsSorted) deep member lesson))
    exact fun b there => List.mem_append_left _ (List.mem_append_right _ there)
  · refine .inr (newest_.take_keeps ?_ (List.pairwise_map.mpr content.consensusSorted) deepConsensus
      member consensus)
    exact fun b there => List.mem_append_right _ there

end Laws

/-- The feed is the newest of what was read of the three sources, and of everything exactly if none
of the newest items lies behind the cut of its source, as is so up to a limit of 25. -/
structure Feed (content : Content) (limit : Nat) (feed : List RecentItem) : Prop where
  ofRead : Newest RecentItem.createdAt limit (readFor content limit).items feed
  ofAll_iff : Newest RecentItem.createdAt limit content.items feed ↔
    ∀ newest, Newest RecentItem.createdAt limit content.items newest →
      ∀ item ∈ newest, item ∈ (readFor content limit).items
  short : limit ≤ 25 → Newest RecentItem.createdAt limit content.items feed

theorem recent_feed (localeCompare : Text → Text → Int) (content : Content)
    (distinct : content.Distinct)
    (agrees : Agrees localeCompare content) (limit : Nat) :
    Feed content limit (recent localeCompare content limit) := by
  have feed := recent_newest agrees distinct limit
  have sublist : (readFor content limit).items.Sublist content.items := cut_sublist content _ _
  have ofAll : (∀ newest, Newest RecentItem.createdAt limit content.items newest →
      ∀ item ∈ newest, item ∈ (readFor content limit).items) →
      Newest RecentItem.createdAt limit content.items (recent localeCompare content limit) := by
    intro holds
    have newest_ : Newest RecentItem.createdAt limit content.items _ :=
      newest_mergeSort distinct limit
    have ofPart := newest_.of_part (fun b there => sublist.subset there)
      (sublist.nodup (nodup_of_distinct distinct)) (holds _ newest_)
    rw [feed.unique ofPart]
    exact newest_
  refine ⟨feed, ⟨fun all newest newest_ item member => ?_, ofAll⟩, fun short => ofAll ?_⟩
  · rw [newest_.unique all] at member
    exact feed.within item member
  · intro newest newest_ item member
    exact mem_cut_of_mem newest_ (by unfold perSource; omega) (by unfold perSource; omega) member

/-- Code units, told by a sign. -/
def unitOrder (a b : Text) : Int := if a < b then -1 else if b < a then 1 else 0

theorem unitOrder_agrees (content : Content) : Agrees unitOrder content := by
  intro a _ b _
  unfold unitOrder
  split_ifs with less more
  · exact iff_of_true (by decide) less.le
  · exact iff_of_false (by decide) (not_le_of_gt more)
  · exact iff_of_true (le_refl 0) (not_lt.mp more)

def januaryDay (day : Nat) : Text := lit "2026-01-" ++ [48 + day / 10, 48 + day % 10]

def threeRecords : Content where
  findings := [⟨lit "f2", lit "later", lit "A", lit "B", januaryDay 9⟩,
    ⟨lit "f1", lit "first", [], [], januaryDay 2⟩]
  lessons := [⟨lit "l1", lit "p", lit "s", lit "w", lit "t", januaryDay 4⟩]
  consensus := []
  findingsSorted := by decide
  lessonsSorted := by decide
  consensusSorted := by decide

theorem recent_feed_sample : Feed threeRecords 2 (recent unitOrder threeRecords 2) :=
  recent_feed unitOrder threeRecords (by unfold Content.Distinct; decide) (unitOrder_agrees _) 2

def manyConsensus : Content where
  findings := []
  lessons := []
  consensus := (List.range 26).map fun i => ⟨lit "c", lit "s", januaryDay (31 - i)⟩
  findingsSorted := by decide
  lessonsSorted := by decide
  consensusSorted := by decide

/-- Of 26 consensus records, a feed of 26 shows 25. -/
theorem feed_misses_consensus :
    ∃ (content : Content) (limit : Nat), 1 ≤ limit ∧ limit ≤ 100 ∧ content.Distinct ∧
      Agrees unitOrder content ∧
      ¬ Newest RecentItem.createdAt limit content.items (recent unitOrder content limit) := by
  have distinct : manyConsensus.Distinct := by unfold Content.Distinct; decide
  refine ⟨manyConsensus, 26, by decide, by decide, distinct, unitOrder_agrees _, fun newest => ?_⟩
  have all := newest.size
  have read := (recent_newest (unitOrder_agrees manyConsensus) distinct 26).size
  rw [all] at read
  exact absurd read (by decide)

end Metahumotonic.Kg.Recent
