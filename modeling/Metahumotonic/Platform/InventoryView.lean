import Metahumotonic.Library.Selection
import Metahumotonic.Platform.ReadPath
import Mathlib

/-! What is shown of a catalog in memory (`ts/src/domain/PlatformInventory.ts`): the latest
observation of each check with its freshness, and the summary. -/
namespace Metahumotonic.Platform
open Metahumotonic.Library Json

inductive Freshness where
  | fresh
  | stale
  | notYetObserved
  deriving DecidableEq, Repr

def observationFreshness (observation : Json) (now : ℤ) : Freshness :=
  if now < timeOf (observedAtOf observation) then .notYetObserved
  else if timeOf (expiresAtOf observation) ≤ now then .stale else .fresh

structure ObservationView where
  observation : Json
  freshness : Freshness

/-- A later observation, or one of the same time with a larger id. -/
def supersedes (observation previous : Json) : Prop :=
  timeOf (observedAtOf previous) < timeOf (observedAtOf observation) ∨
    timeOf (observedAtOf observation) = timeOf (observedAtOf previous) ∧
      idOf previous < idOf observation

instance : DecidableRel supersedes := fun observation previous => by
  unfold supersedes; infer_instance

/-- The loop of `latestObservations`. -/
def latestByCheck (graph : Json) (subjectId : Text) : Table Text Json :=
  (observationsOf graph).foldl (fun latest observation =>
    if subjectIdOf observation ≠ subjectId then latest
    else
      match latest.get? (checkOf observation) with
      | none => latest.set (checkOf observation) observation
      | some previous =>
        if supersedes observation previous then latest.set (checkOf observation) observation
          else latest) .empty

section View

/- The sign of `localeCompare` tells which text comes first. -/
variable (localeCompare : Text → Text → ℤ)

def latestObservations (graph : Json) (subjectId : Text) (now : ℤ) : List ObservationView :=
  ((latestByCheck graph subjectId).values.insertionSort fun a b =>
    localeCompare (checkOf a) (checkOf b) ≤ 0).map
    fun observation => ⟨observation, observationFreshness observation now⟩

structure InventoryItem where
  node : Json
  observations : List ObservationView

def inventoryItem (graph node : Json) (now : ℤ) : InventoryItem :=
  ⟨node, latestObservations localeCompare graph (idOf node) now⟩

/-- How often each value occurs, by its first occurrence. -/
def count {A : Type*} [DecidableEq A] (values : List A) : Table A ℕ :=
  values.foldl (fun counts value => counts.set value ((counts.get? value).getD 0 + 1)) .empty

structure InventorySummary where
  nodes : ℕ
  edges : ℕ
  observations : ℕ
  byKind : Table Text ℕ
  byCategory : Table Text ℕ
  observationFreshness : Table Freshness ℕ
  programsWithoutOwner : List Text
  unclassifiedPrograms : List Text
  deploymentsWithoutObservations : List Text

def inventorySummary (graph : Json) (now : ℤ) : InventorySummary :=
  let program := fun node : Json => kindOf node = lit "program"
  let category := fun node : Json => node.textAt (lit "category")
  let observations := (nodesOf graph).flatMap fun node => latestObservations localeCompare graph
    (idOf node) now
  { nodes := (nodesOf graph).length
    edges := (edgesOf graph).length
    observations := (observationsOf graph).length
    byKind := count ((nodesOf graph).map kindOf)
    byCategory := count (((nodesOf graph).filter program).map fun node =>
      if category node = [] then lit "unclassified" else category node)
    observationFreshness := count (observations.map ObservationView.freshness)
    programsWithoutOwner := ((nodesOf graph).filter fun node =>
      program node ∧ node.textAt (lit "ownerRepositoryId") = []).map idOf
    unclassifiedPrograms :=
      ((nodesOf graph).filter fun node => program node ∧ category node = []).map idOf
    deploymentsWithoutObservations := ((nodesOf graph).filter fun node =>
      kindOf node = lit "deployment" ∧ ∀ o ∈ observations,
        subjectIdOf o.observation ≠ idOf node).map idOf }

end View

/-! What the loop keeps. -/

/-- The key by which observations supersede each other. -/
def latestKey (observation : Json) : Lex (ℤ × Text) :=
  toLex (timeOf (observedAtOf observation), idOf observation)

theorem supersedes_iff (observation previous : Json) :
    supersedes observation previous ↔ latestKey previous < latestKey observation := by
  rw [supersedes, latestKey, latestKey, Prod.Lex.toLex_lt_toLex]
  constructor
  · rintro (later | ⟨same, larger⟩)
    · exact .inl later
    · exact .inr ⟨same.symm, larger⟩
  · rintro (later | ⟨same, larger⟩)
    · exact .inl later
    · exact .inr ⟨same.symm, larger⟩

theorem latestByCheck_keepBest (graph : Json) (subjectId : Text) :
    latestByCheck graph subjectId =
      keepBest checkOf latestKey ((observationsOf graph).filter fun o =>
        subjectIdOf o = subjectId) := by
  rw [latestByCheck, keepBest, List.foldl_filter]
  congr 1
  funext latest observation
  by_cases mine : subjectIdOf observation = subjectId
  · cases latest.get? (checkOf observation) with
    | none => simp [mine]
    | some previous => simp [mine, supersedes_iff]
  · simp [mine]

/-- The observations of a subject and a check. -/
def groupIn (subjectId check : Text) (observations : List Json) : List Json :=
  observations.filter fun o => subjectIdOf o = subjectId ∧ checkOf o = check

theorem latestByCheck_get? (graph : Json) (subjectId check : Text) :
    (latestByCheck graph subjectId).get? check =
    (groupIn subjectId check (observationsOf graph)).argmax latestKey := by
  rw [latestByCheck_keepBest, get?_keepBest, List.filter_filter, groupIn]
  congr 2
  funext o
  simp [and_comm]

theorem checkOf_latest {graph observation : Json} {subjectId check : Text}
    (found : (latestByCheck graph subjectId).get? check = some observation) :
    subjectIdOf observation = subjectId ∧ checkOf observation = check := by
  rw [latestByCheck_get?] at found
  simpa using (List.mem_filter.mp (List.argmax_mem found)).2

/-- The observation that is shown for a check. -/
def shown (views : List ObservationView) (check : Text) : Option Json :=
  (views.find? fun view => checkOf view.observation = check).map ObservationView.observation

theorem mem_values_latest {graph observation : Json} {subjectId : Text} :
    observation ∈ (latestByCheck graph subjectId).values ↔
      (latestByCheck graph subjectId).get? (checkOf observation) = some observation := by
  rw [Table.mem_values]
  constructor
  · rintro ⟨check, found⟩
    rw [(checkOf_latest found).2]
    exact found
  · exact fun found => ⟨_, found⟩

theorem shown_latest (localeCompare : Text → Text → ℤ) (graph : Json)
    (subjectId check : Text) (now : ℤ) :
    shown (latestObservations localeCompare graph subjectId now) check =
      (latestByCheck graph subjectId).get? check := by
  have views : shown (latestObservations localeCompare graph subjectId now) check =
      ((latestByCheck graph subjectId).values.insertionSort fun a b =>
        localeCompare (checkOf a) (checkOf b) ≤ 0).find? fun o => checkOf o = check := by
    rw [shown, latestObservations, List.find?_map, Option.map_map]
    simp [Function.comp_def]
  rw [views]
  cases found : (latestByCheck graph subjectId).get? check with
  | none =>
    rw [List.find?_eq_none]
    intro o member same
    have there : checkOf o = check := by simpa using same
    rw [List.mem_insertionSort, mem_values_latest, there, found] at member
    cases member
  | some o =>
    have here := (checkOf_latest found).2
    have member : o ∈ (latestByCheck graph subjectId).values :=
      mem_values_latest.mpr (by rw [here, found])
    obtain ⟨p, first⟩ : ∃ p, (((latestByCheck graph subjectId).values.insertionSort fun a b =>
        localeCompare (checkOf a) (checkOf b) ≤ 0).find? fun o => checkOf o = check) = some p := by
      apply Option.isSome_iff_exists.mp
      rw [List.find?_isSome]
      exact ⟨o, (List.mem_insertionSort _).mpr member, by simpa using here⟩
    have same : checkOf p = check := by simpa using List.find?_some first
    have inside := List.mem_of_find?_eq_some first
    rw [List.mem_insertionSort, mem_values_latest, same, found] at inside
    rw [first, inside]

end Metahumotonic.Platform
