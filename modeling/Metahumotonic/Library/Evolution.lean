import Mathlib.Data.List.Destutter

/-! What is observed of a run at its states, where an observation that is lost never returns:
without the repetitions it goes along the relation that the steps follow. -/
namespace Metahumotonic.Library

variable {σ : Type*} {R : σ → σ → Prop}

/-- How an observation changes in a step. -/
inductive Evolves (R : σ → σ → Prop) : Option σ → Option σ → Prop where
  | kept (o : Option σ) : Evolves R o o
  | moved {a b : σ} (move : R a b) : Evolves R (some a) (some b)
  | lost (o : Option σ) : Evolves R o none

theorem nothing_after_loss {later : List (Option σ)} (chain : (none :: later).IsChain (Evolves R)) :
    later.filterMap id = [] := by
  induction later with
  | nil => rfl
  | cons o later ih =>
    obtain ⟨head, rest⟩ := List.isChain_cons_cons.mp chain
    have gone : o = none := by cases head <;> rfl
    subst gone
    exact ih rest

variable [DecidableEq σ]

theorem changes_from (differ : ∀ a b, R a b → a ≠ b) (a : σ) (later : List (Option σ))
    (chain : (some a :: later).IsChain (Evolves R)) :
    ∃ tail, (later.filterMap id).destutter' (· ≠ ·) a = a :: tail ∧ (a :: tail).IsChain R := by
  induction later generalizing a with
  | nil => exact ⟨[], rfl, .singleton a⟩
  | cons o later ih =>
    obtain ⟨head, rest⟩ := List.isChain_cons_cons.mp chain
    cases head with
    | kept =>
      obtain ⟨tail, changes, moves⟩ := ih a rest
      exact ⟨tail, (List.destutter'_cons_neg _ (not_not.mpr rfl)).trans changes, moves⟩
    | @moved _ b move =>
      obtain ⟨tail, changes, moves⟩ := ih b rest
      refine ⟨b :: tail, ?_, .cons_cons move moves⟩
      exact (List.destutter'_cons_pos _ (differ a b move)).trans (congrArg (a :: ·) changes)
    | lost =>
      refine ⟨[], ?_, .singleton a⟩
      have nothing : later.filterMap id = [] := nothing_after_loss rest
      rw [List.filterMap_cons_none rfl, nothing]
      rfl

theorem changes_follow (differ : ∀ a b, R a b → a ≠ b) (observations : List (Option σ))
    (chain : observations.IsChain (Evolves R)) :
    ((observations.filterMap id).destutter (· ≠ ·)).IsChain R := by
  cases observations with
  | nil => exact .nil
  | cons o later =>
    cases o with
    | none =>
      have nothing : later.filterMap id = [] := nothing_after_loss chain
      rw [List.filterMap_cons_none rfl, nothing]
      exact .nil
    | some a =>
      obtain ⟨tail, changes, moves⟩ := changes_from differ a later chain
      have first : ((some a :: later).filterMap id).destutter (· ≠ ·) = a :: tail := changes
      rw [first]
      exact moves

/-- The observations at the states of a run, each change once. -/
theorem path_follows {S : Type*} (differ : ∀ a b, R a b → a ≠ b) (observe : S → Option σ)
    (states : List S)
    (chain : states.IsChain fun s t => Evolves R (observe s) (observe t)) :
    ((states.filterMap observe).destutter (· ≠ ·)).IsChain R := by
  have seen : states.filterMap observe = (states.map observe).filterMap id := by
    rw [List.filterMap_map, Function.id_comp]
  rw [seen]
  apply changes_follow differ
  exact List.isChain_map_of_isChain observe (fun _ _ evolves => evolves) chain

theorem scanl_chain {S A : Type*} {Q : S → S → Prop} (step : S → A → S)
    (kept : ∀ s a, Q s (step s a)) (s : S)
    (events : List A) : (events.scanl step s).IsChain Q := by
  induction events generalizing s with
  | nil => exact .singleton s
  | cons a rest ih =>
    have later := ih (step s a)
    rw [List.scanl_cons]
    cases rest with
    | nil => exact .cons_cons (kept s a) later
    | cons b rest =>
      rw [List.scanl_cons] at later ⊢
      exact .cons_cons (kept s a) later

end Metahumotonic.Library
