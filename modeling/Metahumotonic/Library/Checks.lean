import Mathlib.Data.List.Forall2

/-! Checks that raise. An accepted run is taken apart into the facts it tested:
one equivalence for a bind, one for a guard and one for a loop. -/
namespace Metahumotonic.Library

variable {ε : Type u} {α : Type v} {β : Type v}

theorem bind_ok {x : Except ε α} {f : α → Except ε β} {b : β} :
    (x >>= f) = .ok b ↔ ∃ a, x = .ok a ∧ f a = .ok b := by
  cases x <;> simp [bind, Except.bind]

theorem pure_ok {a b : α} : (pure a : Except ε α) = .ok b ↔ a = b := by
  simp [pure, Except.pure]

/-- What a computation makes of every element. -/
theorem mapM_ok {α : Type*} {f : α → Except ε β} {xs : List α} {ys : List β} :
    xs.mapM f = .ok ys ↔ List.Forall₂ (fun x y => f x = .ok y) xs ys := by
  induction xs generalizing ys with
  | nil => rw [List.mapM_nil, pure_ok, List.forall₂_nil_left_iff, eq_comm]
  | cons x rest ih =>
    simp only [List.mapM_cons, bind_ok, pure_ok, ih]
    constructor
    · rintro ⟨y, here, later, all, rfl⟩
      exact .cons here all
    · rintro (_ | ⟨here, all⟩)
      exact ⟨_, here, _, all, rfl⟩

/-- Raise `e` unless the condition holds. -/
def ensure (holds : Prop) [Decidable holds] (e : ε) : Except ε Unit := if holds then .ok
    () else .error e

@[simp] theorem ensure_ok {holds : Prop} [Decidable holds] {e : ε} {a : Unit} :
    ensure holds e = .ok a ↔ holds := by
  unfold ensure
  split <;> simp_all

/-- A check that is made only on a condition. -/
def checkWhen (needed : Prop) [Decidable needed] (check : Except ε Unit) : Except ε Unit :=
  if needed then check else .ok ()

@[simp] theorem checkWhen_ok {needed : Prop} [Decidable needed] {check : Except ε Unit} {a : Unit} :
    checkWhen needed check = .ok a ↔ (needed → check = .ok ()) := by
  unfold checkWhen
  split <;> simp_all

/-- Check every element, with its position. -/
def checkEach (check : α → Nat → Except ε Unit) : List α → Nat → Except ε Unit
  | [], _ => .ok ()
  | x :: rest, i => do
    check x i
    checkEach check rest (i + 1)

theorem checkEach_ok {check : α → Nat → Except ε Unit} {holds : α → Prop}
    (meaning : ∀ x i, check x i = .ok () ↔ holds x) (xs : List α) (i : Nat) :
    checkEach check xs i = .ok () ↔ ∀ x ∈ xs, holds x := by
  induction xs generalizing i with
  | nil => simp [checkEach]
  | cons x rest ih => simp [checkEach, bind_ok, meaning, ih]

/-- A loop that threads a state through checks that may raise. -/
def foldChecks (step : β → α → Nat → Except ε β) : List α → Nat → β → Except ε β
  | [], _, b => .ok b
  | x :: rest, i, b => do
    let b' ← step b x i
    foldChecks step rest (i + 1) b'

/-- A loop that collects identifiers, each new when it is added. -/
theorem foldChecks_extends {step : List β → α → Nat → Except ε (List β)} (adds : α → List β → Prop)
    (meaning : ∀ known x i ids, step known x i = .ok ids →
      ∃ new, adds x new ∧ ids = known ++ new ∧ (known.Nodup → ids.Nodup))
    (xs : List α) (i : Nat) {known ids : List β} (ok : foldChecks step xs i known = .ok ids) :
    ∃ news, List.Forall₂ adds xs news ∧ ids = known ++ news.flatten ∧
      (known.Nodup → ids.Nodup) := by
  induction xs generalizing i known with
  | nil =>
    cases ok
    exact ⟨[], .nil, by simp, id⟩
  | cons x rest ih =>
    obtain ⟨middle, here, later⟩ := bind_ok.mp ok
    obtain ⟨new, added, rfl, kept⟩ := meaning known x i middle here
    obtain ⟨news, all, rfl, keeps⟩ := ih (i + 1) later
    exact ⟨new :: news, .cons added all, by simp, fun nodup => keeps (kept nodup)⟩

theorem forall₂_left {α : Type*} {β : Type*} {R : α → β → Prop} {xs : List α} {ys : List β}
    (related : List.Forall₂ R xs ys) {y : β} (member : y ∈ ys) : ∃ x ∈ xs, R x y := by
  induction related with
  | nil => cases member
  | cons here _ ih =>
    rcases List.mem_cons.mp member with rfl | later
    · exact ⟨_, List.mem_cons_self, here⟩
    · obtain ⟨x, listed, found⟩ := ih later
      exact ⟨x, List.mem_cons_of_mem _ listed, found⟩

theorem forall₂_right {α : Type*} {β : Type*} {R : α → β → Prop} {xs : List α} {ys : List β}
    (related : List.Forall₂ R xs ys) {x : α} (member : x ∈ xs) : ∃ y ∈ ys, R x y :=
  forall₂_left related.flip member

/-- What is there for each pair is a function of the first parts, when these differ. -/
theorem forall₂_choose {α : Type*} {β : Type*} {γ : Type*} [DecidableEq α] {R : α → β → γ → Prop}
    (default : γ)
    {xs : List α} {ys : List β} (related : List.Forall₂ (fun x y => ∃ z, R x y z) xs ys)
    (distinct : xs.Nodup) :
    ∃ f : α → γ, List.Forall₂ (fun x y => R x y (f x)) xs ys := by
  induction related with
  | nil => exact ⟨fun _ => default, .nil⟩
  | @cons x y xs ys here later ih =>
    obtain ⟨fresh, rest⟩ := List.nodup_cons.mp distinct
    obtain ⟨z, found⟩ := here
    obtain ⟨f, all⟩ := ih rest
    refine ⟨fun a => if a = x then z else f a, .cons ?_ ?_⟩
    · dsimp only
      rwa [if_pos rfl]
    · rw [List.forall₂_iff_zip] at all ⊢
      refine ⟨all.1, ?_⟩
      intro a b listed
      have other : a ≠ x := by
        rintro rfl
        exact fresh (List.of_mem_zip listed).1
      dsimp only
      rw [if_neg other]
      exact all.2 listed

end Metahumotonic.Library
