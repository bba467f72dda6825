import Mathlib.Data.List.Nodup
import Metahumotonic.Library.Checks

/-! Which exceptions a computation may raise. A bind raises what its first part raises and
what its second part raises on the values that get there; a loop raises what a step raises
after the steps before it have passed. -/
namespace Metahumotonic.Library

universe u v

variable {ε : Type u} {α β : Type v}

/-- Whatever is raised is allowed. -/
def RaisesOnly (allowed : ε → Prop) (x : Except ε α) : Prop := ∀ e, x = .error e → allowed e

variable {allowed : ε → Prop}

@[simp] theorem raisesOnly_ok {a : α} : RaisesOnly allowed (.ok a : Except ε α) := nofun

@[simp] theorem raisesOnly_pure {a : α} : RaisesOnly allowed (pure a : Except ε α) := nofun

@[simp] theorem raisesOnly_error {e : ε} : RaisesOnly allowed (.error e : Except ε α) ↔
    allowed e := by
  constructor
  · intro only
    exact only e rfl
  · rintro holds _ ⟨⟩
    exact holds

theorem raisesOnly_bind {x : Except ε α} {f : α → Except ε β} :
    RaisesOnly allowed (x >>= f) ↔ RaisesOnly allowed x ∧ ∀ a, x = .ok a →
      RaisesOnly allowed (f a) := by
  cases x with
  | error e => simp [bind, Except.bind]
  | ok a => simp [bind, Except.bind]

theorem RaisesOnly.first {x : Except ε α} {f : α → Except ε β}
    (only : RaisesOnly allowed (x >>= f)) :
    RaisesOnly allowed x := (raisesOnly_bind.mp only).1

theorem RaisesOnly.after {x : Except ε α} {f : α → Except ε β}
    (only : RaisesOnly allowed (x >>= f)) {a : α}
    (ok : x = .ok a) : RaisesOnly allowed (f a) := (raisesOnly_bind.mp only).2 a ok

theorem RaisesOnly.past {x : Except ε PUnit} {f : PUnit → Except ε β}
    (only : RaisesOnly allowed (x >>= f))
    (ok : x = .ok ⟨⟩) : RaisesOnly allowed (f ⟨⟩) := only.after ok

theorem raisesOnly_ensure {holds : Prop} [Decidable holds] {e : ε} (named : allowed e) :
    RaisesOnly allowed (ensure holds e) := by
  unfold ensure
  split
  · exact raisesOnly_ok
  · exact raisesOnly_error.mpr named

theorem raisesOnly_checkWhen {needed : Prop} [Decidable needed] {check : Except ε Unit} :
    RaisesOnly allowed (checkWhen needed check) ↔ (needed → RaisesOnly allowed check) := by
  unfold checkWhen
  split <;> simp_all

theorem raisesOnly_mapM {α : Type*} {f : α → Except ε β} {xs : List α}
    (each : ∀ x ∈ xs, RaisesOnly allowed (f x)) : RaisesOnly allowed (xs.mapM f) := by
  induction xs with
  | nil => exact raisesOnly_pure
  | cons x rest ih =>
    rw [List.mapM_cons]
    refine raisesOnly_bind.mpr ⟨each x List.mem_cons_self, fun _ _ => ?_⟩
    refine raisesOnly_bind.mpr ⟨ih fun y there => each y (List.mem_cons_of_mem _ there),
      fun _ _ => ?_⟩
    exact raisesOnly_pure

theorem raisesOnly_checkEach {check : α → Nat → Except ε Unit} (xs : List α)
    (each : ∀ x ∈ xs, ∀ i, RaisesOnly allowed (check x i)) (i : Nat) :
    RaisesOnly allowed (checkEach check xs i) := by
  induction xs generalizing i with
  | nil => exact raisesOnly_ok
  | cons x rest ih =>
    refine raisesOnly_bind.mpr ⟨each x List.mem_cons_self i, fun _ _ => ?_⟩
    exact ih (fun y there => each y (List.mem_cons_of_mem _ there)) (i + 1)

/-- A loop raises only what is allowed when each step does, after the steps before it. -/
theorem raisesOnly_foldChecks {step : β → α → Nat → Except ε β} (xs : List α) (i : Nat) (b : β) :
    RaisesOnly allowed (foldChecks step xs i b) ↔
      ∀ before x after b', xs = before ++ x :: after → foldChecks step before i b = .ok b' →
        RaisesOnly allowed (step b' x (i + before.length)) := by
  induction xs generalizing i b with
  | nil => simp [foldChecks]
  | cons x rest ih =>
    rw [foldChecks, raisesOnly_bind]
    constructor
    · rintro ⟨first, later⟩ before y after b' split passed
      cases before with
      | nil =>
        cases split
        cases passed
        exact first
      | cons z before =>
        cases split
        obtain ⟨middle, here, passed⟩ := bind_ok.mp passed
        have reached := (ih (i + 1) middle).mp (later middle here) before y after b' rfl passed
        rwa [List.length_cons, Nat.add_comm before.length, ← Nat.add_assoc]
    · intro each
      refine ⟨each [] x rest b rfl rfl, fun middle here => (ih (i + 1) middle).mpr ?_⟩
      intro before y after b' split passed
      have reached := each (x :: before) y after b' (by rw [split, List.cons_append])
        (bind_ok.mpr ⟨middle, here, passed⟩)
      rwa [List.length_cons, Nat.add_comm before.length, ← Nat.add_assoc] at reached

/-- A loop that wants a new key of every element. -/
theorem foldChecks_collects {γ : Type*} {step : List β → α → Nat → Except ε (List β)} {wrap : γ → α}
    {good : γ → Prop} {key : γ → β}
    (meaning : ∀ known x i after, step known x i = .ok after ↔
      ∃ r, x = wrap r ∧ good r ∧ key r ∉ known ∧ after = known ++ [key r])
    (xs : List α) (i : Nat) (known after : List β) :
    foldChecks step xs i known = .ok after ↔
      ∃ rs : List γ, xs = rs.map wrap ∧ (∀ r ∈ rs, good r) ∧ (rs.map key).Nodup ∧
        (∀ r ∈ rs, key r ∉ known) ∧
        after = known ++ rs.map key := by
  induction xs generalizing i known with
  | nil =>
    constructor
    · rintro ⟨⟩
      exact ⟨[], rfl, nofun, List.nodup_nil, nofun, (List.append_nil _).symm⟩
    · rintro ⟨rs, empty, -, -, -, rfl⟩
      rw [List.map_eq_nil_iff.mp empty.symm, List.map_nil, List.append_nil]
      rfl
  | cons x rest ih =>
    rw [foldChecks, bind_ok]
    constructor
    · rintro ⟨middle, here, passed⟩
      obtain ⟨r, rfl, fine, fresh, rfl⟩ := (meaning known x i middle).mp here
      obtain ⟨rs, rfl, each, distinct, unknown, rfl⟩ := (ih (i + 1) _).mp passed
      refine ⟨r :: rs, rfl, List.forall_mem_cons.mpr ⟨fine, each⟩, ?_, ?_, by simp⟩
      · refine List.nodup_cons.mpr ⟨fun repeated => ?_, distinct⟩
        obtain ⟨s, there, same⟩ := List.mem_map.mp repeated
        exact unknown s there (by simp [same])
      · refine List.forall_mem_cons.mpr ⟨fresh, fun s there inside => ?_⟩
        exact unknown s there (List.mem_append_left _ inside)
    · rintro ⟨rs, split, each, distinct, unknown, rfl⟩
      cases rs with
      | nil => cases split
      | cons r rs =>
        cases split
        obtain ⟨new, distinct⟩ := List.nodup_cons.mp distinct
        refine ⟨_, (meaning known _ i _).mpr ⟨r, rfl, each r List.mem_cons_self,
          unknown r List.mem_cons_self, rfl⟩,
            (ih (i + 1) _).mpr ⟨rs, rfl, ?_, distinct, ?_, by simp⟩⟩
        · exact fun s there => each s (List.mem_cons_of_mem _ there)
        · intro s there inside
          rcases List.mem_append.mp inside with old | same
          · exact unknown s (List.mem_cons_of_mem _ there) old
          · rw [List.mem_singleton] at same
            exact new (same ▸ List.mem_map_of_mem there)

/-- What such a loop raises: a step counts when the elements before it were taken. -/
theorem raisesOnly_collects {γ : Type*} {step : List β → α → Nat → Except ε (List β)} {wrap : γ → α}
    {good shape safe : γ → Prop} {key : γ → β}
    (meaning : ∀ known x i after, step known x i = .ok after ↔
      ∃ r, x = wrap r ∧ good r ∧ key r ∉ known ∧ after = known ++ [key r])
    (raises : ∀ known x i, RaisesOnly allowed (step known x i) ↔
      ∀ r, x = wrap r → shape r → key r ∉ known → safe r)
    (xs : List α) :
    RaisesOnly allowed (foldChecks step xs 0 []) ↔
      ∀ (before : List γ) (r : γ) (after : List α), xs = before.map wrap ++ wrap r :: after →
        (∀ b ∈ before, good b) → ((before ++ [r]).map key).Nodup → shape r → safe r := by
  have fresh : ∀ (before : List γ) (r : γ), ((before ++ [r]).map key).Nodup ↔
      (before.map key).Nodup ∧ key r ∉ before.map key := fun before r => by
    rw [List.map_append, List.map_singleton, List.nodup_append_comm, List.singleton_append,
      List.nodup_cons,
      and_comm]
  rw [raisesOnly_foldChecks]
  constructor
  · intro only before r after split each distinct
    obtain ⟨distinct, new⟩ := (fresh before r).mp distinct
    have passed := (foldChecks_collects meaning (before.map wrap) 0 [] _).mpr
      ⟨before, rfl, each, distinct, fun _ _ => List.not_mem_nil, rfl⟩
    exact fun shaped => (raises _ _ _).mp (only _ _ after _ split passed) r rfl shaped new
  · intro each before x after known split passed
    obtain ⟨rs, rfl, fine, distinct, -, rfl⟩ :=
      (foldChecks_collects meaning before 0 [] known).mp passed
    refine (raises _ _ _).mpr fun r same shaped new => ?_
    cases same
    exact each rs r after split fine ((fresh rs r).mpr ⟨distinct, new⟩) shaped

end Metahumotonic.Library
