import Mathlib.Data.List.Basic

/-! Runs of two kinds of systems: a service that answers every request and moves
on, and a transition system whose steps are labelled. The rules below are the
inductions that a development over either kind needs, proved once. -/
namespace Metahumotonic.Library

section Service

variable {S T A R Q : Type*}

/-- The answers to a list of requests, in order, and the state that is left. -/
def serve (step : S → A → R × S) (s : S) : List A → List R × S
  | [] => ([], s)
  | a :: rest =>
    let later := serve step (step s a).2 rest
    ((step s a).1 :: later.1, later.2)

theorem serve_append (step : S → A → R × S) (s : S) (before after : List A) :
    serve step s (before ++ after) =
      ((serve step s before).1 ++ (serve step (serve step s before).2 after).1,
        (serve step (serve step s before).2 after).2) := by
  induction before generalizing s with
  | nil => rfl
  | cons a rest ih => simp only [List.cons_append, serve, ih]

/-- The states that the requests lead through. -/
def visited (step : S → A → R × S) (s : S) : List A → List S
  | [] => [s]
  | a :: rest => s :: visited step (step s a).2 rest

theorem serve_map (f : R → Q) (step : S → A → R × S) (s : S) (requests : List A) :
    serve (fun s a => (f (step s a).1, (step s a).2)) s requests =
      ((serve step s requests).1.map f, (serve step s requests).2) := by
  induction requests generalizing s with
  | nil => rfl
  | cons a rest ih => simp only [serve, ih, List.map_cons]

theorem serve_invariant (step : S → A → R × S) (admitted : A → Prop) (I : S → Prop)
    (kept : ∀ s a, admitted a → I s → I (step s a).2)
    (requests : List A) (all : ∀ a ∈ requests, admitted a) (s : S) (initial : I s) :
    I (serve step s requests).2 := by
  induction requests generalizing s with
  | nil => exact initial
  | cons a rest ih =>
    exact ih (fun b hb => all b (List.mem_cons_of_mem _ hb)) _
      (kept s a (all a List.mem_cons_self) initial)

/-- What holds of every answer from a state in which the invariant holds. -/
theorem serve_answers (step : S → A → R × S) (admitted : A → Prop) (I : S → Prop) (P : R → Prop)
    (kept : ∀ s a, admitted a → I s → P (step s a).1 ∧ I (step s a).2)
    (requests : List A) (all : ∀ a ∈ requests, admitted a) (s : S) (initial : I s) :
    ∀ r ∈ (serve step s requests).1, P r := by
  induction requests generalizing s with
  | nil => nofun
  | cons a rest ih =>
    have head := kept s a (all a List.mem_cons_self) initial
    intro r member
    rcases List.mem_cons.mp member with rfl | later
    · exact head.1
    · exact ih (fun b hb => all b (List.mem_cons_of_mem _ hb)) _ head.2 r later

/-- Two services that answer alike from related states, and stay related, answer
every list of requests alike. -/
theorem serve_simulation (stepS : S → A → R × S) (stepT : T → A → R × T) (admitted : A → Prop)
    (related : S → T → Prop)
    (simulate : ∀ s t a, admitted a → related s t →
      (stepS s a).1 = (stepT t a).1 ∧ related (stepS s a).2 (stepT t a).2)
    (requests : List A) (all : ∀ a ∈ requests, admitted a) (s : S) (t : T) (initial : related s t) :
    (serve stepS s requests).1 = (serve stepT t requests).1 ∧
      related (serve stepS s requests).2 (serve stepT t requests).2 := by
  induction requests generalizing s t with
  | nil => exact ⟨rfl, initial⟩
  | cons a rest ih =>
    have head := simulate s t a (all a List.mem_cons_self) initial
    have tail := ih (fun b hb => all b (List.mem_cons_of_mem _ hb)) _ _ head.2
    exact ⟨by simp only [serve, head.1, tail.1], tail.2⟩

/-- Two services answer alike exactly if every request meets a condition on the state in which
the first one is asked, when the condition decides each answer and keeps the states related. -/
theorem serve_agree_iff (stepS : S → A → R × S) (stepT : T → A → R × T) (C : S → A → Prop)
    (related : S → T → List A → Prop)
    (answers : ∀ s t a rest, related s t (a :: rest) → ((stepS s a).1 = (stepT t a).1 ↔ C s a))
    (keeps : ∀ s t a rest, related s t (a :: rest) → C s a →
      related (stepS s a).2 (stepT t a).2 rest)
    (requests : List A) (s : S) (t : T) (initial : related s t requests) :
    (serve stepS s requests).1 = (serve stepT t requests).1 ↔
      ∀ before a after, requests = before ++ a :: after → C (serve stepS s before).2 a := by
  induction requests generalizing s t with
  | nil => simp [serve]
  | cons a rest ih =>
    simp only [serve, List.cons.injEq, answers s t a rest initial]
    constructor
    · rintro ⟨met, later⟩ before b after split
      cases before with
      | nil =>
        cases split
        exact met
      | cons c before =>
        obtain ⟨same, tail⟩ := List.cons.inj split
        subst same
        exact (ih _ _ (keeps s t a rest initial met)).mp later before b after tail
    · intro all
      have met : C s a := all [] a rest rfl
      refine ⟨met, (ih _ _ (keeps s t a rest initial met)).mpr ?_⟩
      intro before b after split
      exact all (a :: before) b after (congrArg (a :: ·) split)

end Service

section Labelled

variable {S E : Type*}

inductive Path (R : S → E → S → Prop) : S → List E → S → Prop where
  | nil (s : S) : Path R s [] s
  | cons {s m t : S} {e : E} {es : List E} (step : R s e m) (rest : Path R m es t) :
      Path R s (e :: es) t

variable {R Q : S → E → S → Prop} {s m t : S} {es fs : List E}

theorem Path.append (first : Path R s es m) (second : Path R m fs t) : Path R s (es ++ fs) t := by
  induction first with
  | nil => exact second
  | cons step _ ih => exact .cons step (ih second)

theorem Path.mono (weaken : ∀ s e t, R s e t → Q s e t) (path : Path R s es t) : Path Q s es t := by
  induction path with
  | nil => exact .nil _
  | cons step _ ih => exact .cons (weaken _ _ _ step) ih

theorem Path.invariant (I : S → Prop) (kept : ∀ s e t, R s e t → I s → I t)
    (path : Path R s es t) (initial : I s) : I t := by
  induction path with
  | nil => exact initial
  | cons step _ ih => exact ih (kept _ _ _ step initial)

theorem Path.mono_of_invariant (I : S → Prop) (kept : ∀ s e t, R s e t → I s → I t)
    (weaken : ∀ s e t, I s → R s e t → Q s e t) (path : Path R s es t) (initial : I s) :
    Path Q s es t := by
  induction path with
  | nil => exact .nil _
  | cons step _ ih => exact .cons (weaken _ _ _ initial step) (ih (kept _ _ _ step initial))

/-- A measure that every step lowers bounds the length of every run. -/
theorem Path.length_add_le (I : S → Prop) (kept : ∀ s e t, R s e t → I s → I t) (measure : S → Nat)
    (lower : ∀ s e t, R s e t → I s → measure t < measure s)
    (path : Path R s es t) (initial : I s) : es.length + measure t ≤ measure s := by
  induction path with
  | nil => simp
  | @cons a b c e es step _ ih =>
    have tail := ih (kept _ _ _ step initial)
    have head := lower _ _ _ step initial
    simp only [List.length_cons]
    omega

/-- Where every step keeps a property exactly if the step meets a condition, a run ends with
the property exactly if it began with it and all its steps meet the condition. -/
theorem Path.kept_iff (C : S → E → Prop) (I P : S → Prop)
    (functional : ∀ s e t u, R s e t → R s e u → t = u)
    (kept : ∀ s e t, R s e t → I s → I t) (each : ∀ s e t, R s e t → I s → (P t ↔ P s ∧ C s e))
    (path : Path R s es t) (initial : I s) :
    P t ↔ P s ∧ Path (fun s e t => R s e t ∧ C s e) s es t := by
  induction path with
  | nil s => simp [Path.nil]
  | @cons s m t e es step rest ih =>
    rw [ih (kept _ _ _ step initial), each _ _ _ step initial, and_assoc]
    apply and_congr_right'
    constructor
    · rintro ⟨met, path⟩
      exact .cons ⟨step, met⟩ path
    · intro path
      cases path with
      | cons step' path =>
        cases functional _ _ _ _ step step'.1
        exact ⟨step'.2, path⟩

/-- Where a step from a state with the property keeps it exactly if the step meets a condition, the
property holds throughout a run exactly if all its steps meet the condition. -/
theorem Path.throughout_iff (C : S → E → Prop) (I P : S → Prop)
    (functional : ∀ s e t u, R s e t → R s e u → t = u)
    (kept : ∀ s e t, R s e t → I s → I t)
    (each : ∀ s e t, R s e t → I s → P s → (P t ↔ C s e))
    (path : Path R s es t) (initial : I s) (held : P s) :
    (∀ before after m, es = before ++ after → Path R s before m → P m) ↔
      Path (fun s e t => R s e t ∧ C s e) s es t := by
  induction path with
  | nil s =>
    refine ⟨fun _ => .nil s, fun _ before after m split path => ?_⟩
    cases (List.append_eq_nil_iff.mp split.symm).1
    cases path
    exact held
  | @cons s m t e es step _ ih =>
    constructor
    · intro all
      have next : P m := all [e] es m rfl (.cons step (.nil m))
      refine .cons ⟨step, (each s e m step initial held).mp next⟩
        ((ih (kept s e m step initial) next).mp ?_)
      intro before after n split path
      exact all (e :: before) after n (congrArg (e :: ·) split) (.cons step path)
    · intro path before after n split reached
      cases path with
      | cons first rest =>
        cases functional _ _ _ _ step first.1
        have next := (each s e m step initial held).mpr first.2
        cases reached with
        | nil => exact held
        | cons step' reached =>
          obtain ⟨same, tail⟩ := List.cons.inj split
          subst same
          cases functional _ _ _ _ step step'
          exact (ih (kept s e m step initial) next).mpr rest _ after n tail reached

section Deterministic

variable (advance : S → E → Option S)

/-- Where a list of events leads when every event has at most one effect. -/
def follow (s : S) : List E → Option S
  | [] => some s
  | e :: es => (advance s e).bind fun m => follow m es

theorem path_iff_follow {s t : S} {es : List E} :
    Path (fun s e t => advance s e = some t) s es t ↔ follow advance s es = some t := by
  induction es generalizing s with
  | nil =>
    constructor
    · intro path
      cases path
      rfl
    · intro same
      cases same
      exact .nil _
  | cons e es ih =>
    simp only [follow, Option.bind_eq_some_iff]
    constructor
    · intro path
      cases path with
      | cons step rest => exact ⟨_, step, ih.mp rest⟩
    · rintro ⟨m, step, rest⟩
      exact .cons step (ih.mpr rest)

/-- A run whose steps all meet a condition that can be decided. -/
theorem path_guarded {C : S → E → Prop} [∀ s e, Decidable (C s e)] {s t : S} {es : List E} :
    Path (fun s e t => advance s e = some t ∧ C s e) s es t ↔
      follow (fun s e => if C s e then advance s e else none) s es = some t := by
  rw [← path_iff_follow]
  constructor
  · intro path
    apply path.mono
    intro s e t step
    rw [if_pos step.2, step.1]
  · intro path
    apply path.mono
    intro s e t step
    split at step
    · rename_i met
      exact ⟨step, met⟩
    · cases step

end Deterministic

end Labelled

end Metahumotonic.Library
