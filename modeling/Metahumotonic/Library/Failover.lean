import Mathlib.Data.List.Basic
import Mathlib.Data.List.Nodup

/-! A call that tries one endpoint after the other until one of them settles it. An
attempt may have its effect and still not settle the call. -/
namespace Metahumotonic.Library.Failover

structure Turn (R : Type*) where
  committed : Bool
  answer : Option R

variable {U R : Type*}

/-- The answer of a call, and the endpoints at which it had its effect. -/
def call (turn : U → Turn R) : List U → Option R × List U
  | [] => (none, [])
  | u :: rest =>
    let here := if (turn u).committed then [u] else []
    match (turn u).answer with
    | some r => (some r, here)
    | none => ((call turn rest).1, here ++ (call turn rest).2)

/-- An endpoint at which the call had its effect is not followed by another one, unless the
call was settled in between. -/
def Sparing (turn : U → Turn R) (endpoints : List U) : Prop :=
  ∀ before u middle v after, endpoints = before ++ u :: (middle ++ v :: after) →
    (turn u).committed = true → (turn v).committed = true →
    ∃ w ∈ before ++ u :: middle, (turn w).answer.isSome = true

variable {turn : U → Turn R}

/-- The call has its effect again exactly if it reaches a further endpoint that commits. -/
theorem effects_iff {endpoints : List U} :
    (call turn endpoints).2 ≠ [] ↔ ∃ before v after, endpoints = before ++ v :: after ∧
      (turn v).committed = true ∧ ∀ w ∈ before, (turn w).answer = none := by
  induction endpoints with
  | nil =>
    constructor
    · intro more
      exact absurd rfl more
    · rintro ⟨before, v, after, split, _⟩
      cases before <;> cases split
  | cons u rest ih =>
    constructor
    · intro more
      cases committed : (turn u).committed with
      | true => exact ⟨[], u, rest, rfl, committed, fun w none_ => absurd none_ List.not_mem_nil⟩
      | false =>
        cases answer : (turn u).answer with
        | some r => simp [call, answer, committed] at more
        | none =>
          have later : (call turn rest).2 ≠ [] := by simpa [call, answer, committed] using more
          obtain ⟨before, v, after, split, effect, open_⟩ := ih.mp later
          refine ⟨u :: before, v, after, by rw [split, List.cons_append], effect,
            fun w member => ?_⟩
          rcases List.mem_cons.mp member with rfl | there
          · exact answer
          · exact open_ w there
    · rintro ⟨before, v, after, split, effect, open_⟩
      cases before with
      | nil =>
        cases split
        cases answer : (turn u).answer <;> simp [call, answer, effect]
      | cons w before =>
        cases split
        have answer := open_ u List.mem_cons_self
        have later := ih.mpr ⟨before, v, after, rfl, effect, fun w there =>
          open_ w (List.mem_cons_of_mem _ there)⟩
        simp only [call, answer]
        exact fun none_ => later (List.append_eq_nil_iff.mp none_).2

/-- A call has its effect at most once exactly if the endpoints are sparing. -/
theorem once_iff_sparing {endpoints : List U} : (call turn endpoints).2.length ≤ 1 ↔
    Sparing turn endpoints := by
  induction endpoints with
  | nil =>
    apply iff_of_true (Nat.zero_le 1)
    intro before u middle v after split
    cases before <;> cases split
  | cons u rest ih =>
    cases answer : (turn u).answer with
    | some r =>
      -- The first endpoint settles the call.
      apply iff_of_true
      · simp only [call, answer]
        split <;> simp
      · intro before a middle v after split _ _
        refine ⟨u, ?_, by rw [answer]; rfl⟩
        cases before <;> cases split <;> exact List.mem_cons_self
    | none =>
      cases committed : (turn u).committed with
      | false =>
        have same : (call turn (u :: rest)).2 = (call turn rest).2 := by
          simp [call, answer, committed]
        rw [same, ih]
        constructor
        · intro sparing before a middle v after split first second
          cases before with
          | nil =>
            cases split
            rw [committed] at first
            cases first
          | cons w before =>
            cases split
            obtain ⟨w, member, settled⟩ := sparing before a middle v after rfl first second
            exact ⟨w, List.mem_cons_of_mem _ member, settled⟩
        · intro sparing before a middle v after split first second
          obtain ⟨w, member, settled⟩ :=
            sparing (u :: before) a middle v after (by rw [split]; rfl) first second
          rcases List.mem_cons.mp member with rfl | there
          · rw [answer] at settled
            cases settled
          · exact ⟨w, there, settled⟩
      | true =>
        -- Nothing that is reached may commit after it.
        have more : (call turn (u :: rest)).2.length ≤ 1 ↔ (call turn rest).2 = [] := by
          simp [call, answer, committed]
        rw [more]
        constructor
        · intro none_ before a middle v after split first second
          by_contra open_
          have quiet : ∀ w ∈ before ++ a :: middle, (turn w).answer = none := by
            intro w member
            cases found : (turn w).answer with
            | none => rfl
            | some r => exact absurd ⟨w, member, by rw [found]; rfl⟩ open_
          refine effects_iff.mpr ?_ none_
          cases before with
          | nil =>
            cases split
            exact ⟨middle, v, after, rfl, second, fun w there =>
              quiet w (List.mem_cons_of_mem _ there)⟩
          | cons w before =>
            cases split
            refine ⟨before ++ a :: middle, v, after, by simp, second, fun w there => ?_⟩
            exact quiet w (List.mem_cons_of_mem _ there)
        · intro sparing
          by_contra some_
          obtain ⟨middle, v, after, split, effect, open_⟩ := effects_iff.mp some_
          obtain ⟨w, member, settled⟩ :=
            sparing [] u middle v after (by rw [split]; rfl) committed effect
          rcases List.mem_cons.mp member with rfl | there
          · rw [answer] at settled
            cases settled
          · rw [open_ w there] at settled
            cases settled

/-- The answer of a call is that of the first endpoint that has one. -/
theorem call_answer (endpoints : List U) :
    (call turn endpoints).1 = (endpoints.find? fun u => (turn u).answer.isSome).bind fun u =>
    (turn u).answer := by
  induction endpoints with
  | nil => rfl
  | cons u rest ih =>
    cases answer : (turn u).answer with
    | some r => simp [call, answer]
    | none => simp [call, answer, ih]

/-- A call that is settled by an endpoint that commits has had its effect. -/
theorem answered {endpoints : List U} {r : R} (settled : (call turn endpoints).1 = some r) :
    ∃ u ∈ endpoints, (turn u).answer = some r ∧
      ((turn u).committed = true → (call turn endpoints).2 ≠ []) := by
  induction endpoints with
  | nil => cases settled
  | cons u rest ih =>
    cases answer : (turn u).answer with
    | some r' =>
      have same : r' = r := by simpa [call, answer] using settled
      subst same
      exact ⟨u, List.mem_cons_self, answer, fun committed => by simp [call, answer, committed]⟩
    | none =>
      have later : (call turn rest).1 = some r := by simpa [call, answer] using settled
      obtain ⟨w, member, told, effect⟩ := ih later
      refine ⟨w, List.mem_cons_of_mem _ member, told, fun committed => ?_⟩
      simp only [call, answer]
      exact fun none_ => effect committed (List.append_eq_nil_iff.mp none_).2

end Metahumotonic.Library.Failover
