import Mathlib.Init

/-! Two computations in lockstep: both raise the same exception, or both return and their
values are related. -/
namespace Metahumotonic.Library

universe u v

inductive Lockstep {ε : Type u} {α β : Type v} (related : α → β → Prop) : Except ε α →
    Except ε β → Prop
  | error (e : ε) : Lockstep related (.error e) (.error e)
  | ok {a : α} {b : β} : related a b → Lockstep related (.ok a) (.ok b)

namespace Lockstep

variable {ε : Type u} {α β γ δ : Type v} {related : α → β → Prop} {later : γ → δ → Prop}

theorem bind {x : Except ε α} {y : Except ε β} {f : α → Except ε γ} {g : β → Except ε δ}
    (first : Lockstep related x y) (rest : ∀ a b, related a b → Lockstep later (f a) (g b)) :
    Lockstep later (x >>= f) (y >>= g) := by
  cases first with
  | error e => exact .error e
  | ok both => exact rest _ _ both

/-- A part that both of them share. -/
theorem after (x : Except ε α) {f : α → Except ε γ} {g : α → Except ε δ}
    (rest : ∀ a, Lockstep later (f a) (g a)) : Lockstep later (x >>= f) (x >>= g) := by
  cases x with
  | error e => exact .error e
  | ok a => exact rest a

theorem pure {a : α} {b : β} (both : related a b) :
    Lockstep related (Pure.pure a : Except ε α) (Pure.pure b : Except ε β) := .ok both

end Lockstep

end Metahumotonic.Library
