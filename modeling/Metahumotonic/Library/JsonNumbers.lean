import Metahumotonic.Library.JsonCodec

/-! The numbers of a document, and the documents that a strict encoder renders: Python writes
integers of at most 4300 digits, UTF-8 has no surrogates, strict JSON no infinite number. -/
namespace Metahumotonic.Library

namespace Json

mutual
/-- Every number, at any depth. -/
def numbers (int : ℤ → Bool) (float : Text → Bool) : Json → Bool
  | .int n => int n
  | .float literal => float literal
  | .array vs => numbersItems int float vs
  | .object members => numbersMembers int float members
  | _ => true
def numbersItems (int : ℤ → Bool) (float : Text → Bool) : List Json → Bool
  | [] => true
  | v :: rest => v.numbers int float && numbersItems int float rest
def numbersMembers (int : ℤ → Bool) (float : Text → Bool) : Members → Bool
  | [] => true
  | (_, v) :: rest => v.numbers int float && numbersMembers int float rest
end

variable {int : ℤ → Bool} {float : Text → Bool}

@[simp] theorem numbers_text {s : Text} : (Json.text s).numbers int float = true := rfl
@[simp] theorem numbers_null : Json.null.numbers int float = true := rfl
@[simp] theorem numbers_bool {b : Bool} : (Json.bool b).numbers int float = true := rfl
@[simp] theorem numbers_int {n : ℤ} : (Json.int n).numbers int float = int n := rfl
@[simp] theorem numbers_float {s : Text} : (Json.float s).numbers int float = float s := rfl

@[simp] theorem numbers_array {vs : List Json} :
    (Json.array vs).numbers int float = true ↔ ∀ v ∈ vs, v.numbers int float = true := by
  change numbersItems int float vs = true ↔ _
  induction vs with
  | nil => simp [numbersItems]
  | cons v rest ih => simp [numbersItems, ih]

@[simp] theorem numbers_object {members : Members} :
    (Json.object members).numbers int float = true ↔
      ∀ k v, (k, v) ∈ members → v.numbers int float = true := by
  change numbersMembers int float members = true ↔ _
  induction members with
  | nil => simp [numbersMembers]
  | cons member rest ih =>
    obtain ⟨k, v⟩ := member
    simp only [numbersMembers, Bool.and_eq_true, ih, List.mem_cons, Prod.mk.injEq]
    constructor
    · rintro ⟨here, later⟩ k' v' (⟨rfl, rfl⟩ | there)
      · exact here
      · exact later k' v' there
    · intro each
      exact ⟨each k v (.inl ⟨rfl, rfl⟩), fun k' v' there => each k' v' (.inr there)⟩

/-- An integer that Python converts to decimal digits and back. -/
def printable (n : ℤ) : Bool := (decimal n.natAbs).length ≤ 4300

/-- No integer of the document is too long to be written. -/
def writable (v : Json) : Bool := v.numbers printable fun _ => true

/-- The digits of a literal before its exponent, how many of them are a fraction, and the exponent.
-/
def literalParts (literal : Text) : Text × Nat × ℤ :=
  let unsigned := if literal.head? = some 45 then literal.tail else literal
  let whole := unsigned.takeWhile isDigit
  let rest := unsigned.drop whole.length
  let part := (fraction rest).tail
  let exponent := (power (rest.drop (fraction rest).length)).tail
  let size : ℤ := number (exponent.drop (signOf exponent).length)
  (whole ++ part, part.length, if exponent.head? = some 45 then -size else size)

/-- A double has a largest value; what is nearer to twice its power of two is infinite. -/
def overflow : Nat := Nat.pow 2 1024 - Nat.pow 2 970

/-- A float of the document that is neither infinite nor undefined. -/
def finite (literal : Text) : Bool :=
  if literal = lit "NaN" ∨ literal = lit "Infinity" ∨ literal = lit "-Infinity" then false
  else
    let parts := literalParts literal
    let mantissa := number parts.1
    let scale := parts.2.2 - parts.2.1
    -- the order of magnitude settles all but the numbers near the bound
    if mantissa = 0 ∨ (decimal mantissa).length + scale < 309 then true
    else if 309 < (decimal mantissa).length + scale then false
    else if 0 ≤ scale then mantissa * Nat.pow 10 scale.toNat < overflow
    else mantissa < overflow * Nat.pow 10 (-scale).toNat

def wellFormed (s : Text) : Bool := s.all scalar

/-- What a response can be rendered from. -/
def renderable (v : Json) : Bool := v.all wellFormed wellFormed && v.numbers printable finite

theorem wellFormed_lit (s : String) : wellFormed (lit s) = true := by
  rw [wellFormed, lit, List.all_map, List.all_eq_true]
  intro c _
  simp only [Function.comp, scalar, Bool.or_eq_true, Bool.and_eq_true, decide_eq_true_eq]
  rcases c.valid with low | ⟨high, bound⟩
  · exact .inl low
  · exact .inr ⟨high, bound⟩

theorem wellFormed_ascii {s : Text} (ascii : ∀ c ∈ s, c < 128) : wellFormed s = true := by
  rw [wellFormed, List.all_eq_true]
  intro c there
  have small := ascii c there
  simp only [scalar, Bool.or_eq_true, decide_eq_true_eq]
  omega

theorem wellFormed_append {s t : Text} :
    wellFormed (s ++ t) = true ↔ wellFormed s = true ∧ wellFormed t = true := by
  rw [wellFormed, List.all_append, Bool.and_eq_true]
  rfl

@[simp] theorem renderable_text {s : Text} : (Json.text s).renderable = wellFormed s := by
  simp [renderable]
@[simp] theorem renderable_null : Json.null.renderable = true := rfl
@[simp] theorem renderable_bool {b : Bool} : (Json.bool b).renderable = true := rfl
@[simp] theorem renderable_int {n : ℤ} : (Json.int n).renderable = printable n := by
  simp [renderable]

@[simp] theorem renderable_array {vs : List Json} :
    (Json.array vs).renderable = true ↔ ∀ v ∈ vs, v.renderable = true := by
  simp only [renderable, Bool.and_eq_true, all_array, numbers_array]
  exact forall₂_and.symm

theorem renderable_object {members : Members} :
    (Json.object members).renderable = true ↔
      ∀ k v, (k, v) ∈ members → wellFormed k = true ∧ v.renderable = true := by
  simp only [renderable, Bool.and_eq_true, all_object, numbers_object]
  constructor
  · rintro ⟨texts, numbers⟩ k v there
    exact ⟨(texts k v there).1, (texts k v there).2, numbers k v there⟩
  · intro each
    exact ⟨fun k v there => ⟨(each k v there).1, (each k v there).2.1⟩, fun k v there =>
      (each k v there).2.2⟩

@[simp] theorem renderable_nil : (Json.object []).renderable = true := rfl

@[simp] theorem renderable_cons {k : Text} {v : Json} {rest : Members} :
    (Json.object ((k, v) :: rest)).renderable = true ↔
      (wellFormed k = true ∧ v.renderable = true) ∧ (Json.object rest).renderable = true := by
  simp only [renderable_object, List.mem_cons, Prod.mk.injEq]
  constructor
  · exact fun each => ⟨each k v (.inl ⟨rfl, rfl⟩), fun j w there => each j w (.inr there)⟩
  · rintro ⟨here, later⟩ j w (⟨rfl, rfl⟩ | there)
    · exact here
    · exact later j w there

@[simp] theorem renderable_append {first later : Members} :
    (Json.object (first ++ later)).renderable = true ↔
      (Json.object first).renderable = true ∧ (Json.object later).renderable = true := by
  simp only [renderable_object, List.mem_append, or_imp, forall_and]
  exact and_and_and_comm

theorem renderable_setEntry {k : Text} {v : Json} {members : Members}
    (absent : k ∉ members.map Prod.fst) :
    (Json.object (setEntry k v members)).renderable = true ↔
      (Json.object members).renderable = true ∧ wellFormed k = true ∧ v.renderable = true := by
  rw [setEntry_new absent, renderable_append, renderable_cons]
  simp

end Json

end Metahumotonic.Library
