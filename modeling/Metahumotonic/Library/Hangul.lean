import Mathlib.Data.List.Basic

/-! Canonical composition of Hangul: a leading consonant and a vowel give a syllable, and a
syllable without trailing consonant takes one. -/
namespace Metahumotonic.Library.Hangul

def leading (c : Char) : Bool := 0x1100 ≤ c.toNat && c.toNat < 0x1113

def vowel (c : Char) : Bool := 0x1161 ≤ c.toNat && c.toNat < 0x1176

def trailing (c : Char) : Bool := 0x11A8 ≤ c.toNat && c.toNat < 0x11C3

def syllable (c : Char) : Bool := 0xAC00 ≤ c.toNat && c.toNat < 0xD7A4

/-- Takes part in a composition. -/
def conjoins (c : Char) : Bool := leading c || vowel c || trailing c || syllable c

/-- The syllable that two characters compose to. -/
def composite (a b : Char) : Option Char :=
  if leading a && vowel b then
    some (Char.ofNat (0xAC00 + ((a.toNat - 0x1100) * 21 + (b.toNat - 0x1161)) * 28))
  else if syllable a && (a.toNat - 0xAC00) % 28 == 0 && trailing b then
    some (Char.ofNat (a.toNat + (b.toNat - 0x11A7)))
  else none

/-- `last` is what has been composed so far and may still take the next character. -/
def composeFrom (last : Char) : List Char → List Char
  | [] => [last]
  | c :: rest =>
    match composite last c with
    | some joined => composeFrom joined rest
    | none => last :: composeFrom c rest

def compose : List Char → List Char
  | [] => []
  | c :: rest => composeFrom c rest

/-- Neighbours that stay two characters. -/
def Apart (a b : Char) : Prop := composite a b = none

instance : DecidableRel Apart := fun a b => inferInstanceAs (Decidable (composite a b = none))

theorem apart_of_left {a : Char} (plain : conjoins a = false) (b : Char) : Apart a b := by
  simp only [conjoins, Bool.or_eq_false_iff] at plain
  simp [Apart, composite, plain]

theorem apart_of_right {b : Char} (plain : conjoins b = false) (a : Char) : Apart a b := by
  simp only [conjoins, Bool.or_eq_false_iff] at plain
  simp [Apart, composite, plain]

theorem toNat_ofNat {n : Nat} (low : n < 0xD800) : (Char.ofNat n).toNat = n := by
  have valid : n.isValidChar := .inl low
  rw [Char.ofNat, dif_pos valid]
  rfl

theorem syllable_of_composite {a b c : Char} (joined : composite a b = some c) :
    syllable c = true := by
  simp only [composite, Bool.and_eq_true, leading, vowel, trailing, syllable, decide_eq_true_eq,
    beq_iff_eq] at joined
  split at joined
  · rename_i jamo
    rw [← Option.some.inj joined]
    have bound : (a.toNat - 0x1100) * 21 + (b.toNat - 0x1161) < 399 := by omega
    have value := toNat_ofNat (n := 0xAC00 + ((a.toNat - 0x1100) * 21 + (b.toNat - 0x1161)) * 28)
      (by omega)
    simp only [syllable, Bool.and_eq_true, decide_eq_true_eq, value]
    omega
  · split at joined
    · rename_i open_
      rw [← Option.some.inj joined]
      have value := toNat_ofNat (n := a.toNat + (b.toNat - 0x11A7)) (by omega)
      simp only [syllable, Bool.and_eq_true, decide_eq_true_eq, value]
      omega
    · cases joined

theorem composeFrom_length (last : Char) (l : List Char) :
    (composeFrom last l).length ≤ l.length + 1 := by
  induction l generalizing last with
  | nil => exact Nat.le_refl 1
  | cons c rest ih =>
    unfold composeFrom
    split
    · rename_i joined _
      have := ih joined
      rw [List.length_cons]
      omega
    · have := ih c
      rw [List.length_cons, List.length_cons]
      omega

/-- Neighbours that compose make the text shorter. -/
theorem composeFrom_length_iff (last : Char) (l : List Char) :
    (composeFrom last l).length = l.length + 1 ↔ (last :: l).IsChain Apart := by
  induction l generalizing last with
  | nil => simp [composeFrom]
  | cons c rest ih =>
    rw [List.isChain_cons_cons]
    unfold composeFrom
    cases joined : composite last c with
    | some d =>
      have short := composeFrom_length d rest
      refine iff_of_false ?_ fun both => absurd (joined.symm.trans both.1) nofun
      simp only [List.length_cons]
      omega
    | none =>
      rw [List.length_cons, List.length_cons, Nat.succ_inj, ih c]
      exact (and_iff_right joined).symm

theorem composeFrom_apart {last : Char} {l : List Char} (apart : (last :: l).IsChain Apart) :
    composeFrom last l = last :: l := by
  induction l generalizing last with
  | nil => rfl
  | cons c rest ih =>
    obtain ⟨first, later⟩ := List.isChain_cons_cons.mp apart
    have none_ : composite last c = none := first
    simp only [composeFrom, none_, ih later]

theorem compose_apart {l : List Char} (apart : l.IsChain Apart) : compose l = l := by
  cases l with
  | nil => rfl
  | cons c rest => exact composeFrom_apart apart

theorem compose_shorter {l : List Char} (touching : ¬ l.IsChain Apart) :
    (compose l).length < l.length := by
  cases l with
  | nil => exact absurd .nil touching
  | cons c rest =>
    have short := composeFrom_length c rest
    have whole := (composeFrom_length_iff c rest).not.mpr touching
    simp only [compose, List.length_cons] at *
    omega

theorem mem_composeFrom {last c : Char} {l : List Char} (member : c ∈ composeFrom last l) :
    c = last ∨ c ∈ l ∨ syllable c = true := by
  induction l generalizing last with
  | nil => exact .inl (List.mem_singleton.mp member)
  | cons d rest ih =>
    unfold composeFrom at member
    split at member
    · rename_i joined made
      rcases ih member with rfl | inside | made
      · exact .inr (.inr (syllable_of_composite made))
      · exact .inr (.inl (List.mem_cons_of_mem _ inside))
      · exact .inr (.inr made)
    · rcases List.mem_cons.mp member with rfl | inside
      · exact .inl rfl
      · rcases ih inside with rfl | inside | made
        · exact .inr (.inl List.mem_cons_self)
        · exact .inr (.inl (List.mem_cons_of_mem _ inside))
        · exact .inr (.inr made)

/-- Composition brings in syllables only. -/
theorem mem_compose {c : Char} {l : List Char} (member : c ∈ compose l) :
    c ∈ l ∨ syllable c = true := by
  cases l with
  | nil => exact .inl member
  | cons d rest =>
    rcases mem_composeFrom member with rfl | inside | made
    · exact .inl List.mem_cons_self
    · exact .inl (List.mem_cons_of_mem _ inside)
    · exact .inr made

end Metahumotonic.Library.Hangul
