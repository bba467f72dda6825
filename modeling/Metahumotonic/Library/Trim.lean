import Mathlib.Data.List.DropRight
import Mathlib.Data.List.TakeWhile

/-! Trimming at both ends. Two notions of a blank trim a text alike exactly where they agree
about the ends of what both of them leave. -/
namespace Metahumotonic.Library

variable {α : Type*} (blank other : α → Bool)

def trim (l : List α) : List α := (l.dropWhile blank).rdropWhile blank

/-- What a list begins or ends with. -/
def AtEnd (c : α) (l : List α) : Prop := l.head? = some c ∨ l.getLast? = some c

instance [DecidableEq α] (c : α) (l : List α) : Decidable (AtEnd c l) :=
  inferInstanceAs (Decidable (_ ∨ _))

variable {blank other} {l : List α}

theorem trim_eq_nil_iff : trim blank l = [] ↔ ∀ c ∈ l, blank c = true := by
  rw [trim, List.rdropWhile_eq_nil_iff]
  constructor
  · intro all
    cases left : l.dropWhile blank with
    | nil => exact List.dropWhile_eq_nil_iff.mp left
    | cons c rest =>
      have kept := List.dropWhile_get_zero_not blank l (by simp [left])
      simp only [left, List.get_eq_getElem, List.getElem_cons_zero] at kept
      exact absurd (all c (by simp [left])) kept
  · intro all c member
    exact all c ((List.dropWhile_sublist blank).subset member)

/-- A list is its trimmed middle between two runs of blanks. -/
theorem trim_split (blank : α → Bool) (l : List α) : ∃ front back,
    l = front ++ trim blank l ++ back ∧ (∀ c ∈ front, blank c = true) ∧ ∀ c ∈ back,
      blank c = true := by
  refine ⟨l.takeWhile blank, (l.dropWhile blank).rtakeWhile blank, ?_, ?_, ?_⟩
  · rw [List.append_assoc, trim, List.rdropWhile_append_rtakeWhile, List.takeWhile_append_dropWhile]
  · intro c member
    exact List.mem_takeWhile_imp member
  · intro c member
    exact List.mem_rtakeWhile_imp member

theorem trim_sublist (blank : α → Bool) (l : List α) : (trim blank l).Sublist l := by
  obtain ⟨front, back, split, -, -⟩ := trim_split blank l
  have middle : (trim blank l).Sublist (front ++ trim blank l ++ back) :=
    (List.sublist_append_right front (trim blank l)).trans (List.sublist_append_left _ back)
  have whole : (front ++ trim blank l ++ back).Sublist l := by
    rw [← split]
  exact middle.trans whole

theorem mem_trim {c : α} (member : c ∈ trim blank l) : c ∈ l := (trim_sublist blank l).subset member

theorem mem_trim_of_not {c : α} (member : c ∈ l) (plain : blank c = false) : c ∈ trim blank l := by
  obtain ⟨front, back, split, before, after⟩ := trim_split blank l
  rw [split] at member
  rcases List.mem_append.mp member with early | late
  · rcases List.mem_append.mp early with outside | inside
    · rw [before c outside] at plain
      cases plain
    · exact inside
  · rw [after c late] at plain
    cases plain

theorem trim_append {front middle back : List α} (before : ∀ c ∈ front, blank c = true)
    (after : ∀ c ∈ back, blank c = true) :
    trim blank (front ++ middle ++ back) = trim blank middle := by
  rw [trim, List.append_assoc, List.dropWhile_append_of_pos before]
  cases left : middle.dropWhile blank with
  | nil =>
    have all := List.dropWhile_eq_nil_iff.mp left
    rw [List.dropWhile_append_of_pos all, List.dropWhile_eq_nil_iff.mpr after, trim, left]
  | cons c rest =>
    rw [List.dropWhile_append, left, trim, left]
    simp only [List.isEmpty_cons, Bool.false_eq_true, if_false]
    rw [List.rdropWhile, List.reverse_append,
      List.dropWhile_append_of_pos fun c member => after c (List.mem_reverse.mp member)]
    rfl

theorem trim_eq_self_iff : trim blank l = l ↔ ∀ c, AtEnd c l → blank c = false := by
  constructor
  · intro same c ends
    rcases ends with first | last
    · cases l with
      | nil => cases first
      | cons a rest =>
        cases first
        cases kept : blank c with
        | false => rfl
        | true =>
          have shorter := congrArg List.length same
          have short := (List.rdropWhile_prefix blank (l := rest.dropWhile blank)).length_le
          have shrink := (List.dropWhile_sublist (l := rest) blank).length_le
          rw [trim, List.dropWhile_cons_of_pos kept, List.length_cons] at shorter
          omega
    · have left : l.rdropWhile blank = l := by
        have shrink := (List.dropWhile_sublist (l := l) blank).length_le
        have short := (List.rdropWhile_prefix blank (l := l.dropWhile blank)).length_le
        have whole := congrArg List.length same
        rw [trim] at whole
        have kept : l.dropWhile blank = l := (List.dropWhile_sublist blank).eq_of_length (by omega)
        rw [trim, kept] at same
        exact same
      have nonempty : l ≠ [] := by
        rintro rfl
        cases last
      have plain := List.rdropWhile_eq_self_iff.mp left nonempty
      rw [List.getLast?_eq_some_getLast nonempty, Option.some.injEq] at last
      rwa [last, Bool.not_eq_true] at plain
  · intro ends
    have kept : l.dropWhile blank = l := by
      cases l with
      | nil => rfl
      | cons a rest =>
        have plain := ends a (.inl rfl)
        rw [List.dropWhile_cons_of_neg (by simp [plain])]
    rw [trim, kept, List.rdropWhile_eq_self_iff]
    intro nonempty
    rw [Bool.not_eq_true]
    exact ends _ (.inr (List.getLast?_eq_some_getLast nonempty))

theorem atEnd_trim {c : α} (ends : AtEnd c (trim blank l)) : blank c = false := by
  have fixed : trim blank (trim blank l) = trim blank l := by
    obtain ⟨front, back, split, before, after⟩ := trim_split blank l
    calc trim blank (trim blank l) = trim blank (front ++ trim blank l ++ back) :=
      (trim_append before after).symm
      _ = trim blank l := by rw [← split]
  exact trim_eq_self_iff.mp fixed c ends

/-- Trimming fewer blanks first makes no difference. -/
theorem trim_trim (weaker : ∀ c, other c = true → blank c = true) (l : List α) :
    trim blank (trim other l) = trim blank l := by
  obtain ⟨front, back, split, before, after⟩ := trim_split other l
  calc trim blank (trim other l) = trim blank (front ++ trim other l ++ back) :=
        (trim_append (fun c member => weaker c (before c member)) fun c member =>
          weaker c (after c member)).symm
    _ = trim blank l := by rw [← split]

/-- What both notions of a blank trim. -/
def trimBoth (blank other : α → Bool) (l : List α) : List α := trim (fun c => blank c && other c) l

theorem trim_trimBoth_left (l : List α) : trim blank (trimBoth blank other l) = trim blank l := by
  apply trim_trim
  intro c both
  exact (Bool.and_eq_true _ _ ▸ both).1

theorem trim_trimBoth_right (l : List α) : trim other (trimBoth blank other l) = trim other l := by
  apply trim_trim
  intro c both
  exact (Bool.and_eq_true _ _ ▸ both).2

theorem head?_trim {c : α} (first : l.head? = some c) (plain : blank c = false) :
    (trim blank l).head? = some c := by
  cases l with
  | nil => cases first
  | cons a rest =>
    cases first
    have member : c ∈ trim blank (c :: rest) := mem_trim_of_not List.mem_cons_self plain
    have kept : (c :: rest).dropWhile blank = c :: rest :=
      List.dropWhile_cons_of_neg (by simp [plain])
    obtain ⟨back, split⟩ := List.rdropWhile_prefix blank (l := c :: rest)
    cases left : (c :: rest).rdropWhile blank with
    | nil =>
      rw [trim, kept, left] at member
      cases member
    | cons d more =>
      rw [left] at split
      cases split
      rw [trim, kept, left]
      rfl

theorem trim_reverse (l : List α) : trim blank l.reverse = (trim blank l).reverse := by
  obtain ⟨front, back, split, before, after⟩ := trim_split blank l
  have turned : l.reverse = back.reverse ++ (trim blank l).reverse ++ front.reverse := by
    conv => lhs; rw [split]
    simp
  rw [turned, trim_append (fun c member => after c (List.mem_reverse.mp member)) fun c member =>
    before c (List.mem_reverse.mp member), trim_eq_self_iff]
  intro c ends
  refine atEnd_trim (l := l) (ends.symm.imp ?_ ?_)
  · rw [List.getLast?_reverse]
    exact id
  · rw [List.head?_reverse]
    exact id

theorem atEnd_trim_of_not {c : α} (ends : AtEnd c l) (plain : blank c = false) :
    AtEnd c (trim blank l) := by
  rcases ends with first | last
  · exact .inl (head?_trim first plain)
  · right
    rw [← List.head?_reverse] at last ⊢
    rw [← trim_reverse]
    exact head?_trim last plain

theorem atEnd_trimBoth {c : α} (ends : AtEnd c (trimBoth blank other l)) : blank c = false ∨
    other c = false := by
  have kept := atEnd_trim ends
  exact Bool.and_eq_false_iff.mp kept

/-- Two notions of a blank trim alike exactly when they agree about the ends of what both leave. -/
theorem trim_eq_trim_iff : trim blank l = trim other l ↔
    ∀ c, AtEnd c (trimBoth blank other l) → blank c = other c := by
  constructor
  · intro same c ends
    have left := @trim_trimBoth_left _ blank other l
    have right := @trim_trimBoth_right _ blank other l
    rcases atEnd_trimBoth ends with plain | plain
    · have kept := atEnd_trim_of_not ends plain
      rw [left, same] at kept
      rw [plain, atEnd_trim kept]
    · have kept := atEnd_trim_of_not ends plain
      rw [right, ← same] at kept
      rw [plain, atEnd_trim kept]
  · intro agree
    have plain : ∀ c, AtEnd c (trimBoth blank other l) → blank c = false ∧ other c = false := by
      intro c ends
      rcases atEnd_trimBoth ends with here | here
      · exact ⟨here, agree c ends ▸ here⟩
      · exact ⟨(agree c ends).trans here, here⟩
    calc trim blank l = trim blank (trimBoth blank other l) := (trim_trimBoth_left l).symm
      _ = trimBoth blank other l := trim_eq_self_iff.mpr fun c ends => (plain c ends).1
      _ = trim other (trimBoth blank other l) :=
        (trim_eq_self_iff.mpr fun c ends => (plain c ends).2).symm
      _ = trim other l := trim_trimBoth_right l

end Metahumotonic.Library
