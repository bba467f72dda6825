import Metahumotonic.Library.JsonCodec

/-! Placeholders `<NAME>` in texts, and in documents that are written out: whatever the style of
writing, a document shows exactly the placeholders of its names and texts. -/
namespace Metahumotonic.Library.Placeholder

/-- `[A-Z0-9_]`. -/
def word (c : ℕ) : Bool := (65 ≤ c && c ≤ 90) || (48 ≤ c && c ≤ 57) || c == 95

/-- `<[A-Z][A-Z0-9_]*>` matches here. -/
def starts : Text → Bool
  | 60 :: c :: rest => 65 ≤ c && c ≤ 90 && (rest.dropWhile word).head? == some 62
  | _ => false

/-- The pattern matches somewhere. -/
def found : Text → Bool
  | [] => false
  | c :: rest => starts (c :: rest) || found rest

/-- A sign that no placeholder has. -/
def foreign (c : ℕ) : Bool := !(c == 60 || c == 62 || word c)

theorem starts_of_ne {c : ℕ} (other : c ≠ 60) (rest : Text) : starts (c :: rest) = false := by
  unfold starts
  split
  · rename_i same
    exact absurd (List.cons.inj same).1 other
  · rfl

/-- What has no opening sign adds nothing in front. -/
theorem found_append_of_no_open {xs : Text} (plain : ∀ c ∈ xs, c ≠ 60) (ys : Text) :
    found (xs ++ ys) = found ys := by
  induction xs with
  | nil => rfl
  | cons c rest ih =>
    rw [List.cons_append, found, starts_of_ne (plain c List.mem_cons_self), Bool.false_or]
    exact ih fun d inside => plain d (List.mem_cons_of_mem _ inside)

theorem foreign_facts {c : ℕ} (other : foreign c = true) : c ≠ 60 ∧ c ≠ 62 ∧ word c = false := by
  simp only [foreign, Bool.not_eq_true', Bool.or_eq_false_iff, beq_eq_false_iff_ne] at other
  exact ⟨other.1.1, other.1.2, other.2⟩

/-- No placeholder runs past a foreign sign. -/
theorem starts_append_foreign {c : ℕ} (other : foreign c = true) (xs ys : Text) :
    starts (xs ++ c :: ys) = starts xs := by
  obtain ⟨notOpen, notClose, notWord⟩ := foreign_facts other
  have closes : ∀ rest : Text, ((rest ++ c :: ys).dropWhile word).head? = some 62 ↔
      (rest.dropWhile word).head? = some 62 := by
    intro rest
    induction rest with
    | nil => simp [notWord, notClose]
    | cons d rest ih =>
      by_cases inside : word d = true
      · rw [List.cons_append, List.dropWhile_cons_of_pos inside,
          List.dropWhile_cons_of_pos inside, ih]
      · rw [List.cons_append, List.dropWhile_cons_of_neg inside, List.dropWhile_cons_of_neg inside]
        simp
  have upper : ¬ (65 ≤ c ∧ c ≤ 90) := by
    intro letter
    simp [word, letter] at notWord
  match xs with
  | [] => exact starts_of_ne notOpen ys
  | [d] =>
    by_cases open_ : d = 60
    · subst open_
      have no : (decide (65 ≤ c) && decide (c ≤ 90)) = false := by
        rw [← Bool.decide_and, decide_eq_false_iff_not]
        exact upper
      simp [starts, no]
    · rw [starts_of_ne open_, List.cons_append, starts_of_ne open_]
  | d :: e :: rest =>
    by_cases open_ : d = 60
    · subst open_
      have same := closes rest
      rw [Bool.eq_iff_iff]
      simp only [List.cons_append, starts, Bool.and_eq_true, beq_iff_eq, same]
    · rw [starts_of_ne open_, List.cons_append, starts_of_ne open_]

theorem found_append_foreign {c : ℕ} (other : foreign c = true) (xs ys : Text) :
    found (xs ++ c :: ys) = (found xs || found ys) := by
  induction xs with
  | nil =>
    change (starts (c :: ys) || found ys) = found ys
    rw [starts_of_ne (foreign_facts other).1, Bool.false_or]
  | cons d rest ih =>
    have here := starts_append_foreign other (d :: rest) ys
    rw [List.cons_append] at here ⊢
    rw [found, here, ih, found, Bool.or_assoc]

/-- An escape that leaves the signs of placeholders alone and writes the others without an opening
sign, beginning with a foreign sign. -/
structure Escapes (escape : ℕ → Text) : Prop where
  kept : ∀ c, foreign c = false → escape c = [c]
  other : ∀ c, foreign c = true → ∃ d tail, escape c = d :: tail ∧ foreign d = true ∧
    ∀ e ∈ tail, e ≠ 60

section
variable {escape : ℕ → Text} (escapes : Escapes escape)
include escapes

theorem closes_flatMap (s : Text) : ((s.flatMap escape).dropWhile word).head? = some 62 ↔
    (s.dropWhile word).head? = some 62 := by
  induction s with
  | nil => exact Iff.rfl
  | cons c rest ih =>
    rw [List.flatMap_cons]
    by_cases other : foreign c = true
    · obtain ⟨d, tail, written, outside, -⟩ := escapes.other c other
      obtain ⟨-, notClose, notWord⟩ := foreign_facts other
      obtain ⟨-, notClose', notWord'⟩ := foreign_facts outside
      simp [written, notWord, notWord', notClose, notClose']
    · rw [escapes.kept c (Bool.eq_false_iff.mpr other), List.singleton_append]
      by_cases inside : word c = true
      · rw [List.dropWhile_cons_of_pos inside, List.dropWhile_cons_of_pos inside, ih]
      · rw [List.dropWhile_cons_of_neg inside, List.dropWhile_cons_of_neg inside]
        simp

theorem starts_flatMap (c : ℕ) (s : Text) : starts (c :: s.flatMap escape) = starts (c :: s) := by
  by_cases open_ : c = 60
  · subst open_
    cases s with
    | nil => rfl
    | cons d rest =>
      rw [List.flatMap_cons]
      by_cases other : foreign d = true
      · obtain ⟨e, tail, written, outside, -⟩ := escapes.other d other
        have upper : ∀ f, foreign f = true → (decide (65 ≤ f) && decide (f ≤ 90)) = false := by
          intro f outside
          have notWord := (foreign_facts outside).2.2
          simp only [word, Bool.or_eq_false_iff] at notWord
          exact notWord.1.1
        rw [written]
        simp only [List.cons_append, starts, upper d other, upper e outside, Bool.false_and]
      · have same := closes_flatMap escapes rest
        rw [escapes.kept d (Bool.eq_false_iff.mpr other), Bool.eq_iff_iff]
        simp only [List.singleton_append, starts, Bool.and_eq_true, beq_iff_eq, same]
  · rw [starts_of_ne open_, starts_of_ne open_]

/-- Escaping changes nothing about placeholders. -/
theorem found_flatMap (s : Text) : found (s.flatMap escape) = found s := by
  induction s with
  | nil => rfl
  | cons c rest ih =>
    rw [List.flatMap_cons]
    by_cases other : foreign c = true
    · obtain ⟨d, tail, written, outside, plain⟩ := escapes.other c other
      have closed : ∀ e ∈ d :: tail, e ≠ 60 :=
        List.forall_mem_cons.mpr ⟨(foreign_facts outside).1, plain⟩
      rw [written, found_append_of_no_open closed, ih, found, starts_of_ne (foreign_facts other).1,
        Bool.false_or]
    · rw [escapes.kept c (Bool.eq_false_iff.mpr other), List.singleton_append, found,
        starts_flatMap escapes, ih,
        found]

end

/-! ### Documents -/

/-- A name or a text of the document, at any depth, has a placeholder. -/
def mentions (v : Json) : Bool := !(v.all (fun k => !found k) fun s => !found s)

/-- How a language writes documents. -/
structure Style where
  word : Option Bool → Text
  number : Text → Text
  quote : Text → Text
  comma : Text
  colon : Text
  words : ∀ w, ∀ c ∈ word w, c ≠ 60
  numbers : ∀ s, ∀ c ∈ number s, c ≠ 60
  quotes : ∀ s, ∃ mark body, quote s = mark :: (body ++ [mark]) ∧ foreign mark = true ∧
    found body = found s
  commas : comma.head? = some 44 ∧ ∀ c ∈ comma, c ≠ 60
  colons : ∀ c ∈ colon, c ≠ 60

mutual
def Style.write (style : Style) : Json → Text
  | .null => style.word none
  | .bool b => style.word (some b)
  | .int n => style.number (Json.writeInt n)
  | .float s => style.number s
  | .text s => style.quote s
  | .array items => 91 :: style.writeItems true items
  | .object members => 123 :: style.writeMembers true members
def Style.writeItems (style : Style) (first : Bool) : List Json → Text
  | [] => [93]
  | v :: rest => (if first then [] else style.comma) ++
    (style.write v ++ style.writeItems false rest)
def Style.writeMembers (style : Style) (first : Bool) : Members → Text
  | [] => [125]
  | (k, v) :: rest =>
    (if first then [] else style.comma) ++
      (style.quote k ++ (style.colon ++ (style.write v ++ style.writeMembers false rest)))
end

section
variable (style : Style)

theorem separator_plain (first : Bool) : ∀ c ∈ (if first then [] else style.comma), c ≠ 60 := by
  cases first with
  | true => nofun
  | false => exact style.commas.2

theorem writeItems_head (items : List Json) : ∃ c rest, style.writeItems false items = c :: rest ∧
    foreign c = true := by
  cases items with
  | nil => exact ⟨93, [], rfl, rfl⟩
  | cons v later =>
    obtain ⟨comma, -⟩ := style.commas
    cases written : style.comma with
    | nil =>
      rw [written] at comma
      cases comma
    | cons c tail =>
      rw [written] at comma
      cases comma
      exact ⟨44, tail ++ (style.write v ++ style.writeItems false later), by
        simp [Style.writeItems, written], rfl⟩

theorem writeMembers_head (members : Members) :
    ∃ c rest, style.writeMembers false members = c :: rest ∧
    foreign c = true := by
  cases members with
  | nil => exact ⟨125, [], rfl, rfl⟩
  | cons member later =>
    obtain ⟨k, v⟩ := member
    obtain ⟨comma, -⟩ := style.commas
    cases written : style.comma with
    | nil =>
      rw [written] at comma
      cases comma
    | cons c tail =>
      rw [written] at comma
      cases comma
      exact ⟨44, tail ++
        (style.quote k ++ (style.colon ++ (style.write v ++ style.writeMembers false later))),
        by simp [Style.writeMembers, written], rfl⟩

theorem found_quote (s later : Text) :
    found (style.quote s ++ later) = (found s || found later) := by
  obtain ⟨mark, body, written, outside, same⟩ := style.quotes s
  have open_ : ∀ c ∈ [mark], c ≠ 60 := List.forall_mem_singleton.mpr (foreign_facts outside).1
  rw [written, List.cons_append, List.append_assoc, List.singleton_append, ← List.singleton_append,
    found_append_of_no_open open_, found_append_foreign outside, same]

/-- A written document has a placeholder exactly where one of its names and texts has one. -/
theorem found_write (v : Json) : found (style.write v) = mentions v := by
  have plain : ∀ {w : Text}, (∀ c ∈ w, c ≠ 60) → found w = false := by
    intro w closed
    have alone := found_append_of_no_open closed []
    rwa [List.append_nil] at alone
  have skip : ∀ (c : ℕ) (later : Text), c ≠ 60 → found (c :: later) = found later := by
    intro c later closed
    rw [found, starts_of_ne closed, Bool.false_or]
  apply Json.rec (motive_1 := fun v => found (style.write v) = mentions v)
    (motive_2 := fun items => ∀ first, found (style.writeItems first items) =
      !(Json.allItems (fun k => !found k) (fun s => !found s) items))
    (motive_3 := fun members => ∀ first, found (style.writeMembers first members) =
      !(Json.allMembers (fun k => !found k) (fun s => !found s) members))
    (motive_4 := fun member => found (style.write member.2) = mentions member.2)
  · exact plain (style.words none)
  · exact fun b => plain (style.words (some b))
  · exact fun n => plain (style.numbers _)
  · exact fun s => plain (style.numbers s)
  · intro s
    have alone := found_quote style s []
    rw [List.append_nil] at alone
    exact alone.trans (by simp [mentions, found])
  · intro items ih
    exact (skip 91 _ (by decide)).trans (ih true)
  · intro members ih
    exact (skip 123 _ (by decide)).trans (ih true)
  · intro first
    rfl
  · intro v rest here later first
    obtain ⟨c, tail, written, outside⟩ := writeItems_head style rest
    have after := later false
    rw [written, skip c tail (foreign_facts outside).1] at after
    rw [Style.writeItems, found_append_of_no_open (separator_plain style first), written,
      found_append_foreign outside, here, after]
    simp only [mentions, Json.allItems, Bool.not_and]
  · intro first
    rfl
  · intro member rest here later first
    obtain ⟨k, v⟩ := member
    obtain ⟨c, tail, written, outside⟩ := writeMembers_head style rest
    have after := later false
    rw [written, skip c tail (foreign_facts outside).1] at after
    rw [Style.writeMembers, found_append_of_no_open (separator_plain style first), found_quote,
      found_append_of_no_open style.colons, written, found_append_foreign outside, here, after]
    simp only [mentions, Json.allMembers, Bool.not_and, Bool.not_not, Bool.or_assoc]
  · intro k v here
    exact here

end

end Metahumotonic.Library.Placeholder
