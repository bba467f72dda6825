import Mathlib.Data.List.Infix
import Mathlib.Data.List.Basic

/-! The pattern language of `LIKE`: `%` stands for any text, `_` for one character, and the escape
character takes the next one literally. A pattern built around a text finds what contains the text
only if the text has no syntax of its own. -/
namespace Metahumotonic.Library

inductive Token where
  | any
  | one
  | literal (c : Char)
  deriving DecidableEq, Repr

/-- The tokens of a pattern; none if it ends with the escape character. -/
def tokens : List Char → Option (List Token)
  | [] => some []
  | ['\\'] => none
  | '\\' :: c :: rest => (tokens rest).map (.literal c :: ·)
  | '%' :: rest => (tokens rest).map (.any :: ·)
  | '_' :: rest => (tokens rest).map (.one :: ·)
  | c :: rest => (tokens rest).map (.literal c :: ·)

def matchTokens : List Token → List Char → Bool
  | [], text => text.isEmpty
  | .any :: pattern, text => text.tails.any fun rest => matchTokens pattern rest
  | .one :: pattern, text => text.tail?.any fun rest => matchTokens pattern rest
  | .literal c :: pattern, text => text.head? == some c && text.tail?.any fun rest =>
    matchTokens pattern rest

def like (pattern text : List Char) : Bool := (tokens pattern).any fun tokens =>
    matchTokens tokens text

/-- `part in whole`. -/
def occurs (part whole : List Char) : Bool := whole.tails.any fun rest => part.isPrefixOf rest

def isSyntax (c : Char) : Bool := c == '%' || c == '_' || c == '\\'

/-- A text that a pattern matches: nothing for `%`, a letter for `_`. -/
def fill : List Token → List Char
  | [] => []
  | .any :: pattern => fill pattern
  | .one :: pattern => 'a' :: fill pattern
  | .literal c :: pattern => c :: fill pattern

theorem matchTokens_any (pattern : List Token) (text : List Char) :
    matchTokens (.any :: pattern) text = true ↔ ∃ rest, rest <:+ text ∧
      matchTokens pattern rest = true := by
  simp [matchTokens]

theorem matchTokens_literals (part : List Char) (pattern : List Token) (text : List Char) :
    matchTokens (part.map .literal ++ pattern) text = true ↔
      ∃ rest, text = part ++ rest ∧ matchTokens pattern rest = true := by
  induction part generalizing text with
  | nil => simp
  | cons c part ih =>
    cases text with
    | nil => simp [matchTokens]
    | cons d text =>
      simp only [List.map_cons, List.cons_append, matchTokens, List.head?_cons, List.tail?_cons,
        Option.any_some,
        Bool.and_eq_true, beq_iff_eq, Option.some.injEq, ih, List.cons.injEq]
      constructor
      · rintro ⟨rfl, rest, rfl, matched⟩
        exact ⟨rest, ⟨rfl, rfl⟩, matched⟩
      · rintro ⟨rest, ⟨rfl, rfl⟩, matched⟩
        exact ⟨rfl, rest, rfl, matched⟩

theorem matchTokens_fill (pattern : List Token) : matchTokens pattern (fill pattern) = true := by
  induction pattern with
  | nil => rfl
  | cons token pattern ih =>
    cases token with
    | any => exact (matchTokens_any pattern _).mpr ⟨_, List.suffix_refl _, ih⟩
    | one => simpa [matchTokens, fill] using ih
    | literal c => simpa [matchTokens, fill] using ih

theorem tokens_literal {c : Char} (plain : isSyntax c = false) (rest : List Char) :
    tokens (c :: rest) = (tokens rest).map (.literal c :: ·) := by
  simp only [isSyntax, Bool.or_eq_false_iff, beq_eq_false_iff_ne] at plain
  obtain ⟨⟨percent, underscore⟩, backslash⟩ := plain
  rw [tokens.eq_def]
  split <;> simp_all

theorem tokens_plain {part : List Char} (plain : ∀ c ∈ part, isSyntax c = false)
    (rest : List Char) :
    tokens (part ++ rest) = (tokens rest).map (part.map .literal ++ ·) := by
  induction part with
  | nil => simp
  | cons c part ih =>
    rw [List.cons_append, tokens_literal (plain c List.mem_cons_self), ih fun d member =>
      plain d (List.mem_cons_of_mem c member), Option.map_map]
    rfl

theorem occurs_iff (part whole : List Char) : occurs part whole = true ↔ part <:+: whole := by
  simp only [occurs, List.any_eq_true, List.mem_tails, List.isPrefixOf_iff_prefix]
  constructor
  · rintro ⟨rest, suffix, start⟩
    exact start.isInfix.trans suffix.isInfix
  · rintro ⟨front, back, rfl⟩
    exact ⟨part ++ back, ⟨front, by simp⟩, List.prefix_append _ _⟩

/-- A pattern around a text without syntax of its own finds what contains the text. -/
theorem like_plain {part : List Char} (plain : ∀ c ∈ part, isSyntax c = false) (text : List Char) :
    like ('%' :: (part ++ ['%'])) text = occurs part text := by
  have parsed : tokens ('%' :: (part ++ ['%'])) = some (.any :: (part.map .literal ++ [.any])) := by
    rw [tokens, tokens_plain plain]
    rfl
  rw [like, parsed, Option.any_some, Bool.eq_iff_iff, matchTokens_any, occurs, List.any_eq_true]
  simp only [List.mem_tails, List.isPrefixOf_iff_prefix, matchTokens_literals,
    List.prefix_iff_exists_append_eq]
  constructor
  · rintro ⟨rest, suffix, back, rfl, -⟩
    exact ⟨_, suffix, back, rfl⟩
  · rintro ⟨rest, suffix, back, rfl⟩
    exact ⟨_, suffix, back, rfl, (matchTokens_any [] back).mpr ⟨[], List.nil_suffix, rfl⟩⟩

/-- The filling of the pattern that is built around a text is no longer than the text, has hardly
another character, and is the text itself only if that has no syntax of its own. -/
def Filled (part : List Char) : Prop :=
  ∃ pattern, tokens (part ++ ['%']) = some pattern ∧ (fill pattern).length ≤ part.length ∧
    (∀ c ∈ fill pattern, c = 'a' ∨ c = '%' ∨ c ∈ part) ∧
    (fill pattern = part → ∀ c ∈ part, isSyntax c = false)

theorem tokens_around_nil : Filled [] :=
  ⟨[.any], rfl, Nat.le_refl 0, nofun, fun _ _ absurd => nomatch absurd⟩

theorem tokens_around_last : Filled ['\\'] :=
  ⟨[.literal '%'], rfl, Nat.le_refl 1, by simp [fill], fun same => by simp [fill] at same⟩

theorem tokens_around_escape (c : Char) {rest : List Char} (filled : Filled rest) :
    Filled ('\\' :: c :: rest) := by
  obtain ⟨pattern, parsed, short, drawn, -⟩ := filled
  refine ⟨.literal c :: pattern, by simp [tokens, parsed], ?_, ?_, ?_⟩
  · simp only [fill, List.length_cons]
    omega
  · intro d member
    rcases List.mem_cons.mp member with rfl | later
    · simp
    · rcases drawn d later with letter | percent | inside
      · exact .inl letter
      · exact .inr (.inl percent)
      · exact .inr (.inr (by simp [inside]))
  · intro same
    have lengths := congrArg List.length same
    simp only [fill, List.length_cons] at lengths
    omega

theorem tokens_around_cons {c : Char} {rest : List Char} (escape : c ≠ '\\')
    (filled : Filled rest) :
    Filled (c :: rest) := by
  obtain ⟨pattern, parsed, short, drawn, plain⟩ := filled
  have later : ∀ d ∈ fill pattern, d = 'a' ∨ d = '%' ∨ d ∈ c :: rest := by
    intro d member
    rcases drawn d member with letter | percent | inside
    · exact .inl letter
    · exact .inr (.inl percent)
    · exact .inr (.inr (List.mem_cons_of_mem c inside))
  by_cases percent : c = '%'
  · subst percent
    refine ⟨.any :: pattern, by simp [tokens, parsed], Nat.le_succ_of_le short, later, ?_⟩
    intro same
    have lengths := congrArg List.length same
    simp only [fill, List.length_cons] at lengths
    omega
  by_cases underscore : c = '_'
  · subst underscore
    refine ⟨.one :: pattern, by simp [tokens, parsed], Nat.succ_le_succ short, ?_,
      fun same => by simp [fill] at same⟩
    intro d member
    rcases List.mem_cons.mp member with rfl | inside
    · exact .inl rfl
    · exact later d inside
  · have literal : isSyntax c = false := by simp [isSyntax, percent, underscore, escape]
    refine ⟨.literal c :: pattern, ?_, Nat.succ_le_succ short, ?_, ?_⟩
    · rw [List.cons_append, tokens_literal literal, parsed]
      rfl
    · intro d member
      rcases List.mem_cons.mp member with rfl | inside
      · exact .inr (.inr List.mem_cons_self)
      · exact later d inside
    · intro same d member
      rcases List.mem_cons.mp member with rfl | inside
      · exact literal
      · exact plain (List.cons.inj same).2 d inside

theorem tokens_around (part : List Char) : Filled part := by
  match part with
  | [] => exact tokens_around_nil
  | [c] =>
    by_cases escape : c = '\\'
    · exact escape ▸ tokens_around_last
    · exact tokens_around_cons escape tokens_around_nil
  | c :: d :: rest =>
    by_cases escape : c = '\\'
    · exact escape ▸ tokens_around_escape d (tokens_around rest)
    · exact tokens_around_cons escape (tokens_around (d :: rest))
termination_by part.length

/-- A text with syntax of its own is not found in the filling of the pattern around it, which the
pattern matches nevertheless. -/
theorem like_fill {part : List Char} (syntactic : ∃ c ∈ part, isSyntax c = true) : ∃ text,
    (∀ front, like ('%' :: (part ++ ['%'])) (front ++ text) = true) ∧ ¬ part <:+: text ∧
      text.length ≤ part.length ∧ ∀ c ∈ text, c = 'a' ∨ c = '%' ∨ c ∈ part := by
  obtain ⟨pattern, parsed, short, drawn, plain⟩ := tokens_around part
  refine ⟨fill pattern, ?_, ?_, short, drawn⟩
  · intro front
    have whole : tokens ('%' :: (part ++ ['%'])) = some (.any :: pattern) := by
      rw [tokens, parsed]
      rfl
    rw [like, whole, Option.any_some, matchTokens_any]
    exact ⟨fill pattern, List.suffix_append _ _, matchTokens_fill pattern⟩
  · intro inside
    obtain ⟨c, member, meant⟩ := syntactic
    have same := inside.sublist.eq_of_length_le short
    rw [plain same.symm c member] at meant
    cases meant

end Metahumotonic.Library
