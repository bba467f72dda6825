import Metahumotonic.Library.Hangul
import Metahumotonic.Library.Json
import Metahumotonic.Library.Trim
import Metahumotonic.Wiki.Idempotency
import Mathlib.Data.List.Chain

/-! The slug of a page (`normalize_slug`, `page_or_404` and `create_page` in `app/routers/wiki.py`):
whether a slug that was stored is its own normal form. -/
namespace Metahumotonic.Wiki

open Library InMemoryWikiStore

/-! ### The passes over a list of characters -/

section Runs

variable {p q : Char → Bool} {R : Char → Char → Prop}

theorem mem_hyphenateRuns {l : List Char} {inRun : Bool} {c : Char}
    (member : c ∈ hyphenateRuns p inRun l) :
    c = '-' ∨ c ∈ l ∧ p c = false := by
  induction l generalizing inRun with
  | nil => cases member
  | cons d rest ih =>
    unfold hyphenateRuns at member
    by_cases run : p d = true
    · rw [if_pos run] at member
      cases inRun with
      | true => exact (ih member).imp_right fun kept => ⟨List.mem_cons_of_mem _ kept.1, kept.2⟩
      | false =>
        rcases List.mem_cons.mp member with same | inside
        · exact .inl same
        · exact (ih inside).imp_right fun kept => ⟨List.mem_cons_of_mem _ kept.1, kept.2⟩
    · rw [if_neg run] at member
      rcases List.mem_cons.mp member with rfl | inside
      · exact .inr ⟨List.mem_cons_self, Bool.eq_false_iff.mpr run⟩
      · exact (ih inside).imp_right fun kept => ⟨List.mem_cons_of_mem _ kept.1, kept.2⟩

theorem length_hyphenateRuns (l : List Char) (inRun : Bool) :
    (hyphenateRuns p inRun l).length ≤ l.length := by
  induction l generalizing inRun with
  | nil => exact Nat.le_refl 0
  | cons c rest ih =>
    have start := ih true
    have later := ih false
    unfold hyphenateRuns
    split
    · split <;> simp only [List.length_cons] <;> omega
    · simp only [List.length_cons]
      omega

theorem hyphenateRuns_none {l : List Char} (none_ : ∀ c ∈ l, p c = false) (inRun : Bool) :
    hyphenateRuns p inRun l = l := by
  induction l generalizing inRun with
  | nil => rfl
  | cons c rest ih =>
    have first : ¬ p c = true := by simp [none_ c List.mem_cons_self]
    rw [hyphenateRuns, if_neg first, ih fun d inside => none_ d (List.mem_cons_of_mem _ inside)]

/-- Not both a hyphen. -/
def Single (a b : Char) : Prop := ¬ (a = '-' ∧ b = '-')

instance : DecidableRel Single := fun a b => inferInstanceAs (Decidable (¬ (a = '-' ∧ b = '-')))

theorem hyphens_single (l : List Char) (x : Char) :
    (x :: hyphenateRuns (· == '-') (x == '-') l).IsChain Single := by
  induction l generalizing x with
  | nil => exact List.isChain_singleton x
  | cons c rest ih =>
    unfold hyphenateRuns
    by_cases hyphen : c = '-'
    · subst hyphen
      by_cases again : x = '-'
      · subst again
        exact ih '-'
      · rw [if_pos (beq_self_eq_true _), if_neg (by simpa using again)]
        exact List.isChain_cons_cons.mpr ⟨fun both => again both.1, ih '-'⟩
    · have plain : (c == '-') = false := by simpa using hyphen
      rw [if_neg (by simpa using hyphen), ← plain]
      exact List.isChain_cons_cons.mpr ⟨fun both => hyphen both.2, ih c⟩

theorem hyphenateRuns_single {l : List Char} {x : Char} (single : (x :: l).IsChain Single) :
    hyphenateRuns (· == '-') (x == '-') l = l := by
  induction l generalizing x with
  | nil => rfl
  | cons c rest ih =>
    obtain ⟨apart, later⟩ := List.isChain_cons_cons.mp single
    have tail := ih later
    unfold hyphenateRuns
    by_cases hyphen : c = '-'
    · subst hyphen
      have before : ¬ (x == '-') = true := fun same => apart ⟨eq_of_beq same, rfl⟩
      rw [if_pos (beq_self_eq_true _), if_neg before]
      exact congrArg _ tail
    · have plain : (c == '-') = false := by simpa using hyphen
      rw [if_neg (by simpa using hyphen), ← plain, tail]

/-- Related to every character on both sides. -/
def Loose (R : Char → Char → Prop) (c : Char) : Prop := ∀ x, R c x ∧ R x c

theorem chain_cons_loose {x : Char} (loose : Loose R x) (l : List Char) : (x :: l).IsChain R ↔
    l.IsChain R := by
  cases l with
  | nil => simp
  | cons c rest => rw [List.isChain_cons_cons, and_iff_right (loose c).1]

/-- Hyphens for separators do not change which of the other characters are neighbours. -/
theorem chain_hyphenateRuns (hyphen : Loose R '-') (loose : ∀ c, p c = true → Loose R c)
    (kept : q '-' = true)
    (l : List Char) (inRun : Bool) (x : Char) (before : inRun = true → Loose R x) :
    (x :: (hyphenateRuns p inRun l).filter q).IsChain R ↔
    (x :: l.filter fun c => p c || q c).IsChain R := by
  induction l generalizing inRun x with
  | nil => rfl
  | cons c rest ih =>
    unfold hyphenateRuns
    by_cases run : p c = true
    · rw [if_pos run, List.filter_cons_of_pos (by simp [run])]
      have skipped := chain_cons_loose (loose c run) (rest.filter fun c => p c || q c)
      cases inRun with
      | true =>
        have here := before rfl
        rw [if_pos rfl, ih true x fun _ => here, chain_cons_loose here,
          chain_cons_loose here, skipped]
      | false =>
        rw [if_neg Bool.false_ne_true, List.filter_cons_of_pos kept, List.isChain_cons_cons,
          List.isChain_cons_cons, and_iff_right (hyphen x).2, and_iff_right (loose c run x).2,
          ih true '-' fun _ => hyphen, chain_cons_loose hyphen, skipped]
    · rw [if_neg run]
      by_cases stays : q c = true
      · rw [List.filter_cons_of_pos stays, List.filter_cons_of_pos (by simp [stays]),
          List.isChain_cons_cons,
          List.isChain_cons_cons, ih false c nofun]
      · rw [List.filter_cons_of_neg stays, List.filter_cons_of_neg (by simp [run, stays])]
        exact ih false x nofun

theorem chain_strip (loose : ∀ c, p c = true → Loose R c) (l : List Char) :
    (strip p l).IsChain R ↔ l.IsChain R := by
  have front : ∀ (S : Char → Char → Prop), (∀ c, p c = true → Loose S c) → ∀ l : List Char,
      (l.dropWhile p).IsChain S ↔ l.IsChain S := by
    intro S loose l
    induction l with
    | nil => rfl
    | cons c rest ih =>
      by_cases drop : p c = true
      · rw [List.dropWhile_cons_of_pos drop, ih, chain_cons_loose (loose c drop)]
      · rw [List.dropWhile_cons_of_neg drop]
  have turned : ∀ c, p c = true → Loose (fun a b => R b a) c := fun c drop x =>
    (loose c drop x).symm
  rw [strip, List.isChain_reverse]
  exact (front _ turned _).trans
    ((List.isChain_reverse (l := l.dropWhile p)).trans (front R loose l))

theorem strip_eq_trim (p : Char → Bool) (l : List Char) : strip p l = trim p l := rfl

end Runs

/-! ### Slugs -/

def Unicode.folded (unicode : Unicode) (value : String) : List Char :=
  (unicode.casefold (String.ofList (strip unicode.isSpace (unicode.nfkc value).toList))).toList

def Unicode.separates (unicode : Unicode) (c : Char) : Bool := unicode.isSpace c || c == '_'

def Unicode.keeps (unicode : Unicode) (c : Char) : Bool := unicode.isAlnum c || c == '-'

/-- The passes after folding. -/
def Unicode.hyphenated (unicode : Unicode) (folded : List Char) : List Char :=
  strip (· == '-')
    (hyphenateRuns (· == '-') false
      ((hyphenateRuns unicode.separates false folded).filter unicode.keeps))

/-- What the Unicode Character Database says of the tables: a letter or digit is no separator; every
character of a normalised or folded text is normalised or folded itself, and the letters and digits
that folding makes of a normalised character are normalised; folding maps each character alone; and
of letters, digits and hyphens that are normalised each, only Hangul composes. -/
structure Unicode.Standard (unicode : Unicode) : Prop where
  solid : ∀ c, unicode.isAlnum c = true → unicode.isSpace c = false ∧ c ≠ '-' ∧ c ≠ '_'
  hyphen : unicode.isSpace '-' = false ∧ unicode.casefold "-" = "-"
  hangul : ∀ c, Hangul.conjoins c = true →
    unicode.isAlnum c = true ∧ unicode.casefold (String.ofList [c]) = String.ofList [c]
  normalised : ∀ s, ∀ c ∈ (unicode.nfkc s).toList, unicode.nfkc (String.ofList [c]) =
    String.ofList [c]
  folds : ∀ s t, unicode.casefold (s ++ t) = unicode.casefold s ++ unicode.casefold t
  foldsOnce : ∀ s, ∀ c ∈ (unicode.casefold s).toList, unicode.casefold (String.ofList [c]) =
    String.ofList [c]
  foldsNormalised : ∀ c, unicode.nfkc (String.ofList [c]) = String.ofList [c] →
    ∀ d ∈ (unicode.casefold (String.ofList [c])).toList, unicode.isAlnum d = true →
      unicode.nfkc (String.ofList [d]) = String.ofList [d]
  composes : ∀ l, (∀ c ∈ l, c = '-' ∨ unicode.isAlnum c = true ∧
    unicode.nfkc (String.ofList [c]) = String.ofList [c]) →
    unicode.nfkc (String.ofList l) = String.ofList (Hangul.compose l)

/-- A stored slug as the routes need it. -/
structure CanonicalSlug (unicode : Unicode) (slug : String) : Prop where
  nonempty : 1 ≤ slug.length
  short : slug.length ≤ MAX_SLUG
  characters : ∀ c ∈ slug.toList, unicode.isAlnum c = true ∨ c = '-'
  first : slug.toList.head? ≠ some '-'
  last : slug.toList.getLast? ≠ some '-'
  single : slug.toList.IsChain Single
  unreserved : slug ∉ RESERVED_SLUGS
  again : normalizeSlug unicode slug = .ok slug

/-- Without the characters that are left out, no two Hangul characters of the folded text compose.
-/
def Unicode.StaysApart (unicode : Unicode) (value : String) : Prop :=
  ((unicode.folded value).filter fun c => unicode.separates c || unicode.keeps c).IsChain
    Hangul.Apart

section

variable {unicode : Unicode} {value slug : String}

/-- The checks at the end of `normalize_slug`. -/
def checkSlug (slug : String) : Except WikiError String :=
  if slug = "" ∨ MAX_SLUG < slug.length then
    .error ⟨"invalid_slug", "slug must normalize to 1..80 characters", 422⟩
  else if slug ∈ RESERVED_SLUGS then .error ⟨"reserved_slug", "slug is reserved", 422⟩
  else .ok slug

theorem normalizeSlug_eq (unicode : Unicode) (value : String) :
    normalizeSlug unicode value = checkSlug
      (String.ofList (unicode.hyphenated (unicode.folded value))) := rfl

theorem checkSlug_ok {made : String} :
    checkSlug made = .ok slug ↔ slug = made ∧ 1 ≤ made.length ∧ made.length ≤ MAX_SLUG ∧
      made ∉ RESERVED_SLUGS := by
  have empty : made = "" ↔ made.length = 0 := String.length_eq_zero_iff.symm
  unfold checkSlug
  split
  · rename_i bad
    refine iff_of_false nofun ?_
    rintro ⟨-, long, short, -⟩
    rcases bad with nothing | tooLong
    · have := empty.mp nothing
      omega
    · omega
  · rename_i good
    obtain ⟨something, fits⟩ := not_or.mp good
    split
    · rename_i reserved
      exact iff_of_false nofun fun all => all.2.2.2 reserved
    · rename_i free
      have long : 1 ≤ made.length := Nat.one_le_iff_ne_zero.mpr fun zero =>
        something (empty.mpr zero)
      rw [Except.ok.injEq, and_iff_left ⟨long, Nat.not_lt.mp fits, free⟩, eq_comm]

theorem normalizeSlug_ok : normalizeSlug unicode value = .ok slug ↔
    slug = String.ofList (unicode.hyphenated (unicode.folded value)) ∧ 1 ≤ slug.length ∧
      slug.length ≤ MAX_SLUG ∧
      slug ∉ RESERVED_SLUGS := by
  rw [normalizeSlug_eq, checkSlug_ok]
  constructor
  · rintro ⟨rfl, rest⟩
    exact ⟨rfl, rest⟩
  · rintro ⟨rfl, rest⟩
    exact ⟨rfl, rest⟩

/-- Nothing is left for the passes to change. -/
structure Tidy (unicode : Unicode) (l : List Char) : Prop where
  characters : ∀ c ∈ l, unicode.isAlnum c = true ∨ c = '-'
  ends : ∀ c, AtEnd c l → (c == '-') = false
  single : l.IsChain Single

theorem hyphenated_tidy (unicode : Unicode) (folded : List Char) :
    Tidy unicode (unicode.hyphenated folded) where
  characters c member := by
    rcases mem_hyphenateRuns (mem_trim member) with hyphen | ⟨kept, -⟩
    · exact .inr hyphen
    · have keeps := List.of_mem_filter kept
      rwa [Unicode.keeps, Bool.or_eq_true, beq_iff_eq] at keeps
  ends c ends := by
    have plain := atEnd_trim ends
    exact plain
  single := by
    obtain ⟨front, back, split, -, -⟩ := trim_split (· == '-')
      (hyphenateRuns (· == '-') false
        ((hyphenateRuns unicode.separates false folded).filter unicode.keeps))
    have whole := (hyphens_single
      ((hyphenateRuns unicode.separates false folded).filter unicode.keeps) 'a').tail
    rw [List.tail_cons] at whole
    exact whole.infix ⟨front, back, split.symm⟩

theorem hyphenated_length (unicode : Unicode) (folded : List Char) :
    (unicode.hyphenated folded).length ≤ folded.length := by
  refine (trim_sublist _ _).length_le.trans ((length_hyphenateRuns _ _).trans ?_)
  exact (List.length_filter_le _ _).trans (length_hyphenateRuns _ _)

theorem hyphen_loose : Loose Hangul.Apart '-' := fun x =>
  ⟨Hangul.apart_of_left (by decide) x, Hangul.apart_of_right (by decide) x⟩

variable (standard : unicode.Standard)
include standard

theorem hyphenated_of_tidy {l : List Char} (tidy : Tidy unicode l) : unicode.hyphenated l = l := by
  have plain : ∀ c ∈ l, unicode.separates c = false := by
    intro c member
    rcases tidy.characters c member with alnum | rfl
    · obtain ⟨space, -, under⟩ := standard.solid c alnum
      simp [Unicode.separates, space, under]
    · simp [Unicode.separates, standard.hyphen.1]
  have kept : l.filter unicode.keeps = l := by
    rw [List.filter_eq_self]
    intro c member
    rw [Unicode.keeps, Bool.or_eq_true, beq_iff_eq]
    exact tidy.characters c member
  have single : ('a' :: l).IsChain Single := by
    cases l with
    | nil => exact List.isChain_singleton _
    | cons c rest => exact List.isChain_cons_cons.mpr ⟨fun both => absurd both.1 (by decide),
      tidy.single⟩
  rw [Unicode.hyphenated, hyphenateRuns_none plain, kept, strip_eq_trim]
  rw [show hyphenateRuns (· == '-') false l = l from hyphenateRuns_single single]
  exact trim_eq_self_iff.mpr tidy.ends

theorem casefold_empty : unicode.casefold "" = "" := by
  have twice := congrArg String.length (standard.folds "" "")
  rw [String.append_empty, String.length_append] at twice
  rw [← String.length_eq_zero_iff]
  omega

theorem casefold_cons (c : Char) (l : List Char) :
    (unicode.casefold (String.ofList (c :: l))).toList =
    (unicode.casefold (String.ofList [c])).toList ++
    (unicode.casefold (String.ofList l)).toList := by
  rw [← String.toList_append, ← standard.folds, ← String.ofList_append]
  rfl

theorem casefold_fixed {l : List Char}
    (fixed : ∀ c ∈ l, unicode.casefold (String.ofList [c]) = String.ofList [c]) :
    (unicode.casefold (String.ofList l)).toList = l := by
  induction l with
  | nil => exact congrArg String.toList (casefold_empty standard)
  | cons c rest ih =>
    rw [casefold_cons standard, fixed c List.mem_cons_self,
      ih fun d inside => fixed d (List.mem_cons_of_mem _ inside), String.toList_ofList]
    rfl

theorem mem_casefold {l : List Char} {c : Char}
    (member : c ∈ (unicode.casefold (String.ofList l)).toList) :
    ∃ d ∈ l, c ∈ (unicode.casefold (String.ofList [d])).toList := by
  induction l with
  | nil =>
    rw [show String.ofList [] = "" from rfl, casefold_empty standard] at member
    cases member
  | cons d rest ih =>
    rw [casefold_cons standard] at member
    rcases List.mem_append.mp member with here | later
    · exact ⟨d, List.mem_cons_self, here⟩
    · obtain ⟨e, inside, from_⟩ := ih later
      exact ⟨e, List.mem_cons_of_mem _ inside, from_⟩

/-- The letters and digits of a folded text are normalised and folded. -/
theorem folded_settled {c : Char} (member : c ∈ unicode.folded value)
    (alnum : unicode.isAlnum c = true) :
    unicode.nfkc (String.ofList [c]) = String.ofList [c] ∧
      unicode.casefold (String.ofList [c]) = String.ofList [c] := by
  obtain ⟨d, inside, from_⟩ := mem_casefold standard member
  have normal := standard.normalised value d (mem_trim inside)
  exact ⟨standard.foldsNormalised d normal c from_ alnum, standard.foldsOnce _ c member⟩

theorem slug_settled (made : normalizeSlug unicode value = .ok slug) : ∀ c ∈ slug.toList,
    c = '-' ∨ unicode.isAlnum c = true ∧ unicode.nfkc (String.ofList [c]) = String.ofList [c] ∧
      unicode.casefold (String.ofList [c]) = String.ofList [c] := by
  intro c member
  obtain ⟨rfl, -⟩ := normalizeSlug_ok.mp made
  rw [String.toList_ofList] at member
  rcases (hyphenated_tidy unicode (unicode.folded value)).characters c member with alnum | hyphen
  · right
    have solid := standard.solid c alnum
    rcases mem_hyphenateRuns (mem_trim member) with hyphen | ⟨kept, -⟩
    · exact absurd hyphen solid.2.1
    · rcases mem_hyphenateRuns (List.mem_of_mem_filter kept) with hyphen | ⟨inside, -⟩
      · exact absurd hyphen solid.2.1
      · exact ⟨alnum, folded_settled standard inside alnum⟩
  · exact .inl hyphen

/-- A slug normalises to its composition, which folding leaves alone. -/
theorem folded_slug (made : normalizeSlug unicode value = .ok slug) :
    unicode.folded slug = strip unicode.isSpace (Hangul.compose slug.toList) := by
  have settled := slug_settled standard made
  have composed : unicode.nfkc slug = String.ofList (Hangul.compose slug.toList) := by
    have whole := standard.composes slug.toList fun c member =>
      (settled c member).imp_right fun all => ⟨all.1, all.2.1⟩
    rwa [String.ofList_toList] at whole
  rw [Unicode.folded, composed, String.toList_ofList]
  apply casefold_fixed standard
  intro c member
  rcases Hangul.mem_compose (mem_trim member) with inside | syllable
  · rcases settled c inside with rfl | ⟨-, -, fixed⟩
    · exact standard.hyphen.2
    · exact fixed
  · exact (standard.hangul c (by simp [Hangul.conjoins, syllable])).2

theorem separator_loose {c : Char} (separates : unicode.separates c = true) :
    Loose Hangul.Apart c := by
  have plain : Hangul.conjoins c = false := by
    by_contra conjoins
    obtain ⟨space, -, under⟩ :=
      standard.solid c (standard.hangul c (Bool.not_eq_false _ ▸ conjoins)).1
    simp [Unicode.separates, space, under] at separates
  exact fun x => ⟨Hangul.apart_of_left plain x, Hangul.apart_of_right plain x⟩

/-- The neighbours in the slug are those of the folded text without what is left out. -/
theorem staysApart_iff (value : String) :
    unicode.StaysApart value ↔
      (unicode.hyphenated (unicode.folded value)).IsChain Hangul.Apart := by
  have loose : ∀ c, (c == '-') = true → Loose Hangul.Apart c := by
    intro c same
    rw [eq_of_beq same]
    exact hyphen_loose
  have outer := chain_hyphenateRuns (q := fun _ => true) hyphen_loose loose rfl
    ((hyphenateRuns unicode.separates false (unicode.folded value)).filter unicode.keeps)
      false '-' nofun
  have inner := chain_hyphenateRuns (q := unicode.keeps) hyphen_loose
    (fun c => separator_loose standard)
    (by simp [Unicode.keeps]) (unicode.folded value) false '-' nofun
  simp only [Bool.or_true, List.filter_true, chain_cons_loose hyphen_loose] at outer inner
  rw [Unicode.hyphenated, chain_strip loose, outer, inner]
  rfl

/-- A slug is its own normal form exactly when it has nothing to compose. -/
theorem again_iff (made : normalizeSlug unicode value = .ok slug) :
    normalizeSlug unicode slug = .ok slug ↔ slug.toList.IsChain Hangul.Apart := by
  have tidy : Tidy unicode slug.toList := by
    obtain ⟨rfl, -⟩ := normalizeSlug_ok.mp made
    rw [String.toList_ofList]
    exact hyphenated_tidy unicode _
  constructor
  · intro again
    by_contra touching
    have same := (normalizeSlug_ok.mp again).1
    have long : slug.toList.length ≤ (unicode.folded slug).length := by
      have := hyphenated_length unicode (unicode.folded slug)
      rwa [← String.toList_ofList (l := unicode.hyphenated (unicode.folded slug)), ← same] at this
    rw [folded_slug standard made] at long
    have cut := (trim_sublist unicode.isSpace (Hangul.compose slug.toList)).length_le
    have short := Hangul.compose_shorter touching
    rw [strip_eq_trim] at long
    omega
  · intro apart
    have plain : strip unicode.isSpace slug.toList = slug.toList := by
      refine trim_eq_self_iff.mpr fun c ends => ?_
      have member : c ∈ slug.toList := ends.elim List.mem_of_head? List.mem_of_getLast?
      rcases tidy.characters c member with alnum | rfl
      · exact (standard.solid c alnum).1
      · exact standard.hyphen.1
    have folded : unicode.folded slug = slug.toList := by
      rw [folded_slug standard made, Hangul.compose_apart apart, plain]
    rw [normalizeSlug_ok, folded, hyphenated_of_tidy standard tidy, String.ofList_toList]
    exact ⟨rfl, (normalizeSlug_ok.mp made).2⟩

end

/-! ### The page of a slug -/

/-- The page of an accepted creation is found under the slug that its projection stores, whatever
was accepted since: by the operators, and by the public routes while it is not quarantined. -/
def FoundAgain (lib : Stdlib) (unicode : Unicode) (value : String) : Prop :=
  ∀ (before between : List (Request × Moment)) (request : Request) (first : Moment)
    (body : CreatePageRequest)
    (response : CommandResponse), request.mutation = .createPage body → body.slug = value →
    (handle lib unicode (stateAfter lib unicode before) (request, first)).1 = .ok response →
    response.replayed = false →
    ∃ created, (handle lib unicode (stateAfter lib unicode before) (request, first)).2.pages.get?
      response.pageId =
        some created ∧
      ∃ now, operatorPage unicode (stateAfter lib unicode (before ++ (request, first) :: between))
        created.slug =
          .ok now ∧ now.pageId = response.pageId ∧
        (now.moderationStatus ≠ .quarantined →
          pageOr404 unicode (stateAfter lib unicode (before ++ (request, first) :: between))
            created.slug = .ok now)

section

variable {lib : Stdlib} {unicode : Unicode} {store : InMemoryWikiStore} {value slug : String}

/-- What a creation leaves behind unless it is replayed. -/
theorem execute_create {c : CreatePage} {receipt : CommandReceipt}
    (accepted : (store.execute lib (.createPage c)).1 = .ok receipt)
    (fresh : receipt.replayed = false) :
    receipt.pageId = c.pageId ∧ (store.execute lib (.createPage c)).2.slugToId.get? c.slug =
      some c.pageId ∧
      ∃ created, (store.execute lib (.createPage c)).2.pages.get? c.pageId = some created ∧
        created.slug = c.slug := by
  unfold InMemoryWikiStore.execute at accepted ⊢
  dsimp only at accepted ⊢
  split at accepted
  · split at accepted
    · cases accepted
    · cases accepted
      cases fresh
  · split at accepted
    · cases accepted
    · rename_i state current
      obtain ⟨rfl, -⟩ := current_create current
      split at accepted
      · cases accepted
      · rename_i decision decided
        cases decide_ok decided with
        | create _ scope =>
          cases accepted
          exact ⟨rfl, Table.get?_set_self .., _, Table.get?_set_self .., rfl⟩

/-- A slug that is its own normal form leads back to the page. -/
theorem foundAgain (uuids : ∀ text, lib.uuid5 text ≠ "")
    (made : normalizeSlug unicode value = .ok slug)
    (again : normalizeSlug unicode slug = .ok slug) : FoundAgain lib unicode value := by
  intro before between request first body response creates same accepted fresh
  have homed : Homed (stateAfter lib unicode (before ++ (request, first) :: between)) :=
    served_homed empty_homed _
  have later := stateAfter_later lib unicode before between (request, first)
  rcases handle_cases lib unicode (stateAfter lib unicode before) (request, first) with
    ⟨error, failed⟩ | ⟨c, built, ran⟩
  · rw [failed] at accepted
    cases accepted
  · have command : request.createPage lib unicode first body = .ok c := by
      simpa only [Request.command, creates] using built
    obtain ⟨-, commandId, -, slug', normal, rfl⟩ := createPage_ok.mp command
    obtain rfl : slug' = slug := Except.ok.inj (normal.symm.trans (same ▸ made))
    rw [ran] at accepted later ⊢
    generalize stateAfter lib unicode (before ++ (request, first) :: between) = t at *
    cases answered : ((stateAfter lib unicode before).execute lib _).1 with
    | error raised =>
      rw [answered] at accepted
      cases accepted
    | ok receipt =>
      rw [answered] at accepted
      cases accepted
      obtain ⟨pageId, slugs, created, stored, named⟩ := execute_create answered fresh
      obtain ⟨now, there⟩ := later.pages _ _ stored
      have shown : (commandResponse receipt).pageId = stableId lib commandId .page := pageId
      have kept : t.pages.get?
          (lib.uuid5 ("metahumotonic-wiki:" ++ commandId ++ ":" ++ Purpose.page.text)) =
        some now := there
      have found : operatorPage unicode t created.slug = .ok now := by
        rw [named]
        simp only [operatorPage, pageAt, again, bind, Except.bind, existing_ok, getPageBySlug,
          later.slugs _ _ slugs, Option.bind_some, stableId, uuids, if_false, Bool.true_eq_false,
            and_false, kept]
      refine ⟨created, ?_, now, found, (homed _ _ there).trans shown.symm, ?_⟩
      · rw [shown]
        exact stored
      · intro visible
        exact pageOr404_ok.mpr ⟨found, visible⟩

/-- A slug is canonical, and its page stays reachable under it, exactly when leaving characters out
of the folded text brings no Hangul together that composes. -/
theorem slug_canonical_iff (standard : unicode.Standard) (uuids : ∀ text, lib.uuid5 text ≠ "")
    (made : normalizeSlug unicode value = .ok slug) :
    CanonicalSlug unicode slug ∧ FoundAgain lib unicode value ↔ unicode.StaysApart value := by
  have stays : unicode.StaysApart value ↔ normalizeSlug unicode slug = .ok slug := by
    rw [again_iff standard made, staysApart_iff standard, (normalizeSlug_ok.mp made).1,
      String.toList_ofList]
  rw [stays]
  constructor
  · rintro ⟨canonical, -⟩
    exact canonical.again
  · intro again
    obtain ⟨same, nonempty, short, unreserved⟩ := normalizeSlug_ok.mp made
    have tidy := hyphenated_tidy unicode (unicode.folded value)
    rw [← String.toList_ofList (l := unicode.hyphenated (unicode.folded value)), ← same] at tidy
    refine ⟨?_, foundAgain uuids made again⟩
    exact {
      nonempty := nonempty
      short := short
      characters := tidy.characters
      first := fun first => absurd (tidy.ends '-' (.inl first)) (by decide)
      last := fun last => absurd (tidy.ends '-' (.inr last)) (by decide)
      single := tidy.single
      unreserved := unreserved
      again := again }

end

section Sample

/-! Tables for Hangul and ASCII. -/

def lowerAscii (c : Char) : Char := if 65 ≤ c.toNat ∧ c.toNat ≤ 90 then Char.ofNat
    (c.toNat + 32) else c

def hangulTables : Unicode where
  nfkc text := String.ofList (Hangul.compose text.toList)
  casefold text := String.ofList (text.toList.map lowerAscii)
  isSpace := Char.isWhitespace
  isAlnum c := c.isAlphanum || Hangul.conjoins c

theorem jamo_high {c : Char} (conjoins : Hangul.conjoins c = true) : 0x1100 ≤ c.toNat := by
  simp only [Hangul.conjoins, Hangul.leading, Hangul.vowel, Hangul.trailing, Hangul.syllable,
    Bool.or_eq_true,
    Bool.and_eq_true, decide_eq_true_eq] at conjoins
  omega

theorem lowerAscii_high {c : Char} (high : 90 < c.toNat) : lowerAscii c = c := if_neg (by omega)

theorem lowerAscii_lower (c : Char) : lowerAscii (lowerAscii c) = lowerAscii c := by
  by_cases upper : 65 ≤ c.toNat ∧ c.toNat ≤ 90
  · have value : (Char.ofNat (c.toNat + 32)).toNat = c.toNat + 32 := Hangul.toNat_ofNat (by omega)
    rw [show lowerAscii c = Char.ofNat (c.toNat + 32) from if_pos upper]
    exact lowerAscii_high (by omega)
  · rw [show lowerAscii c = c from if_neg upper]
    exact if_neg upper

theorem hangulTables_casefold (c : Char) : hangulTables.casefold (String.ofList [c]) = String.ofList
    [lowerAscii c] := by
  simp [hangulTables]

theorem hangulTables_nfkc (c : Char) : hangulTables.nfkc
    (String.ofList [c]) = String.ofList [c] := by
  simp [hangulTables, Hangul.compose, Hangul.composeFrom]

theorem hangulTables_standard : hangulTables.Standard where
  solid c alnum := by
    have space : ∀ d : Char, hangulTables.isAlnum d = true → d.isWhitespace = false := by
      intro d alnum
      by_contra white
      simp only [Bool.not_eq_false, Char.isWhitespace, Bool.or_eq_true, decide_eq_true_eq] at white
      rcases white with ((rfl | rfl) | rfl) | rfl <;> exact absurd alnum (by decide)
    refine ⟨space c alnum, ?_, ?_⟩ <;> rintro rfl <;> exact absurd alnum (by decide)
  hyphen := by decide
  hangul c conjoins := by
    refine ⟨by simp [hangulTables, conjoins], ?_⟩
    rw [hangulTables_casefold,
      lowerAscii_high ((by decide : 90 < 0x1100).trans_le (jamo_high conjoins))]
  normalised s c member := hangulTables_nfkc c
  folds s t := by
    simp only [hangulTables, String.toList_append, List.map_append, String.ofList_append]
  foldsOnce s c member := by
    simp only [hangulTables, String.toList_ofList] at member
    obtain ⟨d, -, rfl⟩ := List.mem_map.mp member
    rw [hangulTables_casefold, lowerAscii_lower]
  foldsNormalised c normal d member alnum := hangulTables_nfkc d
  composes l each := by
    simp only [hangulTables, String.toList_ofList]

/-- A leading consonant and a vowel with a mark between them, which is left out. -/
theorem jamo_slug_not_canonical : ¬ ∀ slug, normalizeSlug hangulTables "\u1100!\u1161" = .ok slug →
    CanonicalSlug hangulTables slug ∧ FoundAgain sampleLib hangulTables "\u1100!\u1161" := by
  intro claimed
  have made : normalizeSlug hangulTables "\u1100!\u1161" = .ok "\u1100\u1161" := by decide
  have composed : normalizeSlug hangulTables "\u1100\u1161" = .ok "\uAC00" := by decide
  have again := (claimed _ made).1.again
  rw [composed] at again
  exact absurd (Except.ok.inj again) (by decide)

theorem slug_canonical_sample : normalizeSlug hangulTables "My_Page" = .ok "my-page" ∧
    (CanonicalSlug hangulTables "my-page" ∧ FoundAgain sampleLib hangulTables "My_Page" ↔
      hangulTables.StaysApart "My_Page") := by
  have made : normalizeSlug hangulTables "My_Page" = .ok "my-page" := by decide
  refine ⟨made, slug_canonical_iff hangulTables_standard ?_ made⟩
  have given : ∀ entry ∈ sampleUuids, entry.2 ≠ "" := by decide
  intro text
  change (sampleUuids.lookup text).getD _ ≠ ""
  cases found : sampleUuids.lookup text with
  | none => decide
  | some uuid => exact given _ (mem_of_entry found)

end Sample

end Metahumotonic.Wiki
