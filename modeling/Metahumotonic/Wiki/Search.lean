import Metahumotonic.Library.Like
import Metahumotonic.Wiki.Reads

/-! The search of the list route in both stores: a substring of the case-folded text in memory,
`ILIKE '%' || q || '%'` in the database. Slugs, titles and queries are ASCII, where both foldings
lower the letters. -/
namespace Metahumotonic.Wiki

open Library

def lowered (s : String) : List Char := s.toList.map Char.toLower

def InMemoryWikiStore.casefoldMatch (query : String) (page : PageState) : Bool :=
  occurs (lowered query) (lowered page.slug) || occurs (lowered query) (lowered page.title)

/-- `text ILIKE '%' || query || '%'`. -/
def Tables.ilike (query text : String) : Bool :=
  like (('%' :: (query.toList ++ ['%'])).map Char.toLower) (lowered text)

def Tables.ilikeMatch (query : String) (page : PageState) : Bool :=
  ilike query page.slug || ilike query page.title

/-- ASCII without NUL. -/
def plainText (s : String) : Bool := s.toList.all fun c => 0 < c.toNat && c.toNat < 128

/-- A query that the list route accepts. -/
def Askable (query : Option String) : Prop := ∀ q ∈ query, q.length ≤ 200 ∧ plainText q = true

/-- Both stores hold the pages, no two of which were updated at the same time. -/
structure BothHold (pages : List PageState) (store : InMemoryWikiStore)
    (tables : Tables) : Prop where
  memory : store.pages.values.Perm pages
  database : tables.pages.values.Perm pages
  distinct : (pages.map PageState.updatedAt).Nodup
  ascii : ∀ page ∈ pages, plainText page.slug = true ∧ plainText page.title = true

/-- The visible pages whose slug or title contains the query, ignoring case. -/
def wanted (query : Option String) (page : PageState) : Bool :=
  page.moderationStatus = .visible &&
    (occurs (lowered (query.getD "")) (lowered page.slug) || occurs (lowered (query.getD ""))
      (lowered page.title))

/-- The slice of the wanted pages, newest first. -/
def found (pages : List PageState) (query : Option String) (limit offset : ℕ) : List PageState :=
  (((pages.filter (wanted query)).insertionSort PageState.NewerOrSame).drop offset).take limit

/-- Search means the same in both stores, over every set of pages and every slice of the route's. -/
structure SearchAgrees (query : Option String) : Prop where
  memory : ∀ pages store tables, BothHold pages store tables → ∀ limit offset : ℕ, 1 ≤ limit →
    limit ≤ 100 →
    offset ≤ 10000 → store.listPages InMemoryWikiStore.casefoldMatch query limit offset =
      found pages query limit offset
  database : ∀ pages store tables, BothHold pages store tables → ∀ limit offset : ℕ, 1 ≤ limit →
    limit ≤ 100 →
    offset ≤ 10000 → tables.listPages Tables.ilikeMatch query limit offset = .ok
      (found pages query limit offset)

theorem newerOrSame_total : Std.Total PageState.NewerOrSame := by
  refine ⟨fun a b => ?_⟩
  unfold PageState.NewerOrSame
  rcases Int.lt_trichotomy a.updatedAt b.updatedAt with before | same | after
  · exact .inr (.inl before)
  · rcases String.le_total a.pageId b.pageId with first | second
    · exact .inr (.inr ⟨same, first⟩)
    · exact .inl (.inr ⟨same.symm, second⟩)
  · exact .inl (.inl after)

theorem newerOrSame_trans : IsTrans PageState PageState.NewerOrSame := by
  refine ⟨fun a b c => ?_⟩
  unfold PageState.NewerOrSame
  rintro (older | ⟨same, first⟩) (older' | ⟨same', second⟩)
  · exact .inl (Int.lt_trans older' older)
  · exact .inl (same' ▸ older)
  · exact .inl (same ▸ older')
  · exact .inr ⟨same'.trans same, String.le_trans second first⟩

/-- Pages updated at distinct times have one order, however they were held. -/
theorem sorted_perm {xs ys : List PageState} (perm : xs.Perm ys)
    (distinct : (ys.map PageState.updatedAt).Nodup) :
    xs.insertionSort PageState.NewerOrSame = ys.insertionSort PageState.NewerOrSame := by
  have := newerOrSame_total
  have := newerOrSame_trans
  have sorted := fun zs => List.perm_insertionSort PageState.NewerOrSame zs
  refine List.Perm.eq_of_pairwise ?_ (List.pairwise_insertionSort _ xs)
    (List.pairwise_insertionSort _ ys)
    ((sorted xs).trans (perm.trans (sorted ys).symm))
  intro a b here there newer older
  have time : a.updatedAt = b.updatedAt := by
    rcases newer with newer | ⟨same, -⟩
    · rcases older with older | ⟨same, -⟩
      · exact absurd newer (Int.lt_asymm older)
      · exact same
    · exact same.symm
  have listed := perm.subset ((sorted xs).subset here)
  exact List.inj_on_of_nodup_map distinct listed ((sorted ys).subset there) time

theorem toNat_toLower (c : Char) :
    c.toLower.toNat = if 65 ≤ c.toNat ∧ c.toNat ≤ 90 then c.toNat + 32 else c.toNat := by
  have bounds : (c.val ≥ 'A'.val ∧ c.val ≤ 'Z'.val) ↔ 65 ≤ c.toNat ∧ c.toNat ≤ 90 := Iff.rfl
  unfold Char.toLower
  split
  · rename_i upper
    have range := bounds.mp upper
    rw [if_pos range]
    change (c.val + 32).toNat = c.toNat + 32
    rw [UInt32.toNat_add]
    change (c.toNat + 32) % 2 ^ 32 = c.toNat + 32
    omega
  · rename_i other
    rw [if_neg fun range => other (bounds.mpr range)]

theorem toLower_toLower (c : Char) : c.toLower.toLower = c.toLower := by
  rw [← Char.toNat_inj, toNat_toLower c.toLower, toNat_toLower c]
  split_ifs <;> omega

theorem toLower_isSyntax (c : Char) : isSyntax c.toLower = isSyntax c := by
  have codes : ∀ d : Char, isSyntax d = true ↔ d.toNat = 37 ∨ d.toNat = 95 ∨ d.toNat = 92 := by
    intro d
    simp only [isSyntax, Bool.or_eq_true, beq_iff_eq, or_assoc, ← Char.toNat_inj]
    rfl
  rw [Bool.eq_iff_iff, codes, codes, toNat_toLower]
  split_ifs <;> omega

theorem ilike_eq (query text : String) :
    Tables.ilike query text = like ('%' :: (lowered query ++ ['%'])) (lowered text) := by
  rw [Tables.ilike, List.map_cons, List.map_append]
  rfl

/-- Without syntax in the query both stores look for the same pages. -/
theorem ilikeMatch_plain {query : String} (plain : ∀ c ∈ query.toList, isSyntax c = false)
    (page : PageState) :
    Tables.ilikeMatch query page = InMemoryWikiStore.casefoldMatch query page := by
  have literal : ∀ c ∈ lowered query, isSyntax c = false := by
    intro c member
    obtain ⟨d, there, rfl⟩ := List.mem_map.mp member
    rw [toLower_isSyntax, plain d there]
  rw [Tables.ilikeMatch, ilike_eq, ilike_eq, like_plain literal, like_plain literal]
  rfl

/-- The empty text occurs everywhere. -/
theorem wanted_unasked (page : PageState) (query : Option String) (unasked : query.getD "" = "") :
    wanted query page = (page.moderationStatus = .visible : Bool) := by
  have empty : ∀ text, occurs (lowered "") text = true :=
    fun text => (occurs_iff _ _).mpr (List.nil_infix)
  rw [wanted, unasked, empty, Bool.true_or, Bool.and_true]

theorem sliced_eq (limit offset : ℕ) (pages : List PageState) :
    sliced offset (offset + limit) pages = (pages.drop offset).take limit := by
  have low : ¬ (offset : ℤ) < 0 := by omega
  have high : ¬ ((offset : ℤ) + limit) < 0 := by omega
  have bound : ((offset : ℤ) + limit).toNat = offset + limit := by omega
  simp only [sliced, if_neg low, if_neg high, bound, Int.toNat_natCast]
  rw [List.drop_take, Nat.add_sub_cancel_left]

variable {pages : List PageState} {store : InMemoryWikiStore} {tables : Tables}
    {query : Option String}

/-- What is kept of the pages does not depend on where they were held. -/
theorem found_of_perm {held : List PageState} (perm : held.Perm pages)
    (distinct : (pages.map PageState.updatedAt).Nodup)
    (query : Option String) (limit offset : ℕ) :
    (((held.filter (wanted query)).insertionSort PageState.NewerOrSame).drop offset).take limit =
      found pages query limit offset := by
  rw [found, sorted_perm (perm.filter _) ((List.filter_sublist.map _).nodup distinct)]

/-- The store in memory always looks for what is wanted. -/
theorem memory_listPages (hold : BothHold pages store tables) (query : Option String)
    (limit offset : ℕ) :
    store.listPages InMemoryWikiStore.casefoldMatch query limit offset = found pages query limit
      offset := by
  unfold InMemoryWikiStore.listPages
  dsimp only
  rw [sliced_eq, ← found_of_perm hold.memory hold.distinct]
  congr 3
  split
  · exact List.filter_congr fun page _ => (wanted_unasked page none rfl).symm
  · exact List.filter_congr fun page _ => (wanted_unasked page (some "") rfl).symm
  · rw [List.filter_filter]
    exact List.filter_congr fun page _ => Bool.and_comm _ _

theorem bindTexts_ascii {q : String} (plain : plainText q = true) : bindTexts [q] = .ok () := by
  refine if_neg ?_
  rintro ⟨value, member, nul⟩
  cases List.mem_singleton.mp member
  have there := List.all_eq_true.mp plain _ nul
  exact absurd there (by decide)

theorem database_listPages (hold : BothHold pages store tables) (askable : Askable query)
    (same : ∀ q ∈ query, q ≠ "" →
      ∀ page, Tables.ilikeMatch q page = InMemoryWikiStore.casefoldMatch q page)
    (limit offset : ℕ) :
    tables.listPages Tables.ilikeMatch query limit offset = .ok
      (found pages query limit offset) := by
  have listed : tables.listed Tables.ilikeMatch query = .ok
      (tables.pages.values.filter (wanted query)) := by
    unfold Tables.listed Tables.visiblePages
    split
    · exact congrArg Except.ok (List.filter_congr fun page _ => (wanted_unasked page none rfl).symm)
    · exact congrArg Except.ok (List.filter_congr fun page _ =>
        (wanted_unasked page (some "") rfl).symm)
    · rename_i q filled
      rw [bindTexts_ascii (askable q rfl).2, List.filter_filter]
      refine congrArg Except.ok (List.filter_congr fun page _ => ?_)
      rw [same q rfl (fun empty => filled (by rw [empty]))]
      exact Bool.and_comm _ _
  have inside : ¬ ((limit : ℤ) < 0 ∨ (offset : ℤ) < 0) := by omega
  simp only [Tables.listPages, listed, bind, Except.bind, Tables.limited, if_neg inside,
    Int.toNat_natCast]
  rw [found_of_perm hold.database hold.distinct]

/-- A page of a title, alone in both stores. -/
def solePage (title : String) : PageState :=
  ⟨"7c1d", "x", title, "-", "r1", "h1", "ann", 1, .unreviewed, .visible, 0, 0, .community⟩

def soleStore (page : PageState) : InMemoryWikiStore :=
  { pages := Table.empty.set page.pageId page }

def soleTables (page : PageState) : Tables := { pages := Table.empty.set page.pageId page }

theorem soleHold (title : String) (plain : plainText title = true) :
    BothHold [solePage title] (soleStore (solePage title)) (soleTables (solePage title)) where
  memory := .refl _
  database := .refl _
  distinct := List.nodup_singleton _
  ascii := by
    intro page member
    cases List.mem_singleton.mp member
    have slug : plainText "x" = true := by decide
    exact ⟨slug, plain⟩

/-- The page that the pattern finds and the text does not. -/
theorem stray_page {q : String} (plain : plainText q = true)
    (syntactic : ∃ c ∈ q.toList, isSyntax c = true) :
    ∃ title, plainText title = true ∧ Tables.ilikeMatch q (solePage title) = true ∧
      wanted (some q) (solePage title) = false := by
  obtain ⟨c, member, meant⟩ := syntactic
  have lower : ∃ d ∈ lowered q, isSyntax d = true :=
    ⟨c.toLower, List.mem_map_of_mem member, (toLower_isSyntax c).trans meant⟩
  obtain ⟨text, matched, absent, -, drawn⟩ := like_fill lower
  have folded : text.map Char.toLower = text := by
    rw [List.map_congr_left, List.map_id]
    intro d there
    rcases drawn d there with rfl | rfl | inside
    · rfl
    · rfl
    · obtain ⟨e, -, rfl⟩ := List.mem_map.mp inside
      exact toLower_toLower e
  have narrow : ∀ d ∈ text, 0 < d.toNat ∧ d.toNat < 128 := by
    intro d there
    rcases drawn d there with rfl | rfl | inside
    · decide
    · decide
    · obtain ⟨e, listed, rfl⟩ := List.mem_map.mp inside
      have range := List.all_eq_true.mp plain e listed
      simp only [Bool.and_eq_true, decide_eq_true_eq] at range
      rw [toNat_toLower]
      split_ifs <;> omega
  have letter : ∀ d, isSyntax d = false → ¬ lowered q <:+: [d] := by
    intro d literal inside
    obtain ⟨e, there, meaning⟩ := lower
    cases List.mem_singleton.mp (inside.subset there)
    rw [literal] at meaning
    cases meaning
  -- an empty title is none, so a letter stands in for it
  obtain ⟨title, ends, missing, allowed⟩ : ∃ title :
      List Char, (∃ front, title.map Char.toLower = front ++ text) ∧
      ¬ lowered q <:+: title.map Char.toLower ∧ ∀ d ∈ title, 0 < d.toNat ∧ d.toNat < 128 := by
    cases text with
    | nil => exact ⟨['a'], ⟨['a'], rfl⟩, letter 'a' rfl, fun d there =>
      List.mem_singleton.mp there ▸ by decide⟩
    | cons d rest => exact ⟨d :: rest, ⟨[], folded⟩, folded.symm ▸ absent, narrow⟩
  have small : lowered (String.ofList title) = title.map Char.toLower := by
    rw [lowered, String.toList_ofList]
  refine ⟨String.ofList title, ?_, ?_, ?_⟩
  · rw [plainText, String.toList_ofList, List.all_eq_true]
    intro d there
    simpa using allowed d there
  · obtain ⟨front, same⟩ := ends
    have found : Tables.ilike q (String.ofList title) = true := by
      rw [ilike_eq, small, same]
      exact matched front
    rw [Tables.ilikeMatch, Bool.or_eq_true]
    exact .inr found
  · have untitled : occurs (lowered q) (lowered (String.ofList title)) = false := by
      rw [Bool.eq_false_iff, ne_eq, occurs_iff, small]
      exact missing
    have unslugged : occurs (lowered q) (lowered "x") = false := by
      rw [Bool.eq_false_iff, ne_eq, occurs_iff]
      exact letter 'x' rfl
    simp only [wanted, solePage, Option.getD_some, untitled, unslugged, Bool.or_self,
      Bool.and_false]

/-- The two stores search alike exactly when the query has no syntax of the pattern language. -/
theorem search_agrees_iff (query : Option String) (askable : Askable query) :
    SearchAgrees query ↔ ∀ q ∈ query, ∀ c ∈ q.toList, isSyntax c = false := by
  constructor
  · intro agrees q asked
    cases asked
    by_contra some_
    simp only [not_forall, Bool.not_eq_false] at some_
    obtain ⟨c, member, meant⟩ := some_
    obtain ⟨title, plain, listed, unwanted⟩ := stray_page (askable q rfl).2 ⟨c, member, meant⟩
    have answer := agrees.database _ _ _ (soleHold title plain) 1 0 (by decide)
      (by decide) (by decide)
    have nothing : found [solePage title] (some q) 1 0 = [] := by
      rw [found, List.filter_cons_of_neg (by simp [unwanted])]
      rfl
    have row : (soleTables (solePage title)).listed Tables.ilikeMatch (some q) = .ok
        [solePage title] := by
      have filled : q ≠ "" := by
        rintro rfl
        cases member
      unfold Tables.listed
      split
      · rename_i none_
        cases none_
      · rename_i empty
        exact absurd (Option.some.inj empty) filled
      · rename_i p asked
        cases asked
        rw [bindTexts_ascii (askable q rfl).2]
        have kept : (soleTables (solePage title)).visiblePages.filter (Tables.ilikeMatch q) =
            [solePage title] :=
          List.filter_cons_of_pos listed
        rw [kept]
        rfl
    rw [nothing, Tables.listPages, row] at answer
    cases answer
  · intro plain
    constructor
    · exact fun pages store tables hold limit offset _ _ _ =>
        memory_listPages hold query limit offset
    · intro pages store tables hold limit offset _ _ _
      refine database_listPages hold askable ?_ limit offset
      exact fun q asked _ page => ilikeMatch_plain (plain q asked) page

theorem search_agrees_sample : SearchAgrees (some "Graph wiki") := by
  have plain : "Graph wiki".toList.any isSyntax = false := by decide
  refine (search_agrees_iff (some "Graph wiki") (by rintro q ⟨⟩; decide)).mpr ?_
  rintro q ⟨⟩ c member
  exact Bool.eq_false_iff.mpr (List.any_eq_false.mp plain c member)

/-- A query with an underscore finds a page in the database that does not contain it. -/
theorem underscore_matches_any_letter :
    (soleTables (solePage "axb")).listPages Tables.ilikeMatch (some "a_b") 1 0 = .ok
    [solePage "axb"] ∧
      (soleStore (solePage "axb")).listPages InMemoryWikiStore.casefoldMatch (some "a_b") 1 0 = [] ∧
      ¬ SearchAgrees (some "a_b") := by
  have database : (soleTables (solePage "axb")).listPages Tables.ilikeMatch (some "a_b") 1 0 =
      .ok [solePage "axb"] := by decide
  refine ⟨database, by decide, fun agrees => ?_⟩
  have answer : Except.ok [solePage "axb"] = Except.ok (found [solePage "axb"] (some "a_b") 1 0) :=
    database.symm.trans
      (agrees.database _ _ _ (soleHold "axb" (by decide)) 1 0 (by decide) (by decide) (by decide))
  have none_found : found [solePage "axb"] (some "a_b") 1 0 = [] := by decide
  rw [none_found] at answer
  cases answer

end Metahumotonic.Wiki
