import Mathlib.Data.List.Basic
import Mathlib.Data.List.Infix
import Mathlib.Logic.Function.Iterate

/-! Records chained by tags: each tag is computed from a key, the record's content and the tag
before it. Who has no key can only use tags that were issued; a stream of such records is accepted
exactly if it is a prefix of what was signed. -/
namespace Metahumotonic.Library.HashChain

variable {K C T : Type*}

structure Link (C T : Type*) where
  content : C
  prev : T
  tag : T

variable (mac : K → C → T → T) (next : K → K)

def sign (key : K) (prev : T) : List C → List (Link C T)
  | [] => []
  | c :: rest => ⟨c, prev, mac key c prev⟩ :: sign (next key) (mac key c prev) rest

/-- The tag that the next link has to name. -/
def lastTag (prev : T) : List (Link C T) → T
  | [] => prev
  | l :: rest => lastTag l.tag rest

@[simp] theorem lastTag_snoc (prev : T) (links : List (Link C T)) (l : Link C T) :
    lastTag prev (links ++ [l]) = l.tag := by
  induction links generalizing prev with
  | nil => rfl
  | cons m rest ih => exact ih m.tag

section Check

variable [DecidableEq T]

/-- The place of the first link that is broken. -/
def firstBroken (key : K) (prev : T) : List (Link C T) → Option ℕ
  | [] => none
  | l :: rest =>
    if l.prev ≠ prev ∨ l.tag ≠ mac key l.content prev then some 0
    else (firstBroken (next key) l.tag rest).map (· + 1)

theorem firstBroken_sign (key : K) (prev : T) (contents : List C) :
    firstBroken mac next key prev (sign mac next key prev contents) = none := by
  induction contents generalizing key prev with
  | nil => rfl
  | cons c rest ih => simp [sign, firstBroken, ih]

/-- A stream with one link more is broken where it was, or at that link. -/
theorem firstBroken_snoc (key : K) (prev : T) (links : List (Link C T)) (l : Link C T) :
    firstBroken mac next key prev (links ++ [l]) = none ↔
      firstBroken mac next key prev links = none ∧
      l.prev = lastTag prev links ∧ l.tag = mac (next^[links.length] key) l.content
        (lastTag prev links) := by
  induction links generalizing key prev with
  | nil => simp [firstBroken, lastTag]
  | cons m rest ih =>
    rw [List.cons_append, firstBroken, firstBroken, lastTag, List.length_cons,
      Function.iterate_succ_apply]
    split
    · simp
    · rw [Option.map_eq_none_iff, Option.map_eq_none_iff, ih]

/-- Before the first broken link the stream is accepted, and no longer with it. -/
theorem firstBroken_eq_some {key : K} {prev : T} {links : List (Link C T)} {i : ℕ}
    (broken : firstBroken mac next key prev links = some i) : i < links.length ∧
      firstBroken mac next key prev (links.take i) = none ∧
      firstBroken mac next key prev (links.take (i + 1)) ≠ none := by
  induction links generalizing key prev i with
  | nil => cases broken
  | cons l rest ih =>
    rw [firstBroken] at broken
    split at broken
    · rename_i bad
      cases broken
      refine ⟨by simp, rfl, ?_⟩
      rw [List.take_succ_cons, firstBroken, if_pos bad]
      exact Option.some_ne_none 0
    · rename_i good
      obtain ⟨j, later, rfl⟩ := Option.map_eq_some_iff.mp broken
      obtain ⟨inside, before, not_with⟩ := ih later
      refine ⟨by simpa using inside, ?_, ?_⟩
      · rw [List.take_succ_cons, firstBroken, if_neg good, before]
        rfl
      · rw [List.take_succ_cons, firstBroken, if_neg good]
        simpa using not_with

theorem firstBroken_of_prefix {key : K} {prev : T} {links more : List (Link C T)}
    (part : links <+: more)
    (accepted : firstBroken mac next key prev more = none) :
    firstBroken mac next key prev links = none := by
  obtain ⟨rest, rfl⟩ := part
  induction links generalizing key prev with
  | nil => rfl
  | cons l links ih =>
    rw [List.cons_append, firstBroken] at accepted
    rw [firstBroken]
    split at accepted
    · cases accepted
    · rename_i good
      rw [if_neg good, ih (by simpa using accepted)]
      rfl

end Check

/-- What the signer computes tags of. -/
def queries (key : K) (prev : T) : List C → List (K × C × T)
  | [] => []
  | c :: rest => (key, c, prev) :: queries (next key) (mac key c prev) rest

/-- What the verifier computes tags of. -/
def checks (key : K) (prev : T) : List (Link C T) → List (K × C × T)
  | [] => []
  | l :: rest => (key, l.content, prev) :: checks (next key) l.tag rest

theorem checks_snoc (key : K) (prev : T) (links : List (Link C T)) (l : Link C T) :
    checks next key prev (links ++ [l]) =
      checks next key prev links ++ [(next^[links.length] key, l.content, lastTag prev links)] := by
  induction links generalizing key prev with
  | nil => rfl
  | cons m rest ih => simp [checks, lastTag, ih]

theorem checks_take (key : K) (prev : T) (links : List (Link C T)) (n : ℕ) :
    checks next key prev (links.take n) = (checks next key prev links).take n := by
  induction links generalizing key prev n with
  | nil => simp [checks]
  | cons m rest ih =>
    cases n with
    | zero => rfl
    | succ n => simp [checks, ih]

theorem queries_of {key : K} {prev : T} {contents : List C} {q : K × C × T}
    (member : q ∈ queries mac next key prev contents) :
    q.2.1 ∈ contents ∧ (q.2.2 = prev ∨ ∃ k c p, mac k c p = q.2.2) := by
  induction contents generalizing key prev with
  | nil => cases member
  | cons c rest ih =>
    rcases List.mem_cons.mp member with rfl | later
    · exact ⟨List.mem_cons_self, .inl rfl⟩
    · obtain ⟨inside, before⟩ := ih later
      exact ⟨List.mem_cons_of_mem _ inside,
        .inr (before.elim (fun its => ⟨key, c, prev, its.symm⟩) id)⟩

theorem checks_of {key : K} {prev : T} {links : List (Link C T)} {q : K × C × T}
    (member : q ∈ checks next key prev links) :
    (∃ l ∈ links, l.content = q.2.1) ∧ (q.2.2 = prev ∨ ∃ l ∈ links, l.tag = q.2.2) := by
  induction links generalizing key prev with
  | nil => cases member
  | cons m rest ih =>
    rcases List.mem_cons.mp member with rfl | later
    · exact ⟨⟨m, List.mem_cons_self, rfl⟩, .inl rfl⟩
    · obtain ⟨⟨l, inside, its⟩, before⟩ := ih later
      refine ⟨⟨l, List.mem_cons_of_mem _ inside, its⟩, .inr ?_⟩
      rcases before with tagged | ⟨l', inside', tagged⟩
      · exact ⟨m, List.mem_cons_self, tagged.symm⟩
      · exact ⟨l', List.mem_cons_of_mem _ inside', tagged⟩

/-- No two of the queries have a common tag without agreeing on content and predecessor, and none
has the tag that a chain starts from. -/
structure CollisionFree (start : T) (asked : List (K × C × T)) : Prop where
  apart : ∀ q ∈ asked, mac q.1 q.2.1 q.2.2 ≠ start
  split : ∀ q ∈ asked, ∀ q' ∈ asked, mac q.1 q.2.1 q.2.2 = mac q'.1 q'.2.1 q'.2.2 → q.2 = q'.2

variable {mac next} {start : T} {key : K} {contents : List C} {asked : List (K × C × T)}

theorem CollisionFree.mono {fewer : List (K × C × T)} (free : CollisionFree mac start asked)
    (part : fewer ⊆ asked) :
    CollisionFree mac start fewer :=
  ⟨fun q member => free.apart q (part member), fun q member q' member' =>
    free.split q (part member) q' (part member')⟩

/-- What stands at a place of a chain. -/
theorem sign_get {prev : T} {i : ℕ} {l : Link C T}
    (there : (sign mac next key prev contents)[i]? = some l) :
    l.prev = lastTag prev ((sign mac next key prev contents).take i) ∧
      ∃ k, (k, l.content, l.prev) ∈ queries mac next key prev contents ∧
        mac k l.content l.prev = l.tag := by
  induction contents generalizing key prev i with
  | nil => cases there
  | cons c rest ih =>
    cases i with
    | zero =>
      cases there
      exact ⟨rfl, key, List.mem_cons_self, rfl⟩
    | succ j =>
      rw [sign, List.getElem?_cons_succ] at there
      obtain ⟨before, k, asked, tagged⟩ := ih there
      exact ⟨by rw [sign, List.take_succ_cons, lastTag, before], k,
        List.mem_cons_of_mem _ asked, tagged⟩

theorem lastTag_take_succ {start : T} {links : List (Link C T)} {i : ℕ} {l : Link C T}
    (there : links[i]? = some l) :
    lastTag start (links.take (i + 1)) = l.tag := by
  rw [List.take_add_one, there, Option.toList_some, lastTag_snoc]

/-- A chain does not come back to a tag. -/
theorem lastTag_take_injective
    (free : CollisionFree mac start (queries mac next key start contents)) {i j : ℕ}
    (first : i ≤ (sign mac next key start contents).length)
    (second : j ≤ (sign mac next key start contents).length)
    (same : lastTag start ((sign mac next key start contents).take i) =
      lastTag start ((sign mac next key start contents).take j)) : i = j := by
  have tagged {n : ℕ} (inside : n + 1 ≤ (sign mac next key start contents).length) :
      ∃ l, (sign mac next key start contents)[n]? = some l ∧
        lastTag start ((sign mac next key start contents).take (n + 1)) = l.tag := by
    have there := List.getElem?_eq_getElem (Nat.lt_of_succ_le inside)
    exact ⟨_, there, lastTag_take_succ there⟩
  induction i generalizing j with
  | zero =>
    cases j with
    | zero => rfl
    | succ j =>
      obtain ⟨l, there, its⟩ := tagged second
      obtain ⟨_, k, asked, tag⟩ := sign_get there
      exact absurd (tag.trans (its.symm.trans same.symm)) (free.apart _ asked)
  | succ i ih =>
    obtain ⟨l, there, its⟩ := tagged first
    obtain ⟨before, k, asked, tag⟩ := sign_get there
    cases j with
    | zero => exact absurd (tag.trans (its.symm.trans same)) (free.apart _ asked)
    | succ j =>
      obtain ⟨l', there', its'⟩ := tagged second
      obtain ⟨before', k', asked', tag'⟩ := sign_get there'
      have tags : l.tag = l'.tag := its.symm.trans (same.trans its')
      have agree := free.split _ asked _ asked' (tag.trans (tags.trans tag'.symm))
      have prevs : l.prev = l'.prev := congrArg Prod.snd agree
      exact congrArg (· + 1) (ih (by omega) (by omega) (before.symm.trans (prevs.trans before')))

/-- A stream of tags that were issued is accepted exactly if it is the chain from its start on, up
to some place. -/
theorem accepted_iff_prefix [DecidableEq T] {stream : List (Link C T)}
    (free : CollisionFree mac start
      (queries mac next key start contents ++ checks next key start stream))
    (issued : ∀ l ∈ stream, ∃ m ∈ sign mac next key start contents, m.tag = l.tag) :
    firstBroken mac next key start stream = none ↔ stream <+: sign mac next key start contents := by
  refine ⟨fun accepted => ?_, fun part => firstBroken_of_prefix mac next part
    (firstBroken_sign mac next key start contents)⟩
  induction stream using List.reverseRecOn with
  | nil => exact List.nil_prefix
  | append_singleton stream l ih =>
    obtain ⟨earlier, prev, tag⟩ := (firstBroken_snoc mac next key start stream l).mp accepted
    rw [checks_snoc, ← List.append_assoc] at free
    have part := ih (free.mono (List.subset_append_left _ _))
      (fun m member => issued m (List.mem_append_left _ member))
      earlier
    have signer := free.mono fun q member => List.mem_append_left _ (List.mem_append_left _ member)
    obtain ⟨m, member, same⟩ := issued l (List.mem_append_right _ List.mem_cons_self)
    obtain ⟨i, found⟩ := List.getElem?_of_mem member
    obtain ⟨before, k, asked, tagged⟩ := sign_get found
    have agree := free.split _ (List.mem_append_left _ (List.mem_append_left _ asked)) _
      (List.mem_append_right _ List.mem_cons_self) (tagged.trans (same.trans tag))
    have contents_eq : m.content = l.content := congrArg Prod.fst agree
    have prevs : m.prev = lastTag start stream := congrArg Prod.snd agree
    -- the link at the end of the stream is the one that was signed at this place
    have place : i = stream.length := by
      refine lastTag_take_injective signer (List.getElem?_eq_some_iff.mp found).1.le
        part.length_le ?_
      rw [← before, prevs, ← List.prefix_iff_eq_take.mp part]
    have link : m = l := by
      obtain ⟨c, p, t⟩ := m
      obtain ⟨c', p', t'⟩ := l
      dsimp only at contents_eq prevs same prev
      rw [contents_eq, prevs, ← prev, same]
    obtain ⟨rest, whole⟩ := part
    rw [place, link, ← whole, List.getElem?_append_right le_rfl, Nat.sub_self] at found
    obtain ⟨more, rfl⟩ : ∃ more, rest = l :: more := by
      cases rest with
      | nil => cases found
      | cons first more => exact ⟨more, by rw [Option.some.inj found]⟩
    exact ⟨more, by rw [← whole, List.append_assoc, List.singleton_append]⟩

end Metahumotonic.Library.HashChain
