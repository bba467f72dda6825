import Metahumotonic.Library.Positions
import Metahumotonic.Library.Worklist

/-! Breadth-first search over items that carry a key: items are taken from a queue in
order, and the children of each whose keys are new join it. The items come in the order
of their levels, and the level of an item is the length of the shortest path to its key. -/
namespace Metahumotonic.Library

variable {α κ : Type*} [DecidableEq κ]

/-- The items with new keys, each key once. -/
def fresh (key : α → κ) : Finset κ → List α → List α
  | _, [] => []
  | seen, a :: rest => if key a ∈ seen then fresh key seen rest
    else a :: fresh key (insert (key a) seen) rest

section Fresh

variable {key : α → κ} {seen : Finset κ} {items : List α} {a : α}

theorem mem_of_fresh (member : a ∈ fresh key seen items) : a ∈ items ∧ key a ∉ seen := by
  induction items generalizing seen with
  | nil => cases member
  | cons b rest ih =>
    unfold fresh at member
    split at member
    · exact ⟨List.mem_cons_of_mem _ (ih member).1, (ih member).2⟩
    · rename_i new
      rcases List.mem_cons.mp member with rfl | later
      · exact ⟨List.mem_cons_self, new⟩
      · obtain ⟨inside, outside⟩ := ih later
        exact ⟨List.mem_cons_of_mem _ inside, fun old => outside (Finset.mem_insert_of_mem old)⟩

theorem fresh_covers (seen : Finset κ) (member : a ∈ items) : key a ∈ seen ∨
    ∃ b ∈ fresh key seen items, key b = key a := by
  induction items generalizing seen with
  | nil => cases member
  | cons b rest ih =>
    unfold fresh
    split
    · rename_i old
      rcases List.mem_cons.mp member with rfl | later
      · exact .inl old
      · exact ih _ later
    · rcases List.mem_cons.mp member with rfl | later
      · exact .inr ⟨a, List.mem_cons_self, rfl⟩
      · rcases ih (insert (key b) seen) later with known | ⟨c, there, same⟩
        · rcases Finset.mem_insert.mp known with same | old
          · exact .inr ⟨b, List.mem_cons_self, same.symm⟩
          · exact .inl old
        · exact .inr ⟨c, List.mem_cons_of_mem _ there, same⟩

theorem fresh_nodup (key : α → κ) (seen : Finset κ) (items : List α) :
    ((fresh key seen items).map key).Nodup := by
  induction items generalizing seen with
  | nil => exact List.nodup_nil
  | cons b rest ih =>
    unfold fresh
    split
    · exact ih seen
    · rw [List.map_cons, List.nodup_cons]
      refine ⟨fun member => ?_, ih _⟩
      obtain ⟨c, there, same⟩ := List.mem_map.mp member
      exact (mem_of_fresh there).2 (same ▸ Finset.mem_insert_self _ _)

/-- It makes no difference whether items with known keys are left out before. -/
theorem fresh_filter {keep : α → Bool} (known : ∀ a ∈ items, keep a = false → key a ∈ seen) :
    fresh key seen (items.filter keep) = fresh key seen items := by
  induction items generalizing seen with
  | nil => rfl
  | cons b rest ih =>
    have tail : ∀ a ∈ rest, keep a = false → key a ∈ seen := fun a member =>
      known a (List.mem_cons_of_mem _ member)
    have wider : ∀ a ∈ rest, keep a = false → key a ∈ insert (key b) seen := fun a member out =>
      Finset.mem_insert_of_mem (tail a member out)
    cases kept : keep b with
    | true =>
      rw [List.filter_cons_of_pos kept, fresh, fresh, ih tail, ih wider]
    | false =>
      rw [List.filter_cons_of_neg (by simp [kept]), fresh,
        if_pos (known b List.mem_cons_self kept), ih tail]

end Fresh

/-- The items that were taken, and those that wait. -/
structure Search (α : Type*) where
  taken : List α
  queue : List α

namespace Search

def found (s : Search α) : List α := s.taken ++ s.queue

def start (root : α) : Search α := ⟨[], [root]⟩

/-- The children of the next item join the queue. -/
def take (key : α → κ) (children : α → List α) (s : Search α) (a : α) (rest : List α) : Search α :=
  ⟨s.taken ++ [a], rest ++ fresh key (s.found.map key).toFinset (children a)⟩

inductive Turn (key : α → κ) (children : α → List α) (s : Search α) : Search α → Prop
  | take (a : α) (rest : List α) (here : s.queue = a :: rest) :
    Turn key children s (s.take key children a rest)

abbrev Turns (key : α → κ) (children : α → List α) : Search α → Search α → Prop :=
  Relation.ReflTransGen (Turn key children)

/-- The search with a bound on its turns. -/
def explore (key : α → κ) (children : α → List α) : Nat → Search α → Search α
  | 0, s => s
  | fuel + 1, s =>
    match s.queue with
    | [] => s
    | a :: rest => explore key children fuel (s.take key children a rest)

variable {key : α → κ} {children : α → List α} {level : α → Nat} {root : α} {s t : Search α}

theorem found_take {a : α} {rest : List α} (here : s.queue = a :: rest) :
    (s.take key children a rest).found = s.found ++ fresh key (s.found.map key).toFinset
    (children a) := by
  simp only [take, found, here, List.append_assoc, List.cons_append, List.nil_append]

theorem turn_unique : Relator.RightUnique (Turn key children) := by
  intro s t u first second
  cases first with
  | take a rest here =>
    cases second with
    | take b other there =>
      rw [here] at there
      cases there
      rfl

theorem Turns.prefix_ (turns : Turns key children s t) : s.taken <+: t.taken ∧
    s.found <+: t.found := by
  induction turns with
  | refl => exact ⟨List.prefix_refl _, List.prefix_refl _⟩
  | tail _ turn ih =>
    cases turn with
    | take a rest here =>
      refine ⟨ih.1.trans (List.prefix_append _ _), ih.2.trans ?_⟩
      rw [found_take here]
      exact List.prefix_append _ _

/-- A search that is over has gone through every state of the search. -/
theorem Turns.drained (first : Turns key children s t) {u : Search α}
    (second : Turns key children s u)
    (drained : u.queue = []) : Turns key children t u := by
  have comparable := Relation.ReflTransGen.total_of_right_unique turn_unique first second
  rcases comparable with ahead | behind
  · exact ahead
  · rcases behind.cases_head with rfl | ⟨v, turn, _⟩
    · exact .refl
    · cases turn with
      | take a rest here =>
        rw [drained] at here
        cases here

theorem explore_turns (fuel : Nat) (s : Search α) : Turns key children s
    (explore key children fuel s) := by
  induction fuel generalizing s with
  | zero => exact .refl
  | succ fuel ih =>
    unfold explore
    split
    · exact .refl
    · rename_i a rest here
      exact .head (.take a rest here) (ih _)

/-- With few children of a lower rank each, the search is over after so many turns. -/
theorem explore_over {base : Nat} (rank : α → Nat) (few : ∀ a, (children a).length ≤ base)
    (lower : ∀ a, ∀ b ∈ children a, rank b < rank a) (fuel : Nat) (s : Search α)
    (enough : (s.queue.map fun a => (base + 1) ^ rank a).sum ≤ fuel) :
    (explore key children fuel s).queue = [] := by
  have positive : ∀ a, 0 < (base + 1) ^ rank a := fun a => Nat.pow_pos (Nat.succ_pos _)
  induction fuel generalizing s with
  | zero =>
    cases waiting : s.queue with
    | nil => exact waiting
    | cons a rest =>
      have some_ := positive a
      rw [waiting, List.map_cons, List.sum_cons] at enough
      omega
  | succ fuel ih =>
    unfold explore
    split
    · rename_i none_
      exact none_
    · rename_i a rest here
      apply ih
      have short : (fresh key (s.found.map key).toFinset (children a)).length ≤ base := by
        refine (List.Subperm.length_le ?_).trans (few a)
        refine List.subperm_of_subset (.of_map key (fresh_nodup _ _ _)) fun b member =>
          (mem_of_fresh member).1
      have pushed : ((fresh key (s.found.map key).toFinset (children a)).map fun b =>
          (base + 1) ^ rank b).sum <
          (base + 1) ^ rank a := weights_lt short fun b member => lower a b (mem_of_fresh member).1
      rw [here, List.map_cons, List.sum_cons] at enough
      simp only [take, List.map_append, List.sum_append]
      omega

/-- What holds in every state of a search whose children are one level below. -/
structure Layered (key : α → κ) (children : α → List α) (level : α → Nat) (root : α)
    (s : Search α) : Prop where
  head : s.found.head? = some root
  nodup : (s.found.map key).Nodup
  sorted : s.found.Pairwise fun a b => level a ≤ level b
  near : ∀ a ∈ s.found, ∀ b ∈ s.queue.head?, level a ≤ level b + 1
  parent : ∀ before b after, s.found = before ++ b :: after → before ≠ [] → ∃ a ∈ before,
    a ∈ s.taken ∧ b ∈ children a
  covered : ∀ a ∈ s.taken, ∀ b ∈ children a, ∃ c ∈ s.found, key c = key b ∧ level c ≤ level b

namespace Layered

omit [DecidableEq κ] in
theorem start : Layered key children level root (start root) where
  head := rfl
  nodup := List.nodup_singleton _
  sorted := List.pairwise_singleton _ _
  near a member b first := by
    cases List.mem_singleton.mp member
    cases first
    exact Nat.le_succ _
  parent before b after split some_ := by
    rcases before with _ | ⟨c, before⟩
    · exact absurd rfl some_
    · have length := congrArg List.length split
      simp [found, Search.start] at length
  covered a member := by cases member

theorem take (below : ∀ a, ∀ b ∈ children a, level b = level a + 1)
    (before : Layered key children level root s)
    {a : α} {rest : List α} (here : s.queue = a :: rest) :
    Layered key children level root (s.take key children a rest) := by
  have new : ∀ b ∈ fresh key (s.found.map key).toFinset (children a), b ∈ children a ∧
      key b ∉ s.found.map key := by
    intro b member
    obtain ⟨child, outside⟩ := mem_of_fresh member
    exact ⟨child, fun old => outside (List.mem_toFinset.mpr old)⟩
  have near : ∀ b ∈ s.found, level b ≤ level a + 1 := fun b member =>
    before.near b member a (by rw [here]; rfl)
  have taken : a ∈ s.found := List.mem_append_right _ (here ▸ List.mem_cons_self)
  have after : ∀ b ∈ rest, level a ≤ level b := by
    have sorted := before.sorted
    rw [found, here, List.pairwise_append] at sorted
    exact fun b member => List.rel_of_pairwise_cons sorted.2.1 member
  refine ⟨?_, ?_, ?_, ?_, ?_, ?_⟩
  · rw [found_take here, List.head?_append, before.head]
    rfl
  · rw [found_take here, List.map_append, List.nodup_append]
    refine ⟨before.nodup, fresh_nodup _ _ _, fun k old l fresh_ same => ?_⟩
    obtain ⟨b, member, rfl⟩ := List.mem_map.mp fresh_
    exact (new b member).2 (same ▸ old)
  · rw [found_take here, List.pairwise_append]
    refine ⟨before.sorted, ?_, fun b old c member => ?_⟩
    · rw [List.pairwise_iff_forall_sublist]
      intro b c pair
      have both := pair.subset
      rw [below a b (new b (both (by simp))).1, below a c (new c (both (by simp))).1]
    · rw [below a c (new c member).1]
      exact near b old
  · intro b member c first
    have high : level a ≤ level c := by
      have waits : c ∈ rest ++ fresh key (s.found.map key).toFinset (children a) :=
        List.mem_of_mem_head? first
      rcases List.mem_append.mp waits with old | added
      · exact after c old
      · rw [below a c (new c added).1]
        exact Nat.le_succ _
    rw [found_take here] at member
    rcases List.mem_append.mp member with old | added
    · exact (near b old).trans (Nat.succ_le_succ high)
    · rw [below a b (new b added).1]
      exact Nat.succ_le_succ high
  · intro first b last split some_
    rw [found_take here] at split
    rcases List.append_eq_append_iff.mp split.symm with ⟨gap, inner, rest_⟩ | ⟨gap, inner, rest_⟩
    · cases gap with
      | nil =>
        rw [List.append_nil] at inner
        rw [List.nil_append] at rest_
        have child := (new b (rest_ ▸ List.mem_cons_self)).1
        exact ⟨a, inner ▸ taken, List.mem_append_right _ List.mem_cons_self, child⟩
      | cons c gap =>
        obtain ⟨rfl, later⟩ := List.cons.inj rest_
        obtain ⟨p, earlier, done, child⟩ := before.parent first b gap inner some_
        exact ⟨p, earlier, List.mem_append_left _ done, child⟩
    · have child := (new b (rest_ ▸ List.mem_append_right _ List.mem_cons_self)).1
      exact ⟨a, inner ▸ List.mem_append_left _ taken,
        List.mem_append_right _ List.mem_cons_self, child⟩
  · intro b done c child
    rw [found_take here]
    rcases List.mem_append.mp done with old | last
    · obtain ⟨d, there, same, low⟩ := before.covered b old c child
      exact ⟨d, List.mem_append_left _ there, same, low⟩
    · cases List.mem_singleton.mp last
      rcases fresh_covers (s.found.map key).toFinset child with known | ⟨d, there, same⟩
      · obtain ⟨d, there, same⟩ := List.mem_map.mp (List.mem_toFinset.mp known)
        exact ⟨d, List.mem_append_left _ there, same, by rw [below _ c child]; exact near d there⟩
      · refine ⟨d, List.mem_append_right _ there, same, ?_⟩
        rw [below _ c child, below _ d (new d there).1]

theorem turns (below : ∀ a, ∀ b ∈ children a, level b = level a + 1)
    (before : Layered key children level root s)
    (turns : Turns key children s t) : Layered key children level root t := by
  induction turns with
  | refl => exact before
  | tail _ turn ih =>
    cases turn with
    | take a rest here => exact ih.take below here

end Layered

/-- The children of the items above a depth. -/
def within (level : α → Nat) (children : α → List α) (depth : Nat) (a : α) : List α :=
  if level a < depth then children a else []

section Depth

variable {depth : Nat} (below : ∀ a, ∀ b ∈ children a, level b = level a + 1)
include below

omit [DecidableEq κ] in
theorem within_below (a b : α) (child : b ∈ within level children depth a) :
    level b = level a + 1 ∧ level a < depth ∧ b ∈ children a := by
  unfold within at child
  split at child
  · rename_i above
    exact ⟨below a b child, above, child⟩
  · cases child

/-- With few children each, the search down to a depth is over after so many turns. -/
theorem within_over {base : Nat} (few : ∀ a, (children a).length ≤ base) (root : α)
    (top : level root = 0) :
    (explore key (within level children depth) ((base + 1) ^ (depth + 1)) (start root)).queue =
    [] := by
  apply explore_over fun a => depth + 1 - level a
  · intro a
    unfold within
    split
    · exact few a
    · exact Nat.zero_le _
  · intro a b child
    obtain ⟨next, above, _⟩ := within_below below a b child
    omega
  · simp [start, top]

theorem within_turns {s : Search α}
    (turns : Turns key (within level children depth) (start root) s) :
    Layered key (within level children depth) level root s :=
  Layered.start.turns (fun a b child => (within_below below a b child).1) turns

/-- No item lies deeper than the depth. -/
theorem within_le {s : Search α} (turns : Turns key (within level children depth) (start root) s)
    (top : level root = 0) : ∀ a ∈ s.found, level a ≤ depth := by
  have layered := within_turns below turns
  intro a member
  obtain ⟨before, after, split⟩ := List.append_of_mem member
  cases before with
  | nil =>
    have head := layered.head
    rw [split] at head
    cases head
    omega
  | cons first before =>
    obtain ⟨p, _, _, child⟩ := layered.parent _ a after split (List.cons_ne_nil _ _)
    obtain ⟨next, above, _⟩ := within_below below p a child
    omega

/-- A search that stops above finds the items that a deeper one finds there. -/
theorem within_filter {deeper : Nat} (shallow : depth ≤ deeper) {t : Search α}
    (turns : Turns key (within level children deeper) (start root) t) (top : level root = 0) :
    ∃ s, Turns key (within level children depth) (start root) s ∧
      s.taken = t.taken.filter (level · ≤ depth) ∧ s.queue = t.queue.filter (level · ≤ depth) := by
  induction turns with
  | refl => exact ⟨start root, .refl, by simp [start], by simp [start, top]⟩
  | @tail t _ path turn ih =>
    obtain ⟨s, turns, taken, queue⟩ := ih
    have layered := within_turns below path
    have found : s.found = t.found.filter (level · ≤ depth) := by
      rw [Search.found, taken, queue, Search.found, List.filter_append]
    cases turn with
    | take a rest here =>
      have near : ∀ b ∈ t.found, level b ≤ level a + 1 := fun b member =>
        layered.near b member a (by rw [here]; rfl)
      by_cases low : level a ≤ depth
      · have next : s.queue = a :: rest.filter (level · ≤ depth) := by
          rw [queue, here, List.filter_cons_of_pos (by simpa using low)]
        refine ⟨_, turns.tail (.take a _ next), ?_, ?_⟩
        · simp [take, taken, low]
        · simp only [take, List.filter_append]
          congr 1
          by_cases above : level a < depth
          · -- both have found the same, and the children are not too deep
            have same : s.found = t.found := by
              rw [found, List.filter_eq_self]
              intro b member
              have close := near b member
              simpa using close.trans above
            have both : within level children deeper a = within level children depth a := by
              simp only [within, above, above.trans_le shallow, if_true]
            rw [same, both, Eq.comm, List.filter_eq_self]
            intro b member
            obtain ⟨next, _, _⟩ := within_below below a b (mem_of_fresh member).1
            simp only [next, decide_eq_true_eq]
            omega
          · have none_ : within level children depth a = [] := if_neg above
            rw [none_, fresh, Eq.comm, List.filter_eq_nil_iff]
            intro b member
            obtain ⟨next, _, _⟩ := within_below below a b (mem_of_fresh member).1
            simp only [next, decide_eq_true_eq]
            omega
      · refine ⟨s, turns, ?_, ?_⟩
        · simp [take, taken, low]
        · have drop : rest.filter (level · ≤ depth) = t.queue.filter (level · ≤ depth) := by
            rw [here, List.filter_cons_of_neg (by simpa using low)]
          have none_ : (fresh key (t.found.map key).toFinset
              (within level children deeper a)).filter
              (level · ≤ depth) = [] := by
            rw [List.filter_eq_nil_iff]
            intro b member
            obtain ⟨next, _, _⟩ := within_below below a b (mem_of_fresh member).1
            simp only [next, decide_eq_true_eq]
            omega
          rw [queue, ← drop]
          simp only [take, List.filter_append, none_, List.append_nil]

end Depth

/-- A path of so many edges from the root. -/
inductive Hops (edge : κ → κ → Prop) (root : κ) : Nat → κ → Prop
  | root : Hops edge root 0 root
  | edge {n : Nat} {x y : κ} (path : Hops edge root n x) (next : edge x y) :
    Hops edge root (n + 1) y

section Shortest

variable {depth : Nat} {edge : κ → κ → Prop} (below : ∀ a, ∀ b ∈ children a, level b = level a + 1)
  (edges : ∀ a x, edge (key a) x ↔ ∃ b ∈ children a, key b = x) (top : level root = 0)
  {s : Search α} (turns : Turns key (within level children depth) (start root) s)
include below edges top turns

theorem found_hops (a : α) (member : a ∈ s.found) : Hops edge (key root) (level a) (key a) := by
  have layered := within_turns below turns
  have places : ∀ n before a after, before.length = n → s.found = before ++ a :: after →
      Hops edge (key root) (level a) (key a) := by
    intro n
    induction n using Nat.strongRecOn with
    | ind n ih =>
      intro before a after length split
      cases before with
      | nil =>
        have head := layered.head
        rw [split] at head
        cases head
        exact top ▸ .root
      | cons first before =>
        obtain ⟨p, earlier, _, child⟩ := layered.parent _ a after split (List.cons_ne_nil _ _)
        obtain ⟨next, _, own⟩ := within_below below p a child
        obtain ⟨front, back, inner⟩ := List.append_of_mem earlier
        have path := ih front.length
          (by rw [← length, inner, List.length_append, List.length_cons]; omega)
          front p (back ++ a :: after) rfl
            (by rw [split, inner, List.append_assoc, List.cons_append])
        rw [next]
        exact .edge path ((edges p (key a)).mpr ⟨a, own, rfl⟩)
  obtain ⟨before, after, split⟩ := List.append_of_mem member
  exact places _ before a after rfl split

variable (drained : s.queue = [])
include drained

theorem hops_found {n : Nat} {x : κ} (path : Hops edge (key root) n x) (short : n ≤ depth) :
    ∃ a ∈ s.found, key a = x ∧ level a ≤ n := by
  have layered := within_turns below turns
  induction path with
  | root => exact ⟨root, List.mem_of_mem_head? layered.head, rfl, top.le⟩
  | edge path next ih =>
    obtain ⟨a, member, rfl, low⟩ := ih (Nat.le_of_succ_le short)
    obtain ⟨b, child, rfl⟩ := (edges a _).mp next
    have own : b ∈ within level children depth a := by
      rw [within, if_pos (by omega)]
      exact child
    have done : a ∈ s.taken := by
      rw [found, drained, List.append_nil] at member
      exact member
    obtain ⟨c, there, same, deep⟩ := layered.covered a done b own
    exact ⟨c, there, same, by rw [below a b child] at deep; omega⟩

/-- The level of an item that was found is the length of a shortest path to it. -/
theorem found_shortest (a : α) (member : a ∈ s.found) {n : Nat}
    (path : Hops edge (key root) n (key a)) :
    level a ≤ n := by
  have layered := within_turns below turns
  by_cases short : n ≤ depth
  · obtain ⟨b, there, same, low⟩ := hops_found below edges top turns drained path short
    cases List.inj_on_of_nodup_map layered.nodup member there same.symm
    exact low
  · have shallow := within_le below turns top a member
    omega

end Shortest

end Search

end Metahumotonic.Library
