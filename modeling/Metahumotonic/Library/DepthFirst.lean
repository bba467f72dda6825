import Mathlib.Data.List.Perm.Subperm
import Metahumotonic.Library.Linearisation

/-! Depth-first search for cycles. An item is active while its successors are explored, and finished
after that; a cycle is met where an active item is reached again. -/
namespace Metahumotonic.Library.DepthFirst

variable {α : Type*}

structure Search (α : Type*) where
  finished : List α := []
  active : List α := []
  /-- The items that were reached while they were active. -/
  cycles : List α := []

section

variable [DecidableEq α] (next : α → List α)

/-- The search with no bound on its depth: from some items on, one after the other. -/
inductive Explores : List α → Search α → Search α → Prop where
  | done (s : Search α) : Explores [] s s
  | cycle {item : α} {rest : List α} {s t : Search α} (here : item ∈ s.active)
      (later : Explores rest { s with cycles := s.cycles ++ [item] } t) :
      Explores (item :: rest) s t
  | known {item : α} {rest : List α} {s t : Search α} (open_ : item ∉ s.active)
    (here : item ∈ s.finished)
      (later : Explores rest s t) : Explores (item :: rest) s t
  | enter {item : α} {rest : List α} {s m t : Search α} (open_ : item ∉ s.active)
    (fresh : item ∉ s.finished)
      (inner : Explores (next item) { s with active := s.active ++ [item] } m)
      (later : Explores rest
        { m with active := m.active.erase item, finished := m.finished ++ [item] } t) :
      Explores (item :: rest) s t

/-- The search to a given depth. -/
def explore : ℕ → α → Search α → Search α
  | 0, _, s => s
  | fuel + 1, item, s =>
    if item ∈ s.active then { s with cycles := s.cycles ++ [item] }
    else if item ∈ s.finished then s
    else
      let within := (next item).foldl (fun s child => explore fuel child s)
          { s with active := s.active ++ [item] }
      { within with active := within.active.erase item, finished := within.finished ++ [item] }

variable {next} {items : List α} {s t : Search α}

/-- What was active before is active afterwards, and nothing else. -/
theorem Explores.active_eq (explored : Explores next items s t) : t.active = s.active := by
  induction explored with
  | done => rfl
  | cycle _ _ ih => exact ih
  | known _ _ _ ih => exact ih
  | enter open_ _ _ _ within after =>
    rw [after, within, List.erase_append_right _ open_, List.erase_cons_head, List.append_nil]

/-- A cycle that is met is one, among the items that satisfy a property the successors inherit. -/
theorem Explores.sound (P : α → Prop) (inherit : ∀ a, P a → ∀ b ∈ next a, P b)
    (explored : Explores next items s t) (start : ∀ i ∈ items, P i)
    (above : ∀ a ∈ s.active, ∀ i ∈ items, Relation.TransGen (fun a b => b ∈ next a) a i) :
    ∀ c ∈ t.cycles, c ∈ s.cycles ∨ P c ∧ Relation.TransGen (fun a b => b ∈ next a) c c := by
  induction explored with
  | done => exact fun c member => .inl member
  | @cycle item rest s t here later ih =>
    intro c member
    rcases ih (fun i there => start i (List.mem_cons_of_mem _ there))
      (fun a active i there => above a active i (List.mem_cons_of_mem _ there)) c member with
      before | met
    · rcases List.mem_append.mp before with earlier | last
      · exact .inl earlier
      · rw [List.mem_singleton] at last
        subst last
        exact .inr ⟨start _ List.mem_cons_self, above _ here _ List.mem_cons_self⟩
    · exact .inr met
  | known _ _ _ ih =>
    exact ih (fun i there => start i (List.mem_cons_of_mem _ there))
      (fun a active i there => above a active i (List.mem_cons_of_mem _ there))
  | @enter item rest s m t open_ fresh inner later within after =>
    intro c member
    have active : (m.active.erase item) = s.active := by
      rw [inner.active_eq, List.erase_append_right _ open_, List.erase_cons_head, List.append_nil]
    rcases after (fun i there => start i (List.mem_cons_of_mem _ there)) (by
      intro a held i there
      rw [active] at held
      exact above a held i (List.mem_cons_of_mem _ there)) c member with before | met
    · apply within (inherit item (start item List.mem_cons_self)) _ c before
      intro a held i there
      rcases List.mem_append.mp held with earlier | last
      · exact (above a earlier item List.mem_cons_self).tail there
      · rw [List.mem_singleton.mp last]
        exact .single there
    · exact .inr met

theorem Explores.cycles_prefix (explored : Explores next items s t) : s.cycles <+: t.cycles := by
  induction explored with
  | done => exact List.prefix_refl _
  | cycle _ _ ih => exact (List.prefix_append _ _).trans ih
  | known _ _ _ ih => exact ih
  | enter _ _ _ _ within after => exact within.trans after

/-- A search that meets no cycle finishes every item after all its successors. -/
theorem Explores.complete (explored : Explores next items s t) (none : t.cycles = [])
    (first : NeedsFirst (fun a b => b ∈ next a) s.finished) :
    NeedsFirst (fun a b => b ∈ next a) t.finished ∧ (∀ i ∈ items, i ∈ t.finished) ∧
      ∀ i ∈ s.finished, i ∈ t.finished := by
  induction explored with
  | done => exact ⟨first, nofun, fun i here => here⟩
  | @cycle item rest s t here later ih =>
    have grown := later.cycles_prefix
    rw [none] at grown
    exact absurd (List.prefix_nil.mp grown) (by simp)
  | @known item rest s t open_ here later ih =>
    obtain ⟨first', all, more⟩ := ih none first
    refine ⟨first', fun i member => ?_, more⟩
    rcases List.mem_cons.mp member with rfl | there
    · exact more i here
    · exact all i there
  | @enter item rest s m t open_ fresh inner later within after =>
    have empty : m.cycles = [] := by
      have grown := later.cycles_prefix
      rw [none] at grown
      exact List.prefix_nil.mp grown
    obtain ⟨first', successors, more'⟩ := within empty first
    obtain ⟨first'', all, more''⟩ := after none (first'.snoc successors)
    refine ⟨first'', fun i member =>
      ?_, fun i here => more'' i (List.mem_append_left _ (more' i here))⟩
    rcases List.mem_cons.mp member with rfl | there
    · exact more'' i (List.mem_append_right _ List.mem_cons_self)
    · exact all i there

/-- A search from its roots meets a cycle exactly if there is one that can be reached from them. -/
theorem Explores.cycles_iff {roots : List α} (explored : Explores next roots {} t) :
    t.cycles ≠ [] ↔ ∃ root ∈ roots, ∃ c, Relation.ReflTransGen (fun a b => b ∈ next a) root c ∧
      Relation.TransGen (fun a b => b ∈ next a) c c := by
  constructor
  · intro some_
    obtain ⟨c, member⟩ := List.exists_mem_of_ne_nil _ some_
    have met := explored.sound
      (fun c => ∃ root ∈ roots, Relation.ReflTransGen (fun a b => b ∈ next a) root c)
      (fun a reached b edge => reached.imp fun root held => ⟨held.1, held.2.tail edge⟩)
      (fun i there => ⟨i, there, .refl⟩) nofun c member
    rcases met with before | ⟨⟨root, there, path⟩, cycle⟩
    · cases before
    · exact ⟨root, there, c, path, cycle⟩
  · rintro ⟨root, there, c, path, cycle⟩ empty
    obtain ⟨first, all, -⟩ := explored.complete empty
      (by intro before item after split; simp at split)
    exact first.no_cycle (first.path (all root there) path) cycle

/-! A depth of two more than there are ends of edges is enough. -/

omit [DecidableEq α] in
theorem active_short {targets : List α} (distinct : s.active.Nodup)
    (ends : ∀ a ∈ s.active.tail, a ∈ targets) :
    s.active.length ≤ targets.length + 1 := by
  have within := (List.subperm_of_subset distinct.tail ends).length_le
  rw [List.length_tail] at within
  omega

theorem explores_foldl {targets : List α} (ends : ∀ a, ∀ b ∈ next a, b ∈ targets) (fuel : ℕ)
    (items : List α)
    (s : Search α) (distinct : s.active.Nodup) (activeEnds : ∀ a ∈ s.active.tail, a ∈ targets)
    (itemEnds : s.active ≠ [] → ∀ i ∈ items, i ∈ targets) (deep :
      targets.length + 2 ≤ s.active.length + fuel) :
    Explores next items s (items.foldl (fun s item => explore next fuel item s) s) := by
  induction fuel generalizing items s with
  | zero =>
    have short := active_short distinct activeEnds
    omega
  | succ fuel deeper =>
    induction items generalizing s with
    | nil => exact .done s
    | cons item rest ih =>
      have restEnds : s.active ≠ [] → ∀ i ∈ rest, i ∈ targets :=
        fun some_ i there => itemEnds some_ i (List.mem_cons_of_mem _ there)
      rw [List.foldl_cons]
      by_cases active : item ∈ s.active
      · have step : explore next (fuel + 1) item s = { s with cycles := s.cycles ++ [item] } := by
          rw [explore, if_pos active]
        rw [step]
        exact .cycle active (ih _ distinct activeEnds restEnds deep)
      · by_cases finished : item ∈ s.finished
        · have step : explore next (fuel + 1) item s = s := by
            rw [explore, if_neg active, if_pos finished]
          rw [step]
          exact .known active finished (ih _ distinct activeEnds restEnds deep)
        · have inner := deeper (next item) { s with active := s.active ++ [item] }
            (List.nodup_append.mpr ⟨distinct, List.nodup_singleton _, by
              rintro a held b last rfl
              exact active (List.mem_singleton.mp last ▸ held)⟩)
            (by
              cases held : s.active with
              | nil => exact nofun
              | cons first others =>
                intro a member
                rw [List.cons_append, List.tail_cons, List.mem_append] at member
                rcases member with earlier | last
                · exact activeEnds a (by rw [held]; exact earlier)
                · rw [List.mem_singleton.mp last]
                  exact itemEnds (by rw [held]; exact List.cons_ne_nil _ _) item List.mem_cons_self)
            (fun _ i there => ends item i there)
            (by simp only [List.length_append, List.length_singleton]; omega)
          have same := inner.active_eq
          rw [explore, if_neg active, if_neg finished]
          refine .enter active finished inner (ih _ ?_ ?_ ?_ ?_)
          all_goals
            simp only [same, List.erase_append_right _ active, List.erase_cons_head,
              List.append_nil]
            assumption

/-- The search from all roots, run to a depth that is enough. -/
theorem explores_roots {targets : List α} (ends : ∀ a, ∀ b ∈ next a, b ∈ targets) (roots :
    List α) {fuel : ℕ}
    (deep : targets.length + 2 ≤ fuel) :
    Explores next roots {} (roots.foldl (fun s item => explore next fuel item s) {}) :=
  explores_foldl ends fuel roots {} List.nodup_nil nofun (fun some_ => absurd rfl some_)
    (by simpa using deep)

end

end Metahumotonic.Library.DepthFirst
