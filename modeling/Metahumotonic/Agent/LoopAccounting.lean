import Metahumotonic.Agent.Loop

/-! What the agent loop says about itself: its rounds, the nodes it admitted, its graph,
and the reason for which it stopped. -/
namespace Metahumotonic.Agent

open Library WorkGraph

variable {T : Type u} {A : Type v} {E : Type w} {spec : LoopSpec T A E} {l next : Loop T A E}
  {initial : WorkGraph T}

section Turns

/-- The ways in which a round can end. -/
inductive Turned (spec : LoopSpec T A E) (l : Loop T A E) (pass : Sched T A E) :
    Loop T A E → Prop where
  | undiscovered (none_ : spec.discover = none) :
      Turned spec l pass { l with
        outcomes := merge l.outcomes (report pass).outcomes
        rounds := l.rounds + 1
        stoppedBecause := .frontierEmpty
        stopped := true
        history := ⟨l.graph, pass, []⟩ :: l.history }
  | dry (discover : Discovery T A E → List (WorkNode T)) (some_ : spec.discover = some discover)
      (none_ : (discover ⟨l.graph, (report pass).outcomes, l.rounds⟩).filter (·.id ∉ l.seen) = [])
      (few : l.consecutiveDry + 1 < spec.budget.dryRounds) :
      Turned spec l pass { l with
        outcomes := merge l.outcomes (report pass).outcomes
        rounds := l.rounds + 1
        consecutiveDry := l.consecutiveDry + 1
        history := ⟨l.graph, pass, discover ⟨l.graph, (report pass).outcomes, l.rounds⟩⟩ ::
          l.history }
  | converged (discover : Discovery T A E → List (WorkNode T))
    (some_ : spec.discover = some discover)
      (none_ : (discover ⟨l.graph, (report pass).outcomes, l.rounds⟩).filter (·.id ∉ l.seen) = [])
      (enough : spec.budget.dryRounds ≤ l.consecutiveDry + 1) :
      Turned spec l pass { l with
        outcomes := merge l.outcomes (report pass).outcomes
        rounds := l.rounds + 1
        consecutiveDry := l.consecutiveDry + 1
        stoppedBecause := .dry (l.consecutiveDry + 1)
        stopped := true
        history := ⟨l.graph, pass, discover ⟨l.graph, (report pass).outcomes, l.rounds⟩⟩ ::
          l.history }
  | grown (discover : Discovery T A E → List (WorkNode T)) (some_ : spec.discover = some discover)
      (fresh : List (WorkNode T))
      (proposed : (discover ⟨l.graph, (report pass).outcomes, l.rounds⟩).filter
        (·.id ∉ l.seen) = fresh)
      (new : fresh ≠ []) (fits : fresh.length ≤ spec.budget.maxNodes - l.seen.card) :
      Turned spec l pass { l with
        outcomes := merge l.outcomes (report pass).outcomes
        rounds := l.rounds + 1
        consecutiveDry := 0
        seen := fresh.foldl (fun seen node => insert node.id seen) l.seen
        graph := fresh.foldl addNode l.graph
        history := ⟨l.graph, pass, discover ⟨l.graph, (report pass).outcomes, l.rounds⟩⟩ ::
          l.history }
  | full (discover : Discovery T A E → List (WorkNode T)) (some_ : spec.discover = some discover)
      (fresh : List (WorkNode T))
      (proposed : (discover ⟨l.graph, (report pass).outcomes, l.rounds⟩).filter
        (·.id ∉ l.seen) = fresh)
      (more : spec.budget.maxNodes - l.seen.card < fresh.length) :
      Turned spec l pass { l with
        outcomes := merge l.outcomes (report pass).outcomes
        rounds := l.rounds + 1
        consecutiveDry := 0
        seen := (fresh.take (spec.budget.maxNodes - l.seen.card)).foldl
          (fun seen node => insert node.id seen) l.seen
        graph := (fresh.take (spec.budget.maxNodes - l.seen.card)).foldl addNode l.graph
        stoppedBecause := .nodeBudget
        stopped := true
        history := ⟨l.graph, pass, discover ⟨l.graph, (report pass).outcomes, l.rounds⟩⟩ ::
          l.history }

theorem turn_turned (spec : LoopSpec T A E) (l : Loop T A E) (pass : Sched T A E) :
    Turned spec l pass (turn spec l pass) := by
  unfold turn
  cases some_ : spec.discover with
  | none => exact .undiscovered some_
  | some discover =>
    simp only [Nat.add_sub_cancel]
    split
    · rename_i none_
      split
      · rename_i enough
        exact .converged discover some_ (List.length_eq_zero_iff.mp none_) enough
      · rename_i few
        exact .dry discover some_ (List.length_eq_zero_iff.mp none_) (by omega)
    · rename_i new
      split
      · rename_i more
        rw [List.length_take] at more
        exact .full discover some_ _ rfl (by omega)
      · rename_i fits
        rw [List.length_take] at fits
        have all : ((discover ⟨l.graph, (report pass).outcomes, l.rounds⟩).filter
            (·.id ∉ l.seen)).length ≤
            spec.budget.maxNodes - l.seen.card := by omega
        rw [List.take_of_length_le all]
        exact .grown discover some_ _ rfl (fun none_ => new (none_ ▸ rfl)) all

/-- A step of the loop runs a pass to its end, unless the graph cannot be run. -/
theorem step_cases {events : List (Event A E)} (moved : LoopStep spec l events next) :
    (∃ why, launch (spec.job l) = (.error why : Except Unrunnable (Sched T A E)) ∧
      next = { l with stoppedBecause := .graphUnrunnable why.tag, stopped := true }) ∨
    Acyclic l.graph ∧ DanglingFree l.graph ∧
      ∃ pass, Path (Step (spec.job l)) {} events pass ∧ pass.pc = .finished ∧
        Turned spec l pass next := by
  obtain ⟨_, _, ran⟩ := moved
  split at ran
  · rename_i why refused
    exact .inl ⟨why, refused, ran.2⟩
  · rename_i initial launched
    obtain ⟨rfl, acyclic, free⟩ := launch_ok_iff.mp launched
    obtain ⟨pass, path, ending, rfl⟩ := ran
    exact .inr ⟨acyclic, free, pass, path, ending, turn_turned spec l pass⟩

end Turns

section Invariant

/-- Discovered nodes depend on nodes of the graph, when told the outcomes of its nodes. -/
def Anchored (spec : LoopSpec T A E) : Prop :=
  ∀ discover, spec.discover = some discover → ∀ found : Discovery T A E,
    (∀ id outcome, found.outcomes.get? id = some outcome → id ∈ found.graph.ids) →
      ∀ node ∈ discover found, ∀ dep ∈ node.dependsOn, dep ∈ found.graph.ids

structure Sound (spec : LoopSpec T A E) (initial : WorkGraph T) (l : Loop T A E) : Prop where
  seen : l.seen = l.graph.ids.toFinset
  acyclic : Acyclic l.graph
  free : DanglingFree l.graph
  size : l.graph.ids.length ≤ max initial.ids.length spec.budget.maxNodes
  rounds : l.rounds = l.history.length

theorem Sound.start (spec : LoopSpec T A E) (acyclic : Acyclic initial)
    (free : DanglingFree initial) :
    Sound spec initial (.start initial) where
  seen := rfl
  acyclic := acyclic
  free := free
  size := Nat.le_max_left _ _
  rounds := rfl

/-- Nodes that the loop has not seen may be admitted up to the node budget. -/
theorem Sound.admit (sound : Sound spec initial l) {admitted : List (WorkNode T)}
    (new : ∀ node ∈ admitted, node.id ∉ l.seen)
    (deps : ∀ node ∈ admitted, ∀ dep ∈ node.dependsOn, dep ∈ l.graph.ids)
    (fits : admitted.length ≤ spec.budget.maxNodes - l.seen.card) :
    Acyclic (admitted.foldl addNode l.graph) ∧ DanglingFree (admitted.foldl addNode l.graph) ∧
      (admitted.foldl addNode l.graph).ids.length ≤ max initial.ids.length
        spec.budget.maxNodes := by
  have outside : ∀ node ∈ admitted, node.id ∉ l.graph.ids := by
    intro node member
    have fresh := new node member
    rwa [sound.seen, List.mem_toFinset] at fresh
  have grown := Grown.foldl admitted outside deps (Grown.refl l.graph)
  refine ⟨grown.acyclic sound.free sound.acyclic, grown.danglingFree sound.free, ?_⟩
  have card := card_foldl admitted l.graph.ids.toFinset
  rw [← toFinset_foldl, card_ids, card_ids] at card
  have size := sound.size
  rw [sound.seen, card_ids] at fits
  omega

theorem Sound.turned (anchored : Anchored spec) (sound : Sound spec initial l) {pass : Sched T A E}
    (told : ∀ id outcome, pass.outcomes.get? id = some outcome → id ∈ l.graph.ids)
    (turned : Turned spec l pass next) : Sound spec initial next := by
  have rounds := sound.rounds
  cases turned with
  | undiscovered none_ =>
    exact ⟨sound.seen, sound.acyclic, sound.free,
      sound.size, by simp only [List.length_cons, rounds]⟩
  | dry _ some_ none_ few =>
    exact ⟨sound.seen, sound.acyclic, sound.free,
      sound.size, by simp only [List.length_cons, rounds]⟩
  | converged _ some_ none_ enough =>
    exact ⟨sound.seen, sound.acyclic, sound.free,
      sound.size, by simp only [List.length_cons, rounds]⟩
  | grown discover some_ fresh proposed new fits =>
    have member : ∀ node ∈ fresh, node ∈ discover ⟨l.graph, (report pass).outcomes, l.rounds⟩ ∧
        node.id ∉ l.seen := by
      intro node member
      rw [← proposed, List.mem_filter, decide_eq_true_eq] at member
      exact member
    obtain ⟨acyclic, free, size⟩ := sound.admit (fun node here => (member node here).2)
      (fun node here => anchored discover some_ _ told node (member node here).1) fits
    refine ⟨?_, acyclic, free, size, by simp only [List.length_cons, rounds]⟩
    exact (toFinset_foldl fresh).symm ▸ sound.seen ▸ rfl
  | full discover some_ fresh proposed more =>
    have member : ∀ node ∈ fresh.take (spec.budget.maxNodes - l.seen.card),
        node ∈ discover ⟨l.graph, (report pass).outcomes, l.rounds⟩ ∧ node.id ∉ l.seen := by
      intro node here
      have member := List.mem_of_mem_take here
      rw [← proposed, List.mem_filter, decide_eq_true_eq] at member
      exact member
    obtain ⟨acyclic, free, size⟩ := sound.admit (fun node here => (member node here).2)
      (fun node here => anchored discover some_ _ told node (member node here).1)
      (List.length_take_le _ _)
    refine ⟨?_, acyclic, free, size, by simp only [List.length_cons, rounds]⟩
    exact (toFinset_foldl _).symm ▸ sound.seen ▸ rfl

/-- The loop has not been left. -/
structure Going (spec : LoopSpec T A E) (l : Loop T A E) : Prop where
  going : l.stopped = false
  reason : l.stoppedBecause = .frontierEmpty
  fits : ∀ round ∈ l.history, round.cut spec.budget = []
  told : ∀ round ∈ l.history, ∀ node ∈ round.proposed, node.id ∈ l.graph.ids
  discover : spec.discover = none → l.history = []
  dry : l.consecutiveDry = (l.history.takeWhile (·.fresh.isEmpty)).length
  few : l.consecutiveDry < spec.budget.dryRounds

/-- The loop was left, and why. -/
inductive Left (spec : LoopSpec T A E) (l : Loop T A E) : Prop where
  | frontier (reason : l.stoppedBecause = .frontierEmpty) (none_ : spec.discover = none)
      (one : l.rounds = 1) (fits : ∀ round ∈ l.history, round.cut spec.budget = [])
  | dry (count : Nat) (reason : l.stoppedBecause = .dry count) (some_ : spec.discover ≠ none)
      (enough : spec.budget.dryRounds ≤ (l.history.takeWhile (·.fresh.isEmpty)).length)
      (fits : ∀ round ∈ l.history, round.cut spec.budget = [])
  | full (reason : l.stoppedBecause = .nodeBudget) (some_ : spec.discover ≠ none)
    (last : Round T A E)
      (rest : List (Round T A E)) (history : l.history = last :: rest)
      (more : last.cut spec.budget ≠ [])
      (ids : ∀ id, id ∈ l.graph.ids ↔ id ∈ last.graph.ids ∨ id ∈ (last.kept spec.budget).map (·.id))
      (fits : ∀ round ∈ rest, round.cut spec.budget = [])
      (told : ∀ round ∈ rest, ∀ node ∈ round.proposed, node.id ∈ l.graph.ids)

theorem Going.start (positive : 1 ≤ spec.budget.dryRounds) :
    Going spec (.start initial : Loop T A E) where
  going := rfl
  reason := rfl
  fits := nofun
  told := nofun
  discover _ := rfl
  dry := rfl
  few := positive

theorem fresh_eq (sound : Sound spec initial l) (pass : Sched T A E)
    (proposed : List (WorkNode T)) :
    (⟨l.graph, pass, proposed⟩ : Round T A E).fresh = proposed.filter (·.id ∉ l.seen) := by
  simp only [Round.fresh, sound.seen, List.mem_toFinset]

theorem card_seen (sound : Sound spec initial l) : l.seen.card = l.graph.ids.length := by
  rw [sound.seen, card_ids]

theorem cut_dry (sound : Sound spec initial l) (pass : Sched T A E) {proposed : List (WorkNode T)}
    (none_ : proposed.filter (·.id ∉ l.seen) = []) (budget : LoopBudget) :
    (⟨l.graph, pass, proposed⟩ : Round T A E).cut budget = [] := by
  rw [Round.cut, fresh_eq sound, none_, List.drop_nil]

theorem known_dry (sound : Sound spec initial l) {proposed : List (WorkNode T)}
    (none_ : proposed.filter (·.id ∉ l.seen) = []) : ∀ node ∈ proposed, node.id ∈ l.graph.ids := by
  intro node member
  have seen : node.id ∈ l.seen := by simpa using List.filter_eq_nil_iff.mp none_ node member
  rwa [sound.seen, List.mem_toFinset] at seen

theorem Going.turned (sound : Sound spec initial l) (going : Going spec l) {pass : Sched T A E}
    (turned : Turned spec l pass next) :
    Going spec next ∨ next.stopped = true ∧ Left spec next := by
  cases turned with
  | undiscovered none_ =>
    refine .inr ⟨rfl, .frontier rfl none_ ?_ ?_⟩
    · have rounds := sound.rounds
      rw [going.discover none_, List.length_nil] at rounds
      simp only [rounds]
    · intro round member
      rw [going.discover none_, List.mem_singleton] at member
      subst member
      exact cut_dry sound pass rfl _
  | dry discover some_ none_ few =>
    refine .inl ⟨going.going, going.reason, ?_, ?_, fun gone => ?_, ?_, few⟩
    · intro round member
      rcases List.mem_cons.mp member with rfl | old
      · exact cut_dry sound pass none_ _
      · exact going.fits round old
    · intro round member
      rcases List.mem_cons.mp member with rfl | old
      · exact known_dry sound none_
      · exact going.told round old
    · rw [some_] at gone
      cases gone
    · rw [List.takeWhile_cons_of_pos (by rw [fresh_eq sound, none_]; rfl),
        List.length_cons, going.dry]
  | converged discover some_ none_ enough =>
    refine .inr ⟨rfl, .dry _ rfl (by rw [some_]; nofun) ?_ ?_⟩
    · rw [List.takeWhile_cons_of_pos (by rw [fresh_eq sound, none_]; rfl), List.length_cons,
        ← going.dry]
      exact enough
    · intro round member
      rcases List.mem_cons.mp member with rfl | old
      · exact cut_dry sound pass none_ _
      · exact going.fits round old
  | grown discover some_ fresh proposed new fits =>
    have inside : ∀ id ∈ l.graph.ids, id ∈ (fresh.foldl addNode l.graph).ids :=
      fun id old => (mem_ids_foldl fresh).mpr (.inl old)
    refine .inl ⟨going.going, going.reason, ?_, ?_, fun gone => ?_, ?_,
      going.few.trans_le' (Nat.zero_le _)⟩
    · intro round member
      rcases List.mem_cons.mp member with rfl | old
      · rw [Round.cut, fresh_eq sound, proposed, ← card_seen sound]
        exact List.drop_of_length_le fits
      · exact going.fits round old
    · intro round member node here
      rcases List.mem_cons.mp member with rfl | old
      · by_cases old : node.id ∈ l.seen
        · rw [sound.seen, List.mem_toFinset] at old
          exact inside _ old
        · refine (mem_ids_foldl fresh).mpr (.inr (List.mem_map_of_mem ?_))
          rw [← proposed]
          exact List.mem_filter.mpr ⟨here, decide_eq_true old⟩
      · exact inside _ (going.told round old node here)
    · rw [some_] at gone
      cases gone
    · have some_ : fresh.isEmpty = false := by simpa using new
      rw [List.takeWhile_cons_of_neg (by rw [fresh_eq sound, proposed, some_]; nofun),
        List.length_nil]
  | full discover some_ fresh proposed more =>
    refine .inr ⟨rfl, .full rfl (by rw [some_]; nofun) _ _ rfl ?_ ?_ going.fits ?_⟩
    · rw [Round.cut, fresh_eq sound, proposed, ← card_seen sound]
      intro none_
      have short := List.drop_eq_nil_iff.mp none_
      omega
    · intro id
      rw [Round.kept, fresh_eq sound, proposed, ← card_seen sound]
      exact mem_ids_foldl _
    · exact fun round old node here => (mem_ids_foldl _).mpr (.inl (going.told round old node here))

/-- What holds of the loop between two rounds. -/
structure Accounted (spec : LoopSpec T A E) (initial : WorkGraph T) (l : Loop T A E) : Prop where
  sound : Sound spec initial l
  within : l.rounds ≤ spec.budget.maxRounds
  reason : Going spec l ∨ l.stopped = true ∧ Left spec l

theorem Accounted.step (anchored : Anchored spec) (accounted : Accounted spec initial l)
    {events : List (Event A E)} (moved : LoopStep spec l events next) :
    Accounted spec initial next ∧ next.rounds = l.rounds + 1 := by
  obtain ⟨going, below, _⟩ := id moved
  have reason := accounted.reason.resolve_right fun left => by rw [going] at left; cases left.1
  rcases step_cases moved with ⟨why, refused, _⟩ | ⟨_, _, pass, run, _, turned⟩
  · have launched : launch (spec.job l) = (.ok {} : Except Unrunnable (Sched T A E)) :=
      launch_ok accounted.sound.acyclic accounted.sound.free
    rw [launched] at refused
    cases refused
  · have rounds : next.rounds = l.rounds + 1 := by cases turned <;> rfl
    obtain ⟨safe, told⟩ := Told.reachable run
    exact ⟨⟨accounted.sound.turned anchored (fun _ _ => told.inside safe) turned, by omega,
      reason.turned accounted.sound turned⟩, rounds⟩

theorem Accounted.reachable (anchored : Anchored spec) (acyclic : Acyclic initial)
    (free : DanglingFree initial) (positive : 1 ≤ spec.budget.dryRounds)
    {rounds : List (List (Event A E))} (path : Path (LoopStep spec) (.start initial) rounds l) :
    Accounted spec initial l :=
  path.invariant (Accounted spec initial)
    (fun _ _ _ moved accounted => (accounted.step anchored moved).1)
    ⟨.start spec acyclic free, Nat.zero_le _, .inl (.start positive)⟩

end Invariant

section Reason

/-- The reason that is given is the true one. -/
structure Truthful (spec : LoopSpec T A E) (l : Loop T A E) : Prop where
  nodeBudget : (result spec l).stoppedBecause = .nodeBudget →
    ∃ round ∈ l.history, ∃ node ∈ round.proposed, node.id ∉ round.graph.ids ∧ node.id ∉ l.graph.ids
  frontierEmpty : (result spec l).stoppedBecause = .frontierEmpty ↔ spec.discover = none
  dry : ∀ count, (result spec l).stoppedBecause = .dry count →
    spec.budget.dryRounds ≤ l.history.length ∧
      ∀ round ∈ l.history.take spec.budget.dryRounds, round.fresh = []
  roundBudget : (result spec l).stoppedBecause = .roundBudget →
    spec.discover ≠ none ∧ l.rounds = spec.budget.maxRounds ∧
      (∀ round ∈ l.history, ∀ node ∈ round.proposed, node.id ∈ l.graph.ids) ∧
      ¬ (spec.budget.dryRounds ≤ l.history.length ∧
        ∀ round ∈ l.history.take spec.budget.dryRounds, round.fresh = [])

/-- No run without discovery ends with its first round on the round budget, and of the
fresh nodes that a round cuts off not every one repeats a node that the round admits. -/
structure Honest (spec : LoopSpec T A E) (l : Loop T A E) : Prop where
  discovers : spec.discover = none → spec.budget.maxRounds ≠ 1
  cuts : ∀ round ∈ l.history, round.cut spec.budget ≠ [] →
    ∃ node ∈ round.cut spec.budget, node.id ∉ (round.kept spec.budget).map (·.id)

/-- A prefix of the history is dry exactly if it lies in its dry part. -/
theorem take_dry (history : List (Round T A E)) (count : Nat) :
    count ≤ (history.takeWhile (·.fresh.isEmpty)).length ↔
      count ≤ history.length ∧ ∀ round ∈ history.take count, round.fresh = [] := by
  induction history generalizing count with
  | nil => simp
  | cons round rest ih =>
    cases count with
    | zero => simp
    | succ count =>
      by_cases none_ : round.fresh = []
      · rw [List.takeWhile_cons_of_pos (by simp [none_])]
        simp only [List.length_cons, Nat.add_le_add_iff_right, ih, List.take_succ_cons,
          List.mem_cons,
          forall_eq_or_imp, none_, true_and]
      · rw [List.takeWhile_cons_of_neg (by simp [none_])]
        simp [none_]

theorem mem_fresh {round : Round T A E} {node : WorkNode T} :
    node ∈ round.fresh ↔ node ∈ round.proposed ∧ node.id ∉ round.graph.ids := by
  rw [Round.fresh, List.mem_filter, decide_eq_true_eq]

theorem honest_of_fits (discovers : spec.discover = none → spec.budget.maxRounds ≠ 1)
    (fits : ∀ round ∈ l.history, round.cut spec.budget = []) : Honest spec l :=
  ⟨discovers, fun round member more => absurd (fits round member) more⟩

/-- The node budget is the true reason exactly if a node was really left out. -/
theorem left_out_iff {last : Round T A E} {rest : List (Round T A E)}
    (history : l.history = last :: rest)
    (ids : ∀ id, id ∈ l.graph.ids ↔ id ∈ last.graph.ids ∨ id ∈ (last.kept spec.budget).map (·.id))
    (told : ∀ round ∈ rest, ∀ node ∈ round.proposed, node.id ∈ l.graph.ids) :
    (∃ round ∈ l.history, ∃ node ∈ round.proposed, node.id ∉ round.graph.ids ∧
      node.id ∉ l.graph.ids) ↔
      ∃ node ∈ last.cut spec.budget, node.id ∉ (last.kept spec.budget).map (·.id) := by
  constructor
  · rintro ⟨round, member, node, proposed, new, out⟩
    rw [history] at member
    rcases List.mem_cons.mp member with rfl | old
    · rw [ids, not_or] at out
      have fresh : node ∈ round.kept spec.budget ++ round.cut spec.budget := by
        rw [Round.kept, Round.cut, List.take_append_drop]
        exact mem_fresh.mpr ⟨proposed, new⟩
      rcases List.mem_append.mp fresh with kept | cut
      · exact absurd (List.mem_map_of_mem kept) out.2
      · exact ⟨node, cut, out.2⟩
    · exact absurd (told round old node proposed) out
  · rintro ⟨node, cut, out⟩
    obtain ⟨proposed, new⟩ := mem_fresh.mp (List.mem_of_mem_drop cut)
    refine ⟨last, history ▸ List.mem_cons_self, node, proposed, new, ?_⟩
    rw [ids, not_or]
    exact ⟨new, out⟩

theorem truthful_iff (accounted : Accounted spec initial l) (positive : 1 ≤ spec.budget.maxRounds)
    (ending : Over spec l) : Truthful spec l ↔ Honest spec l := by
  have rounds := accounted.sound.rounds
  rcases accounted.reason with going | ⟨_, left⟩
  · have ended : spec.budget.maxRounds ≤ l.rounds :=
      ending.resolve_left (by rw [going.going]; nofun)
    have reason : (result spec l).stoppedBecause = .roundBudget := by
      simp only [result, ended, going.reason, and_self, if_true]
    have discover : spec.discover ≠ none := by
      intro none_
      rw [going.discover none_, List.length_nil] at rounds
      omega
    refine iff_of_true ⟨?_, ?_, ?_, ?_⟩
      (honest_of_fits (fun none_ => absurd none_ discover) going.fits)
    · rw [reason]
      nofun
    · rw [reason]
      exact iff_of_false nofun discover
    · rw [reason]
      nofun
    · intro _
      refine ⟨discover, Nat.le_antisymm accounted.within ended, going.told, ?_⟩
      rw [← take_dry, ← going.dry]
      exact Nat.not_le_of_lt going.few
  · cases left with
    | frontier why none_ one fits =>
      by_cases single : spec.budget.maxRounds = 1
      · have reason : (result spec l).stoppedBecause = .roundBudget := by
          simp only [result, one, single, why, Nat.le_refl, and_self, if_true]
        refine iff_of_false (fun truthful => ?_) (fun honest => honest.discovers none_ single)
        have told := truthful.frontierEmpty.mpr none_
        rw [reason] at told
        cases told
      · have more : ¬ spec.budget.maxRounds ≤ l.rounds := by omega
        have reason : (result spec l).stoppedBecause = .frontierEmpty := by
          simp only [result, more, why, false_and, if_false]
        refine iff_of_true ⟨?_, ?_, ?_, ?_⟩ (honest_of_fits (fun _ => single) fits)
        · rw [reason]
          nofun
        · exact iff_of_true reason none_
        · rw [reason]
          nofun
        · rw [reason]
          nofun
    | dry count why some_ enough fits =>
      have reason : (result spec l).stoppedBecause = .dry count := by
        simp only [result, why, reduceCtorEq, and_false, if_false]
      refine iff_of_true ⟨?_, ?_, ?_, ?_⟩ (honest_of_fits (fun none_ => absurd none_ some_) fits)
      · rw [reason]
        nofun
      · rw [reason]
        exact iff_of_false nofun some_
      · exact fun _ _ => (take_dry l.history _).mp enough
      · rw [reason]
        nofun
    | full why some_ last rest history more ids fits told =>
      have reason : (result spec l).stoppedBecause = .nodeBudget := by
        simp only [result, why, reduceCtorEq, and_false, if_false]
      have out := left_out_iff history ids told
      constructor
      · intro truthful
        refine ⟨fun none_ => absurd none_ some_, fun round member cut => ?_⟩
        rw [history] at member
        rcases List.mem_cons.mp member with rfl | old
        · exact out.mp (truthful.nodeBudget reason)
        · exact absurd (fits round old) cut
      · intro honest
        refine ⟨fun _ => out.mpr (honest.cuts last (history ▸ List.mem_cons_self) more), ?_, ?_, ?_⟩
        · rw [reason]
          exact iff_of_false nofun some_
        · rw [reason]
          nofun
        · rw [reason]
          nofun

end Reason

/-- What a finished loop promises: its rounds, its nodes, its graph and its reason. -/
structure LoopKept (spec : LoopSpec T A E) (initial : WorkGraph T) (l : Loop T A E) : Prop where
  rounds : (result spec l).rounds ≤ spec.budget.maxRounds
  admitted : (result spec l).admitted = (result spec l).graph.ids.length
  bounded : (result spec l).admitted ≤ max initial.ids.length spec.budget.maxNodes
  free : DanglingFree (result spec l).graph
  acyclic : Acyclic (result spec l).graph
  reason : Truthful spec l

/-- The loop ends within its rounds, each of which is a run of the scheduler. Once over, it
keeps what it promises exactly if its cuts are honest. -/
theorem loop_accounts (initial : WorkGraph T) (spec : LoopSpec T A E) (acyclic : Acyclic initial)
    (free : DanglingFree initial) (maxRounds : 1 ≤ spec.budget.maxRounds)
    (dryRounds : 1 ≤ spec.budget.dryRounds) (anchored : Anchored spec)
    (rounds : List (List (Event A E))) (l : Loop T A E)
    (path : Path (LoopStep spec) (.start initial) rounds l) :
    rounds.length ≤ spec.budget.maxRounds ∧
    (Over spec l ∨ launch (spec.job l) = (.ok {} : Except Unrunnable (Sched T A E)) ∧
      ∀ events (pass : Sched T A E), Path (Step (spec.job l)) {} events pass →
        events.length ≤ 10 * l.graph.ids.length + 3 ∧
        (pass.pc = .finished ∧ LoopStep spec l events (turn spec l pass) ∨
          (∃ later, Step (spec.job l) pass .coordinate later) ∨
          ∃ fiber ∈ pass.active, ∀ result, ∃ later, Step (spec.job l) pass
            (.finish fiber.key result) later)) ∧
    (Over spec l → (LoopKept spec initial l ↔ Honest spec l)) := by
  have accounted := Accounted.reachable anchored acyclic free dryRounds path
  have sound := accounted.sound
  have launched : launch (spec.job l) = (.ok {} : Except Unrunnable (Sched T A E)) :=
    launch_ok sound.acyclic sound.free
  refine ⟨?_, ?_, fun ending => ?_⟩
  · have bound := path.length_add_le (Accounted spec initial)
      (fun _ _ _ moved accounted => (accounted.step anchored moved).1)
      (fun l => spec.budget.maxRounds - l.rounds) ?_
      ⟨.start spec acyclic free, Nat.zero_le _, .inl (.start dryRounds)⟩
    · exact (Nat.le_add_right _ _).trans (bound.trans (Nat.sub_le _ _))
    · intro a events b moved accounted
      have next := (accounted.step anchored moved).2
      have below := moved.2.1
      omega
  · by_cases ending : Over spec l
    · exact .inl ending
    · obtain ⟨going, more⟩ := not_or.mp ending
      refine .inr ⟨launched, fun events pass run => ⟨run_bounded run, ?_⟩⟩
      refine (step_possible (Safe.reachable run)).imp_left fun finished => ⟨finished, ?_⟩
      refine ⟨Bool.not_eq_true _ ▸ going, Nat.lt_of_not_le more, ?_⟩
      rw [launched]
      exact ⟨pass, run, finished, rfl⟩
  · rw [← truthful_iff accounted maxRounds ending]
    refine ⟨LoopKept.reason, fun truthful =>
      ⟨accounted.within, ?_, ?_, sound.free, sound.acyclic, truthful⟩⟩
    · exact card_seen sound
    · exact (card_seen sound).le.trans sound.size

section Sample

def seedGraph : WorkGraph Nat := .fromNodes [⟨"seed", 0, [], []⟩]

def seedSpec (discover : Option (Discovery Nat Nat String → List (WorkNode Nat)))
    (maxRounds maxNodes : Nat) :
    LoopSpec Nat Nat String :=
  ⟨discover, { maxRounds := maxRounds, maxNodes := maxNodes }, fun _ => true⟩

/-- The node is started and waited for until it ends. -/
def seedEvents (result : Except String Nat) : List (Event Nat String) :=
  [.coordinate, .coordinate, .coordinate, .coordinate, .coordinate, .coordinate, .finish 0 result,
    .coordinate, .coordinate, .coordinate, .coordinate]

theorem seed_acyclic : Acyclic seedGraph := acyclic_of_values (fun _ => 0) (by decide)

theorem seed_danglingFree : DanglingFree seedGraph := danglingEdges_nil.mp (by decide)

theorem seed_pass (result : Except String Nat) : ∃ pass,
    Path (Step (⟨seedGraph, 4, fun _ => true⟩ : Job Nat Nat)) {} (seedEvents result) pass ∧
      pass.pc = .finished ∧ pass.starts = ["seed"] ∧
      pass.outcomes.get? "seed" = some (.ofResult result) := by
  have computed : (follow (advance (⟨seedGraph, 4, fun _ => true⟩ : Job Nat Nat)) {}
      (seedEvents result)).map (fun s => (s.pc, s.starts, s.outcomes.get? "seed")) =
        some (.finished, ["seed"], some (.ofResult result)) := by
    cases result with
    | ok value => rfl
    | error error => rfl
  obtain ⟨pass, run, seen⟩ := Option.map_eq_some_iff.mp computed
  simp only [Prod.mk.injEq] at seen
  exact ⟨pass, path_iff_follow _ |>.mpr run, seen⟩

/-- A round over the single node, whatever is then discovered. -/
theorem seed_round (discover : Option (Discovery Nat Nat String → List (WorkNode Nat)))
    (maxRounds maxNodes : Nat) (l : Loop Nat Nat String) (graph : l.graph = seedGraph)
    (going : l.stopped = false) (below : l.rounds < maxRounds) (result : Except String Nat) :
    ∃ pass, LoopStep (seedSpec discover maxRounds maxNodes) l (seedEvents result)
      (turn (seedSpec discover maxRounds maxNodes) l pass) ∧
      pass.starts = ["seed"] ∧ pass.outcomes.get? "seed" = some (.ofResult result) := by
  obtain ⟨pass, run, ending, seen⟩ := seed_pass result
  refine ⟨pass, ⟨going, below, ?_⟩, seen⟩
  have job : (seedSpec discover maxRounds maxNodes).job l = ⟨seedGraph, 4, fun _ => true⟩ := by
    rw [LoopSpec.job, graph]
    rfl
  have launched : launch ((seedSpec discover maxRounds maxNodes).job l) =
      (.ok {} : Except Unrunnable (Sched Nat Nat String)) := by
    rw [job]
    exact launch_ok seed_acyclic seed_danglingFree
  rw [launched]
  exact ⟨pass, job ▸ run, ending, rfl⟩

/-- `b` depends on `a`, and `c` on nothing. -/
def forkGraph : WorkGraph Nat :=
  .fromNodes [⟨"a", 0, [], []⟩, ⟨"b", 0, ["a"], []⟩, ⟨"c", 0, [], []⟩]

/-- The end of `c` makes two nodes known. -/
def twoMore (found : Discovery Nat Nat String) : List (WorkNode Nat) :=
  if (found.outcomes.get? "c").isSome then [⟨"d", 1, ["c"], []⟩, ⟨"e", 1, ["c"], []⟩] else []

def forkSpec (maxNodes : Nat) : LoopSpec Nat Nat String :=
  ⟨some twoMore, { maxNodes := maxNodes }, fun _ => true⟩

/-- `a` and `c` are started; `a` fails, and then `c` ends. -/
def forkEvents : List (Event Nat String) :=
  List.replicate 7 .coordinate ++ [.finish 0 (.error "down"), .finish 1 (.ok 7)] ++ List.replicate
    4 .coordinate

theorem fork_acyclic : Acyclic forkGraph := acyclic_of_values
    (fun id => if id = "b" then 1 else 0) (by decide)

theorem fork_danglingFree : DanglingFree forkGraph := danglingEdges_nil.mp (by decide)

theorem fork_anchored (maxNodes : Nat) : Anchored (forkSpec maxNodes) := by
  rintro discover ⟨⟩ found known node member dep named
  simp only [twoMore] at member
  split at member
  · rename_i told
    obtain ⟨outcome, there⟩ := Option.isSome_iff_exists.mp told
    have only : dep = "c" := by
      simp only [List.mem_cons, List.not_mem_nil, or_false] at member
      rcases member with rfl | rfl <;> exact List.mem_singleton.mp named
    exact only ▸ known "c" outcome there
  · cases member

/-- The failure of `a` blocks `b`. -/
structure Forked (pass : Sched Nat Nat String) : Prop where
  starts : pass.starts = ["a", "c"]
  failed : pass.outcomes.get? "a" = some (.failed "down")
  blocked : pass.outcomes.get? "b" = some (.blocked "a")
  completed : pass.outcomes.get? "c" = some (.completed 7)

theorem fork_pass : ∃ pass, Path (Step (⟨forkGraph, 4, fun _ => true⟩ : Job Nat Nat))
    {} forkEvents pass ∧
    pass.pc = .finished ∧ Forked pass := by
  have computed : (follow (advance (⟨forkGraph, 4, fun _ => true⟩ : Job Nat Nat)) {} forkEvents).map
      (fun s => (s.pc, s.starts, s.outcomes.get? "a", s.outcomes.get? "b", s.outcomes.get? "c")) =
        some (.finished, ["a", "c"], some (.failed "down"), some (.blocked "a"),
          some (.completed 7)) := rfl
  obtain ⟨pass, run, seen⟩ := Option.map_eq_some_iff.mp computed
  simp only [Prod.mk.injEq] at seen
  obtain ⟨ending, starts, failed, blocked, completed⟩ := seen
  exact ⟨pass, path_iff_follow _ |>.mpr run, ending, starts, failed, blocked, completed⟩

/-- The round ends the loop, since the two nodes do not fit. -/
theorem fork_round (maxNodes : Nat) (few : maxNodes < 5) : ∃ pass,
    LoopStep (forkSpec maxNodes) (.start forkGraph) forkEvents
      (turn (forkSpec maxNodes) (.start forkGraph) pass) ∧
    Forked pass ∧
    (turn (forkSpec maxNodes) (.start forkGraph) pass).stopped = true ∧
    (turn (forkSpec maxNodes) (.start forkGraph) pass).history =
      [⟨forkGraph, pass, [⟨"d", 1, ["c"], []⟩, ⟨"e", 1, ["c"], []⟩]⟩] := by
  obtain ⟨pass, run, ending, forked⟩ := fork_pass
  have launched : launch ((forkSpec maxNodes).job (.start forkGraph : Loop Nat Nat String)) =
      (.ok {} : Except Unrunnable (Sched Nat Nat String)) :=
        launch_ok fork_acyclic fork_danglingFree
  have going : 0 < (forkSpec maxNodes).budget.maxRounds := Nat.zero_lt_succ 7
  refine ⟨pass, ⟨rfl, going, ?_⟩, forked, ?_⟩
  · rw [launched]
    exact ⟨pass, run, ending, rfl⟩
  · have proposed : twoMore ⟨forkGraph, pass.outcomes, 0⟩ =
        [⟨"d", 1, ["c"], []⟩, ⟨"e", 1, ["c"], []⟩] := by
      rw [twoMore, forked.completed]
      rfl
    have fresh : (twoMore ⟨forkGraph, pass.outcomes, 0⟩).filter
        (·.id ∉ (Loop.start forkGraph : Loop Nat Nat String).seen) =
        [⟨"d", 1, ["c"], []⟩, ⟨"e", 1, ["c"], []⟩] := by
      rw [proposed]
      decide
    have ended := turn_turned (forkSpec maxNodes) (.start forkGraph) pass
    generalize turn (forkSpec maxNodes) (.start forkGraph) pass = next at ended
    cases ended with
    | undiscovered none_ => cases none_
    | dry discover some_ none_ few =>
      cases some_
      cases fresh.symm.trans none_
    | converged discover some_ none_ enough =>
      cases some_
      cases fresh.symm.trans none_
    | grown discover some_ nodes given new fits =>
      cases some_
      cases given.symm.trans fresh
      have room : 2 ≤ maxNodes - 3 := fits
      omega
    | full discover some_ nodes given more =>
      cases some_
      exact ⟨rfl, by rw [← proposed]; rfl⟩

theorem loop_accounts_sample : ∃ rounds l, Path (LoopStep (forkSpec 4))
    (.start forkGraph) rounds l ∧
    Over (forkSpec 4) l ∧ LoopKept (forkSpec 4) forkGraph l := by
  obtain ⟨pass, moved, _, stopped, history⟩ := fork_round 4 (by decide)
  have path := Path.cons moved (.nil _)
  have ending : Over (forkSpec 4) (turn (forkSpec 4) (.start forkGraph) pass) := .inl stopped
  have accounts := loop_accounts forkGraph (forkSpec 4) fork_acyclic fork_danglingFree
    (by decide) (by decide)
    (fork_anchored 4) _ _ path
  refine ⟨_, _, path, ending, (accounts.2.2 ending).mpr ⟨by rintro ⟨⟩, fun round member _ => ?_⟩⟩
  rw [history, List.mem_singleton] at member
  subst member
  exact ⟨⟨"e", 1, ["c"], []⟩, List.mem_singleton_self _, fun kept =>
    absurd (List.mem_singleton.mp kept) (by decide)⟩

/-- The same node twice, with room for one. -/
def twice : Discovery Nat Nat String → List (WorkNode Nat) :=
  fun _ => [⟨"a", 1, [], []⟩, ⟨"a", 1, [], []⟩]

/-- The node budget is blamed though every proposed node was admitted, and a loop of one
round that discovers nothing blames the round budget. -/
theorem reason_may_be_untrue :
    Acyclic seedGraph ∧ DanglingFree seedGraph ∧ Anchored (seedSpec (some twice) 8 2) ∧
    (∃ rounds l, Path (LoopStep (seedSpec (some twice) 8 2)) (.start seedGraph) rounds l ∧
      Over (seedSpec (some twice) 8 2) l ∧ ¬ LoopKept (seedSpec (some twice) 8 2) seedGraph l) ∧
    ∃ rounds l, Path (LoopStep (seedSpec none 1 200)) (.start seedGraph) rounds l ∧
      Over (seedSpec none 1 200) l ∧ ¬ LoopKept (seedSpec none 1 200) seedGraph l := by
  refine ⟨seed_acyclic, seed_danglingFree, ?_, ?_, ?_⟩
  · rintro discover ⟨⟩ found _ node member dep named
    simp only [twice, List.mem_cons, List.not_mem_nil, or_false, or_self] at member
    subst member
    cases named
  · obtain ⟨pass, moved, _⟩ := seed_round (some twice) 8 2 (.start seedGraph) rfl rfl
      (by decide) (.ok 7)
    refine ⟨_, _, .cons moved (.nil _), .inl rfl, fun kept => ?_⟩
    obtain ⟨round, member, node, proposed, new, out⟩ := kept.reason.nodeBudget rfl
    cases List.mem_singleton.mp member
    have ids : (turn (seedSpec (some twice) 8 2) (.start seedGraph) pass).graph.ids =
        ["seed", "a"] := rfl
    simp only [twice, List.mem_cons, List.not_mem_nil, or_false, or_self] at proposed
    subst proposed
    rw [ids] at out
    exact out (by decide)
  · obtain ⟨pass, moved, _⟩ := seed_round none 1 200 (.start seedGraph) rfl rfl (by decide) (.ok 7)
    refine ⟨_, _, .cons moved (.nil _), .inl rfl, fun kept => ?_⟩
    have told := kept.reason.frontierEmpty.mpr rfl
    cases told

end Sample

end Metahumotonic.Agent
