import Metahumotonic.Registry.Enrich

/-! When the two back ends make the same entry of a registry document. -/
namespace Metahumotonic.Registry

open Library Placeholder

/-- Both return, and they return the same. -/
def EntriesAgree (r : Runtime) (server : Document) : Prop :=
  ∃ entry, TypeScript.enrichServer r server = some entry ∧ Python.enrichServer r server = some entry

/-- A placeholder stands where Python looks: in a value of `env`, an element of `args` or the `url`.
-/
def InRecipe (server : Document) : Prop :=
  ∃ connection, field server.members (lit "connection") = .object connection ∧
    ((∃ env, field connection (lit "env") = .object env ∧ ∃ member ∈ env,
      mentions member.2 = true) ∨
      (∃ args, field connection (lit "args") = .array args ∧ ∃ arg ∈ args, mentions arg = true) ∨
      (∃ args, field connection (lit "args") = .object args ∧ ∃ member ∈ args,
        found member.1 = true) ∨
      mentions (field connection (lit "url")) = true)

/-- Python can walk through the recipe: what is not empty has the expected type. -/
def Walkable (r : Runtime) (server : Document) : Prop :=
  ∃ connection, Python.orEmpty r (field server.members (lit "connection")) = some connection ∧
    (Python.orEmpty r (field connection (lit "env"))).isSome = true ∧
    (Python.iterated r (field connection (lit "args"))).isSome = true

/-- The authentication is declared as an object, or the recipe is one that Python can walk through,
with a placeholder where Python looks, or with none anywhere and nothing else declared. -/
def SameAuth (r : Runtime) (server : Document) : Prop :=
  (∃ member members, field server.members (lit "auth") = .object (member :: members)) ∨
    (Walkable r server ∧
      (InRecipe server ∨ (TypeScript.truthy r (field server.members (lit "auth")) = false ∧
      mentions (field server.members (lit "connection")) = false)))

/-- The capabilities are declared, or the category is no filled list or object, and no name that
objects inherit. -/
def SameCategory (server : Document) : Prop :=
  (declared (field server.members (lit "capabilities"))).isSome = true ∨
    match field server.members (lit "category") with
    | .text s => s ∉ TypeScript.inheritedNames
    | .array items => items = []
    | .object members => members = []
    | _ => True

section
variable {r : Runtime} {server : Document}

theorem found_str (r : Runtime) (v : Json) : found (Python.str r v) = mentions v := by
  cases v with
  | text s => simp [Python.str, mentions]
  | _ => exact found_write (Python.represented r) _

/-- No number is the name of a property. -/
theorem property_number {s : Text} (signs : ∀ c ∈ s, c ∈ numberSigns) :
    TypeScript.property s = none := by
  have names : ∀ name ∈ categoryCapabilities.map Prod.fst ++ TypeScript.inheritedNames, ∃ c ∈ name,
      c ∉ numberSigns := by
    decide
  have unnamed : s ∉ categoryCapabilities.map Prod.fst ++ TypeScript.inheritedNames := by
    intro listed
    obtain ⟨c, member, other⟩ := names s listed
    exact other (signs c member)
  rw [List.mem_append, not_or] at unnamed
  unfold TypeScript.property
  cases known : member? categoryCapabilities s with
  | some names => exact absurd (List.mem_map_of_mem (f := Prod.fst) (mem_of_entry known)) unnamed.1
  | none => exact if_neg unnamed.2

theorem property_text (s : Text) : TypeScript.property s =
    if s ∈ TypeScript.inheritedNames then some (.inherited s)
      else (member? categoryCapabilities s).map capabilityNames := by
  have apart : ∀ entry ∈ categoryCapabilities, entry.1 ∉ TypeScript.inheritedNames := by decide
  unfold TypeScript.property
  cases known : member? categoryCapabilities s with
  | some names => exact (if_neg (apart _ (mem_of_entry known))).symm
  | none => rfl

/-- A category that is no list, object or text has the default capabilities. -/
theorem plain_category {v : Json} {key : Text} (given : TypeScript.toText r v = some key)
    (nameless : TypeScript.property key = none) :
    (TypeScript.toText r v).bind
    (fun key => some ((TypeScript.property key).getD (capabilityNames defaultCapabilities))) =
      some (.values (defaultCapabilities.map .text)) := by
  rw [given, Option.bind_some, nameless]
  rfl

theorem sameCapabilities_iff (server : Document) :
    (∃ names, TypeScript.capabilitiesOf r server = some (.values names) ∧ Python.capabilitiesFor server = some names) ↔
      SameCategory server := by
  unfold TypeScript.capabilitiesOf Python.capabilitiesFor SameCategory
  cases declared (field server.members (lit "capabilities")) with
  | some items => exact iff_of_true ⟨items, rfl, rfl⟩ (.inl rfl)
  | none =>
    unfold field
    cases member? server.members (lit "category") with
    | none => exact iff_of_true ⟨_, rfl, rfl⟩ (.inr trivial)
    | some v =>
      simp only [Option.getD_some, Option.isSome_none, Bool.false_eq_true, false_or]
      cases v with
      | null => exact iff_of_true ⟨_, plain_category rfl rfl, rfl⟩ trivial
      | bool b => cases b <;> exact iff_of_true ⟨_, plain_category rfl rfl, rfl⟩ trivial
      | int n => exact iff_of_true ⟨_, plain_category rfl (property_number (r.jsSigns _)), rfl⟩ trivial
      | float s => exact iff_of_true ⟨_, plain_category rfl (property_number (r.jsSigns _)), rfl⟩ trivial
      | text s =>
        have given : TypeScript.toText r (.text s) = some s := rfl
        simp only [given, Option.bind_some, Option.bind_eq_bind, property_text]
        by_cases inherited : s ∈ TypeScript.inheritedNames
        · rw [if_pos inherited]
          refine iff_of_false ?_ (not_not.mpr inherited)
          rintro ⟨names, same, -⟩
          cases same
        · rw [if_neg inherited]
          cases member? categoryCapabilities s <;> exact iff_of_true ⟨_, rfl, rfl⟩ inherited
      | array items =>
        cases items with
        | nil => exact iff_of_true ⟨_, plain_category rfl rfl, rfl⟩ rfl
        | cons v rest => exact iff_of_false (by rintro ⟨names, -, failed⟩; cases failed) (by rintro ⟨⟩)
      | object members =>
        cases members with
        | nil => exact iff_of_true ⟨_, plain_category rfl rfl, rfl⟩ rfl
        | cons member rest => exact iff_of_false (by rintro ⟨names, -, failed⟩; cases failed) (by rintro ⟨⟩)

theorem mentions_array {items : List Json} {v : Json} (member : v ∈ items)
    (there : mentions v = true) :
    mentions (.array items) = true := by
  rw [mentions, Bool.not_eq_true', Bool.eq_false_iff, ne_eq, Json.all_array]
  intro all
  rw [mentions, all v member] at there
  cases there

theorem mentions_object {members : Members} {k : Text} {v : Json} (member : (k, v) ∈ members)
    (there : found k = true ∨ mentions v = true) : mentions (.object members) = true := by
  rw [mentions, Bool.not_eq_true', Bool.eq_false_iff, ne_eq, Json.all_object]
  intro all
  obtain ⟨name, value⟩ := all k v member
  rcases there with there | there
  · rw [there] at name
    cases name
  · rw [mentions, value] at there
    cases there

theorem mentions_field {members : Members} {k : Text} (there : mentions (field members k) = true) :
    mentions (.object members) = true := by
  unfold field at there
  cases found_ : member? members k with
  | none =>
    rw [found_] at there
    cases there
  | some v =>
    rw [found_] at there
    exact mentions_object (mem_of_entry found_) (.inr there)

/-- What Python looks at is part of what JavaScript writes out. -/
theorem mentions_of_inRecipe (recipe : InRecipe server) :
    mentions (field server.members (lit "connection")) = true := by
  obtain ⟨connection, given, places⟩ := recipe
  rw [given]
  rcases places with ⟨env, isEnv, member, inside, there⟩ | ⟨args, isArgs, arg, inside, there⟩ |
    ⟨args, isArgs, member, inside, there⟩ | url
  · exact mentions_field (k := lit "env") (isEnv ▸ mentions_object inside (.inr there))
  · exact mentions_field (k := lit "args") (isArgs ▸ mentions_array inside there)
  · exact mentions_field (k := lit "args") (isArgs ▸ mentions_object inside (.inl there))
  · exact mentions_field url

theorem found_single (c : ℕ) : found [c] = false := by
  by_cases open_ : c = 60
  · subst open_
    rfl
  · rw [found, starts_of_ne open_]
    rfl

/-- What counts as false mentions nothing. -/
theorem truthy_mentions (r : Runtime) (v : Json) :
    (Python.truthy r v && mentions v) = mentions v := by
  cases v with
  | text s =>
    cases s with
    | nil => rfl
    | cons c rest => rfl
  | array items =>
    cases items with
    | nil => rfl
    | cons v rest => rfl
  | object members =>
    cases members with
    | nil => rfl
    | cons member rest => rfl
  | _ => simp [mentions]

/-- What `_placeholder_names` finds in a recipe that it can walk through. -/
theorem requires_iff {connection env : Members} {args : List Json}
    (isEnv : Python.orEmpty r (field connection (lit "env")) = some env)
    (isArgs : Python.iterated r (field connection (lit "args")) = some args) :
    ∃ names, Python.requires r connection = some names ∧ (names = true ↔
      (∃ member ∈ env, mentions member.2 = true) ∨ (∃ arg ∈ args, mentions arg = true) ∨
        mentions (field connection (lit "url")) = true) := by
  refine ⟨_, by rw [Python.requires, isEnv, isArgs]; rfl, ?_⟩
  simp only [Bool.or_eq_true, List.any_eq_true, found_str, truthy_mentions, or_assoc]

theorem orEmpty_cases {v : Json} {members : Members} (walked : Python.orEmpty r v = some members) :
    v = .object members ∨ ((∀ other, v ≠ .object other) ∧ members = []) := by
  unfold Python.orEmpty at walked
  split at walked
  · exact .inl (congrArg Json.object (Option.some.inj walked))
  · rename_i other
    split at walked
    · cases walked
    · exact .inr ⟨other, (Option.some.inj walked).symm⟩

theorem env_iff {v : Json} {env : Members} (walked : Python.orEmpty r v = some env) :
    (∃ member ∈ env, mentions member.2 = true) ↔ ∃ env, v = .object env ∧ ∃ member ∈ env,
      mentions member.2 = true := by
  rcases orEmpty_cases walked with rfl | ⟨other, rfl⟩
  · constructor
    · exact fun there => ⟨env, rfl, there⟩
    · rintro ⟨env, ⟨⟩, there⟩
      exact there
  · refine iff_of_false (by simp) ?_
    rintro ⟨env, same, -⟩
    exact other env same

theorem args_iff {v : Json} {args : List Json} (walked : Python.iterated r v = some args) :
    (∃ arg ∈ args, mentions arg = true) ↔
    (∃ args, v = .array args ∧ ∃ arg ∈ args, mentions arg = true) ∨
      ∃ args, v = .object args ∧ ∃ member ∈ args, found member.1 = true := by
  have text : ∀ s, mentions (.text s) = found s := fun s => by simp [mentions]
  cases v with
  | array items =>
    cases walked
    simp
  | object members =>
    cases walked
    simp [text]
  | text s =>
    cases walked
    simp [text, found_single]
  | _ =>
    simp only [Python.iterated] at walked
    split at walked
    · cases walked
    · cases walked
      simp

theorem recipe_iff {connection env : Members} {args : List Json}
    (isConnection : Python.orEmpty r (field server.members (lit "connection")) = some connection)
    (isEnv : Python.orEmpty r (field connection (lit "env")) = some env)
    (isArgs : Python.iterated r (field connection (lit "args")) = some args) :
    ((∃ member ∈ env, mentions member.2 = true) ∨ (∃ arg ∈ args, mentions arg = true) ∨
      mentions (field connection (lit "url")) = true) ↔ InRecipe server := by
  rw [env_iff isEnv, args_iff isArgs, or_assoc]
  rcases orEmpty_cases isConnection with given | ⟨other, rfl⟩
  · constructor
    · exact fun places => ⟨connection, given, places⟩
    · rintro ⟨connection', given', places⟩
      rw [given] at given'
      cases given'
      exact places
  · constructor
    · have nothing : ∀ k, field [] k = .null := fun _ => rfl
      simp [nothing, mentions]
    · rintro ⟨connection, given, -⟩
      exact absurd given (other connection)

theorem hasOperatorCredential_eq (r : Runtime) (connection : Json) :
    found ((TypeScript.stringify r).write (if isNull connection then .object [] else connection)) =
      mentions connection := by
  rw [found_write]
  cases connection <;> rfl

theorem sameAuth_iff (server : Document) :
    Python.authFor r server = some (TypeScript.authTypeOf r server) ↔ SameAuth r server := by
  unfold SameAuth Python.authFor TypeScript.authTypeOf
  dsimp only
  rw [hasOperatorCredential_eq]
  have loose : ∀ auth : Json, (∀ member members, auth ≠ .object (member :: members)) →
      hasType auth (lit "none") = false := by
    intro auth other
    cases auth with
    | object members =>
      cases members with
      | nil => rfl
      | cons member rest => exact absurd rfl (other member rest)
    | _ => rfl
  by_cases filled : ∃ member members, field server.members (lit "auth") = .object
    (member :: members)
  · refine iff_of_true ?_ (.inl filled)
    obtain ⟨member, members, given⟩ := filled
    rw [given]
    cases hasType (.object (member :: members)) (lit "none") <;> rfl
  · rw [or_iff_right filled]
    have other : ∀ member members, field server.members (lit "auth") ≠ .object
        (member :: members) :=
      fun member members given => filled ⟨member, members, given⟩
    rw [loose _ other, Bool.and_false, if_neg Bool.false_ne_true, if_neg Bool.false_ne_true]
    have differ : lit "operator-managed" ≠ lit "none" := by decide
    split
    · rename_i member members given
      exact absurd given (other member members)
    · by_cases walkable : Walkable r server
      · rw [and_iff_right walkable]
        obtain ⟨connection, isConnection, isEnv, isArgs⟩ := walkable
        obtain ⟨env, isEnv⟩ := Option.isSome_iff_exists.mp isEnv
        obtain ⟨args, isArgs⟩ := Option.isSome_iff_exists.mp isArgs
        obtain ⟨names, required, named⟩ := requires_iff isEnv isArgs
        rw [recipe_iff isConnection isEnv isArgs] at named
        have wider : InRecipe server → mentions (field server.members (lit "connection")) = true :=
          mentions_of_inRecipe
        simp only [isConnection, required, Option.bind_eq_bind, Option.bind_some,
          Option.some.injEq, ← named]
        rw [← named] at wider
        cases names with
        | true => simp [wider rfl]
        | false =>
          cases TypeScript.truthy r (field server.members (lit "auth")) <;>
            cases mentions (field server.members (lit "connection")) <;> simp [differ.symm]
      · refine iff_of_false ?_ fun both => walkable both.1
        intro returned
        simp only [Option.bind_eq_bind, Option.bind_eq_some_iff] at returned
        obtain ⟨connection, isConnection, names, required, -⟩ := returned
        simp only [Python.requires, Option.bind_eq_bind, Option.bind_eq_some_iff] at required
        obtain ⟨env, isEnv, args, isArgs, -⟩ := required
        exact walkable ⟨connection, isConnection, Option.isSome_iff_exists.mpr ⟨env, isEnv⟩,
          Option.isSome_iff_exists.mpr ⟨args, isArgs⟩⟩

/-- The entries agree exactly where the authentication and the capabilities are found alike. -/
theorem entries_agree_iff (r : Runtime) (server : Document) :
    EntriesAgree r server ↔ SameAuth r server ∧ SameCategory server := by
  rw [← sameAuth_iff, ← sameCapabilities_iff (r := r)]
  unfold EntriesAgree TypeScript.enrichServer Python.enrichServer
  constructor
  · rintro ⟨entry, typescript, python⟩
    simp only [Option.bind_eq_bind, Option.bind_eq_some_iff] at typescript python
    obtain ⟨capabilities, found_, ⟨⟩⟩ := typescript
    obtain ⟨names, listed, auth, given, same⟩ := python
    have fields := Option.some.inj same
    have auth : auth = TypeScript.authTypeOf r server := congrArg Enriched.authType fields
    have values : .values names = capabilities := congrArg Enriched.capabilities fields
    exact ⟨auth ▸ given, names, values ▸ found_, listed⟩
  · rintro ⟨auth, names, found_, listed⟩
    refine ⟨_, by rw [found_]; rfl, ?_⟩
    rw [listed, auth]
    rfl

end

/-- A recipe whose placeholder stands in the command. -/
def commandServer : Document where
  members := [(lit "name", .text (lit "graph")), (lit "category", .text (lit "graph")),
    (lit "connection", .object [(lit "command", .text (lit "mcp-graph --token <GRAPH_TOKEN>"))])]
  named := by
    rintro v ⟨⟩
    exact ⟨_, rfl⟩

/-- A runtime, for documents without numbers. -/
def plainRuntime : Runtime where
  jsNumber _ := lit "0"
  pyNumber _ := lit "0"
  nonzero _ := false
  printable _ := false
  jsSigns _ := by decide
  pySigns _ := by decide

/-- JavaScript finds the placeholder, Python does not look there. -/
theorem command_placeholder_missed : ¬ EntriesAgree plainRuntime commandServer := by
  rintro ⟨entry, typescript, python⟩
  have managed : entry.authType = lit "operator-managed" := by
    rw [← congrArg Enriched.authType (Option.some.inj typescript)]
    decide
  have open_ : entry.authType = lit "none" := by
    rw [← congrArg Enriched.authType (Option.some.inj python)]
    rfl
  rw [managed] at open_
  exact absurd open_ (by decide)

end Metahumotonic.Registry
