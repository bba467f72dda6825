import Metahumotonic.Kg.Parameters

/-! Which parameters come back from the Cypher proxy as they were sent. A document with a
member `properties` is read as a node of the graph, and no document is what its own
`properties` are decoded to. -/
namespace Metahumotonic.Kg.Parameters

open Library

/-- One document inside another, by way of members named `properties`. -/
inductive Below (a : Json) : Json → Prop
  | here {members : Members} (member : (lit "properties", a) ∈ members) : Below a (.object members)
  | deeper {p : Json} {members : Members} (inside : Below a p)
    (member : (lit "properties", p) ∈ members) :
      Below a (.object members)

theorem Below.child {members : Members} {p b : Json} (inside : Below (.object members) b)
    (member : (lit "properties", p) ∈ members) : Below p b := by
  induction inside with
  | here there => exact .deeper (.here member) there
  | deeper _ there ih => exact .deeper ih there

theorem Below.object {a b : Json} (inside : Below a b) :
    ∃ members p, b = .object members ∧ (lit "properties", p) ∈ members ∧ (a = p ∨ Below a p) := by
  cases inside with
  | here member => exact ⟨_, a, rfl, member, .inl rfl⟩
  | deeper inside member => exact ⟨_, _, rfl, member, .inr inside⟩

theorem mem_of_same {members others : Members} (same : Json.Same (.object others) (.object members))
    {k : Text} {v : Json} (member : (k, v) ∈ members) : ∃ w, (k, w) ∈ others ∧ Json.Same w v := by
  obtain ⟨_, shape, perm⟩ := Json.same_object same
  cases shape
  have there := perm.mem_iff.mpr (List.mem_map_of_mem member)
  obtain ⟨⟨j, w⟩, found, alike⟩ := List.mem_map.mp there
  obtain ⟨rfl, forms⟩ := Prod.mk.inj alike
  exact ⟨w, found, forms⟩

theorem not_indexed {items : List Json} {q : Json} : (lit "properties", q) ∉ indexed items := by
  intro member
  obtain ⟨⟨v, i⟩, _, same⟩ := List.mem_map.mp member
  have name : Json.decimal i = lit "properties" := congrArg Prod.fst same
  have digit := Json.decimal_digits i 112 (name ▸ by decide)
  exact absurd digit (by decide)

namespace Driver

variable {I : Type} {driver : Driver I}

theorem properties_of_entries {p q : Json} {es : Members} (distinct : p.distinct = true)
    (entries : driver.scalarEntries (driver.coerceParams p) = some es)
    (member : (lit "properties", q) ∈ es) :
    ∃ inner a, p = .object inner ∧ (lit "properties", a) ∈ inner ∧ driver.Returns a q := by
  cases p with
  | object inner =>
    rw [coerce_object (Json.distinct_object.mp distinct).1, scalarEntries,
      scalarMembers_coerce] at entries
    obtain ⟨⟨k, a⟩, there, rfl, returned⟩ := partner_of_mem entries member
    exact ⟨inner, a, rfl, there, returned⟩
  | array items =>
    rw [coerceParams, scalarEntries] at entries
    obtain ⟨vs, _, rfl⟩ := Option.map_eq_some_iff.mp entries
    exact absurd member not_indexed
  | text s =>
    cases entries
    exact absurd member not_indexed
  | int n =>
    cases entries
    simp only [List.mem_cons, Prod.mk.injEq, List.not_mem_nil, or_false] at member
    rcases member with ⟨low, _⟩ | ⟨high, _⟩
    · exact absurd low (by decide)
    · exact absurd high (by decide)
  | null => cases entries
  | bool b =>
    cases entries
    cases member
  | float literal =>
    cases entries
    cases member

/-- An object that comes back with `properties` was read from the `properties` of its `properties`.
-/
theorem returns_properties {a q : Json} {others : Members} (distinct : a.distinct = true)
    (returned : driver.Returns a (.object others)) (member : (lit "properties", q) ∈ others) :
    ∃ members inner p, a = .object members ∧ (lit "properties", .object inner) ∈ members ∧
      (lit "properties", p) ∈ inner ∧ driver.Returns p q := by
  cases a with
  | object members =>
    obtain ⟨names, inside⟩ := Json.distinct_object.mp distinct
    obtain ⟨_, decoded⟩ := returns_object names returned
    cases decoded with
    | properties p es there entries =>
      obtain ⟨inner, c, rfl, below, back⟩ :=
        properties_of_entries (inside _ _ there) entries (mem_fromEntries member)
      exact ⟨members, inner, c, rfl, there, below, back⟩
    | memberwise absent _ _ each =>
      obtain ⟨⟨k, c⟩, there, rfl, _⟩ := partner_of_mem each member
      rw [hasKey_iff.mpr ⟨c, there⟩] at absent
      cases absent
  | array items =>
    obtain ⟨ws, _, shape⟩ := returns_array.mp returned
    cases shape
  | int n =>
    unfold Returns at returned
    rw [coerceParams, toJsonScalar] at returned
    split at returned <;> cases returned
  | _ => cases returned

/-- What comes back for a document is never a document that this one is a `properties` part of. -/
theorem not_below {a : Json} (distinct : a.distinct = true) {q b : Json}
    (returned : driver.Returns a q)
    (same : Json.Same q b) : ¬ Below a b := by
  -- the step goes two levels down, so the claim is carried for the parts of a document as well
  have both : (∀ q b, a.distinct = true → driver.Returns a q → Json.Same q b → ¬ Below a b) ∧
      ∀ members p, a = .object members → (lit "properties", p) ∈ members →
        ∀ q b, p.distinct = true → driver.Returns p q → Json.Same q b → ¬ Below p b := by
    clear distinct returned same
    induction a using Json.induct with
    | object members ih =>
      refine ⟨?_, ?_⟩
      · intro q b distinct returned same below
        obtain ⟨outer, c, rfl, there, inside⟩ := below.object
        obtain ⟨others, rfl, _⟩ := Json.same_object same.symm
        obtain ⟨d, found, alike⟩ := mem_of_same same there
        obtain ⟨_, inner, p, shape, first, second, back⟩ :=
          returns_properties distinct returned found
        cases shape
        have deep : Below p c := by
          rcases inside with rfl | inside
          · exact .deeper (.here second) first
          · exact (inside.child first).child second
        have whole := (Json.distinct_object.mp distinct).2 _ _ first
        exact (ih _ first).2 inner p rfl second d c ((Json.distinct_object.mp whole).2 _ _ second)
          back alike deep
      · rintro _ p ⟨⟩ member
        exact (ih _ member).1
    | _ =>
      refine ⟨?_, fun _ _ shape => by cases shape⟩
      intro q b distinct returned same below
      obtain ⟨outer, c, rfl, there, _⟩ := below.object
      obtain ⟨others, rfl, _⟩ := Json.same_object same.symm
      obtain ⟨d, found, _⟩ := mem_of_same same there
      obtain ⟨_, _, _, shape, _⟩ := returns_properties distinct returned found
      cases shape
  exact both.1 q b distinct returned same

/-- A document comes back the same only when it is plain and its integers are safe. -/
theorem plain_of_same (documented : driver.Documented) {v w : Json} (distinct : v.distinct = true)
    (range : v.numbers within64 (fun _ => true) = true) (returned : driver.Returns v w)
    (same : Json.Same w v) :
    driver.plain v = true ∧ v.numbers safe (fun _ => true) = true := by
  induction v using Json.induct generalizing w with
  | int n =>
    refine ⟨rfl, ?_⟩
    unfold Returns at returned
    rw [coerceParams, toJsonScalar, documented.inSafeRange n range] at returned
    split at returned
    · rename_i small
      exact small
    · cases returned
      cases Json.same_text same
  | array items ih =>
    obtain ⟨ws, each, rfl⟩ := returns_array.mp returned
    obtain ⟨_, shape, forms⟩ := Json.same_array same
    cases shape
    have parts : ∀ v ∈ items, ∃ w, driver.Returns v w ∧ Json.Same w v := by
      clear returned same ih distinct range
      induction each with
      | nil => exact fun v member => absurd member List.not_mem_nil
      | cons here _ ih =>
        rw [List.map_cons, List.map_cons, List.cons.injEq] at forms
        intro v member
        rcases List.mem_cons.mp member with rfl | later
        · exact ⟨_, here, forms.1.symm⟩
        · exact ih forms.2 v later
    have whole : ∀ v ∈ items, driver.plain v = true ∧ v.numbers safe (fun _ => true) = true := by
      intro v member
      obtain ⟨w, back, alike⟩ := parts v member
      exact ih v member (Json.distinct_array.mp distinct v member)
        (Json.numbers_array.mp range v member) back alike
    exact ⟨plain_array.mpr fun v member => (whole v member).1,
      Json.numbers_array.mpr fun v member => (whole v member).2⟩
  | object members ih =>
    obtain ⟨names, inside⟩ := Json.distinct_object.mp distinct
    obtain ⟨other, decoded⟩ := returns_object names returned
    cases decoded with
    | properties p es there entries =>
      obtain ⟨q, found, alike⟩ := mem_of_same same there
      obtain ⟨inner, c, rfl, below, back⟩ :=
        properties_of_entries (inside _ _ there) entries (mem_fromEntries found)
      have whole := (Json.distinct_object.mp (inside _ _ there)).2 _ _ below
      exact absurd (.here below) (not_below whole back alike)
    | asText => cases Json.same_text same
    | memberwise absent own ws each =>
      have whole : ∀ m ∈ members, driver.plain m.2 = true ∧
          m.2.numbers safe (fun _ => true) = true := by
        intro m member
        obtain ⟨w, found, alike⟩ := mem_of_same same member
        obtain ⟨⟨k, v⟩, there, name, back⟩ := partner_of_mem each found
        obtain rfl : k = m.1 := name
        obtain rfl : v = m.2 := Option.some.inj
          ((entry_of_mem names there).symm.trans (entry_of_mem names member))
        exact ih m member (inside _ _ member) (Json.numbers_object.mp range _ _ member) back alike
      refine ⟨?_, Json.numbers_object.mpr fun k v member => (whole _ member).2⟩
      rw [Driver.plain, fromEntries_distinct (coerceMembers_names members ▸ names)]
      simp only [Bool.and_eq_true, Bool.not_eq_true']
      exact ⟨⟨⟨other, absent⟩, own⟩, plainMembers_iff.mpr fun m member => (whole m member).1⟩
  | _ => exact ⟨rfl, rfl⟩

variable {server : Server I}

theorem run_echo (echoes : Echoes server) (v w : Json) :
    driver.run server (lit "RETURN $p AS p") [(lit "p", v)] .read = some [[(lit "p", w)]] ↔
      driver.Returns v w := by
  have bound : fromEntries (driver.coerceMembers [(lit "p", v)]) =
      [(lit "p", driver.coerceParams v)] := rfl
  unfold run execute Returns
  rw [bound, echoes, Option.bind_some]
  cases back : driver.toJsonScalar (driver.coerceParams v) with
  | none => simp [scalarMembers, back]
  | some u => simp [scalarMembers, back, fromEntries, setEntry]

/-- A plain document comes back from the proxy flattened, and as it was when its integers are safe.
-/
theorem plain_parameters_return (driver : Driver I) (server : Server I)
    (documented : driver.Documented)
    (echoes : Echoes server) (v : Json) (distinct : v.distinct = true)
    (range : v.numbers within64 (fun _ => true) = true) (plain : driver.plain v = true) :
    driver.run server (lit "RETURN $p AS p") [(lit "p", v)] .read =
      some [[(lit "p", flattened v)]] ∧
      (flattened v = v ↔ v.numbers safe (fun _ => true) = true) := by
  refine ⟨?_, flattened_eq_self⟩
  exact (run_echo echoes v (flattened v)).mpr (returns_flattened documented distinct range plain)

/-- Which documents the proxy returns as they were, whatever the order of members. -/
theorem parameters_survive_iff (driver : Driver I) (server : Server I)
    (documented : driver.Documented)
    (echoes : Echoes server) (v : Json) (distinct : v.distinct = true)
    (range : v.numbers within64 (fun _ => true) = true) :
    (∃ w, driver.run server (lit "RETURN $p AS p") [(lit "p", v)] .read = some [[(lit "p", w)]] ∧
      Json.Same w v) ↔
      driver.plain v = true ∧ v.numbers safe (fun _ => true) = true := by
  constructor
  · rintro ⟨w, returned, same⟩
    exact plain_of_same documented distinct range ((run_echo echoes v w).mp returned) same
  · rintro ⟨plain, small⟩
    have returned := returns_flattened documented distinct range plain
    rw [flattened_eq_self.mpr small] at returned
    exact ⟨v, (run_echo echoes v v).mpr returned, Json.Same.refl v⟩

end Driver

/-- Integers of 64 bits in two halves, and the mark by which `isInt` knows them. -/
def neo4j : Driver ℤ where
  int n := n
  inSafeRange := safe
  toNumber n := n
  toString := Json.writeInt
  low n := if n % 4294967296 < 2147483648 then n % 4294967296 else n % 4294967296 - 4294967296
  high n := n / 4294967296
  isInt members :=
    match member? members (lit "__isInteger__") with
    | some (.bool true) => true
    | _ => false

def echo : Driver.Server ℤ := fun query params _ =>
  if query = lit "RETURN $p AS p"
    then some [[(lit "p", (member? params (lit "p")).getD .null)]] else none

theorem neo4j_documented : neo4j.Documented where
  inSafeRange _ _ := rfl
  toNumber _ _ := rfl
  toString _ _ := rfl

theorem echo_echoes : Driver.Echoes echo := fun _ => rfl

theorem plain_parameters_return_sample :
    neo4j.run echo (lit "RETURN $p AS p")
        [(lit "p", .object
          [(lit "id", .int 9007199254740992), (lit "at", .array [.int 1, .float (lit "0.5")])])]
        .read =
      some [[(lit "p", .object [(lit "id", .text (lit "9007199254740992")),
        (lit "at", .array [.int 1, .float (lit "0.5")])])]] :=
  (Driver.plain_parameters_return neo4j echo neo4j_documented echo_echoes _ (by decide) (by decide)
    (by decide)).1

/-- An integer beyond 53 bits comes back as text, and a map with the key `properties` as what lies
there. -/
theorem unsafe_integer_altered :
    ¬ (neo4j.run echo (lit "RETURN $p AS p") [(lit "p", .int 9007199254740992)] .read =
        some [[(lit "p", .int 9007199254740992)]]) ∧
      ¬ (neo4j.run echo (lit "RETURN $p AS p")
        [(lit "p", .object [(lit "properties", .object [])])] .read =
        some [[(lit "p", .object [(lit "properties", .object [])])]]) := by
  constructor
  · have text : neo4j.run echo (lit "RETURN $p AS p") [(lit "p", .int 9007199254740992)] .read =
        some [[(lit "p", .text (lit "9007199254740992"))]] := rfl
    rw [text]
    simp
  · have inner : neo4j.run echo (lit "RETURN $p AS p")
        [(lit "p", .object [(lit "properties", .object [])])] .read =
        some [[(lit "p", .object [])]] := rfl
    rw [inner]
    simp

end Metahumotonic.Kg.Parameters
