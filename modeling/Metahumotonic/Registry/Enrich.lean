import Metahumotonic.Library.Placeholder

/-! The entries of the registry in both back ends: `enrichServer` of `ports/McpRegistry.ts` and
`enrich_server` of `app/mcp_manifest.py`. A document is a JSON object, as the store gives it. -/
namespace Metahumotonic.Registry

open Library Placeholder

/-- A registry document; its name is a string if it is present. -/
structure Document where
  members : Members
  named : ∀ v, member? members (lit "name") = some v → ∃ s, v = .text s

/-- Digits, signs, point and exponent, and the letters of `Infinity`, `NaN`, `inf` and `nan`. -/
def numberSigns : Text := lit "0123456789+-.eInfityNa"

/-- What the runtimes make of a number literal, and which further characters Python prints. -/
structure Runtime where
  jsNumber : Text → Text
  pyNumber : Text → Text
  nonzero : Text → Bool
  printable : ℕ → Bool
  jsSigns : ∀ s, ∀ c ∈ jsNumber s, c ∈ numberSigns
  pySigns : ∀ s, ∀ c ∈ pyNumber s, c ∈ numberSigns

def SITE : Text := lit "https://metahumotonic.com"

def publicServerFields : List Text :=
  [lit "name", lit "description", lit "category", lit "transport", lit "status", lit "verified_at",
    lit "last_probe_at"]

/-- The same table stands in both sources. -/
def categoryCapabilities : List (Text × List Text) :=
  [(lit "graph", [lit "cypher.read", lit "cypher.write", lit "schema.inspect"]),
    (lit "vector", [lit "kv.crud", lit "vector.search", lit "json.document", lit "streams",
      lit "pubsub"]),
    (lit "document", [lit "document.crud", lit "query", lit "aggregation", lit "index.admin"]),
    (lit "storage", [lit "bucket.admin", lit "object.read", lit "object.write",
      lit "presigned-url"]),
    (lit "utility", [lit "tools"])]

def defaultCapabilities : List Text := [lit "tools"]

/-- A list of capabilities, or what an object has under a name without having it as its own. -/
inductive Capabilities where
  | values (items : List Json)
  | inherited (name : Text)

structure Enriched where
  id : Text
  publicServer : Members
  capabilities : Capabilities
  capabilitiesSource : Text
  authType : Text

def capabilityNames (names : List Text) : Capabilities := .values (names.map .text)

/-- A list that is not empty. -/
def declared : Json → Option (List Json)
  | .array (v :: rest) => some (v :: rest)
  | _ => none

def isNamed (v : Json) (s : Text) : Bool :=
  match v with
  | .text t => t == s
  | _ => false

def isNull : Json → Bool
  | .null => true
  | _ => false

/-- An object whose `type` is the given one. -/
def hasType (v : Json) (name : Text) : Bool :=
  match v with
  | .object members => isNamed (field members (lit "type")) name
  | _ => false

theorem hex4_closed (n : ℕ) : ∀ c ∈ Json.hex4 n, c ≠ 60 := by
  have digit : ∀ k < 16, Json.hexDigit k ≠ 60 := by decide
  simp only [Json.hex4, List.forall_mem_cons]
  exact ⟨digit _ (Nat.mod_lt _ (by decide)), digit _ (Nat.mod_lt _ (by decide)),
    digit _ (Nat.mod_lt _ (by decide)),
    digit _ (Nat.mod_lt _ (by decide)), List.forall_mem_nil _⟩

theorem signs_closed : ∀ c ∈ numberSigns, c ≠ 60 := by decide

def idOf (server : Document) : Text :=
  SITE ++ lit "/api/mcp/servers/" ++
    match member? server.members (lit "name") with
    | some (.text name) => name
    | _ => []

/-! ### TypeScript -/

namespace TypeScript

/-- `JSON.stringify` of one character. -/
def escape (c : ℕ) : Text :=
  match member? Json.shortEscapes c with
  | some k => [92, k]
  | none => if c < 32 ∨ (0xD800 ≤ c ∧ c < 0xE000) then Json.unicodeEscape c else [c]

/-- The names that every object inherits. -/
def inheritedNames : List Text :=
  [lit "constructor", lit "__defineGetter__", lit "__defineSetter__", lit "hasOwnProperty",
    lit "__lookupGetter__", lit "__lookupSetter__", lit "isPrototypeOf", lit "propertyIsEnumerable",
    lit "toString", lit "valueOf", lit "__proto__", lit "toLocaleString"]

def property (name : Text) : Option Capabilities :=
  match member? categoryCapabilities name with
  | some names => some (capabilityNames names)
  | none => if name ∈ inheritedNames then some (.inherited name) else none

variable (r : Runtime)

def truthy : Json → Bool
  | .null => false
  | .bool b => b
  | .int n => n != 0
  | .float s => r.nonzero s
  | .text s => s != []
  | .array _ => true
  | .object _ => true

mutual
/-- `String(v)`. An object with a `toString` of its own, which is no function, cannot be converted.
-/
def toText : Json → Option Text
  | .null => some (lit "null")
  | .bool b => some (if b then lit "true" else lit "false")
  | .int n => some (r.jsNumber (Json.writeInt n))
  | .float s => some (r.jsNumber s)
  | .text s => some s
  | .array items => joined true items
  | .object members => if hasName members (lit "toString") then none
    else some (lit "[object Object]")
/-- The elements with commas between them; null is left empty. -/
def joined (first : Bool) : List Json → Option Text
  | [] => some []
  | v :: rest => do
    let here ← if isNull v then some [] else toText v
    let later ← joined false rest
    some ((if first then [] else [44]) ++ here ++ later)
end

theorem escape_escapes : Escapes escape where
  kept c inside := by
    have ascii : ∀ c < 128, foreign c = false → escape c = [c] := by decide
    have small : c < 128 := by
      by_contra big
      have outside : foreign c = true := by
        simp [foreign, word]
        omega
      rw [outside] at inside
      cases inside
    exact ascii c small inside
  other c outside := by
    unfold escape
    cases short : member? Json.shortEscapes c with
    | some k =>
      refine ⟨92, [k], rfl, rfl, ?_⟩
      have keys : ∀ entry ∈ Json.shortEscapes, entry.2 ≠ 60 := by decide
      exact List.forall_mem_singleton.mpr (keys _ (mem_of_entry short))
    | none =>
      dsimp only
      split
      · exact ⟨92, 117 :: Json.hex4 c, rfl, rfl, List.forall_mem_cons.mpr
          ⟨by decide, hex4_closed c⟩⟩
      · exact ⟨c, [], rfl, outside, List.forall_mem_nil _⟩

theorem numbers_closed (s : Text) : ∀ c ∈ if r.jsNumber s = lit "Infinity" ∨
    r.jsNumber s = lit "-Infinity" then
    lit "null" else r.jsNumber s, c ≠ 60 := by
  intro c member
  split at member
  · have closed : ∀ c ∈ lit "null", c ≠ 60 := by decide
    exact closed c member
  · exact signs_closed c (r.jsSigns s c member)

def wordOf : Option Bool → Text
  | none => lit "null"
  | some true => lit "true"
  | some false => lit "false"

/-- `JSON.stringify`. -/
def stringify : Style where
  word := wordOf
  -- an infinity is written as null
  number s := if r.jsNumber s = lit "Infinity" ∨ r.jsNumber s = lit "-Infinity" then lit "null"
    else r.jsNumber s
  quote s := 34 :: (s.flatMap escape ++ [34])
  comma := [44]
  colon := [58]
  words := by rintro (_ | _ | _) <;> decide
  numbers := numbers_closed r
  quotes s := ⟨34, s.flatMap escape, rfl, rfl, found_flatMap escape_escapes s⟩
  commas := by decide
  colons := by decide

def capabilitiesOf (server : Document) : Option Capabilities :=
  match declared (field server.members (lit "capabilities")) with
  | some items => some (.values items)
  | none => do
    let key ← match member? server.members (lit "category") with
      | none => some (lit "undefined")
      | some v => toText r v
    some ((property key).getD (capabilityNames defaultCapabilities))

def authTypeOf (server : Document) : Text :=
  let connection := if isNull (field server.members (lit "connection")) then .object []
    else field server.members (lit "connection")
  let hasOperatorCredential := found ((stringify r).write connection)
  let explicitAuth := field server.members (lit "auth")
  if truthy r explicitAuth && hasType explicitAuth (lit "none") then lit "none"
  else if truthy r explicitAuth || hasOperatorCredential then lit "operator-managed"
  else lit "none"

def enrichServer (server : Document) : Option Enriched := do
  let capabilities ← capabilitiesOf r server
  some {
    id := idOf server
    publicServer := copyKeys publicServerFields server.members
    capabilities := capabilities
    capabilitiesSource := if (declared (field server.members (lit "capabilities"))).isSome
      then lit "declared"
      else lit "category-inferred"
    authType := authTypeOf r server }

end TypeScript

/-! ### Python -/

namespace Python

variable (r : Runtime)

def truthy : Json → Bool
  | .null => false
  | .bool b => b
  | .int n => n != 0
  | .float s => r.nonzero s
  | .text s => s != []
  | .array items => !items.isEmpty
  | .object members => !members.isEmpty

def hexPair (n : ℕ) : Text := [Json.hexDigit (n / 16 % 16), Json.hexDigit (n % 16)]

/-- One character of `repr`, between the given quotes. -/
def escape (mark c : ℕ) : Text :=
  if c = mark ∨ c = 92 then [92, c]
  else if c = 9 then [92, 116]
  else if c = 10 then [92, 110]
  else if c = 13 then [92, 114]
  else if c < 32 ∨ c = 127 then 92 :: 120 :: hexPair c
  else if c < 127 ∨ r.printable c = true then [c]
  else if c < 256 then 92 :: 120 :: hexPair c
  else if c < 65536 then 92 :: 117 :: Json.hex4 c
  else 92 :: 85 :: (Json.hex4 (c / 65536) ++ Json.hex4 c)

/-- Double quotes only around a text with single quotes and no double ones. -/
def markOf (s : Text) : ℕ := if s.contains 39 && !s.contains 34 then 34 else 39

theorem hexPair_closed (n : ℕ) : ∀ c ∈ hexPair n, c ≠ 60 := by
  have digit : ∀ k < 16, Json.hexDigit k ≠ 60 := by decide
  simp only [hexPair, List.forall_mem_cons]
  exact ⟨digit _ (Nat.mod_lt _ (by decide)), digit _ (Nat.mod_lt _ (by decide)),
    List.forall_mem_nil _⟩

theorem escape_escapes {mark : ℕ} (quotes : mark = 34 ∨ mark = 39) : Escapes (escape r mark) where
  kept c inside := by
    have signs : (c = 60 ∨ c = 62) ∨ (65 ≤ c ∧ c ≤ 90) ∨ (48 ≤ c ∧ c ≤ 57) ∨ c = 95 := by
      simp only [foreign, word, Bool.not_eq_false', Bool.or_eq_true, Bool.and_eq_true,
        decide_eq_true_eq,
        beq_iff_eq] at inside
      omega
    unfold escape
    rw [if_neg (by omega), if_neg (by omega), if_neg (by omega), if_neg (by omega),
      if_neg (by omega),
      if_pos (.inl (by omega))]
  other c outside := by
    obtain ⟨notOpen, -, -⟩ := foreign_facts outside
    have pair := hexPair_closed c
    have four := hex4_closed c
    have high := hex4_closed (c / 65536)
    unfold escape
    split
    · exact ⟨92, [c], rfl, rfl, List.forall_mem_singleton.mpr notOpen⟩
    · split
      · exact ⟨92, [116], rfl, rfl, by decide⟩
      · split
        · exact ⟨92, [110], rfl, rfl, by decide⟩
        · split
          · exact ⟨92, [114], rfl, rfl, by decide⟩
          · split
            · exact ⟨92, 120 :: hexPair c, rfl, rfl, List.forall_mem_cons.mpr ⟨by decide, pair⟩⟩
            · split
              · exact ⟨c, [], rfl, outside, List.forall_mem_nil _⟩
              · split
                · exact ⟨92, 120 :: hexPair c, rfl, rfl, List.forall_mem_cons.mpr ⟨by decide, pair⟩⟩
                · split
                  · exact ⟨92, 117 :: Json.hex4 c, rfl, rfl, List.forall_mem_cons.mpr
                      ⟨by decide, four⟩⟩
                  · refine ⟨92, 85 :: (Json.hex4 (c / 65536) ++ Json.hex4 c), rfl, rfl, ?_⟩
                    exact List.forall_mem_cons.mpr
                      ⟨by decide, List.forall_mem_append.mpr ⟨high, four⟩⟩

theorem markOf_quotes (s : Text) : markOf s = 34 ∨ markOf s = 39 := by
  unfold markOf
  split
  · exact .inl rfl
  · exact .inr rfl

def wordOf : Option Bool → Text
  | none => lit "None"
  | some true => lit "True"
  | some false => lit "False"

/-- `repr`. -/
def represented : Style where
  word := wordOf
  number := r.pyNumber
  quote s := markOf s :: (s.flatMap (escape r (markOf s)) ++ [markOf s])
  comma := [44, 32]
  colon := [58, 32]
  words := by rintro (_ | _ | _) <;> decide
  numbers s c member := signs_closed c (r.pySigns s c member)
  quotes s := ⟨markOf s, s.flatMap (escape r (markOf s)), rfl,
    (markOf_quotes s).elim (fun mark => mark ▸ rfl) fun mark => mark ▸ rfl,
    found_flatMap (escape_escapes r (markOf_quotes s)) s⟩
  commas := by decide
  colons := by decide

/-- `str`. -/
def str : Json → Text
  | .text s => s
  | v => (represented r).write v

/-- `v or {}`, on which a method of dictionaries is called: anything else that is not empty raises.
-/
def orEmpty (v : Json) : Option Members :=
  match v with
  | .object members => some members
  | v => if truthy r v then none else some []

/-- The elements of `connection.get("args") or []`: those of a list, the characters of a string, the
keys of a dictionary. -/
def iterated (v : Json) : Option (List Json) :=
  match v with
  | .array items => some items
  | .text s => some (s.map fun c => .text [c])
  | .object members => some (members.map fun member => .text member.1)
  | v => if truthy r v then none else some []

/-- Whether `_placeholder_names` finds any name. -/
def requires (connection : Members) : Option Bool := do
  let env ← orEmpty r (field connection (lit "env"))
  let args ← iterated r (field connection (lit "args"))
  let url := field connection (lit "url")
  some ((env.any fun member => found (str r member.2)) || (args.any fun arg => found (str r arg)) ||
    (truthy r url && found (str r url)))

def capabilitiesFor (server : Document) : Option (List Json) :=
  match declared (field server.members (lit "capabilities")) with
  | some items => some items
  | none =>
    match field server.members (lit "category") with
    | .text s => some (((member? categoryCapabilities s).getD defaultCapabilities).map .text)
    -- lists and dictionaries have no hash, and the empty ones count as the empty string
    | .array (_ :: _) => none
    | .object (_ :: _) => none
    | _ => some (defaultCapabilities.map .text)

def authFor (server : Document) : Option Text :=
  let explicit := field server.members (lit "auth")
  if hasType explicit (lit "none") then some (lit "none")
  else
    match explicit with
    | .object (_ :: _) => some (lit "operator-managed")
    | _ => do
      let connection ← orEmpty r (field server.members (lit "connection"))
      let requires ← requires r connection
      some (if requires then lit "operator-managed" else lit "none")

def enrichServer (server : Document) : Option Enriched := do
  let capabilities ← capabilitiesFor server
  let auth ← authFor r server
  some {
    id := idOf server
    publicServer := copyKeys publicServerFields server.members
    capabilities := .values capabilities
    capabilitiesSource := if (declared (field server.members (lit "capabilities"))).isSome
      then lit "declared"
      else lit "category-inferred"
    authType := auth }

end Python

end Metahumotonic.Registry
