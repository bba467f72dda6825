import Metahumotonic.Library.JsonForm
import Metahumotonic.Library.JsonNumbers

/-! Parameters and rows of the Cypher proxy (`coerceParams`, `toJsonScalar` and `execute` of
`KgPort.ts`). Documents are those of JavaScript: a text is the list of its UTF-16 units, an
object has its members in the order in which it lists them, `int` is an integral number and
`float` any other. -/
namespace Metahumotonic.Kg.Parameters

open Library

/-- What crosses the driver. `number` is a float with an integral value; `entity` is an object of
a class of the driver, with the text that its `toString` gives. -/
inductive Bolt (I : Type) where
  | null
  | bool (b : Bool)
  | integer (i : I)
  | number (n : ℤ)
  | float (literal : Text)
  | text (s : Text)
  | list (items : List (Bolt I))
  | map (members : List (Text × Bolt I))
  | entity (members : List (Text × Bolt I)) (shown : Text)

/-- The driver's integers, and which plain maps its `isInt` takes for one. -/
structure Driver (I : Type) where
  int : ℤ → I
  inSafeRange : I → Bool
  toNumber : I → ℤ
  toString : I → Text
  low : I → ℤ
  high : I → ℤ
  isInt : List (Text × Bolt I) → Bool

def within64 (n : ℤ) : Bool := -9223372036854775808 ≤ n && n ≤ 9223372036854775807

def safe (n : ℤ) : Bool := -9007199254740991 ≤ n && n ≤ 9007199254740991

/-- What the driver documents of its integers. -/
structure Driver.Documented {I : Type} (driver : Driver I) : Prop where
  inSafeRange : ∀ n, within64 n = true → driver.inSafeRange (driver.int n) = safe n
  toNumber : ∀ n, safe n = true → driver.toNumber (driver.int n) = n
  toString : ∀ n, within64 n = true → driver.toString (driver.int n) = Json.writeInt n

/-- `Object.fromEntries`: a later entry of a name takes the place of an earlier one. -/
def fromEntries {α : Type} (entries : List (Text × α)) : List (Text × α) :=
  entries.foldl (fun read entry => setEntry entry.1 entry.2 read) []

def hasKey {α : Type} (key : Text) (members : List (Text × α)) : Bool :=
  members.any fun m => m.1 == key

/-- The entries of an array, or of a text, are named by their positions. -/
def indexed (items : List Json) : Members := items.zipIdx.map fun item =>
    (Json.decimal item.2, item.1)

namespace Driver

variable {I : Type} (driver : Driver I)

mutual
def coerceParams : Json → Bolt I
  | .null => .null
  | .bool b => .bool b
  | .int n => .integer (driver.int n)
  | .float literal => .float literal
  | .text s => .text s
  | .array items => .list (coerceItems items)
  | .object members => .map (fromEntries (coerceMembers members))
def coerceItems : List Json → List (Bolt I)
  | [] => []
  | v :: rest => coerceParams v :: coerceItems rest
def coerceMembers : Members → List (Text × Bolt I)
  | [] => []
  | (k, v) :: rest => (k, coerceParams v) :: coerceMembers rest
end

mutual
/-- `toJsonScalar`; none where it throws. -/
def toJsonScalar : Bolt I → Option Json
  | .null => some .null
  | .bool b => some (.bool b)
  | .integer i => some (if driver.inSafeRange i then .int (driver.toNumber i)
    else .text (driver.toString i))
  | .number n => some (.int n)
  | .float literal => some (.float literal)
  | .text s => some (.text s)
  | .list items => (scalarItems items).map .array
  | .map members =>
    -- a plain map has no `inSafeRange` to call
    if driver.isInt members then none
    else match ofProperties members with
      | some converted => converted.map fun entries => .object (fromEntries entries)
      | none =>
        -- `toString` is the one of every object unless a member hides it
        if !hasKey (lit "toString") members && hasKey (lit "constructor") members then
          some (.text (lit "[object Object]"))
        else (scalarMembers members).map fun entries => .object (fromEntries entries)
  | .entity members shown =>
    match ofProperties members with
    | some converted => converted.map fun entries => .object (fromEntries entries)
    | none => some (.text shown)
def scalarItems : List (Bolt I) → Option (List Json)
  | [] => some []
  | b :: rest => (toJsonScalar b).bind fun v => (scalarItems rest).map (v :: ·)
def scalarMembers : List (Text × Bolt I) → Option Members
  | [] => some []
  | (k, b) :: rest => (toJsonScalar b).bind fun v => (scalarMembers rest).map ((k, v) :: ·)
/-- The converted entries of the member `properties`, when there is one. -/
def ofProperties : List (Text × Bolt I) → Option (Option Members)
  | [] => none
  | (k, b) :: rest => if k = lit "properties" then some (scalarEntries b) else ofProperties rest
/-- `Object.entries`, each converted; null has none to give. -/
def scalarEntries : Bolt I → Option Members
  | .null => none
  | .integer i => some [(lit "low", .int (driver.low i)), (lit "high", .int (driver.high i))]
  | .text s => some (indexed (s.map fun u => .text [u]))
  | .list items => (scalarItems items).map indexed
  | .map members => scalarMembers members
  | .entity members _ => scalarMembers members
  | .bool _ | .number _ | .float _ => some []
end

inductive Mode where
  | read
  | write
  deriving DecidableEq, Repr

/-- The records of a query, each with its keys; none when the query fails. -/
abbrev Server (I : Type) := Text → List (Text × Bolt I) → Mode → Option
    (List (List (Text × Bolt I)))

def execute (server : Server I) (query : Text) (params : List (Text × Bolt I)) (mode : Mode) :
    Option (List Members) :=
  (server query params mode).bind fun records =>
    records.mapM fun record => (driver.scalarMembers record).map fromEntries

def run (server : Server I) (query : Text) (params : Members) (mode : Mode) :
    Option (List Members) :=
  driver.execute server query (fromEntries (driver.coerceMembers params)) mode

def Echoes (server : Server I) : Prop :=
  ∀ b, server (lit "RETURN $p AS p") [(lit "p", b)] .read = some [[(lit "p", b)]]

mutual
/-- No object in the document is taken for something else on its way back. -/
def plain : Json → Bool
  | .array items => plainItems items
  | .object members =>
    !driver.isInt (fromEntries (driver.coerceMembers members)) && !hasKey
      (lit "properties") members &&
      (hasKey (lit "toString") members || !hasKey (lit "constructor") members) &&
        plainMembers members
  | _ => true
def plainItems : List Json → Bool
  | [] => true
  | v :: rest => plain v && plainItems rest
def plainMembers : Members → Bool
  | [] => true
  | (_, v) :: rest => plain v && plainMembers rest
end

end Driver

mutual
/-- The document with every integral number that is not safe as its decimal text. -/
def flattened : Json → Json
  | .int n => if safe n then .int n else .text (Json.writeInt n)
  | .array items => .array (flattenedItems items)
  | .object members => .object (flattenedMembers members)
  | v => v
def flattenedItems : List Json → List Json
  | [] => []
  | v :: rest => flattened v :: flattenedItems rest
def flattenedMembers : Members → Members
  | [] => []
  | (k, v) :: rest => (k, flattened v) :: flattenedMembers rest
end

theorem fromEntries_distinct {α : Type} {entries : List (Text × α)}
    (distinct : (entries.map Prod.fst).Nodup) : fromEntries entries = entries :=
  foldl_setEntry entries [] distinct

theorem mem_fromEntries {α : Type} {entries : List (Text × α)} {m : Text × α}
    (member : m ∈ fromEntries entries) : m ∈ entries := by
  have later : ∀ read : List (Text × α),
      m ∈ entries.foldl (fun read entry => setEntry entry.1 entry.2 read) read → m ∈ read ∨
        m ∈ entries := by
    clear member
    induction entries with
    | nil => exact fun read there => .inl there
    | cons entry rest ih =>
      intro read there
      rcases ih _ there with here | there
      · rcases mem_setEntry here with same | before
        · obtain rfl : m = entry := same
          exact .inr List.mem_cons_self
        · exact .inl before
      · exact .inr (List.mem_cons_of_mem _ there)
  exact (later [] member).resolve_left List.not_mem_nil

theorem hasKey_iff {α : Type} {key : Text} {members : List (Text × α)} :
    hasKey key members = true ↔ ∃ v, (key, v) ∈ members := by
  simp only [hasKey, List.any_eq_true, beq_iff_eq]
  constructor
  · rintro ⟨⟨k, v⟩, member, rfl⟩
    exact ⟨v, member⟩
  · rintro ⟨v, member⟩
    exact ⟨(key, v), member, rfl⟩

theorem flattenedItems_eq (items : List Json) : flattenedItems items = items.map flattened := by
  induction items with
  | nil => rfl
  | cons v rest ih => rw [flattenedItems, ih, List.map_cons]

theorem flattenedMembers_eq (members : Members) :
    flattenedMembers members = members.map fun m => (m.1, flattened m.2) := by
  induction members with
  | nil => rfl
  | cons m rest ih => rw [flattenedMembers, ih, List.map_cons]

theorem map_fixed {α : Type} {f : α → α} {xs : List α} : xs.map f = xs ↔ ∀ x ∈ xs, f x = x := by
  rw [← List.map_inj_left, List.map_id']

/-- Exactly the documents with safe integers only are flattened to themselves. -/
theorem flattened_eq_self {v : Json} : flattened v = v ↔ v.numbers safe (fun _ => true) = true := by
  induction v using Json.induct with
  | null => simp [flattened]
  | bool b => simp [flattened]
  | float literal => simp [flattened]
  | text s => simp [flattened]
  | int n =>
    rw [flattened, Json.numbers_int]
    split <;> simp [*]
  | array items ih =>
    rw [flattened, flattenedItems_eq, Json.array.injEq, Json.numbers_array, map_fixed]
    exact forall₂_congr ih
  | object members ih =>
    rw [flattened, flattenedMembers_eq, Json.object.injEq, Json.numbers_object, map_fixed]
    constructor
    · intro same k v member
      exact (ih _ member).mp (congrArg Prod.snd (same _ member))
    · intro small m member
      exact Prod.ext rfl ((ih m member).mpr (small _ _ member))

theorem partner_of_mem {α β : Type} {R : α → β → Prop} {xs : List α} {ys : List β}
    (each : List.Forall₂ R xs ys)
    {y : β} (member : y ∈ ys) : ∃ x ∈ xs, R x y := by
  induction each with
  | nil => cases member
  | @cons x z xs ys related _ ih =>
    rcases List.mem_cons.mp member with rfl | later
    · exact ⟨x, List.mem_cons_self, related⟩
    · obtain ⟨w, there, held⟩ := ih later
      exact ⟨w, List.mem_cons_of_mem _ there, held⟩

namespace Driver

variable {I : Type} {driver : Driver I}

theorem coerceItems_eq (items : List Json) :
    driver.coerceItems items = items.map driver.coerceParams := by
  induction items with
  | nil => rfl
  | cons v rest ih => rw [coerceItems, ih, List.map_cons]

theorem coerceMembers_eq (members : Members) :
    driver.coerceMembers members = members.map fun m => (m.1, driver.coerceParams m.2) := by
  induction members with
  | nil => rfl
  | cons m rest ih => rw [coerceMembers, ih, List.map_cons]

theorem coerceMembers_names (members : Members) :
    (driver.coerceMembers members).map Prod.fst = members.map Prod.fst := by
  rw [coerceMembers_eq, List.map_map]
  rfl

theorem coerce_object {members : Members} (distinct : (members.map Prod.fst).Nodup) :
    driver.coerceParams (.object members) = .map (driver.coerceMembers members) := by
  rw [coerceParams, fromEntries_distinct]
  rwa [coerceMembers_names]

theorem hasKey_coerce (key : Text) (members : Members) :
    hasKey key (driver.coerceMembers members) = hasKey key members := by
  rw [coerceMembers_eq, hasKey, hasKey, List.any_map]
  rfl

theorem plain_array {items : List Json} :
    driver.plain (.array items) = true ↔ ∀ v ∈ items, driver.plain v = true := by
  rw [plain]
  induction items with
  | nil => simp [plainItems]
  | cons v rest ih => simp [plainItems, ih]

theorem plainMembers_iff {members : Members} :
    driver.plainMembers members = true ↔ ∀ m ∈ members, driver.plain m.2 = true := by
  induction members with
  | nil => simp [plainMembers]
  | cons m rest ih => simp [plainMembers, ih]

theorem scalarItems_iff {bs : List (Bolt I)} {vs : List Json} :
    driver.scalarItems bs = some vs ↔
      List.Forall₂ (fun b v => driver.toJsonScalar b = some v) bs vs := by
  induction bs generalizing vs with
  | nil => simp [scalarItems, eq_comm]
  | cons b rest ih =>
    simp only [scalarItems, Option.bind_eq_some_iff, Option.map_eq_some_iff, ih,
      List.forall₂_cons_left_iff]
    constructor
    · rintro ⟨v, here, ws, later, rfl⟩
      exact ⟨v, ws, here, later, rfl⟩
    · rintro ⟨v, ws, here, later, rfl⟩
      exact ⟨v, here, ws, later, rfl⟩

theorem scalarMembers_iff {bs : List (Text × Bolt I)} {vs : Members} :
    driver.scalarMembers bs = some vs ↔
      List.Forall₂ (fun b v => b.1 = v.1 ∧ driver.toJsonScalar b.2 = some v.2) bs vs := by
  induction bs generalizing vs with
  | nil => simp [scalarMembers, eq_comm]
  | cons b rest ih =>
    obtain ⟨k, b⟩ := b
    simp only [scalarMembers, Option.bind_eq_some_iff, Option.map_eq_some_iff, ih,
      List.forall₂_cons_left_iff]
    constructor
    · rintro ⟨v, here, ws, later, rfl⟩
      exact ⟨(k, v), ws, ⟨rfl, here⟩, later, rfl⟩
    · rintro ⟨⟨k, v⟩, ws, ⟨rfl, here⟩, later, rfl⟩
      exact ⟨v, here, ws, later, rfl⟩

theorem ofProperties_none {bs : List (Text × Bolt I)} :
    driver.ofProperties bs = none ↔ hasKey (lit "properties") bs = false := by
  induction bs with
  | nil => simp [ofProperties, hasKey]
  | cons b rest ih =>
    obtain ⟨k, b⟩ := b
    rw [ofProperties, hasKey, List.any_cons]
    by_cases named : k = lit "properties"
    · simp [named]
    · simpa [named, hasKey] using ih

theorem ofProperties_some {bs : List (Text × Bolt I)} {converted : Option Members}
    (found : driver.ofProperties bs = some converted) :
    ∃ b, (lit "properties", b) ∈ bs ∧ driver.scalarEntries b = converted := by
  induction bs with
  | nil => simp [ofProperties] at found
  | cons b rest ih =>
    obtain ⟨k, b⟩ := b
    rw [ofProperties] at found
    split at found
    · rename_i named
      exact ⟨b, named ▸ List.mem_cons_self, Option.some.inj found⟩
    · obtain ⟨c, member, entries⟩ := ih found
      exact ⟨c, List.mem_cons_of_mem _ member, entries⟩

/-- What the proxy gives back for a document. -/
def Returns (driver : Driver I) (v w : Json) : Prop := driver.toJsonScalar
    (driver.coerceParams v) = some w

theorem returns_array {items : List Json} {w : Json} :
    driver.Returns (.array items) w ↔ ∃ ws, List.Forall₂ driver.Returns items ws ∧
      w = .array ws := by
  unfold Returns
  rw [coerceParams, toJsonScalar, coerceItems_eq, Option.map_eq_some_iff]
  simp only [scalarItems_iff, List.forall₂_map_left_iff, eq_comm (b := w)]

theorem scalarMembers_coerce {members ws : Members} :
    driver.scalarMembers (driver.coerceMembers members) = some ws ↔
      List.Forall₂ (fun m w => m.1 = w.1 ∧ driver.Returns m.2 w.2) members ws := by
  rw [scalarMembers_iff, coerceMembers_eq, List.forall₂_map_left_iff]
  rfl

/-- The names of the members that come back are those that went. -/
theorem names_of_members {members ws : Members}
    (each : List.Forall₂ (fun m w => m.1 = w.1 ∧ driver.Returns m.2 w.2) members ws) :
    ws.map Prod.fst = members.map Prod.fst := by
  induction each with
  | nil => rfl
  | cons here _ ih => rw [List.map_cons, List.map_cons, here.1, ih]

/-- How an object comes back: as the entries of its member `properties`, as the text of any object,
or member by member. -/
inductive Decoded (driver : Driver I) (members : Members) : Json → Prop
  | properties (p : Json) (es : Members) (member : (lit "properties", p) ∈ members)
      (entries : driver.scalarEntries (driver.coerceParams p) = some es) :
      Decoded driver members (.object (fromEntries es))
  | asText (absent : hasKey (lit "properties") members = false)
      (named : hasKey (lit "constructor") members = true)
      (shown : hasKey (lit "toString") members = false) :
      Decoded driver members (.text (lit "[object Object]"))
  | memberwise (absent : hasKey (lit "properties") members = false)
      (own : (hasKey (lit "toString") members || !hasKey (lit "constructor") members) = true)
      (ws : Members)
      (each : List.Forall₂ (fun m w => m.1 = w.1 ∧ driver.Returns m.2 w.2) members ws) :
      Decoded driver members (.object ws)

theorem returns_object {members : Members} {w : Json} (distinct : (members.map Prod.fst).Nodup)
    (returned : driver.Returns (.object members) w) :
    driver.isInt (driver.coerceMembers members) = false ∧ driver.Decoded members w := by
  unfold Returns at returned
  rw [coerce_object distinct, toJsonScalar, hasKey_coerce, hasKey_coerce] at returned
  split at returned
  · cases returned
  rename_i other
  refine ⟨by simpa using other, ?_⟩
  split at returned
  · rename_i converted found
    obtain ⟨b, member, entries⟩ := ofProperties_some found
    obtain ⟨es, rfl, rfl⟩ := Option.map_eq_some_iff.mp returned
    rw [coerceMembers_eq] at member
    obtain ⟨⟨k, p⟩, there, same⟩ := List.mem_map.mp member
    obtain ⟨rfl, rfl⟩ := Prod.mk.inj same
    exact .properties p es there entries
  · rename_i absent
    rw [ofProperties_none, hasKey_coerce] at absent
    split at returned
    · rename_i hidden
      rw [Bool.and_eq_true, Bool.not_eq_true'] at hidden
      cases returned
      exact .asText absent hidden.2 hidden.1
    · rename_i shown
      obtain ⟨ws, each, rfl⟩ := Option.map_eq_some_iff.mp returned
      have members := scalarMembers_coerce.mp each
      rw [fromEntries_distinct (names_of_members members ▸ distinct)]
      refine .memberwise absent ?_ ws members
      simpa [imp_iff_not_or, or_comm] using shown

/-- A plain document comes back flattened. -/
theorem returns_flattened (documented : driver.Documented) {v : Json} (distinct : v.distinct = true)
    (range : v.numbers within64 (fun _ => true) = true) (plain : driver.plain v = true) :
    driver.Returns v (flattened v) := by
  induction v using Json.induct with
  | null => rfl
  | bool b => rfl
  | float literal => rfl
  | text s => rfl
  | int n =>
    unfold Returns
    rw [coerceParams, toJsonScalar, documented.inSafeRange n range,
      documented.toString n range, flattened]
    split
    · rename_i small
      rw [documented.toNumber n small]
    · rfl
  | array items ih =>
    rw [flattened, flattenedItems_eq, returns_array]
    refine ⟨_, ?_, rfl⟩
    rw [List.forall₂_map_right_iff, List.forall₂_same]
    intro v member
    exact ih v member (Json.distinct_array.mp distinct v member)
      (Json.numbers_array.mp range v member)
      (plain_array.mp plain v member)
  | object members ih =>
    obtain ⟨names, inner⟩ := Json.distinct_object.mp distinct
    rw [Driver.plain, fromEntries_distinct (coerceMembers_names members ▸ names)] at plain
    simp only [Bool.and_eq_true, Bool.not_eq_true'] at plain
    obtain ⟨⟨⟨other, absent⟩, own⟩, each⟩ := plain
    have returned : driver.scalarMembers (driver.coerceMembers members) =
        some (flattenedMembers members) := by
      rw [scalarMembers_coerce, flattenedMembers_eq, List.forall₂_map_right_iff, List.forall₂_same]
      intro m member
      exact ⟨rfl, ih m member (inner _ _ member) (Json.numbers_object.mp range _ _ member)
        (plainMembers_iff.mp each m member)⟩
    have unhidden : (!hasKey (lit "toString") members && hasKey (lit "constructor") members) =
        false := by
      cases shown : hasKey (lit "toString") members with
      | true => rfl
      | false => simpa [shown] using own
    have unnamed : driver.ofProperties (driver.coerceMembers members) = none :=
      ofProperties_none.mpr (hasKey_coerce _ members ▸ absent)
    unfold Returns
    rw [coerce_object names, toJsonScalar, other, unnamed]
    simp only [Bool.false_eq_true, if_false, hasKey_coerce, unhidden, returned,
      Option.map_some, flattened]
    rw [fromEntries_distinct]
    rwa [names_of_members (scalarMembers_coerce.mp returned)]

end Driver

end Metahumotonic.Kg.Parameters
