import Metahumotonic.Library.Base64
import Metahumotonic.Library.JsonCodec
import Metahumotonic.Library.Paging
import Metahumotonic.Library.Utf8
import Metahumotonic.Ontology.Snapshot

/-! Opaque cursors (`_page`, `_encode_cursor` and `_decode_cursor` in `app/ontology.py`): the
request and the next offset as JSON, signed, in Base64. SHA-256 and HMAC are given
functions on bytes. -/
namespace Metahumotonic.Ontology

open Library

abbrev Bytes := List Nat

structure Digests where
  sha256 : Bytes → Bytes
  hmac : Bytes → Bytes → Bytes
  hmac_bytes : ∀ key message, ∀ b ∈ hmac key message, b < 256
  hmac_length : ∀ key message, (hmac key message).length = 32

/-- Parameters of a request; one that was not given is null. -/
abbrev Params := List (Text × Option Text)

def paramJson : Option Text → Json
  | some s => .text s
  | none => .null

/-- The members in the order in which `sort_keys` writes them; so are the parameters. -/
def cursorPayload (contentSha256 route : Text) (params : Params) (limit offset : Nat) : Json :=
  .object [(lit "content_sha256", .text contentSha256), (lit "limit", .int limit),
    (lit "offset", .int offset),
    (lit "params", .object (params.map fun param => (param.1, paramJson param.2))),
    (lit "route", .text route),
    (lit "v", .int 1)]

variable (d : Digests)

def encodeCursor (key : Bytes) (payload : Json) : Text :=
  Base64.encode payload.write ++ 46 :: Base64.encode (d.hmac key payload.write)

def decodeCursor (key : Bytes) (cursor : Text) : Except String Members :=
  if 4096 < cursor.length ∨ cursor.count 46 ≠ 1 then .error "invalid cursor"
  else
    match Base64.decode (cursor.takeWhile (· != 46)),
      Base64.decode (cursor.dropWhile (· != 46)).tail with
    | some raw, some signature =>
      if signature ≠ d.hmac key raw then .error "invalid cursor signature"
      else
        match (Utf8.decode raw).bind Json.loads with
        | some (.object payload) => .ok payload
        | _ => .error "invalid cursor payload"
    | _, _ => .error "invalid cursor encoding"

/-- `==` with an integer: a truth value counts as one. A signed payload has no fractions. -/
def isInt (v : Json) (n : ℤ) : Bool :=
  match v with
  | .int m => m == n
  | .bool b => n == if b then 1 else 0
  | _ => false

def isParam (v : Json) (param : Option Text) : Bool :=
  match param with
  | some s => isText v s
  | none => isNull v

def sameParams (v : Json) (params : Params) : Bool :=
  (mapping? v).any fun members =>
    sameNames members (params.map Prod.fst) && params.all fun param =>
      isParam (field members param.1) param.2

def matchesRequest (payload : Members) (contentSha256 route : Text) (params : Params)
    (limit : Nat) : Bool :=
  isInt (field payload (lit "v")) 1 && isText (field payload (lit "content_sha256"))
    contentSha256 &&
    isText (field payload (lit "route")) route && sameParams
      (field payload (lit "params")) params &&
    isInt (field payload (lit "limit")) limit

/-- The offset that a cursor asks for. -/
def cursorOffset (key : Bytes) (contentSha256 route : Text) (params : Params) (limit count : Nat)
    (cursor : Option Text) : Except String Nat :=
  match cursor with
  | none => .ok 0
  | some [] => .ok 0
  | some text =>
    match decodeCursor d key text with
    | .error message => .error message
    | .ok payload =>
      if ¬ matchesRequest payload contentSha256 route params limit then
        .error "cursor does not match this request"
      else
        match int? (field payload (lit "offset")) with
        | some offset =>
          if offset < 0 then .error "cursor offset is invalid"
          else if count < offset then .error "cursor is outside the result set"
          else .ok offset.toNat
        | none => .error "cursor offset is invalid"

def page (key : Bytes) (contentSha256 : Text) (items : List Json) (route : Text) (params : Params)
    (limit : Nat)
    (cursor : Option Text) : Except String (Page Text Json) :=
  match cursorOffset d key contentSha256 route params limit items.length cursor with
  | .error message => .error message
  | .ok offset =>
    .ok (cut (fun next => encodeCursor d key (cursorPayload contentSha256 route params limit next))
      items limit
      offset)

variable {d : Digests} {key : Bytes} {contentSha256 route : Text} {params : Params} {limit : Nat}

theorem encodeCursor_plain (payload : Json) {c : Nat} (member : c ∈ encodeCursor d key payload) :
    c = 46 ∨ Base64.plain c = true := by
  rcases List.mem_append.mp member with inside | inside
  · exact .inr (Base64.encode_plain _ c inside)
  · rcases List.mem_cons.mp inside with dot | inside
    · exact .inl dot
    · exact .inr (Base64.encode_plain _ c inside)

/-- What is needed of a request for its cursors to be read back. -/
structure Signable (contentSha256 route : Text) (params : Params) : Prop where
  digest : contentSha256.all scalar = true
  route : route.all scalar = true
  distinct : (params.map Prod.fst).Nodup
  names : ∀ param ∈ params, param.1.all scalar = true
  values : ∀ param ∈ params, ∀ s, param.2 = some s → s.all scalar = true

theorem Signable.portable (signable : Signable contentSha256 route params) (offset : Nat) :
    Json.Portable (cursorPayload contentSha256 route params limit offset) := by
  have inner : Json.Portable (.object (params.map fun param => (param.1, paramJson param.2))) := by
    apply Json.Portable.object
    · rw [List.map_map]
      exact signable.distinct
    · intro member inside
      obtain ⟨param, there, rfl⟩ := List.mem_map.mp inside
      exact signable.names param there
    · intro member inside
      obtain ⟨param, there, rfl⟩ := List.mem_map.mp inside
      cases value : param.2 with
      | none => exact .null
      | some s => exact .text s (signable.values param there s value)
  apply Json.Portable.object
  · change [lit "content_sha256", lit "limit", lit "offset", lit "params", lit "route",
        lit "v"].Nodup
    decide
  · simp only [List.forall_mem_cons]
    decide
  · simp only [List.forall_mem_cons]
    exact ⟨.text _ signable.digest, .int _, .int _, inner, .text _ signable.route, .int _,
      List.forall_mem_nil _⟩

/-- A cursor that was issued is read back unless it is too long. -/
theorem decodeCursor_encodeCursor {payload : Members} (portable : Json.Portable (.object payload)) :
    decodeCursor d key (encodeCursor d key (.object payload)) =
      if 4096 < (encodeCursor d key (.object payload)).length then .error "invalid cursor"
        else .ok payload := by
  have once : (encodeCursor d key (.object payload)).count 46 = 1 := by
    rw [encodeCursor, List.count_append, List.count_cons_self,
      List.count_eq_zero.mpr fun there => Base64.encode_no_dot _ _ there rfl,
      List.count_eq_zero.mpr fun there => Base64.encode_no_dot _ _ there rfl]
  unfold decodeCursor
  by_cases long : 4096 < (encodeCursor d key (.object payload)).length
  · rw [if_pos (.inl long), if_pos long]
  · have short : ¬ (4096 < (encodeCursor d key (.object payload)).length ∨
        (encodeCursor d key (.object payload)).count 46 ≠ 1) := by
      rw [once]
      simpa using long
    have ascii := Json.write_ascii _ portable
    have body : Base64.decode (Base64.encode (Json.object payload).write) =
        some (Json.object payload).write :=
      Base64.decode_encode _ fun b there => (ascii b there).trans (by decide)
    have signature : Base64.decode (Base64.encode (d.hmac key (Json.object payload).write)) =
        some (d.hmac key (Json.object payload).write) := Base64.decode_encode _ (d.hmac_bytes _ _)
    have text := Utf8.decode_ascii _ ascii
    obtain ⟨before, after⟩ :=
      Base64.split_dot (Base64.encode (d.hmac key (Json.object payload).write))
      (Base64.encode_no_dot (Json.object payload).write)
    rw [if_neg short, if_neg long]
    unfold encodeCursor
    simp only [before, after, List.tail_cons, body, signature, ne_eq, not_true_eq_false,
      if_false, text,
      Option.bind_some, Json.loads_write portable]

theorem field_map {params : Params} (distinct : (params.map Prod.fst).Nodup)
    {param : Text × Option Text}
    (member : param ∈ params) :
    member? (params.map fun param => (param.1, paramJson param.2)) param.1 =
      some (paramJson param.2) := by
  apply entry_of_mem
  · rwa [List.map_map]
  · exact List.mem_map_of_mem (f := fun param => (param.1, paramJson param.2)) member

theorem isParam_self (param : Option Text) : isParam (paramJson param) param = true := by
  cases param with
  | none => rfl
  | some s => simp [isParam, paramJson, isText]

theorem sameParams_self {params : Params} (distinct : (params.map Prod.fst).Nodup) :
    sameParams (.object (params.map fun param => (param.1, paramJson param.2))) params = true := by
  simp only [sameParams, mapping?, Option.any_some, Bool.and_eq_true, sameNames, List.all_eq_true]
  refine ⟨⟨?_, ?_⟩, ?_⟩
  · intro member inside
    obtain ⟨param, there, rfl⟩ := List.mem_map.mp inside
    simpa using ⟨param.2, there⟩
  · intro name inside
    obtain ⟨param, there, rfl⟩ := List.mem_map.mp inside
    rw [hasName, field_map distinct there, Option.isSome_some]
  · intro param there
    rw [field, field_map distinct there, Option.getD_some]
    exact isParam_self param.2

theorem matchesRequest_self (distinct : (params.map Prod.fst).Nodup) (offset : Nat)
    {payload : Members}
    (made : cursorPayload contentSha256 route params limit offset = .object payload) :
    matchesRequest payload contentSha256 route params limit = true ∧
      int? (field payload (lit "offset")) = some (offset : ℤ) := by
  cases made
  have params := sameParams_self distinct
  constructor
  · simp only [matchesRequest, Bool.and_eq_true]
    refine ⟨⟨⟨⟨rfl, ?_⟩, ?_⟩, params⟩, ?_⟩
    · exact beq_self_eq_true contentSha256
    · exact beq_self_eq_true route
    · exact beq_self_eq_true (limit : ℤ)
  · rfl

/-- Whether the cursor for an offset is short enough to be accepted again. -/
def Readable (d : Digests) (key : Bytes) (contentSha256 route : Text) (params : Params)
    (limit offset : Nat) :
    Prop := (encodeCursor d key (cursorPayload contentSha256 route params limit offset)).length ≤
      4096

theorem encodeCursor_cons (d : Digests) (key : Bytes) (payload : Json) :
    ∃ c rest, encodeCursor d key payload = c :: rest := by
  cases written : encodeCursor d key payload with
  | nil => exact absurd written (by simp [encodeCursor])
  | cons c rest => exact ⟨c, rest, rfl⟩

/-- The pages that a request gets, and the cursors that it gets with them. -/
theorem page_pages (signable : Signable contentSha256 route params) (items : List Json) :
    Pages (fun cursor => (page d key contentSha256 items route params limit cursor).toOption)
      (fun next => encodeCursor d key (cursorPayload contentSha256 route params limit next)) items
        limit
      (Readable d key contentSha256 route params limit) := by
  have decoded : ∀ offset, ∃ payload, cursorPayload contentSha256 route params limit offset =
      .object payload ∧
      decodeCursor d key
        (encodeCursor d key (cursorPayload contentSha256 route params limit offset)) =
        if 4096 < (encodeCursor d key
          (cursorPayload contentSha256 route params limit offset)).length then
          .error "invalid cursor"
        else .ok payload := fun offset =>
    ⟨_, rfl, decodeCursor_encodeCursor (signable.portable offset)⟩
  constructor
  · rfl
  · intro offset inside readable
    obtain ⟨payload, made, read⟩ := decoded offset
    obtain ⟨c, rest, written⟩ := encodeCursor_cons d key
      (cursorPayload contentSha256 route params limit offset)
    obtain ⟨same, at_⟩ := matchesRequest_self signable.distinct offset made
    rw [if_neg (Nat.not_lt.mpr readable)] at read
    have found : cursorOffset d key contentSha256 route params limit items.length
        (some (encodeCursor d key (cursorPayload contentSha256 route params limit offset))) =
          .ok offset := by
      rw [written] at read ⊢
      have nonneg : ¬ (offset : ℤ) < 0 := by omega
      have within_ : ¬ (items.length : ℤ) < (offset : ℤ) := by omega
      simp only [cursorOffset, read, same, not_true_eq_false, if_false, at_, if_neg nonneg,
        if_neg within_,
        Int.toNat_natCast]
    simp only [page, found, Except.toOption]
  · intro offset unreadable
    obtain ⟨payload, made, read⟩ := decoded offset
    obtain ⟨c, rest, written⟩ := encodeCursor_cons d key
      (cursorPayload contentSha256 route params limit offset)
    rw [if_pos (Nat.lt_of_not_le unreadable)] at read
    have found : cursorOffset d key contentSha256 route params limit items.length
        (some (encodeCursor d key (cursorPayload contentSha256 route params limit offset))) =
          .error "invalid cursor" := by
      rw [written] at read ⊢
      simp only [cursorOffset, read]
    simp only [page, found, Except.toOption]

/-- The length of a cursor, from the texts that it holds. -/
def cursorSize (contentSha256 route : Text) (params : Params) (limit offset : Nat) : Nat :=
  (4 * (cursorPayload contentSha256 route params limit offset).write.length + 2) / 3 + 44

theorem encodeCursor_length (offset : Nat) :
    (encodeCursor d key (cursorPayload contentSha256 route params limit offset)).length =
      cursorSize contentSha256 route params limit offset := by
  rw [encodeCursor, List.length_append, List.length_cons, Base64.encode_length,
    Base64.encode_length,
    d.hmac_length]
  rfl

end Metahumotonic.Ontology
