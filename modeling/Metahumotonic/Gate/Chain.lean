import Mathlib.Logic.Function.Iterate
import Metahumotonic.Library.HashChain
import Metahumotonic.Library.JsonCodec
import Metahumotonic.Library.JsonForm
import Metahumotonic.Gate.Monitors

/-! The hash chain over shipped records (`_vendor/ooptdd/domain/model.py`). Who does not have the
key can leave out the end of the chain and nothing else. -/
namespace Metahumotonic.Gate
open Metahumotonic.Library

/-- What the chain takes from the standard library: the hexadecimal digests of HMAC-SHA256 and of
SHA-256, and `str` of a field. -/
structure Hashing where
  hmac : Text → Text → Text
  sha256 : Text → Text
  str : Json → Text

/-- `_CHAIN_EXCLUDE`. -/
def chainExclude : List Text := [lit "sig_chain", lit "prev_sig"]

/-- `_chain_canonical`. -/
def chainCanonical (record : Event) : Text :=
  (Json.object (record.filter fun entry => !chainExclude.contains entry.1)).form.write

structure ChainReport where
  ok : Bool
  brokenIndex : Option ℕ
  reason : Option Text
  deriving DecidableEq

/-- `rec.get("prev_sig")`, if it is a text; nothing else is equal to one. -/
def prevSig (record : Event) : Option Text :=
  match Event.get record (lit "prev_sig") with
  | .text prev => some prev
  | _ => none

namespace Hashing

variable (h : Hashing) (evolve : Bool)

/-- The key of the next record; `_evolve` is the digest of a key. -/
def nextKey (key : Text) : Text := if evolve then h.sha256 key else key

def signFrom (prev key : Text) : List Event → List Event
  | [] => []
  | record :: rest =>
    let mac := h.hmac key (chainCanonical record ++ prev)
    setEntry (lit "sig_chain") (.text mac) (setEntry (lit "prev_sig") (.text prev) record) ::
      signFrom mac (h.nextKey evolve key) rest

def signChain (records : List Event) (key : Text) : List Event := h.signFrom evolve [] key records

/-- `str(rec.get("sig_chain", ""))`. -/
def sigChain (record : Event) : Text := h.str ((record.lookup (lit "sig_chain")).getD (.text []))

/-- Nothing where `compare_digest` raises, for a text that is not ASCII. -/
def verifyFrom (prev key : Text) (i : ℕ) : List Event → Option ChainReport
  | [] => some ⟨true, none, none⟩
  | record :: rest =>
    if prevSig record ≠ some prev then
      some ⟨false, some i, some (lit "prev_link_mismatch_possible_deletion_or_reorder")⟩
    else if (h.sigChain record).any (128 ≤ ·) then none
    else if h.sigChain record ≠ h.hmac key (chainCanonical record ++ prev) then
      some ⟨false, some i, some (lit "chain_mac_mismatch_possible_tamper")⟩
    else verifyFrom (h.sigChain record) (h.nextKey evolve key) (i + 1) rest

def verifyChain (records : List Event) (key : Text) : Option ChainReport :=
  h.verifyFrom evolve [] key 0 records

/-- A record as a link: what is signed of it, the tag it names and its own. -/
def link (record : Event) : HashChain.Link Text (Option Text) where
  content := chainCanonical record
  prev := prevSig record
  tag := some (h.sigChain record)

def mac (key content : Text) (prev : Option Text) : Option Text :=
  some (h.hmac key (content ++ prev.getD []))

/-- The keys and messages that signing the records and verifying the stream ask tags for. -/
def macs (records stream : List Event) (key : Text) : List (Text × Text) :=
  (HashChain.queries h.mac (h.nextKey evolve) key (some []) (records.map chainCanonical) ++
    HashChain.checks (h.nextKey evolve) key (some []) (stream.map h.link)).map fun q =>
      (q.1, q.2.1 ++ q.2.2.getD [])

end Hashing

namespace Event

theorem lookup_cons_if (j k : Text) (v : Json) (rest : Event) :
    List.lookup j ((k, v) :: rest) = if j = k then some v else List.lookup j rest := by
  rw [List.lookup_cons]
  split_ifs with same
  · rw [beq_iff_eq.mpr same]
  · rw [beq_eq_false_iff_ne.mpr same]

theorem lookup_setEntry (k j : Text) (v : Json) (record : Event) :
    List.lookup j (setEntry k v record) = if j = k then some v else List.lookup j record := by
  induction record with
  | nil => rw [setEntry, lookup_cons_if]
  | cons entry rest ih =>
    obtain ⟨name, w⟩ := entry
    unfold setEntry
    split_ifs with here same same
    · rw [same, lookup_cons_if, if_pos rfl]
    · rw [lookup_cons_if, if_neg same, lookup_cons_if, if_neg fun its => same (its.trans here)]
    · rw [lookup_cons_if, if_neg fun its => here (its.symm.trans same), ih, if_pos same]
    · rw [lookup_cons_if, lookup_cons_if, ih, if_neg same]

end Event

/-- 64 hexadecimal digits. -/
def hexDigest (digest : Text) : Bool :=
  digest.length == 64 && digest.all fun c => (48 ≤ c && c ≤ 57) || (97 ≤ c && c ≤ 102)

theorem chainCanonical_ends (record : Event) : ∃ body, chainCanonical record = body ++ [125] := by
  have later : ∀ members : Members, ∃ body, Json.writeMembers members = body ++ [125] := by
    intro members
    induction members with
    | nil => exact ⟨[], rfl⟩
    | cons entry rest ih =>
      obtain ⟨k, v⟩ := entry
      obtain ⟨body, ends⟩ := ih
      exact ⟨44 :: (Json.quote k ++ 58 :: (v.write ++ body)), by simp [Json.writeMembers, ends]⟩
  unfold chainCanonical
  rw [Json.form_object]
  generalize Json.sortMembers _ = members
  cases members with
  | nil => exact ⟨[123], by simp [Json.write]⟩
  | cons entry rest =>
    obtain ⟨k, v⟩ := entry
    obtain ⟨body, ends⟩ := later rest
    exact ⟨123 :: (Json.quote k ++ 58 :: (v.write ++ body)), by simp [Json.write, ends]⟩

theorem hexDigest_last {digest : Text} (hex : hexDigest digest = true) (rest : Text) :
    digest ≠ rest ++ [125] := by
  rintro rfl
  simp [hexDigest] at hex

/-- A message tells its record and the tag before it apart. -/
theorem message_split {record other : Event} {prev prev' : Option Text}
    (first : prev = some [] ∨ ∃ t, prev = some t ∧ hexDigest t = true)
    (second : prev' = some [] ∨ ∃ t, prev' = some t ∧ hexDigest t = true)
    (same : chainCanonical record ++ prev.getD [] = chainCanonical other ++ prev'.getD []) :
    chainCanonical record = chainCanonical other ∧ prev = prev' := by
  have size {t : Text} (hex : hexDigest t = true) : t.length = 64 := by
    simp only [hexDigest, Bool.and_eq_true, beq_iff_eq] at hex
    exact hex.1
  -- a digest does not end where a canonical text ends
  have apart (r r' : Event) {t : Text} (hex : hexDigest t = true) :
      chainCanonical r ≠ chainCanonical r' ++ t := by
    intro longer
    obtain ⟨body, ends⟩ := chainCanonical_ends r
    rw [ends] at longer
    rcases List.eq_nil_or_concat t with rfl | ⟨front, last, rfl⟩
    · cases hex
    · rw [List.concat_eq_append, ← List.append_assoc] at longer
      obtain ⟨_, ends_alike⟩ := List.append_inj' longer rfl
      rw [List.concat_eq_append, ← ends_alike] at hex
      exact hexDigest_last hex front rfl
  rcases first with rfl | ⟨t, rfl, hex⟩ <;> rcases second with rfl | ⟨t', rfl, hex'⟩
  · simpa using same
  · exact absurd (by simpa using same) (apart record other hex')
  · exact absurd (by simpa using same.symm) (apart other record hex)
  · obtain ⟨contents, tags⟩ := List.append_inj' same ((size hex).trans (size hex').symm)
    exact ⟨contents, congrArg some tags⟩

namespace Hashing

variable {h : Hashing} {evolve : Bool} {key : Text} {records stream : List Event}

theorem canonical_setEntry {k : Text} (excluded : k ∈ chainExclude) (v : Json) (record : Event) :
    chainCanonical (setEntry k v record) = chainCanonical record := by
  have kept : (setEntry k v record).filter (fun entry => !chainExclude.contains entry.1) =
      record.filter fun entry => !chainExclude.contains entry.1 := by
    induction record with
    | nil => simp [setEntry, excluded]
    | cons entry rest ih =>
      unfold setEntry
      split
      · rename_i same
        have out : entry.1 ∈ chainExclude := same ▸ excluded
        simp [excluded, out]
      · rw [List.filter_cons, List.filter_cons, ih]
  rw [chainCanonical, kept, chainCanonical]

variable (evolve) in
theorem signFrom_links (text : ∀ t, h.str (.text t) = t) (prev key : Text) (records : List Event) :
    (h.signFrom evolve prev key records).map h.link =
      HashChain.sign h.mac (h.nextKey evolve) key (some prev) (records.map chainCanonical) := by
  induction records generalizing prev key with
  | nil => rfl
  | cons record rest ih =>
    have first : (lit "sig_chain") ∈ chainExclude := List.mem_cons_self
    have second : (lit "prev_sig") ∈ chainExclude := List.mem_cons_of_mem _ List.mem_cons_self
    have other : lit "prev_sig" ≠ lit "sig_chain" := by decide
    rw [signFrom, List.map_cons, ih, List.map_cons, HashChain.sign]
    congr 1
    rw [link, canonical_setEntry first, canonical_setEntry second]
    congr 1
    · rw [prevSig, Event.get, Event.lookup_setEntry, if_neg other,
        Event.lookup_setEntry, if_pos rfl]
      rfl
    · rw [sigChain, Event.lookup_setEntry, if_pos rfl, Option.getD_some, text]
      rfl

variable (h evolve) in
/-- What the verifier reports is the first broken link. -/
theorem verifyFrom_reads (prev key : Text)
    (ascii : ∀ record ∈ stream, (h.sigChain record).any (128 ≤ ·) = false)
    (i : ℕ) : ∃ report, h.verifyFrom evolve prev key i stream = some report ∧
      report.ok = report.brokenIndex.isNone ∧ report.brokenIndex =
        (HashChain.firstBroken h.mac (h.nextKey evolve) key (some prev) (stream.map h.link)).map
        (i + ·) := by
  induction stream generalizing prev key i with
  | nil => exact ⟨_, rfl, rfl, rfl⟩
  | cons record rest ih =>
    have plain := ascii record List.mem_cons_self
    rw [verifyFrom, List.map_cons, HashChain.firstBroken]
    by_cases linked : prevSig record = some prev
    · rw [if_neg (not_not.mpr linked), plain, if_neg Bool.false_ne_true]
      by_cases signed : h.sigChain record = h.hmac key (chainCanonical record ++ prev)
      · rw [if_neg (not_not.mpr signed), if_neg]
        · obtain ⟨report, reads, ok, broken⟩ := ih (h.sigChain record) (h.nextKey evolve key)
            (fun r member => ascii r (List.mem_cons_of_mem _ member)) (i + 1)
          refine ⟨report, reads, ok, broken.trans ?_⟩
          rw [Option.map_map]
          congr 1
          funext n
          exact Nat.add_right_comm i 1 n ▸ Nat.add_assoc i n 1
        · simp [link, mac, linked, signed]
      · rw [if_pos signed, if_pos (.inr fun same => signed (Option.some.inj same))]
        exact ⟨_, rfl, rfl, rfl⟩
    · rw [if_pos linked, if_pos (.inl linked)]
      exact ⟨_, rfl, rfl, rfl⟩

/-- Who has no key names digests. -/
theorem issued_digest (text : ∀ t, h.str (.text t) = t)
    (hex : ∀ k message, hexDigest (h.hmac k message) = true)
    (issued : ∀ record ∈ stream, ∃ signed ∈ h.signChain evolve records key,
      h.sigChain signed = h.sigChain record) :
    ∀ record ∈ stream, hexDigest (h.sigChain record) = true := by
  intro record member
  obtain ⟨signed, inside, its⟩ := issued record member
  have linked := List.mem_map_of_mem (f := h.link) inside
  rw [signChain, h.signFrom_links evolve text] at linked
  obtain ⟨i, found⟩ := List.getElem?_of_mem linked
  obtain ⟨_, k, _, tag⟩ := HashChain.sign_get found
  rw [← its, ← Option.some.inj tag]
  exact hex k _

theorem digest_ascii {digest : Text} (hex : hexDigest digest = true) :
    digest.any (128 ≤ ·) = false := by
  simp only [hexDigest, Bool.and_eq_true, List.all_eq_true] at hex
  rw [List.any_eq_false]
  intro c inside
  have digit := hex.2 c inside
  simp only [Bool.or_eq_true, Bool.and_eq_true, decide_eq_true_eq] at digit ⊢
  omega

/-- Tags of the chain are told apart because the messages are. -/
theorem collisionFree (hex : ∀ k message, hexDigest (h.hmac k message) = true)
    (digests : ∀ record ∈ stream, hexDigest (h.sigChain record) = true)
    (free : ∀ q ∈ h.macs evolve records stream key, ∀ q' ∈ h.macs evolve records stream key,
      h.hmac q.1 q.2 = h.hmac q'.1 q'.2 → q.2 = q'.2) :
    HashChain.CollisionFree h.mac (some [])
      (HashChain.queries h.mac (h.nextKey evolve) key (some []) (records.map chainCanonical) ++
        HashChain.checks (h.nextKey evolve) key (some []) (stream.map h.link)) := by
  have known : ∀ q ∈ HashChain.queries h.mac (h.nextKey evolve) key (some [])
      (records.map chainCanonical) ++
      HashChain.checks (h.nextKey evolve) key (some []) (stream.map h.link),
      (∃ record, chainCanonical record = q.2.1) ∧
      (q.2.2 = some [] ∨ ∃ t, q.2.2 = some t ∧ hexDigest t = true) := by
    intro q member
    rcases List.mem_append.mp member with signing | checking
    · obtain ⟨inside, before⟩ := HashChain.queries_of _ _ signing
      obtain ⟨record, _, its⟩ := List.mem_map.mp inside
      refine ⟨⟨record, its⟩, before.imp_right ?_⟩
      rintro ⟨k, c, p, tag⟩
      exact ⟨_, tag.symm, hex _ _⟩
    · obtain ⟨⟨l, inside, its⟩, before⟩ := HashChain.checks_of _ checking
      obtain ⟨record, _, rfl⟩ := List.mem_map.mp inside
      refine ⟨⟨record, its⟩, before.imp_right ?_⟩
      rintro ⟨l', inside', tag⟩
      obtain ⟨record', member', rfl⟩ := List.mem_map.mp inside'
      exact ⟨_, tag.symm, digests record' member'⟩
  refine ⟨fun q _ none => ?_, fun q member q' member' same => ?_⟩
  · have empty := hex q.1 (q.2.1 ++ q.2.2.getD [])
    rw [Option.some.inj none] at empty
    cases empty
  · obtain ⟨⟨record, its⟩, before⟩ := known q member
    obtain ⟨⟨record', its'⟩, before'⟩ := known q' member'
    have messages := free _ (List.mem_map_of_mem member) _ (List.mem_map_of_mem member')
      (Option.some.inj same)
    dsimp only at messages
    rw [← its, ← its'] at messages
    obtain ⟨contents, tags⟩ := message_split before before' messages
    exact Prod.ext (its.symm.trans (contents.trans its')) tags

end Hashing

/-- A stream of records that name tags of the chain is accepted exactly if it is the signed chain up
to some record; else the report names the first record that is not the one that was signed there. -/
theorem verify_chain_iff_prefix (h : Hashing) (evolve : Bool) (key : Text)
    (records stream : List Event)
    (text : ∀ t, h.str (.text t) = t) (hex : ∀ k message, hexDigest (h.hmac k message) = true)
    (free : ∀ q ∈ h.macs evolve records stream key, ∀ q' ∈ h.macs evolve records stream key,
      h.hmac q.1 q.2 = h.hmac q'.1 q'.2 → q.2 = q'.2)
    (issued : ∀ record ∈ stream, ∃ signed ∈ h.signChain evolve records key,
      h.sigChain signed = h.sigChain record) :
    ∃ report, h.verifyChain evolve stream key = some report ∧
      (report.ok = true ↔ stream.map h.link <+: (h.signChain evolve records key).map h.link) ∧
      ∀ i, report.brokenIndex = some i → i < stream.length ∧
        (stream.take i).map h.link <+: (h.signChain evolve records key).map h.link ∧
        ¬ (stream.take (i + 1)).map h.link <+: (h.signChain evolve records key).map h.link := by
  have chain := h.signFrom_links evolve text [] key records
  have digests := Hashing.issued_digest text hex issued
  have apart := Hashing.collisionFree hex digests free
  have prefix_iff : ∀ part : List Event, part <+: stream →
      (HashChain.firstBroken h.mac (h.nextKey evolve) key (some []) (part.map h.link) = none ↔
        part.map h.link <+: (h.signChain evolve records key).map h.link) := by
    rintro part ⟨rest, rfl⟩
    rw [Hashing.signChain, chain]
    refine HashChain.accepted_iff_prefix (apart.mono ?_) ?_
    · refine List.append_subset.mpr ⟨List.subset_append_left _ _, ?_⟩
      have cut : part.map h.link = ((part ++ rest).map h.link).take part.length := by simp
      rw [cut, HashChain.checks_take]
      exact fun q member => List.mem_append_right _ (List.take_subset _ _ member)
    · intro l member
      obtain ⟨record, inside, rfl⟩ := List.mem_map.mp member
      obtain ⟨signed, there, its⟩ := issued record (List.mem_append_left _ inside)
      refine ⟨h.link signed, ?_, congrArg some its⟩
      rw [← chain]
      exact List.mem_map_of_mem there
  obtain ⟨report, reads, ok, broken⟩ := h.verifyFrom_reads evolve [] key
    (fun record member => Hashing.digest_ascii (digests record member)) 0
  refine ⟨report, reads, ?_, ?_⟩
  · rw [← prefix_iff stream List.prefix_rfl, ok, broken]
    simp
  · intro i at_
    rw [broken] at at_
    obtain ⟨j, first, rfl⟩ := Option.map_eq_some_iff.mp at_
    rw [Nat.zero_add]
    obtain ⟨inside, before, not_with⟩ :=
      HashChain.firstBroken_eq_some h.mac (h.nextKey evolve) first
    rw [← List.map_take] at before not_with
    exact ⟨by simpa using inside, (prefix_iff _ (List.take_prefix _ _)).mp before,
      fun whole => not_with ((prefix_iff _ (List.take_prefix _ _)).mpr whole)⟩

def digestText (n : ℕ) : Text := (List.range 64).map fun i => Json.hexDigit (n / 16 ^ (63 - i) % 16)

def sampleRecords : List Event :=
  [[(lit "event", .text (lit "a"))], [(lit "event", .text (lit "b"))]]

/-- The digests under the key `k` of the messages below. -/
def sampleHashing : Hashing where
  hmac _ message :=
    if message = lit "\x7b\x22event\x22:\x22a\x22\x7d" then
      digestText 0xe6e9031e37293cf46b9e1c174aea55128af3fab052e7535b97cdd61cb380a3d4
    else if message = lit "\x7b\x22event\x22:\x22b\x22\x7d" then
      digestText 0x88256f0cdf699ef368fe8be68962f962080aab7a985915eca0f2eb52d3feda52
    else digestText 0x666ae55ae18092f5d67e310bb9780b86fa559a1452da673eeb0bc742b75d48df
  sha256 key := key
  str v := match v with
    | .text t => t
    | _ => lit "None"

/-- The second record without the first one. -/
def sampleStream : List Event := (sampleHashing.signChain false sampleRecords (lit "k")).drop 1

theorem verify_chain_iff_prefix_sample : ∃ report, sampleHashing.verifyChain false sampleStream
    (lit "k") = some report ∧
    (report.ok = true ↔ sampleStream.map sampleHashing.link <+:
      (sampleHashing.signChain false sampleRecords (lit "k")).map sampleHashing.link) ∧
    ∀ i, report.brokenIndex = some i → i < sampleStream.length ∧
      (sampleStream.take i).map sampleHashing.link <+:
        (sampleHashing.signChain false sampleRecords (lit "k")).map sampleHashing.link ∧
      ¬ (sampleStream.take (i + 1)).map sampleHashing.link <+:
        (sampleHashing.signChain false sampleRecords (lit "k")).map sampleHashing.link := by
  refine verify_chain_iff_prefix sampleHashing false (lit "k") sampleRecords sampleStream
    (fun _ => rfl) ?_ ?_ ?_
  · intro k message
    simp only [sampleHashing]
    split_ifs <;> decide
  · decide +kernel
  · intro record member
    exact ⟨record, List.mem_of_mem_drop member, rfl⟩

end Metahumotonic.Gate
