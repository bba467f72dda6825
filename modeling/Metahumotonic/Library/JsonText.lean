import Mathlib.Data.List.Basic
import Mathlib.Data.List.Sort
import Metahumotonic.Library.Table

/-! JSON text of strings and of objects with string values, written without
optional blanks. Text outside the control range is not escaped. The encoding is
injective: a closing quote is recognised without looking at what follows it. -/
namespace Metahumotonic.Library.JsonText

def shortEscapes : List (Char × Char) :=
  [('\x22', '\x22'), ('\x5c', '\x5c'), ('\n', 'n'), ('\r', 'r'), ('\t', 't'), ('\x0c', 'f'),
    ('\x08', 'b')]

def hexDigit (n : Nat) : Char := if n < 10 then Char.ofNat (48 + n) else Char.ofNat (87 + n)

def escape (c : Char) : List Char :=
  match shortEscapes.lookup c with
  | some k => ['\x5c', k]
  | none =>
    if c.toNat < 32 then ['\x5c', 'u', '0', '0', hexDigit (c.toNat / 16), hexDigit (c.toNat % 16)]
    else [c]

def escapeAll (cs : List Char) : List Char := cs.flatMap escape

def quote (s : String) : List Char := '\x22' :: (escapeAll s.toList ++ ['\x22'])

def member (field : String × String) : List Char := quote field.1 ++ ':' :: quote field.2

def laterMembers : List (String × String) → List Char
  | [] => ['\x7d']
  | field :: rest => ',' :: (member field ++ laterMembers rest)

def members : List (String × String) → List Char
  | [] => ['\x7d']
  | field :: rest => member field ++ laterMembers rest

/-- The text of an object whose members are written in the order of their keys. -/
def dumps (fields : List (String × String)) : String :=
  String.ofList ('\x7b' :: members (fields.insertionSort (fun a b => a.1 ≤ b.1)))

theorem shortEscapes_injective {c d k : Char} (hc : shortEscapes.lookup c = some k)
    (hd : shortEscapes.lookup d = some k) : c = d := by
  have distinct : ∀ p ∈ shortEscapes, ∀ q ∈ shortEscapes, p.2 = q.2 → p.1 = q.1 := by decide
  exact distinct _ (Table.mem_of_lookup hc) _ (Table.mem_of_lookup hd) rfl

theorem shortEscapes_not_unicode {c k : Char} (hc : shortEscapes.lookup c = some k) : k ≠ 'u' := by
  have never : ∀ p ∈ shortEscapes, p.2 ≠ 'u' := by decide
  exact never _ (Table.mem_of_lookup hc)

theorem hexDigit_injective {m n : Nat} (hm : m < 16) (hn : n < 16) (h : hexDigit m = hexDigit n) :
    m = n := by
  have all : ∀ m < 16, ∀ n < 16, hexDigit m = hexDigit n → m = n := by decide
  exact all m hm n hn h

/-- A character that is written as itself is neither a quote nor a backslash. -/
theorem plain_differs {c : Char} (plain : shortEscapes.lookup c = none) : c ≠ '\x22' ∧
    c ≠ '\x5c' := by
  constructor <;> rintro rfl <;> exact absurd plain (by decide)

/-- The three ways of writing a character. -/
theorem escape_cases (c : Char) :
    (∃ k, shortEscapes.lookup c = some k ∧ escape c = ['\x5c', k]) ∨
    (c.toNat < 32 ∧
      escape c = ['\x5c', 'u', '0', '0', hexDigit (c.toNat / 16), hexDigit (c.toNat % 16)]) ∨
    (c ≠ '\x22' ∧ c ≠ '\x5c' ∧ escape c = [c]) := by
  cases found : shortEscapes.lookup c with
  | some k => exact .inl ⟨k, rfl, by simp only [escape, found]⟩
  | none =>
    have plain := plain_differs found
    by_cases low : c.toNat < 32
    · exact .inr (.inl ⟨low, by simp only [escape, found, if_pos low]⟩)
    · exact .inr (.inr ⟨plain.1, plain.2, by simp only [escape, found, if_neg low]⟩)

theorem escape_prefix_free {c d : Char} {x y : List Char} (same : escape c ++ x = escape d ++ y) :
    c = d ∧ x = y := by
  rcases escape_cases c with ⟨k, hk, hc⟩ | ⟨lowC, hc⟩ | ⟨_, backC, hc⟩ <;>
    rcases escape_cases d with ⟨l, hl, hd⟩ | ⟨lowD, hd⟩ | ⟨_, backD, hd⟩ <;>
    simp only [hc, hd, List.cons_append, List.nil_append, List.cons.injEq, true_and] at same
  · exact ⟨shortEscapes_injective hk (same.1 ▸ hl), same.2⟩
  · exact absurd same.1 (shortEscapes_not_unicode hk)
  · exact absurd same.1.symm backD
  · exact absurd same.1.symm (shortEscapes_not_unicode hl)
  · obtain ⟨high, low, rest⟩ := same
    have hh := hexDigit_injective (by omega) (by omega) high
    have hl := hexDigit_injective (by omega) (by omega) low
    have value : c.toNat = d.toNat := by omega
    exact ⟨Char.toNat_inj.mp value, rest⟩
  · exact absurd same.1.symm backD
  · exact absurd same.1 backC
  · exact absurd same.1 backC
  · exact same

theorem escape_head (c : Char) : ∃ k rest, escape c = k :: rest ∧ k ≠ '\x22' := by
  rcases escape_cases c with ⟨k, _, hc⟩ | ⟨_, hc⟩ | ⟨ne, _, hc⟩
  · exact ⟨_, _, hc, by decide⟩
  · exact ⟨_, _, hc, by decide⟩
  · exact ⟨_, _, hc, ne⟩

theorem escapeAll_injective (cs ds : List Char) {x y : List Char}
    (same : escapeAll cs ++ '\x22' :: x = escapeAll ds ++ '\x22' :: y) : cs = ds ∧ x = y := by
  induction cs generalizing ds with
  | nil =>
    cases ds with
    | nil => simpa [escapeAll] using same
    | cons d ds =>
      obtain ⟨k, rest, hk, ne⟩ := escape_head d
      simp only [escapeAll, List.flatMap_nil, List.nil_append, List.flatMap_cons, hk,
        List.cons_append, List.cons.injEq] at same
      exact absurd same.1.symm ne
  | cons c cs ih =>
    cases ds with
    | nil =>
      obtain ⟨k, rest, hk, ne⟩ := escape_head c
      simp only [escapeAll, List.flatMap_nil, List.nil_append, List.flatMap_cons, hk,
        List.cons_append, List.cons.injEq] at same
      exact absurd same.1 ne
    | cons d ds =>
      simp only [escapeAll, List.flatMap_cons, List.append_assoc] at same
      obtain ⟨head, tail⟩ := escape_prefix_free same
      obtain ⟨eq, rest⟩ := ih ds tail
      exact ⟨by rw [head, eq], rest⟩

theorem quote_injective {s t : String} {x y : List Char} (same : quote s ++ x = quote t ++ y) :
    s = t ∧ x = y := by
  simp only [quote, List.cons_append, List.append_assoc, List.cons.injEq, true_and,
    List.nil_append] at same
  obtain ⟨chars, rest⟩ := escapeAll_injective _ _ same
  exact ⟨String.toList_inj.mp chars, rest⟩

theorem member_injective {f g : String × String} {x y : List Char}
    (same : member f ++ x = member g ++ y) : f = g ∧ x = y := by
  simp only [member, List.append_assoc, List.cons_append] at same
  obtain ⟨key, later⟩ := quote_injective same
  obtain ⟨value, rest⟩ := quote_injective (List.cons.inj later).2
  exact ⟨Prod.ext key value, rest⟩

theorem laterMembers_injective (fs gs : List (String × String))
    (same : laterMembers fs = laterMembers gs) : fs = gs := by
  induction fs generalizing gs with
  | nil =>
    cases gs with
    | nil => rfl
    | cons g gs => simp [laterMembers] at same
  | cons f fs ih =>
    cases gs with
    | nil => simp [laterMembers] at same
    | cons g gs =>
      simp only [laterMembers, List.cons.injEq, true_and] at same
      obtain ⟨head, tail⟩ := member_injective same
      rw [head, ih gs tail]

theorem members_injective (fs gs : List (String × String)) (same : members fs = members gs) :
    fs = gs := by
  cases fs with
  | nil =>
    cases gs with
    | nil => rfl
    | cons g gs => simp [members, member, quote] at same
  | cons f fs =>
    cases gs with
    | nil => simp [members, member, quote] at same
    | cons g gs =>
      simp only [members] at same
      obtain ⟨head, tail⟩ := member_injective same
      rw [head, laterMembers_injective fs gs tail]

/-- Objects with the same text have the same members. -/
theorem dumps_injective {fs gs : List (String × String)} (same : dumps fs = dumps gs) :
    fs.Perm gs := by
  have chars := String.ofList_injective same
  have sorted := members_injective _ _ (List.cons.inj chars).2
  exact (List.perm_insertionSort _ fs).symm.trans (sorted ▸ List.perm_insertionSort _ gs)

example : dumps [("kind", "Edit"), ("a\n", "say \"no\"")] =
    "\x7b\"a\\n\":\"say \\\"no\\\"\",\"kind\":\"Edit\"\x7d" := by decide

end Metahumotonic.Library.JsonText
