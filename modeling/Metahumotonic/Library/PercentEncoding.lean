import Metahumotonic.Library.JsonCodec
import Metahumotonic.Library.Utf8

/-! Texts that were percent-encoded, and texts that were joined at a sign: what they were made of
can be told from them. -/
namespace Metahumotonic.Library
open Json

/-- A capital hexadecimal digit. -/
def percentDigit (n : ℕ) : ℕ := if n < 10 then 48 + n else 55 + n

def percentByte (b : ℕ) : Text := [37, percentDigit (b / 16), percentDigit (b % 16)]

/-- Letters, digits and the signs `-_.!~*'()`. -/
def unreserved (c : ℕ) : Bool :=
  (decide (97 ≤ c) && decide (c ≤ 122)) || (decide (65 ≤ c) && decide (c ≤ 90)) || isDigit c ||
    [45, 95, 46, 33, 126, 42, 39, 40, 41].contains c

def percentUnit (c : ℕ) : Text := if unreserved c then [c]
    else (Utf8.encodePoint c).flatMap percentByte

/-- `encodeURIComponent` of a text without surrogates. -/
def encodeURIComponent (s : Text) : Text := s.flatMap percentUnit

theorem percentDigit_injective {m n : ℕ} (hm : m < 16) (hn : n < 16)
    (same : percentDigit m = percentDigit n) :
    m = n := by
  unfold percentDigit at same
  split at same <;> split at same <;> omega

theorem percentByte_injective {b c : ℕ} (hb : b < 256) (hc : c < 256)
    (same : percentByte b = percentByte c) : b = c := by
  simp only [percentByte, List.cons.injEq, and_true, true_and] at same
  have high := percentDigit_injective (by omega) (by omega) same.1
  have low := percentDigit_injective (by omega) (by omega) same.2
  omega

theorem percentUnit_reserved {c : ℕ} (ascii : c < 128) (reserved : unreserved c = false) :
    percentUnit c = percentByte c := by
  have one : Utf8.encodePoint c = [c] := by
    rw [Utf8.encodePoint, if_pos (by omega)]
  rw [percentUnit, reserved, if_neg Bool.false_ne_true, one, List.flatMap_cons, List.flatMap_nil,
    List.append_nil]

/-- No code of an ASCII unit begins another. -/
theorem percentUnit_prefix_free {c d : ℕ} (hc : c < 128) (hd : d < 128) {x y : Text}
    (same : percentUnit c ++ x = percentUnit d ++ y) : c = d ∧ x = y := by
  have sign : unreserved 37 = false := by decide
  cases first : unreserved c with
  | true =>
    cases second : unreserved d with
    | true =>
      rw [percentUnit, percentUnit, if_pos first, if_pos second] at same
      exact List.cons.inj same
    | false =>
      rw [percentUnit_reserved hd second, percentUnit, if_pos first] at same
      have here : c = 37 := (List.cons.inj same).1
      rw [here, sign] at first
      cases first
  | false =>
    cases second : unreserved d with
    | true =>
      rw [percentUnit_reserved hc first, percentUnit, if_pos second] at same
      have here : 37 = d := (List.cons.inj same).1
      rw [← here, sign] at second
      cases second
    | false =>
      rw [percentUnit_reserved hc first, percentUnit_reserved hd second] at same
      obtain ⟨bytes, rest⟩ := List.append_inj same rfl
      exact ⟨percentByte_injective (by omega) (by omega) bytes, rest⟩

theorem percentUnit_ne_nil {c : ℕ} (ascii : c < 128) : percentUnit c ≠ [] := by
  cases held : unreserved c with
  | true =>
    rw [percentUnit, if_pos held]
    exact List.cons_ne_nil _ _
  | false =>
    rw [percentUnit_reserved ascii held]
    exact List.cons_ne_nil _ _

theorem encodeURIComponent_injective {s t : Text} (hs : ∀ c ∈ s, c < 128) (ht : ∀ c ∈ t, c < 128)
    (same : encodeURIComponent s = encodeURIComponent t) : s = t := by
  induction s generalizing t with
  | nil =>
    cases t with
    | nil => rfl
    | cons d rest =>
      rw [encodeURIComponent, encodeURIComponent, List.flatMap_nil, List.flatMap_cons, eq_comm,
        List.append_eq_nil_iff] at same
      exact absurd same.1 (percentUnit_ne_nil (ht d List.mem_cons_self))
  | cons c rest ih =>
    cases t with
    | nil =>
      rw [encodeURIComponent, encodeURIComponent, List.flatMap_nil, List.flatMap_cons,
        List.append_eq_nil_iff] at same
      exact absurd same.1 (percentUnit_ne_nil (hs c List.mem_cons_self))
    | cons d others =>
      rw [encodeURIComponent, encodeURIComponent, List.flatMap_cons, List.flatMap_cons] at same
      obtain ⟨here, later⟩ := percentUnit_prefix_free (hs c List.mem_cons_self)
        (ht d List.mem_cons_self) same
      rw [here, ih (fun e member => hs e (List.mem_cons_of_mem _ member))
        (fun e member => ht e (List.mem_cons_of_mem _ member)) later]

/-- A colon is not left as it is. -/
theorem colon_not_mem_encoded {s : Text} (ascii : ∀ c ∈ s, c < 128) :
    58 ∉ encodeURIComponent s := by
  intro member
  obtain ⟨c, here, inside⟩ := List.mem_flatMap.mp member
  have sign : unreserved 58 = false := by decide
  cases held : unreserved c with
  | true =>
    rw [percentUnit, if_pos held, List.mem_singleton] at inside
    rw [← inside, sign] at held
    cases held
  | false =>
    have small := ascii c here
    rw [percentUnit_reserved small held, percentByte] at inside
    simp only [List.mem_cons, List.not_mem_nil, or_false, percentDigit] at inside
    rcases inside with plain | high | low
    · omega
    · split at high <;> omega
    · split at low <;> omega

/-- What stands before and after the last separator. -/
theorem last_separator {α : Type*} {sign : α} {a b x y : List α} (hx : sign ∉ x) (hy : sign ∉ y)
    (same : a ++ sign :: x = b ++ sign :: y) : a = b ∧ x = y := by
  rcases List.append_eq_append_iff.mp same with ⟨gap, rfl, rest⟩ | ⟨gap, rfl, rest⟩
  · cases gap with
    | nil => exact ⟨(List.append_nil a).symm, (List.cons.inj rest).2⟩
    | cons d later => exact absurd ((List.cons.inj rest).2 ▸ List.mem_append_right _
      List.mem_cons_self) hx
  · cases gap with
    | nil => exact ⟨List.append_nil b, (List.cons.inj rest).2.symm⟩
    | cons d later => exact absurd ((List.cons.inj rest).2 ▸ List.mem_append_right _
      List.mem_cons_self) hy

end Metahumotonic.Library
