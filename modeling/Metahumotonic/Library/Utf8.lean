import Metahumotonic.Library.Json

/-! Strict UTF-8: no overlong form, no surrogate, nothing above the last code point. -/
namespace Metahumotonic.Library.Utf8

/-- The six low bits of a continuation byte. -/
def continuation (b : Nat) : Option Nat := if 0x80 ≤ b ∧ b < 0xC0 then some (b - 0x80) else none

/-- A code point that needs as many bytes as it was written with. -/
def needing (least c : Nat) (rest : List Nat) : Option (Nat × List Nat) :=
  if least ≤ c ∧ scalar c then some (c, rest) else none

def readPoint : List Nat → Option (Nat × List Nat)
  | [] => none
  | a :: rest =>
    if a < 0x80 then some (a, rest)
    else if 0xC0 ≤ a ∧ a < 0xE0 then
      match rest with
      | b :: rest => do
        let x ← continuation b
        needing 0x80 ((a - 0xC0) * 64 + x) rest
      | _ => none
    else if 0xE0 ≤ a ∧ a < 0xF0 then
      match rest with
      | b :: c :: rest => do
        let x ← continuation b
        let y ← continuation c
        needing 0x800 ((a - 0xE0) * 4096 + x * 64 + y) rest
      | _ => none
    else if 0xF0 ≤ a ∧ a < 0xF8 then
      match rest with
      | b :: c :: d :: rest => do
        let x ← continuation b
        let y ← continuation c
        let z ← continuation d
        needing 0x10000 ((a - 0xF0) * 262144 + x * 4096 + y * 64 + z) rest
      | _ => none
    else none

def decodeWithin : Nat → List Nat → Option Text
  | _, [] => some []
  | 0, _ => none
  | fuel + 1, bytes => do
    let (c, rest) ← readPoint bytes
    let cs ← decodeWithin fuel rest
    some (c :: cs)

def decode (bytes : List Nat) : Option Text := decodeWithin bytes.length bytes

/-- The bytes of a code point. -/
def encodePoint (c : Nat) : List Nat :=
  if c < 0x80 then [c]
  else if c < 0x800 then [0xC0 + c / 64, 0x80 + c % 64]
  else if c < 0x10000 then [0xE0 + c / 4096, 0x80 + c / 64 % 64, 0x80 + c % 64]
  else [0xF0 + c / 262144, 0x80 + c / 4096 % 64, 0x80 + c / 64 % 64, 0x80 + c % 64]

/-- Nothing when the text holds a surrogate. -/
def encode (s : Text) : Option (List Nat) :=
  if s.all scalar then some (s.flatMap encodePoint) else none

/-- Bytes below 128 are their own code points. -/
theorem decode_ascii (bytes : List Nat) (ascii : ∀ b ∈ bytes, b < 128) :
    decode bytes = some bytes := by
  unfold decode
  induction bytes with
  | nil => rfl
  | cons a rest ih =>
    have small := ascii a List.mem_cons_self
    have later := ih fun b there => ascii b (List.mem_cons_of_mem _ there)
    simp [decodeWithin, readPoint, small, later]

theorem continuation_low (n : Nat) : continuation (0x80 + n % 64) = some (n % 64) := by
  have small : n % 64 < 64 := Nat.mod_lt n (by decide)
  rw [continuation, if_pos (by omega), Nat.add_sub_cancel_left]

theorem readPoint_two {a : Nat} (first : 0xC0 ≤ a ∧ a < 0xE0) (x : Nat) (rest : List Nat) :
    readPoint (a :: (0x80 + x % 64) :: rest) = needing 0x80 ((a - 0xC0) * 64 + x % 64) rest := by
  have one : ¬ a < 0x80 := by omega
  simp only [readPoint, if_neg one, if_pos first, Option.bind_eq_bind]
  rw [continuation_low, Option.bind_some]

theorem readPoint_three {a : Nat} (first : 0xE0 ≤ a ∧ a < 0xF0) (x y : Nat) (rest : List Nat) :
    readPoint (a :: (0x80 + x % 64) :: (0x80 + y % 64) :: rest) =
      needing 0x800 ((a - 0xE0) * 4096 + x % 64 * 64 + y % 64) rest := by
  have one : ¬ a < 0x80 := by omega
  have two : ¬ (0xC0 ≤ a ∧ a < 0xE0) := by omega
  simp only [readPoint, if_neg one, if_neg two, if_pos first, Option.bind_eq_bind]
  rw [continuation_low, Option.bind_some, continuation_low, Option.bind_some]

theorem readPoint_four {a : Nat} (first : 0xF0 ≤ a ∧ a < 0xF8) (x y z : Nat) (rest : List Nat) :
    readPoint (a :: (0x80 + x % 64) :: (0x80 + y % 64) :: (0x80 + z % 64) :: rest) =
      needing 0x10000 ((a - 0xF0) * 262144 + x % 64 * 4096 + y % 64 * 64 + z % 64) rest := by
  have one : ¬ a < 0x80 := by omega
  have two : ¬ (0xC0 ≤ a ∧ a < 0xE0) := by omega
  have three : ¬ (0xE0 ≤ a ∧ a < 0xF0) := by omega
  simp only [readPoint, if_neg one, if_neg two, if_neg three, if_pos first, Option.bind_eq_bind]
  rw [continuation_low, Option.bind_some, continuation_low, Option.bind_some, continuation_low,
    Option.bind_some]

theorem readPoint_encodePoint {c : Nat} (inside : scalar c = true) (rest : List Nat) :
    readPoint (encodePoint c ++ rest) = some (c, rest) := by
  have bound : c < 0x110000 := by
    simp only [scalar, Bool.or_eq_true, Bool.and_eq_true, decide_eq_true_eq] at inside
    omega
  have passes : ∀ least d, least ≤ c → d = c → needing least d rest = some (c, rest) := by
    rintro least _ low rfl
    rw [needing, if_pos ⟨low, inside⟩]
  unfold encodePoint
  split_ifs with one two three
  · simp [readPoint, one]
  · exact (readPoint_two (by omega) c rest).trans (passes _ _ (by omega) (by omega))
  · exact (readPoint_three (by omega) (c / 64) c rest).trans (passes _ _ (by omega) (by omega))
  · exact (readPoint_four (by omega) (c / 4096) (c / 64) c rest).trans
      (passes _ _ (by omega) (by omega))

theorem encodePoint_length_pos (c : Nat) : 0 < (encodePoint c).length := by
  unfold encodePoint
  split_ifs <;> exact Nat.succ_pos _

/-- A text without surrogates is read back from its bytes. -/
theorem decode_flatMap {s : Text} (inside : s.all scalar = true) :
    decode (s.flatMap encodePoint) = some s := by
  have within_ : ∀ fuel, (s.flatMap encodePoint).length ≤ fuel →
      decodeWithin fuel (s.flatMap encodePoint) = some s := by
    induction s with
    | nil =>
      intro fuel _
      cases fuel <;> rfl
    | cons c rest ih =>
      intro fuel enough
      have here := List.all_eq_true.mp inside c List.mem_cons_self
      have later : rest.all scalar = true :=
        List.all_eq_true.mpr fun d there => List.all_eq_true.mp inside d
          (List.mem_cons_of_mem _ there)
      have positive := encodePoint_length_pos c
      rw [List.flatMap_cons, List.length_append] at enough
      rw [List.flatMap_cons]
      cases fuel with
      | zero => omega
      | succ fuel =>
        obtain ⟨b, tail, written⟩ := List.exists_cons_of_length_pos positive
        have read := readPoint_encodePoint here (rest.flatMap encodePoint)
        rw [written, List.cons_append] at read ⊢
        simp only [decodeWithin, read, Option.bind_eq_bind, Option.bind_some,
          ih later fuel (by omega)]
  exact within_ _ (Nat.le_refl _)

theorem decode_encode {s : Text} {bytes : List Nat} (written : encode s = some bytes) :
    decode bytes = some s := by
  rw [encode, Option.ite_none_right_eq_some] at written
  obtain ⟨inside, same⟩ := written
  cases same
  exact decode_flatMap inside

end Metahumotonic.Library.Utf8
