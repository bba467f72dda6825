import Mathlib.Data.List.Basic

/-! Base64 with the URL alphabet. Padding is left off when bytes are written and put
back before they are read; the reader also takes the two symbols of the ordinary
alphabet. Bytes are numbers below 256. -/
namespace Metahumotonic.Library.Base64

def symbol (n : Nat) : Nat :=
  if n < 26 then 65 + n else if n < 52 then 71 + n else if n < 62 then n - 4 else if n = 62
    then 45 else 95

def sextet (c : Nat) : Option Nat :=
  if 65 ≤ c ∧ c ≤ 90 then some (c - 65)
  else if 97 ≤ c ∧ c ≤ 122 then some (c - 71)
  else if 48 ≤ c ∧ c ≤ 57 then some (c + 4)
  else if c = 43 ∨ c = 45 then some 62
  else if c = 47 ∨ c = 95 then some 63
  else none

def encode : List Nat → List Nat
  | [] => []
  | [a] => [symbol (a / 4), symbol (a % 4 * 16)]
  | [a, b] => [symbol (a / 4), symbol (a % 4 * 16 + b / 16), symbol (b % 16 * 4)]
  | a :: b :: c :: rest =>
    symbol (a / 4) :: symbol (a % 4 * 16 + b / 16) :: symbol (b % 16 * 4 + c / 64) ::
      symbol (c % 64) ::
      encode rest

/-- Fill up to a multiple of four with the padding sign. -/
def pad (s : List Nat) : List Nat := s ++ List.replicate ((4 - s.length % 4) % 4) 61

/-- Read groups of four; padding may end the last group only. -/
def groups : List Nat → Option (List Nat)
  | [] => some []
  | p :: q :: r :: s :: rest =>
    if r = 61 ∧ s = 61 ∧ rest = [] then do
      let w ← sextet p
      let x ← sextet q
      some [w * 4 + x / 16]
    else if s = 61 ∧ rest = [] then do
      let w ← sextet p
      let x ← sextet q
      let y ← sextet r
      some [w * 4 + x / 16, x % 16 * 16 + y / 4]
    else do
      let w ← sextet p
      let x ← sextet q
      let y ← sextet r
      let z ← sextet s
      let bytes ← groups rest
      some ([w * 4 + x / 16, x % 16 * 16 + y / 4, y % 4 * 64 + z] ++ bytes)
  | _ => none

def decode (s : List Nat) : Option (List Nat) := groups (pad s)

theorem sextet_symbol {n : Nat} (small : n < 64) : sextet (symbol n) = some n := by
  have all : ∀ m < 64, sextet (symbol m) = some m := by decide
  exact all n small

/-- A symbol is a letter, a digit, a hyphen or an underscore. -/
def plain (c : Nat) : Bool :=
  (65 ≤ c && c ≤ 90) || (97 ≤ c && c ≤ 122) || (48 ≤ c && c ≤ 57) || c == 45 || c == 95

theorem symbol_plain (n : Nat) : plain (symbol n) = true := by
  by_cases small : n < 64
  · have all : ∀ m < 64, plain (symbol m) = true := by decide
    exact all n small
  · have high : symbol n = 95 := by
      unfold symbol
      rw [if_neg (by omega), if_neg (by omega), if_neg (by omega), if_neg (by omega)]
    rw [high]
    decide

theorem symbol_ne_pad (n : Nat) : symbol n ≠ 61 := by
  intro same
  have none_ := symbol_plain n
  rw [same] at none_
  exact absurd none_ (by decide)

theorem encode_plain (bytes : List Nat) : ∀ c ∈ encode bytes, plain c = true := by
  induction bytes using encode.induct with
  | case1 => exact List.forall_mem_nil _
  | case2 a => simp [encode, symbol_plain]
  | case3 a b => simp [encode, symbol_plain]
  | case4 a b c rest ih => simpa [encode, symbol_plain] using ih

theorem encode_no_dot (bytes : List Nat) : ∀ c ∈ encode bytes, c ≠ 46 := by
  intro c member same
  have plain := encode_plain bytes c member
  rw [same] at plain
  exact absurd plain (by decide)

/-- The first dot separates what is written before it. -/
theorem split_dot {xs : List Nat} (ys : List Nat) (plain : ∀ c ∈ xs, c ≠ 46) :
    (xs ++ 46 :: ys).takeWhile (· != 46) = xs ∧
    (xs ++ 46 :: ys).dropWhile (· != 46) = 46 :: ys := by
  have pass : ∀ c ∈ xs, (c != 46) = true := fun c there => bne_iff_ne.mpr (plain c there)
  constructor
  · rw [List.takeWhile_append_of_pos pass]
    simp
  · rw [List.dropWhile_append_of_pos pass]
    simp

theorem encode_length (bytes : List Nat) : (encode bytes).length = (4 * bytes.length + 2) / 3 := by
  induction bytes using encode.induct with
  | case1 => simp [encode]
  | case2 a => simp [encode]
  | case3 a b => simp [encode]
  | case4 a b c rest ih =>
    simp only [encode, List.length_cons, ih]
    omega

theorem pad_group (p q r s : Nat) (rest : List Nat) :
    pad (p :: q :: r :: s :: rest) = p :: q :: r :: s :: pad rest := by
  have same : (rest.length + 1 + 1 + 1 + 1) % 4 = rest.length % 4 := by omega
  simp [pad, same]

theorem decode_encode (bytes : List Nat) (small : ∀ b ∈ bytes, b < 256) :
    decode (encode bytes) = some bytes := by
  unfold decode
  induction bytes using encode.induct with
  | case1 => simp [encode, pad, groups]
  | case2 a =>
    have bound : a < 256 := small a (by simp)
    have high : sextet (symbol (a / 4)) = some (a / 4) := sextet_symbol (by omega)
    have low : sextet (symbol (a % 4 * 16)) = some (a % 4 * 16) := sextet_symbol (by omega)
    simp [encode, pad, groups, high, low]
    omega
  | case3 a b =>
    have boundA : a < 256 := small a (by simp)
    have boundB : b < 256 := small b (by simp)
    have first : sextet (symbol (a / 4)) = some (a / 4) := sextet_symbol (by omega)
    have second : sextet (symbol (a % 4 * 16 + b / 16)) = some (a % 4 * 16 + b / 16) :=
      sextet_symbol (by omega)
    have third : sextet (symbol (b % 16 * 4)) = some (b % 16 * 4) := sextet_symbol (by omega)
    simp [encode, pad, groups, first, second, third, symbol_ne_pad]
    omega
  | case4 a b c rest ih =>
    have boundA : a < 256 := small a (by simp)
    have boundB : b < 256 := small b (by simp)
    have boundC : c < 256 := small c (by simp)
    have first : sextet (symbol (a / 4)) = some (a / 4) := sextet_symbol (by omega)
    have second : sextet (symbol (a % 4 * 16 + b / 16)) = some (a % 4 * 16 + b / 16) :=
      sextet_symbol (by omega)
    have third : sextet (symbol (b % 16 * 4 + c / 64)) = some (b % 16 * 4 + c / 64) :=
      sextet_symbol (by omega)
    have fourth : sextet (symbol (c % 64)) = some (c % 64) := sextet_symbol (by omega)
    have later := ih fun x there => small x (by simp [there])
    rw [encode, pad_group]
    simp [groups, first, second, third, fourth, symbol_ne_pad, later]
    omega

end Metahumotonic.Library.Base64
