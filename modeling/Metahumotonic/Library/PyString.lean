import Mathlib.Data.List.Basic

/-! Python strings, as far as the services trim and split them. -/
namespace Metahumotonic.Library

/-- `str.isspace` for one character. -/
def pySpace (c : Char) : Bool :=
  let n := c.toNat
  (9 ≤ n ∧ n ≤ 13) ∨ (28 ≤ n ∧ n ≤ 32) ∨ n = 0x85 ∨ n = 0xA0 ∨ n = 0x1680 ∨
    (0x2000 ≤ n ∧ n ≤ 0x200A) ∨
    n = 0x2028 ∨ n = 0x2029 ∨ n = 0x202F ∨ n = 0x205F ∨ n = 0x3000

/-- `str.strip`. -/
def pyStrip (text : List Char) : List Char :=
  ((text.dropWhile pySpace).reverse.dropWhile pySpace).reverse

end Metahumotonic.Library
