import Metahumotonic.Library.Json
import Metahumotonic.Library.Trim

/-! What Python and JavaScript take for white space, by code point, and the ends of a text about
which they differ. -/
namespace Metahumotonic.Library

/-- `str.isspace` for one character. -/
def pyBlank (c : ℕ) : Bool :=
  (9 ≤ c && c ≤ 13) || (28 ≤ c && c ≤ 32) || c == 0x85 || c == 0xA0 || c == 0x1680 ||
    (0x2000 ≤ c && c ≤ 0x200A) || c == 0x2028 || c == 0x2029 || c == 0x202F || c ==
      0x205F || c == 0x3000

/-- What `String.prototype.trim` removes. -/
def jsBlank (c : ℕ) : Bool :=
  (9 ≤ c && c ≤ 13) || c == 0x20 || c == 0xA0 || c == 0x1680 || (0x2000 ≤ c && c ≤ 0x200A) || c
    == 0x2028 ||
    c == 0x2029 || c == 0x202F || c == 0x205F || c == 0x3000 || c == 0xFEFF

/-- The blanks of one language only. -/
def disputed (c : ℕ) : Bool := (28 ≤ c && c ≤ 31) || c == 0x85 || c == 0xFEFF

theorem disputed_iff (c : ℕ) : pyBlank c = jsBlank c ↔ disputed c = false := by
  rw [Bool.eq_iff_iff, Bool.eq_false_iff]
  simp only [pyBlank, jsBlank, disputed, Bool.or_eq_true, Bool.and_eq_true, decide_eq_true_eq,
    beq_iff_eq, ne_eq]
  omega

/-- After the blanks of both languages are gone, none of one language only is at an end. -/
def EndsPlain (text : Text) : Prop := ∀ c, AtEnd c (trimBoth pyBlank jsBlank text) →
    disputed c = false

theorem trims_agree_iff (text : Text) : trim pyBlank text = trim jsBlank text ↔ EndsPlain text := by
  rw [trim_eq_trim_iff]
  exact forall_congr' fun c => imp_congr_right fun _ => disputed_iff c

end Metahumotonic.Library
