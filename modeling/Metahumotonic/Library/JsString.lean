import Mathlib.Data.List.Lex
import Mathlib.Data.List.Sort

/-! The default order of JavaScript arrays of strings: code units of UTF-16. -/
namespace Metahumotonic.Library

def utf16Char (c : Char) : List Nat :=
  let n := c.toNat
  if n < 0x10000 then [n] else [0xD800 + (n - 0x10000) / 0x400, 0xDC00 + (n - 0x10000) % 0x400]

def utf16 (text : String) : List Nat := text.toList.flatMap utf16Char

def jsLe (a b : String) : Prop := utf16 a ≤ utf16 b

instance (a b : String) : Decidable (jsLe a b) := inferInstanceAs (Decidable (utf16 a ≤ utf16 b))

def jsSort (texts : List String) : List String := texts.insertionSort jsLe

theorem jsSort_perm (texts : List String) : (jsSort texts).Perm texts := List.perm_insertionSort _ _

@[simp] theorem mem_jsSort {text : String} {texts : List String} :
    text ∈ jsSort texts ↔ text ∈ texts := (jsSort_perm texts).mem_iff

theorem jsSort_nodup {texts : List String} (distinct : texts.Nodup) : (jsSort texts).Nodup :=
  (jsSort_perm texts).nodup_iff.mpr distinct

theorem jsSort_nil_iff {texts : List String} : jsSort texts = [] ↔ texts = [] := by
  rw [← List.length_eq_zero_iff, (jsSort_perm texts).length_eq, List.length_eq_zero_iff]

/-- A character takes one unit outside the surrogates, or a high and a low one. -/
theorem utf16Char_append_inj {a b : Char} {x y : List Nat}
    (same : utf16Char a ++ x = utf16Char b ++ y) :
    a = b ∧ x = y := by
  have valid : ∀ c : Char, c.toNat < 0xD800 ∨ 0xDFFF < c.toNat ∧ c.toNat < 0x110000 :=
    fun c => c.valid
  have left := valid a
  have right := valid b
  suffices h : a.toNat = b.toNat ∧ x = y from ⟨Char.toNat_inj.mp h.1, h.2⟩
  simp only [utf16Char] at same
  split at same <;> split at same <;>
    simp only [List.cons_append, List.nil_append, List.cons.injEq] at same
  · exact same
  · exact absurd same.1 (by omega)
  · exact absurd same.1 (by omega)
  · exact ⟨by omega, same.2.2⟩

theorem utf16_injective : Function.Injective utf16 := by
  have lists : ∀ a b : List Char, a.flatMap utf16Char = b.flatMap utf16Char → a = b := by
    intro a
    induction a with
    | nil =>
      intro b same
      cases b with
      | nil => rfl
      | cons c rest =>
        simp only [List.flatMap_nil, List.flatMap_cons, utf16Char] at same
        split at same <;> simp at same
    | cons c rest ih =>
      intro b same
      cases b with
      | nil =>
        simp only [List.flatMap_nil, List.flatMap_cons, utf16Char] at same
        split at same <;> simp at same
      | cons d more =>
        simp only [List.flatMap_cons] at same
        obtain ⟨rfl, tail⟩ := utf16Char_append_inj same
        rw [ih more tail]
  exact fun a b same => String.toList_inj.mp (lists _ _ same)

instance : IsTrans String jsLe := ⟨fun _ _ _ ab bc => le_trans (α := List Nat) ab bc⟩

instance : Std.Total jsLe := ⟨fun a b => le_total (utf16 a) (utf16 b)⟩

instance : Std.Antisymm jsLe := ⟨fun _ _ ab ba => utf16_injective (le_antisymm ab ba)⟩

theorem jsSort_pairwise (texts : List String) : (jsSort texts).Pairwise jsLe :=
  List.pairwise_insertionSort _ _

/-- The same texts in another order are sorted alike. -/
theorem jsSort_eq_of_perm {texts other : List String} (same : texts.Perm other) :
    jsSort texts = jsSort other :=
  ((jsSort_perm texts).trans (same.trans (jsSort_perm other).symm)).eq_of_pairwise'
    (jsSort_pairwise texts) (jsSort_pairwise other)

/-- What the pattern of white space matches. -/
def jsSpace (c : Char) : Bool :=
  let n := c.toNat
  (9 ≤ n ∧ n ≤ 13) ∨ n = 0x20 ∨ n = 0xA0 ∨ n = 0x1680 ∨ (0x2000 ≤ n ∧ n ≤ 0x200A) ∨ n = 0x2028 ∨
    n = 0x2029 ∨ n = 0x202F ∨ n = 0x205F ∨ n = 0x3000 ∨ n = 0xFEFF

/-- Replace every run of white space by one blank. -/
def collapse (spaced : Bool) : List Char → List Char
  | [] => []
  | c :: rest =>
    if jsSpace c then if spaced then collapse true rest else ' ' :: collapse true rest
    else c :: collapse false rest

def jsTrim (text : List Char) : List Char :=
  ((text.dropWhile jsSpace).reverse.dropWhile jsSpace).reverse

/-- The text on one line. -/
def oneLine (text : String) : String := String.ofList (jsTrim (collapse false text.toList))

example : jsSort ["b", "a", "B", "10", "9"] = ["10", "9", "B", "a", "b"] := by decide

end Metahumotonic.Library
