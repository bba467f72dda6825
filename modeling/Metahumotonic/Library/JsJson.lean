import Metahumotonic.Library.JsonCodec
import Metahumotonic.Library.Utf8

/-! Bytes and JSON texts as JavaScript reads them. A text of JavaScript is the list of its UTF-16
code units. -/
namespace Metahumotonic.Library

namespace JsJson

open Json

/-- A code point as code units. -/
def units (c : ℕ) : Text :=
  if c < 0x10000 then [c] else [0xD800 + (c - 0x10000) / 1024, 0xDC00 + (c - 0x10000) % 1024]

def utf16 (s : Text) : Text := s.flatMap units

mutual
/-- The names and texts of a document, converted. -/
def mapTexts (f : Text → Text) : Json → Json
  | .text s => .text (f s)
  | .array items => .array (mapItems f items)
  | .object members => .object (mapMembers f members)
  | v => v
def mapItems (f : Text → Text) : List Json → List Json
  | [] => []
  | v :: rest => mapTexts f v :: mapItems f rest
def mapMembers (f : Text → Text) : Members → Members
  | [] => []
  | (k, v) :: rest => (f k, mapTexts f v) :: mapMembers f rest
end

/-- `NaN` or `Infinity` stands outside the strings: no other word of a JSON text has these letters.
-/
def hasNumberWord (quoted : Bool) : Text → Bool
  | [] => false
  | 92 :: _ :: rest => hasNumberWord quoted rest
  | c :: rest =>
    if c = 34 then hasNumberWord (!quoted) rest
    else (!quoted && (c == 78 || c == 73)) || hasNumberWord quoted rest

/-- `JSON.parse` of a text of code points. -/
def parse (s : Text) : Option Json :=
  if hasNumberWord false s then none else (loads s).map (mapTexts utf16)

/-- `new TextDecoder("utf-8", { fatal: true }).decode(bytes)`: a byte order mark is dropped. -/
def decodeBytes (bytes : List ℕ) : Option Text :=
  (Utf8.decode bytes).map fun s => if s.head? = some 0xFEFF then s.tail else s

end JsJson

end Metahumotonic.Library
