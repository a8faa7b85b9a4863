import Mathlib

/-! Methods of Python's `str`, on lists of characters. -/

namespace EdgarSec.Foundation

/-- `str.isspace` on one character, which is also what `\s` matches. -/
def isPySpace (c : Char) : Bool :=
  let n := c.toNat
  (9 ≤ n && n ≤ 13) || (28 ≤ n && n ≤ 32) || n = 0x85 || n = 0xA0 || n = 0x1680 ||
    (0x2000 ≤ n && n ≤ 0x200A) || n = 0x2028 || n = 0x2029 || n = 0x202F || n = 0x205F || n = 0x3000

def pyStrip (text : String) : String :=
  String.ofList ((text.toList.dropWhile isPySpace).rdropWhile isPySpace)

def startsCaseless (pattern : String) (cs : List Char) : Bool :=
  pattern.toList.isPrefixOf (cs.map Char.toLower)

end EdgarSec.Foundation
