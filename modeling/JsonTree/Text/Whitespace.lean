import JsonTree.Text.Ranges

/-! The white space of Unicode and the blanks between the tokens of a JSON text. -/

set_option autoImplicit false

namespace JsonTree

def whitespaceRanges : CharRanges :=
  [(9, 13), (32, 32), (133, 133), (160, 160), (5760, 5760), (8192, 8202), (8232, 8233),
   (8239, 8239), (8287, 8287), (12288, 12288)]

def isWhitespace (c : Char) : Bool := whitespaceRanges.holds c.toNat

/-- The four characters that may stand between the tokens of a JSON text. -/
def isBlank (c : Char) : Bool := c == ' ' || c == '\t' || c == '\n' || c == '\r'

end JsonTree
