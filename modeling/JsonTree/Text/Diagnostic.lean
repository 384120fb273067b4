import JsonTree.Text.Hex
import JsonTree.Text.Unprintable

/-! Quoted text for diagnostics and log lines, where every character shows. -/

set_option autoImplicit false

namespace JsonTree.Diagnostic

/-- Characters without a glyph of their own are shown by number, in hexadecimal. -/
def escape (c : Char) : List Char :=
  if c = '\x00' then ['\\', '0']
  else if c = '\t' then ['\\', 't']
  else if c = '\r' then ['\\', 'r']
  else if c = '\n' then ['\\', 'n']
  else if c = '\\' ∨ c = '"' then ['\\', c]
  else if isUnprintable c then ['\\', 'u', '\x7b'] ++ hexChars c.toNat ++ ['\x7d']
  else [c]

def quote (content : String) : String :=
  String.ofList ('"' :: content.toList.flatMap escape ++ ['"'])

end JsonTree.Diagnostic
