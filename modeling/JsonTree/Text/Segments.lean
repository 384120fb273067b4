/-! Texts cut at a separator. -/

set_option autoImplicit false

namespace JsonTree

def segments (separator : Char) : List Char → List (List Char)
  | [] => [[]]
  | c :: rest =>
    if c = separator then [] :: segments separator rest
    else
      match segments separator rest with
      | [] => [[c]]
      | first :: others => (c :: first) :: others

end JsonTree
