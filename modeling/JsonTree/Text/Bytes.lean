/-! Lengths of texts in bytes of UTF-8, the unit of all positions. -/

set_option autoImplicit false

namespace JsonTree

def byteLength : List Char → Nat
  | [] => 0
  | c :: rest => c.utf8Size + byteLength rest

@[simp] theorem byteLength_nil : byteLength [] = 0 := rfl

@[simp] theorem byteLength_cons (c : Char) (rest : List Char) :
    byteLength (c :: rest) = c.utf8Size + byteLength rest := rfl

@[simp] theorem byteLength_append (left right : List Char) :
    byteLength (left ++ right) = byteLength left + byteLength right := by
  induction left with
  | nil => simp
  | cons c rest ih => simp [ih, Nat.add_assoc]

/-- Cut a text behind a number of bytes. None where that is inside a character or beyond
the end. -/
def cutBytes (count : Nat) : List Char → Option (List Char × List Char)
  | [] => if count = 0 then some ([], []) else none
  | c :: rest =>
    if count = 0 then some ([], c :: rest)
    else if count < c.utf8Size then none
    else (cutBytes (count - c.utf8Size) rest).map fun (front, back) => (c :: front, back)

theorem cutBytes_append (front back : List Char) :
    cutBytes (byteLength front) (front ++ back) = some (front, back) := by
  induction front with
  | nil => cases back <;> rfl
  | cons c rest ih =>
    have size := c.utf8Size_pos
    rw [byteLength_cons, List.cons_append, cutBytes, if_neg (by omega), if_neg (by omega),
      Nat.add_sub_cancel_left, ih]
    rfl

end JsonTree
