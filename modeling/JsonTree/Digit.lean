/-! Decimal digits, their characters, and the two readings of a digit string.

A digit string denotes a natural number, and every natural number has one digit
string without leading zeros. `Digit.value_ofNat` and `Digit.ofNat_value_cons` say that
the two directions undo each other.
-/

set_option autoImplicit false

namespace JsonTree

abbrev Digit := Fin 10

def Digit.toChar (digit : Digit) : Char := Char.ofNat (48 + digit.val)

def Digit.ofChar? (c : Char) : Option Digit :=
  if h : 48 ≤ c.toNat ∧ c.toNat < 58 then some ⟨c.toNat - 48, by omega⟩ else none

@[simp] theorem Digit.ofChar?_toChar (digit : Digit) : ofChar? digit.toChar = some digit := by
  revert digit
  decide

theorem Digit.ofChar?_eq_some {c : Char} {digit : Digit} (read : ofChar? c = some digit) :
    c = digit.toChar := by
  unfold ofChar? at read
  split at read
  · next range =>
    obtain rfl := Option.some.inj read
    have back : 48 + (c.toNat - 48) = c.toNat := by omega
    simp [toChar, back]
  · contradiction

def Digit.scan : List Char → List Digit × List Char
  | [] => ([], [])
  | c :: rest =>
    match ofChar? c with
    | some digit => (digit :: (scan rest).1, (scan rest).2)
    | none => ([], c :: rest)

def Digit.chars (digits : List Digit) : List Char := digits.map toChar

theorem Digit.chars_scan (text : List Char) : chars (scan text).1 ++ (scan text).2 = text := by
  induction text with
  | nil => rfl
  | cons c rest ih =>
    unfold scan
    split
    · next digit read => simp [chars, ← ofChar?_eq_some read] at ih ⊢; exact ih
    · rfl

theorem Digit.scan_length (text : List Char) : (scan text).2.length ≤ text.length := by
  have whole := congrArg List.length (chars_scan text)
  simp at whole
  omega

theorem Digit.scan_chars (digits : List Digit) (rest : List Char)
    (stop : ∀ c tail, rest = c :: tail → ofChar? c = none) :
    scan (chars digits ++ rest) = (digits, rest) := by
  induction digits with
  | nil =>
    cases rest with
    | nil => rfl
    | cons c tail => simp [chars, scan, stop c tail rfl]
  | cons digit digits ih => simp [chars] at ih ⊢; simp [scan, ih]

def Digit.all? (text : List Char) : Option (List Digit) :=
  match scan text with
  | (first :: more, []) => some (first :: more)
  | _ => none

def Digit.value (digits : List Digit) : Nat :=
  digits.foldl (fun total digit => 10 * total + digit.val) 0

@[simp] theorem Digit.value_nil : value [] = 0 := rfl

@[simp] theorem Digit.value_append_singleton (digits : List Digit) (last : Digit) :
    value (digits ++ [last]) = 10 * value digits + last.val := by
  simp [value]

def Digit.ofNatBefore (following : List Digit) (n : Nat) : List Digit :=
  if n < 10 then Fin.ofNat 10 n :: following
  else ofNatBefore (Fin.ofNat 10 n :: following) (n / 10)

theorem Digit.ofNatBefore_append (first second : List Digit) (n : Nat) :
    ofNatBefore (first ++ second) n = ofNatBefore first n ++ second := by
  induction n using Nat.strongRecOn generalizing first with
  | _ n ih =>
    rw [ofNatBefore, ofNatBefore.eq_def first n]
    split
    · rfl
    · next large => exact ih (n / 10) (by omega) (Fin.ofNat 10 n :: first)

/-- The digits of a natural number without leading zeros; zero has the one digit `0`. -/
def Digit.ofNat (n : Nat) : List Digit := ofNatBefore [] n

theorem Digit.ofNat_small {n : Nat} (small : n < 10) : ofNat n = [⟨n, small⟩] := by
  rw [ofNat, ofNatBefore]
  simp [small, Fin.ofNat, Nat.mod_eq_of_lt small]

theorem Digit.ofNat_large {n : Nat} (large : 10 ≤ n) :
    ofNat n = ofNat (n / 10) ++ [⟨n % 10, Nat.mod_lt _ (by decide)⟩] := by
  rw [ofNat, ofNatBefore, if_neg (Nat.not_lt.mpr large)]
  exact ofNatBefore_append [] [_] (n / 10)

@[simp] theorem Digit.value_ofNat (n : Nat) : value (ofNat n) = n := by
  induction n using Nat.strongRecOn with
  | _ n ih =>
    by_cases small : n < 10
    · rw [ofNat_small small]
      simp [value]
    · rw [ofNat_large (by omega), value_append_singleton, ih (n / 10) (by omega)]
      simp
      omega

theorem Digit.ofNat_ne_nil (n : Nat) : ofNat n ≠ [] := by
  by_cases small : n < 10
  · simp [ofNat_small small]
  · simp [ofNat_large (Nat.not_lt.mp small)]

theorem Digit.ofNat_value_cons (first : Digit) (more : List Digit)
    (canonical : first.val = 0 → more = []) : ofNat (value (first :: more)) = first :: more := by
  -- Division by ten takes off the last digit, so the induction is on the digits from the end.
  suffices general : ∀ (reversed : List Digit) (first : Digit), (first.val = 0 → reversed = []) →
      ofNat (value (first :: reversed.reverse)) = first :: reversed.reverse by
    simpa using general more.reverse first (by simpa using canonical)
  intro reversed
  induction reversed with
  | nil =>
    intro first _
    simp [value, ofNat_small first.isLt]
  | cons last reversed ih =>
    intro first leading
    have positive : first.val ≠ 0 := fun zero => by simpa using leading zero
    have earlier := ih first (fun zero => absurd zero positive)
    have split_last : first :: (last :: reversed).reverse
        = (first :: reversed.reverse) ++ [last] := by simp
    rw [split_last, value_append_singleton]
    have large : 1 ≤ value (first :: reversed.reverse) := by
      cases found : value (first :: reversed.reverse) with
      | zero =>
        rw [found, ofNat_small (by decide)] at earlier
        have := congrArg List.head? earlier
        simp at this
        exact absurd (by rw [← this]; rfl) positive
      | succ => omega
    have lastSmall := last.isLt
    rw [ofNat_large (by omega)]
    have quotient : (10 * value (first :: reversed.reverse) + last.val) / 10
        = value (first :: reversed.reverse) := by omega
    have remainder : (10 * value (first :: reversed.reverse) + last.val) % 10 = last.val := by omega
    simp only [quotient, remainder, earlier]

def natChars (n : Nat) : List Char := Digit.chars (Digit.ofNat n)

def intChars (n : Int) : List Char :=
  if n < 0 then '-' :: natChars n.natAbs else natChars n.natAbs

def natText (n : Nat) : String := String.ofList (natChars n)

def intText (n : Int) : String := String.ofList (intChars n)

end JsonTree
