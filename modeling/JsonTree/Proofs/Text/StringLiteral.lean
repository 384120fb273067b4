import JsonTree.Text.StringLiteral

/-! A string literal that was written is read back, whatever characters it holds. -/

set_option autoImplicit false

namespace JsonTree.StringLiteral

def Piece.IsChar (c : Char) (piece : Piece) : Prop :=
  ∀ pieces, joinPieces none (piece :: pieces) = (joinPieces none pieces).map (c :: ·)

theorem isChar_char (c : Char) : Piece.IsChar c (.char c) := fun _ => rfl

/-- Half a pair is at `0xD800` or above, so a unit below is its character. -/
theorem isChar_unit {c : Char} (small : c.toNat < 32) : Piece.IsChar c (.unit c.toNat) := by
  intro pieces
  have high : isHighUnit c.toNat = false := by
    simp only [isHighUnit, Bool.and_eq_false_iff, decide_eq_false_iff_not]
    omega
  have low : isLowUnit c.toNat = false := by
    simp only [isLowUnit, Bool.and_eq_false_iff, decide_eq_false_iff_not]
    omega
  rw [joinPieces, high, low, Char.ofNat_toNat]
  rfl

theorem escape_cases (c : Char) :
    (∃ mark, mark ≠ 'u' ∧ shortEscape? mark = some c ∧ escape c = ['\\', mark])
      ∨ (c.toNat < 32
        ∧ escape c = ['\\', 'u', '0', '0', hexChar (c.toNat / 16), hexChar (c.toNat % 16)])
      ∨ (¬ c.toNat < 32 ∧ c ≠ '"' ∧ c ≠ '\\' ∧ escape c = [c]) := by
  unfold escape
  split
  · next same => exact .inl ⟨'"', by decide, by rw [same]; rfl, rfl⟩
  · next quote =>
    split
    · next same => exact .inl ⟨'\\', by decide, by rw [same]; rfl, rfl⟩
    · next backslash =>
      split
      · next same => exact .inl ⟨'b', by decide, by rw [same]; rfl, rfl⟩
      split
      · next same => exact .inl ⟨'f', by decide, by rw [same]; rfl, rfl⟩
      split
      · next same => exact .inl ⟨'n', by decide, by rw [same]; rfl, rfl⟩
      split
      · next same => exact .inl ⟨'r', by decide, by rw [same]; rfl, rfl⟩
      split
      · next same => exact .inl ⟨'t', by decide, by rw [same]; rfl, rfl⟩
      split
      · next control => exact .inr (.inl ⟨control, rfl⟩)
      · next plain => exact .inr (.inr ⟨plain, quote, backslash, rfl⟩)

theorem hexUnit?_control {n : Nat} (small : n < 32) :
    hexUnit? '0' '0' (hexChar (n / 16)) (hexChar (n % 16)) = some n := by
  have zero : hexValue? '0' = some 0 := by decide
  have upper : hexValue? (hexChar (n / 16)) = some (n / 16) := hexValue?_hexChar (by omega)
  have lower : hexValue? (hexChar (n % 16)) = some (n % 16) := hexValue?_hexChar (by omega)
  simp only [hexUnit?, zero, upper, lower, bind, Option.bind, pure, Option.some.injEq]
  omega

theorem scanPieces_short {mark c : Char} (letter : mark ≠ 'u') (known : shortEscape? mark = some c)
    (rest : List Char) :
    scanPieces ('\\' :: mark :: rest)
      = (scanPieces rest).map fun (pieces, left) => (.char c :: pieces, left) := by
  rw [scanPieces, known]
  · cases scanPieces rest <;> rfl
  · rintro a b c d rest same
    exact absurd same letter

theorem scanPieces_control {c : Char} (control : c.toNat < 32) (rest : List Char) :
    scanPieces ('\\' :: 'u' :: '0' :: '0' :: hexChar (c.toNat / 16) :: hexChar (c.toNat % 16)
        :: rest)
      = (scanPieces rest).map fun (pieces, left) => (.unit c.toNat :: pieces, left) := by
  rw [scanPieces, hexUnit?_control control]
  cases scanPieces rest <;> rfl

theorem scanPieces_plain {c : Char} (plain : ¬ c.toNat < 32) (quote : c ≠ '"')
    (backslash : c ≠ '\\') (rest : List Char) :
    scanPieces (c :: rest)
      = (scanPieces rest).map fun (pieces, left) => (.char c :: pieces, left) := by
  rw [scanPieces, if_neg (not_or.mpr ⟨plain, backslash⟩)]
  · cases scanPieces rest <;> rfl
  all_goals simp_all

theorem scanPieces_escape (c : Char) : ∃ piece : Piece, piece.IsChar c ∧ ∀ rest,
    scanPieces (escape c ++ rest)
      = (scanPieces rest).map fun (pieces, left) => (piece :: pieces, left) := by
  obtain ⟨mark, letter, known, written⟩ | ⟨control, written⟩ | ⟨plain, quote, backslash, written⟩ :=
    escape_cases c
  · exact ⟨.char c, isChar_char c, fun rest => written ▸ scanPieces_short letter known rest⟩
  · exact ⟨.unit c.toNat, isChar_unit control,
      fun rest => written ▸ scanPieces_control control rest⟩
  · exact ⟨.char c, isChar_char c,
      fun rest => written ▸ scanPieces_plain plain quote backslash rest⟩

theorem scan_escape (c : Char) (rest : List Char) :
    scan (escape c ++ rest) = (scan rest).map fun (content, left) => (c :: content, left) := by
  obtain ⟨piece, isChar, read⟩ := scanPieces_escape c
  rw [scan, read, scan]
  cases scanPieces rest with
  | none => rfl
  | some pair =>
    obtain ⟨pieces, left⟩ := pair
    simp only [Option.map_some, bind, Option.bind, isChar pieces]
    cases joinPieces none pieces <;> rfl

/-- What stands between the quotes of a written literal is read back from it. -/
theorem scan_escapes (content rest : List Char) :
    scan (content.flatMap escape ++ '"' :: rest) = some (content, rest) := by
  induction content with
  | nil => rfl
  | cons c content ih => rw [List.flatMap_cons, List.append_assoc, scan_escape, ih]; rfl

end JsonTree.StringLiteral
