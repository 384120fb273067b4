import JsonTree.Value.Lexeme
import JsonTree.Value.Writer
import JsonTree.Proofs.Number.Grammar
import JsonTree.Proofs.Text.StringLiteral
import JsonTree.Proofs.Value.Everywhere

/-! The texts of a value differ in their blanks only: in every layout they have the same
tokens. -/

set_option autoImplicit false

namespace JsonTree

def Delimited (text : List Char) : Prop :=
  ∀ c tail, text = c :: tail → isBlank c = true ∨ c = ',' ∨ c = ']' ∨ c = '\x7d'

theorem delimited_nil : Delimited [] := by
  rintro _ _ ⟨⟩

theorem delimited_cons {c : Char} (mark : isBlank c = true ∨ c = ',' ∨ c = ']' ∨ c = '\x7d')
    (tail : List Char) : Delimited (c :: tail) := by
  rintro _ _ ⟨rfl, rfl⟩
  exact mark

theorem delimited_append {blanks text : List Char} (blank : ∀ c ∈ blanks, isBlank c)
    (delimited : Delimited text) : Delimited (blanks ++ text) := by
  cases blanks with
  | nil => exact delimited
  | cons c blanks => exact delimited_cons (.inl (blank c List.mem_cons_self)) _

theorem isBlank_iff {c : Char} :
    isBlank c = true ↔ c = ' ' ∨ c = '\t' ∨ c = '\n' ∨ c = '\r' := by
  simp only [isBlank, Bool.or_eq_true, beq_iff_eq, or_assoc]

theorem Delimited.endsNumber {text : List Char} (delimited : Delimited text) :
    EndsNumber text := by
  intro c tail same
  rcases delimited c tail same with blank | rfl | rfl | rfl
  · rcases isBlank_iff.mp blank with rfl | rfl | rfl | rfl <;> decide
  all_goals decide

namespace Lexeme

theorem scanAll_cons_blank {c : Char} (blank : isBlank c = true) (rest : List Char) :
    scanAll (c :: rest) = scanAll rest := by
  rw [scanAll, if_pos blank]

theorem scanAll_blanks {blanks : List Char} (blank : ∀ c ∈ blanks, isBlank c)
    (text : List Char) : scanAll (blanks ++ text) = scanAll text := by
  induction blanks with
  | nil => rfl
  | cons c blanks ih =>
    obtain ⟨first, others⟩ := List.forall_mem_cons.mp blank
    rw [List.cons_append, scanAll_cons_blank first, ih others]

theorem scanAll_next {c : Char} {tail rest : List Char} {lexeme : Lexeme} {lexemes : List Lexeme}
    (solid : isBlank c = false) (read : next? (c :: tail) = some (lexeme, rest))
    (later : scanAll rest = some lexemes) : scanAll (c :: tail) = some (lexeme :: lexemes) := by
  rw [scanAll, if_neg (by simp [solid])]
  split
  · next none => rw [none] at read; contradiction
  · next other left some =>
    rw [some] at read
    obtain ⟨rfl, rfl⟩ := Prod.mk.inj (Option.some.inj read)
    rw [later]
    rfl

theorem scanAll_mark {c : Char} {lexeme : Lexeme} (solid : isBlank c = false)
    (read : ∀ rest, next? (c :: rest) = some (lexeme, rest)) {blanks : List Char}
    (blank : ∀ c ∈ blanks, isBlank c) {text : List Char} {lexemes : List Lexeme}
    (later : scanAll text = some lexemes) :
    scanAll (c :: (blanks ++ text)) = some (lexeme :: lexemes) := by
  refine scanAll_next solid (read _) ?_
  rw [scanAll_blanks blank]
  exact later

theorem next?_number {c : Char} (start : c = '-' ∨ ∃ digit : Digit, c = digit.toChar)
    (tail : List Char) :
    next? (c :: tail)
      = (Number.scan (c :: tail)).map fun (value, rest) => (.number value, rest) := by
  have other : ['[', ']', '\x7b', '\x7d', ':', ',', 'n', 't', 'f', '"'].all (c != ·) = true := by
    rcases start with rfl | ⟨digit, rfl⟩
    · decide
    · revert digit
      decide
  unfold next?
  split <;> simp_all

theorem isBlank_start {c : Char} (start : c = '-' ∨ ∃ digit : Digit, c = digit.toChar) :
    isBlank c = false := by
  rcases start with rfl | ⟨digit, rfl⟩
  · decide
  · revert digit
    decide

theorem scanAll_number {written rest : List Char} {number : Number} {lexemes : List Lexeme}
    (spelled : Number.Spelled written number) (delimited : Delimited rest)
    (later : scanAll rest = some lexemes) :
    scanAll (written ++ rest) = some (.number number :: lexemes) := by
  have read := spelled.scan delimited.endsNumber
  obtain ⟨c, tail, rfl, start⟩ := spelled.front
  rw [List.cons_append] at read ⊢
  refine scanAll_next (isBlank_start start) ?_ later
  rw [next?_number start, read]
  rfl

theorem scanAll_string (content : String) {rest : List Char} {lexemes : List Lexeme}
    (later : scanAll rest = some lexemes) :
    scanAll (StringLiteral.encode content.toList ++ rest)
      = some (.string content :: lexemes) := by
  have read := StringLiteral.scan_escapes content.toList rest
  rw [StringLiteral.encode, List.cons_append, List.cons_append, List.append_assoc,
    List.singleton_append]
  refine scanAll_next (by decide) ?_ later
  simp only [next?, read, Option.map_some, String.ofList_toList]

end Lexeme

namespace Value

mutual

def lexemes : Value → List Lexeme
  | .null => [.null]
  | .bool flag => [.bool flag]
  | .number value => [.number value]
  | .string content => [.string content]
  | .array [] => [.beginArray, .endArray]
  | .array (item :: rest) => .beginArray :: item.lexemes ++ itemLexemes rest ++ [.endArray]
  | .object [] => [.beginObject, .endObject]
  | .object ((key, value) :: rest) =>
    .beginObject :: .string key :: .colon :: value.lexemes ++ memberLexemes rest ++ [.endObject]

def itemLexemes : List Value → List Lexeme
  | [] => []
  | item :: rest => .comma :: item.lexemes ++ itemLexemes rest

def memberLexemes : List (String × Value) → List Lexeme
  | [] => []
  | (key, value) :: rest =>
    .comma :: .string key :: .colon :: value.lexemes ++ memberLexemes rest

end

/-- Text in front of a delimiter adds its tokens to those behind it. -/
def Spells (text : List Char) (tokens : List Lexeme) : Prop :=
  ∀ rest lexemes, Delimited rest → Lexeme.scanAll rest = some lexemes →
    Lexeme.scanAll (text ++ rest) = some (tokens ++ lexemes)

variable (layout : Layout)

theorem delimited_writeItems (depth : Nat) (items : List Value) {rest : List Char}
    (delimited : Delimited rest) : Delimited (writeItems layout depth items ++ rest) := by
  cases items with
  | nil => rwa [writeItems]
  | cons item items => rw [writeItems]; exact delimited_cons (.inr (.inl rfl)) _

theorem delimited_writeMembers (depth : Nat) (members : Members) {rest : List Char}
    (delimited : Delimited rest) : Delimited (writeMembers layout depth members ++ rest) := by
  cases members with
  | nil => rwa [writeMembers]
  | cons member members => rw [writeMembers]; exact delimited_cons (.inr (.inl rfl)) _

theorem spells_writeItems (depth : Nat) {items : List Value}
    (each : ∀ item ∈ items, Spells (item.write layout depth) item.lexemes) :
    Spells (writeItems layout depth items) (itemLexemes items) := by
  induction items with
  | nil =>
    intro rest lexemes _ later
    rwa [writeItems, itemLexemes]
  | cons item items ih =>
    intro rest lexemes delimited later
    obtain ⟨first, others⟩ := List.forall_mem_cons.mp each
    have tail := ih others rest lexemes delimited later
    have inner := first _ _ (delimited_writeItems layout depth items delimited) tail
    rw [writeItems, itemLexemes]
    simp only [List.cons_append, List.append_assoc]
    exact Lexeme.scanAll_mark (by decide) (fun _ => rfl) (layout.lineBreak_blank depth) inner

theorem scanAll_member (depth : Nat) (key : String) {value : Value}
    (spells : Spells (value.write layout depth) value.lexemes) {rest : List Char}
    {lexemes : List Lexeme} (delimited : Delimited rest)
    (later : Lexeme.scanAll rest = some lexemes) :
    Lexeme.scanAll (StringLiteral.encode key.toList
        ++ ':' :: (layout.afterColon ++ (value.write layout depth ++ rest)))
      = some (.string key :: .colon :: (value.lexemes ++ lexemes)) := by
  have inner := spells rest lexemes delimited later
  apply Lexeme.scanAll_string key
  exact Lexeme.scanAll_mark (by decide) (fun _ => rfl) layout.afterColon_blank inner

theorem spells_writeMembers (depth : Nat) {members : Members}
    (each : ∀ member ∈ members, Spells (member.2.write layout depth) member.2.lexemes) :
    Spells (writeMembers layout depth members) (memberLexemes members) := by
  induction members with
  | nil =>
    intro rest lexemes _ later
    rwa [writeMembers, memberLexemes]
  | cons member members ih =>
    intro rest lexemes delimited later
    obtain ⟨key, value⟩ := member
    obtain ⟨first, others⟩ := List.forall_mem_cons.mp each
    have tail := ih others rest lexemes delimited later
    have inner := scanAll_member layout depth key first
      (delimited_writeMembers layout depth members delimited) tail
    rw [writeMembers, memberLexemes]
    simp only [List.cons_append, List.append_assoc]
    exact Lexeme.scanAll_mark (by decide) (fun _ => rfl) (layout.lineBreak_blank depth) inner

theorem scanAll_closing (depth : Nat) {mark : Char} {lexeme : Lexeme}
    (closes : mark = ']' ∧ lexeme = .endArray ∨ mark = '\x7d' ∧ lexeme = .endObject)
    {rest : List Char} {lexemes : List Lexeme} (later : Lexeme.scanAll rest = some lexemes) :
    Delimited (layout.lineBreak depth ++ mark :: rest)
      ∧ Lexeme.scanAll (layout.lineBreak depth ++ mark :: rest) = some (lexeme :: lexemes) := by
  rw [Lexeme.scanAll_blanks (layout.lineBreak_blank depth)]
  rcases closes with ⟨rfl, rfl⟩ | ⟨rfl, rfl⟩
  all_goals
    constructor
    · exact delimited_append (layout.lineBreak_blank depth) (delimited_cons (by simp) _)
    · exact Lexeme.scanAll_next (by decide) rfl later

/-- The text of a value has the tokens of the value. -/
theorem spells_write (value : Value) (depth : Nat) :
    Spells (value.write layout depth) value.lexemes := by
  induction value generalizing depth with
  | null => exact fun rest lexemes _ later => Lexeme.scanAll_next (by decide) rfl later
  | bool flag =>
    intro rest lexemes _ later
    cases flag <;> exact Lexeme.scanAll_next (by decide) rfl later
  | number value =>
    exact fun rest lexemes delimited later =>
      Lexeme.scanAll_number value.spelled_chars delimited later
  | string content => exact fun rest lexemes _ later => Lexeme.scanAll_string content later
  | array items ih =>
    intro rest lexemes delimited later
    cases items with
    | nil => exact Lexeme.scanAll_next (by decide) rfl (Lexeme.scanAll_next (by decide) rfl later)
    | cons item items =>
      obtain ⟨first, others⟩ := List.forall_mem_cons.mp ih
      -- From the back: the closing mark, the other items in front of it, then the first one.
      obtain ⟨ends, closing⟩ := scanAll_closing layout depth (.inl ⟨rfl, rfl⟩) later
      have tail := spells_writeItems layout (depth + 1) (fun item member => others item member _)
        _ _ ends closing
      have inner := first (depth + 1) _ _ (delimited_writeItems layout _ items ends) tail
      rw [write, Value.lexemes]
      simp only [List.cons_append, List.append_assoc]
      exact Lexeme.scanAll_mark (by decide) (fun _ => rfl) (layout.lineBreak_blank _) inner
  | object members ih =>
    intro rest lexemes delimited later
    cases members with
    | nil => exact Lexeme.scanAll_next (by decide) rfl (Lexeme.scanAll_next (by decide) rfl later)
    | cons member members =>
      obtain ⟨key, value⟩ := member
      obtain ⟨first, others⟩ := List.forall_mem_cons.mp ih
      obtain ⟨ends, closing⟩ := scanAll_closing layout depth (.inr ⟨rfl, rfl⟩) later
      have tail := spells_writeMembers layout (depth + 1)
        (fun member inside => others member inside _) _ _ ends closing
      have inner := scanAll_member layout (depth + 1) key (first (depth + 1))
        (delimited_writeMembers layout _ members ends) tail
      rw [write, Value.lexemes]
      simp only [List.cons_append, List.append_assoc]
      exact Lexeme.scanAll_mark (by decide) (fun _ => rfl) (layout.lineBreak_blank _) inner

theorem scanAll_chars_blanks (value : Value) {blanks : List Char}
    (blank : ∀ c ∈ blanks, isBlank c) :
    Lexeme.scanAll (value.chars layout ++ blanks) = some value.lexemes := by
  have ends := delimited_append blank delimited_nil
  have nothing := Lexeme.scanAll_blanks blank []
  rw [List.append_nil] at ends nothing
  have whole := spells_write layout value 0 blanks [] ends (by rw [nothing, Lexeme.scanAll])
  rwa [List.append_nil] at whole

theorem scanAll_chars (value : Value) :
    Lexeme.scanAll (value.chars layout) = some value.lexemes := by
  have whole := scanAll_chars_blanks layout value (List.forall_mem_nil _)
  rwa [List.append_nil] at whole

end Value

end JsonTree
