import JsonTree.Path.SyntaxError
import Mathlib.Data.List.Nodup

/-! What the messages of path errors tell.

The first characters of a message tell what kind of fault it is about, and what it quotes stands
between two texts of its kind. So no two faults have one message, and what the message of a fault
names is what the fault names.
-/

set_option autoImplicit false

namespace JsonTree.Path

/-- A fault without what its message quotes. -/
def Fault.kind : Fault → Fault
  | .unexpected _ => .unexpected ' '
  | .unexpectedInName _ => .unexpectedInName ' '
  | .missingBracket _ => .missingBracket ' '
  | .badLiteral _ => .badLiteral " "
  | fault => fault

def Fault.kinds : List Fault :=
  [.emptyExpression, .missingRoot, .unexpected ' ', .unexpectedInName ' ', .blankInName,
    .missingName, .unclosedBracket, .badBracket, .missingBracket ' ', .badIndex,
    .unterminatedString, .missingParenthesis, .unclosedParenthesis, .missingItem, .missingField,
    .missingComparator, .missingLiteral, .badLiteral " ", .textAfterLiteral]

/-- So many characters tell the kinds apart and reach no quoted text. -/
def Fault.opening (fault : Fault) : List Char := fault.message.toList.take 12

theorem Fault.kind_mem (fault : Fault) : fault.kind ∈ kinds := by
  cases fault <;> exact List.mem_of_elem_eq_true rfl

theorem take_quoting {front : String} (long : 12 ≤ front.toList.length) (text other back : String) :
    (front ++ text ++ back).toList.take 12 = (front ++ other ++ back).toList.take 12 := by
  simp only [String.toList_append, List.append_assoc, List.take_append_of_le_length long]

theorem Fault.opening_kind (fault : Fault) : fault.kind.opening = fault.opening := by
  cases fault with
  | unexpected c => exact take_quoting (by decide +kernel) " " c.toString _
  | unexpectedInName c => exact take_quoting (by decide +kernel) " " c.toString _
  | missingBracket c => exact take_quoting (by decide +kernel) " " c.toString _
  | badLiteral word => exact take_quoting (by decide +kernel) " " word _
  | _ => rfl

theorem Fault.nodup_openings : (kinds.map opening).Nodup := by decide +kernel

theorem Fault.kind_of_message {fault other : Fault} (same : fault.message = other.message) :
    fault.kind = other.kind := by
  have opening : fault.kind.opening = other.kind.opening := by
    rw [fault.opening_kind, other.opening_kind, Fault.opening, Fault.opening, same]
  exact List.inj_on_of_nodup_map nodup_openings fault.kind_mem other.kind_mem opening

theorem eq_of_quoting {front back text other : String}
    (same : front ++ text ++ back = front ++ other ++ back) : text = other :=
  (String.append_right_inj front).mp ((String.append_left_inj back).mp same)

/-- No two faults have one message. -/
theorem Fault.eq_of_message {fault other : Fault} (same : fault.message = other.message) :
    fault = other := by
  have kind := kind_of_message same
  cases fault <;> cases other <;> cases kind
  case unexpected.unexpected.refl =>
    exact congrArg unexpected (String.singleton_inj.mp (eq_of_quoting same))
  case unexpectedInName.unexpectedInName.refl =>
    exact congrArg unexpectedInName (String.singleton_inj.mp (eq_of_quoting same))
  case missingBracket.missingBracket.refl =>
    exact congrArg missingBracket (String.singleton_inj.mp (eq_of_quoting same))
  case badLiteral.badLiteral.refl => exact congrArg badLiteral (eq_of_quoting same)
  all_goals rfl

def Fault.named : Fault → List (List Char)
  | .unexpected c | .unexpectedInName c | .missingBracket c => [[c]]
  | .unclosedBracket => [['[']]
  | .unclosedParenthesis => [['(']]
  | .unterminatedString => [['\''], ['"']]
  | .badLiteral word => [word.toList]
  | _ => [[]]

def Fault.Begins (fault : Fault) (text : List Char) : Prop := ∃ front ∈ fault.named, front <+: text

theorem Fault.Begins.append {fault : Fault} {text : List Char} (begins : fault.Begins text)
    (rest : List Char) : fault.Begins (text ++ rest) :=
  begins.imp fun _ ⟨member, front⟩ => ⟨member, front.trans (List.prefix_append text rest)⟩

theorem Fault.Begins.any {fault : Fault} {text : List Char} (named : fault.named = [[]]) :
    fault.Begins text :=
  ⟨[], named ▸ List.mem_singleton_self _, List.nil_prefix⟩

theorem Fault.Begins.cons {fault : Fault} {c : Char} {rest : List Char}
    (named : fault.named = [[c]]) : fault.Begins (c :: rest) :=
  ⟨[c], named ▸ List.mem_singleton_self _, ⟨rest, rfl⟩⟩

structure Names (message : String) (text : List Char) : Prop where
  openBracket : message = "unclosed '['" → text.head? = some '['
  openParenthesis : message = "unclosed '('" → text.head? = some '('
  openQuote : message = "unterminated string" → text.head? = some '\'' ∨ text.head? = some '"'
  character : ∀ c : Char, message = "unexpected character '" ++ c.toString ++ "'" →
    text.head? = some c
  inName : ∀ c : Char, message = "unexpected '" ++ c.toString ++ "' in member name" →
    text.head? = some c
  notClosing : ∀ c : Char, message = "expected ']', found '" ++ c.toString ++ "'" →
    text.head? = some c
  word : ∀ word : String, message = "invalid filter literal '" ++ word ++ "'" →
    word.toList <+: text

theorem Fault.Begins.head?_eq {fault : Fault} {c : Char} {text : List Char}
    (begins : fault.Begins text) (named : fault.named = [[c]]) : text.head? = some c := by
  obtain ⟨front, member, rest, rfl⟩ := begins
  rw [named, List.mem_singleton] at member
  rw [member]
  rfl

theorem Fault.Begins.names {fault : Fault} {text : List Char} (begins : fault.Begins text) :
    Names fault.message text where
  openBracket message := by
    obtain rfl : fault = unclosedBracket := eq_of_message message
    exact begins.head?_eq rfl
  openParenthesis message := by
    obtain rfl : fault = unclosedParenthesis := eq_of_message message
    exact begins.head?_eq rfl
  openQuote message := by
    obtain rfl : fault = unterminatedString := eq_of_message message
    obtain ⟨_, member, rest, rfl⟩ := begins
    rcases List.mem_pair.mp member with rfl | rfl
    · exact .inl rfl
    · exact .inr rfl
  character c message := by
    obtain rfl : fault = unexpected c := eq_of_message message
    exact begins.head?_eq rfl
  inName c message := by
    obtain rfl : fault = unexpectedInName c := eq_of_message message
    exact begins.head?_eq rfl
  notClosing c message := by
    obtain rfl : fault = missingBracket c := eq_of_message message
    exact begins.head?_eq rfl
  word word message := by
    obtain rfl : fault = badLiteral word := eq_of_message message
    obtain ⟨_, member, front⟩ := begins
    exact List.mem_singleton.mp member ▸ front

end JsonTree.Path
