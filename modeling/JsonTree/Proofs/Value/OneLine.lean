import JsonTree.Value.Writer
import JsonTree.Proofs.Path.Printing
import JsonTree.Proofs.Text.StringLiteral
import JsonTree.Proofs.Value.Everywhere

/-! Compact texts stand on one line and are put together from those of the parts.

The compact layout writes nothing between the tokens, so how deep a value stands makes no
difference. No token has a control character, since those of a string are escaped.
-/

set_option autoImplicit false

namespace JsonTree

theorem intercalate_cons {α : Type} (separator first : List α) (others : List (List α)) :
    separator.intercalate (first :: others)
      = first ++ others.flatMap fun part => separator ++ part := by
  induction others generalizing first with
  | nil => simp
  | cons second others ih =>
    rw [List.intercalate_cons_cons, ih, List.flatMap_cons, List.append_assoc, List.append_assoc]

def Visible (text : List Char) : Prop := ∀ c ∈ text, 32 ≤ c.toNat

theorem visible_nil : Visible [] := List.forall_mem_nil _

theorem visible_cons {c : Char} {text : List Char} :
    Visible (c :: text) ↔ 32 ≤ c.toNat ∧ Visible text := List.forall_mem_cons

theorem visible_append {front back : List Char} :
    Visible (front ++ back) ↔ Visible front ∧ Visible back := List.forall_mem_append

theorem visible_flatMap {α : Type} {parts : List α} {text : α → List Char} :
    Visible (parts.flatMap text) ↔ ∀ part ∈ parts, Visible (text part) := List.forall_mem_flatMap

theorem visible_intercalate {separator : List Char} {parts : List (List Char)}
    (visible : Visible separator) (each : ∀ part ∈ parts, Visible part) :
    Visible (separator.intercalate parts) := by
  cases parts with
  | nil => exact visible_nil
  | cons first others =>
    obtain ⟨front, rest⟩ := List.forall_mem_cons.mp each
    rw [intercalate_cons, visible_append, visible_flatMap]
    exact ⟨front, fun part member => visible_append.mpr ⟨visible, rest part member⟩⟩

theorem Visible.newline_not_mem {text : List Char} (visible : Visible text) : '\n' ∉ text :=
  fun member => absurd (visible '\n' member) (by decide)

theorem hexChar_visible {n : Nat} (small : n < 16) : 32 ≤ (hexChar n).toNat := by
  revert n
  decide

theorem Number.visible_chars (number : Number) : Visible number.chars := by
  have marks : Visible ['-', '+', '.', 'e', 'E'] := forall_of_all (by decide)
  have digits : ∀ digit : Digit, 32 ≤ digit.toChar.toNat := by decide
  exact number.spelled_chars.forall_mem digits marks

namespace StringLiteral

theorem visible_escape (c : Char) : Visible (escape c) := by
  have upper (control : c.toNat < 32) : 32 ≤ (hexChar (c.toNat / 16)).toNat :=
    hexChar_visible (by omega)
  have lower : 32 ≤ (hexChar (c.toNat % 16)).toNat := hexChar_visible (by omega)
  unfold escape
  iterate 7 (split; · exact forall_of_all (by decide))
  split
  · next control => simp [visible_cons, visible_nil, upper control, lower]
  · next plain => simpa [visible_cons, visible_nil] using plain

theorem visible_encode (content : List Char) : Visible (encode content) := by
  simp [encode, visible_append, visible_cons, visible_nil, visible_flatMap, visible_escape]

end StringLiteral

namespace Value

theorem writeItems_eq (layout : Layout) (depth : Nat) (items : List Value) :
    writeItems layout depth items
      = (items.map (write layout depth)).flatMap (',' :: layout.lineBreak depth ++ ·) := by
  induction items with
  | nil => rfl
  | cons item items ih => rw [writeItems, ih, List.map_cons, List.flatMap_cons]

def writeMember (layout : Layout) (depth : Nat) (member : String × Value) : List Char :=
  StringLiteral.encode member.1.toList ++ ':' :: layout.afterColon ++ member.2.write layout depth

theorem writeMembers_eq (layout : Layout) (depth : Nat) (members : Members) :
    writeMembers layout depth members
      = (members.map (writeMember layout depth)).flatMap
        (',' :: layout.lineBreak depth ++ ·) := by
  induction members with
  | nil => rfl
  | cons member members ih =>
    obtain ⟨key, value⟩ := member
    rw [writeMembers, ih, List.map_cons, List.flatMap_cons, writeMember]
    simp only [List.cons_append, List.append_assoc]

-- In the compact layout the first part looks like the others.

theorem write_compact_array (depth : Nat) (items : List Value) :
    (array items).write .compact depth
      = '[' :: [','].intercalate (items.map (write .compact (depth + 1))) ++ [']'] := by
  cases items with
  | nil => rfl
  | cons item items =>
    simp only [write, writeItems_eq, Layout.compact, List.append_nil, List.map_cons,
      intercalate_cons, List.cons_append, List.nil_append]

theorem write_compact_object (depth : Nat) (members : Members) :
    (object members).write .compact depth
      = '\x7b' :: [','].intercalate (members.map (writeMember .compact (depth + 1)))
        ++ ['\x7d'] := by
  cases members with
  | nil => rfl
  | cons member members =>
    obtain ⟨key, value⟩ := member
    simp only [write, writeMembers_eq, Layout.compact, List.append_nil, List.map_cons,
      intercalate_cons, List.cons_append, List.nil_append, writeMember, List.append_assoc]

theorem write_compact (value : Value) (depth : Nat) :
    value.write .compact depth = value.chars .compact := by
  induction value generalizing depth with
  | array items ih =>
    rw [chars, write_compact_array, write_compact_array]
    have same : items.map (write .compact (depth + 1)) = items.map (write .compact (0 + 1)) :=
      List.map_congr_left fun item member =>
        (ih item member (depth + 1)).trans (ih item member (0 + 1)).symm
    rw [same]
  | object members ih =>
    rw [chars, write_compact_object, write_compact_object]
    have same : members.map (writeMember .compact (depth + 1))
        = members.map (writeMember .compact (0 + 1)) := by
      refine List.map_congr_left fun member inside => ?_
      rw [writeMember, writeMember, ih member inside, ih member inside]
    rw [same]
  | _ => rfl

theorem visible_compact (value : Value) : Visible (value.chars .compact) := by
  have comma : Visible [','] := forall_of_all (by decide)
  induction value with
  | null => exact forall_of_all (by decide)
  | bool flag => cases flag <;> exact forall_of_all (by decide)
  | number value => exact value.visible_chars
  | string content => exact StringLiteral.visible_encode _
  | array items ih =>
    rw [chars, write_compact_array, visible_append, visible_cons]
    refine ⟨⟨by decide, visible_intercalate comma ?_⟩, forall_of_all (by decide)⟩
    refine List.forall_mem_map.mpr fun item member => ?_
    rw [write_compact]
    exact ih item member
  | object members ih =>
    rw [chars, write_compact_object, visible_append, visible_cons]
    refine ⟨⟨by decide, visible_intercalate comma ?_⟩, forall_of_all (by decide)⟩
    refine List.forall_mem_map.mpr fun member inside => ?_
    rw [writeMember, write_compact, visible_append, visible_append, visible_cons]
    exact ⟨⟨StringLiteral.visible_encode _, by decide, visible_nil⟩, ih member inside⟩

theorem toList_compact (value : Value) : value.compact.toList = value.chars .compact :=
  String.toList_ofList

theorem newline_not_mem_compact (value : Value) : '\n' ∉ value.compact.toList := by
  rw [toList_compact]
  exact value.visible_compact.newline_not_mem

theorem compact_array (items : List Value) :
    (array items).compact = "[" ++ ",".intercalate (items.map compact) ++ "]" := by
  refine String.ext ?_
  have parts : items.map (write .compact (0 + 1)) = (items.map compact).map String.toList := by
    rw [List.map_map]
    exact List.map_congr_left fun item _ =>
      (item.write_compact (0 + 1)).trans item.toList_compact.symm
  rw [toList_compact, chars, write_compact_array, parts, String.toList_append,
    String.toList_append, String.toList_intercalate]
  rfl

end Value

end JsonTree
