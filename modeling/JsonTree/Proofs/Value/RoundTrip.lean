import JsonTree.Value.Reader
import JsonTree.Proofs.Value.Lexemes

/-! Reading what was written gives the value back, and what is read can be written.

A text can hold the values that are not too deep, have no key twice and no object that
begins with the reserved key. Reading the tokens of such a value in front of others goes
on with the value and the others; and the open containers only ever hold such values.
-/

set_option autoImplicit false

namespace JsonTree

namespace Value

/-- No object begins with the key that marks a number. -/
def Unreserved (value : Value) : Prop :=
  value.Everywhere fun inner => (Members.keys inner.members).head? ≠ some reservedKey

instance (value : Value) : Decidable value.Unreserved :=
  inferInstanceAs (Decidable (value.Everywhere fun inner =>
    (Members.keys inner.members).head? ≠ some reservedKey))

theorem unreserved_array {items : List Value} :
    (array items).Unreserved ↔ ∀ item ∈ items, item.Unreserved :=
  everywhere_array.trans (and_iff_right nofun)

theorem unreserved_object {members : Members} :
    (object members).Unreserved
      ↔ (Members.keys members).head? ≠ some reservedKey
        ∧ ∀ member ∈ members, member.2.Unreserved :=
  everywhere_object

theorem itemsDepth_le_iff {items : List Value} {bound : Nat} :
    itemsDepth items ≤ bound ↔ ∀ item ∈ items, item.depth ≤ bound := by
  induction items with
  | nil => simp [itemsDepth]
  | cons item items ih => rw [itemsDepth, Nat.max_le, ih, List.forall_mem_cons]

theorem membersDepth_le_iff {members : Members} {bound : Nat} :
    membersDepth members ≤ bound ↔ ∀ member ∈ members, member.2.depth ≤ bound := by
  induction members with
  | nil => simp [membersDepth]
  | cons member members ih => rw [membersDepth, Nat.max_le, ih, List.forall_mem_cons]

/-- A value that a text can hold inside so many containers. -/
structure Fits (level : Nat) (value : Value) : Prop where
  shallow : level + value.depth ≤ maxDepth
  distinct : value.DistinctKeys
  unreserved : value.Unreserved

theorem fits_array_iff {level : Nat} {items : List Value} :
    (array items).Fits level ↔ level < maxDepth ∧ ∀ item ∈ items, item.Fits (level + 1) := by
  constructor
  · intro fits
    have shallow : level + (itemsDepth items + 1) ≤ maxDepth := fits.shallow
    refine ⟨by omega, fun item member => ⟨?_, ?_, ?_⟩⟩
    · have := itemsDepth_le_iff.mp (Nat.le_refl _) item member
      omega
    · exact distinctKeys_array.mp fits.distinct item member
    · exact unreserved_array.mp fits.unreserved item member
  · rintro ⟨room, each⟩
    refine ⟨?_, distinctKeys_array.mpr fun item member => (each item member).distinct,
      unreserved_array.mpr fun item member => (each item member).unreserved⟩
    have inner : itemsDepth items ≤ maxDepth - (level + 1) := by
      refine itemsDepth_le_iff.mpr fun item member => ?_
      have := (each item member).shallow
      omega
    show level + (itemsDepth items + 1) ≤ maxDepth
    omega

theorem fits_object_iff {level : Nat} {members : Members} :
    (object members).Fits level
      ↔ level < maxDepth ∧ (Members.keys members).Nodup
        ∧ (Members.keys members).head? ≠ some reservedKey
        ∧ ∀ member ∈ members, member.2.Fits (level + 1) := by
  constructor
  · intro fits
    have shallow : level + (membersDepth members + 1) ≤ maxDepth := fits.shallow
    obtain ⟨keys, distinct⟩ := distinctKeys_object.mp fits.distinct
    obtain ⟨first, unreserved⟩ := unreserved_object.mp fits.unreserved
    refine ⟨by omega, keys, first, fun member inside => ⟨?_, distinct member inside,
      unreserved member inside⟩⟩
    have := membersDepth_le_iff.mp (Nat.le_refl _) member inside
    omega
  · rintro ⟨room, keys, first, each⟩
    refine ⟨?_, distinctKeys_object.mpr ⟨keys, fun member inside => (each member inside).distinct⟩,
      unreserved_object.mpr ⟨first, fun member inside => (each member inside).unreserved⟩⟩
    have inner : membersDepth members ≤ maxDepth - (level + 1) := by
      refine membersDepth_le_iff.mpr fun member inside => ?_
      have := (each member inside).shallow
      omega
    show level + (membersDepth members + 1) ≤ maxDepth
    omega

theorem Fits.child {value child : Value} (fits : value.Fits 0)
    (held : child ∈ value.children) : child.Fits 0 := by
  have inner : child.Fits 1 := by
    cases value with
    | array items => exact (fits_array_iff.mp fits).2 child held
    | object members =>
      obtain ⟨member, inside, rfl⟩ := List.mem_map.mp held
      exact (fits_object_iff.mp fits).2.2.2 member inside
    | _ => cases held
  have shallow := inner.shallow
  exact ⟨by omega, inner.distinct, inner.unreserved⟩

/-- The tokens of a value lead to the value, whatever is open and whatever follows. -/
def ReadsBack (value : Value) : Prop :=
  ∀ opened rest, value.Fits opened.length →
    readValue opened (value.lexemes ++ rest) = resume value opened rest

theorem lexemes_ne_endArray (value : Value) (rest tail : List Lexeme) :
    value.lexemes ++ rest ≠ .endArray :: tail := by
  cases value with
  | array items => cases items <;> simp [lexemes]
  | object members => cases members <;> simp [lexemes]
  | _ => simp [lexemes]

theorem resume_items {items : List Value} (each : ∀ item ∈ items, item.ReadsBack)
    {outer : List OpenContainer} (fits : ∀ item ∈ items, item.Fits (outer.length + 1))
    (last : Value) (done : List Value) (rest : List Lexeme) :
    resume last (.array done :: outer) (itemLexemes items ++ .endArray :: rest)
      = resume (.array (done.reverse ++ last :: items)) outer rest := by
  induction items generalizing last done with
  | nil => rw [itemLexemes, List.nil_append, resume, List.reverse_cons]
  | cons item items ih =>
    obtain ⟨first, others⟩ := List.forall_mem_cons.mp each
    obtain ⟨room, inner⟩ := List.forall_mem_cons.mp fits
    rw [itemLexemes, List.cons_append, List.cons_append, List.append_assoc, resume,
      first (.array (last :: done) :: outer) _ room, ih others inner, List.reverse_cons,
      List.append_assoc]
    rfl

theorem resume_members {members : Members} (each : ∀ member ∈ members, member.2.ReadsBack)
    {outer : List OpenContainer} (fits : ∀ member ∈ members, member.2.Fits (outer.length + 1))
    (key : String) (last : Value) (done : Members) (rest : List Lexeme) :
    resume last (.object done key :: outer) (memberLexemes members ++ .endObject :: rest)
      = resume (.ofPairs (done.reverse ++ (key, last) :: members)) outer rest := by
  induction members generalizing key last done with
  | nil => rw [memberLexemes, List.nil_append, resume, List.reverse_cons]
  | cons member members ih =>
    obtain ⟨name, value⟩ := member
    obtain ⟨first, others⟩ := List.forall_mem_cons.mp each
    obtain ⟨room, inner⟩ := List.forall_mem_cons.mp fits
    simp only [memberLexemes, List.cons_append, List.append_assoc]
    rw [resume, first (.object ((key, last) :: done) name :: outer) _ room, ih others inner,
      List.reverse_cons, List.append_assoc]
    rfl

theorem readsBack (value : Value) : value.ReadsBack := by
  induction value with
  | null => intro opened rest _; rw [lexemes, List.cons_append, readValue]; rfl
  | bool flag => intro opened rest _; rw [lexemes, List.cons_append, readValue]; rfl
  | number value => intro opened rest _; rw [lexemes, List.cons_append, readValue]; rfl
  | string content => intro opened rest _; rw [lexemes, List.cons_append, readValue]; rfl
  | array items ih =>
    intro opened rest fits
    obtain ⟨room, inner⟩ := fits_array_iff.mp fits
    cases items with
    | nil => rw [lexemes, List.cons_append, List.cons_append, readValue, if_pos room]; rfl
    | cons item items =>
      obtain ⟨first, others⟩ := List.forall_mem_cons.mp ih
      obtain ⟨head, tail⟩ := List.forall_mem_cons.mp inner
      simp only [lexemes, List.cons_append, List.append_assoc]
      -- The first item is read with the array open, and the others one by one behind it.
      rw [readValue, if_pos room, first (.array [] :: opened) _ head]
      · exact resume_items others tail item [] rest
      · exact fun _ same => lexemes_ne_endArray _ _ _ same
  | object members ih =>
    intro opened rest fits
    obtain ⟨room, distinct, unreserved, inner⟩ := fits_object_iff.mp fits
    cases members with
    | nil => rw [lexemes, List.cons_append, List.cons_append, readValue, if_pos room]; rfl
    | cons member members =>
      obtain ⟨key, value⟩ := member
      obtain ⟨first, others⟩ := List.forall_mem_cons.mp ih
      obtain ⟨head, tail⟩ := List.forall_mem_cons.mp inner
      -- As the first key is not the reserved one, what follows is read as the members of an object.
      have plain : key ≠ reservedKey := fun same => unreserved (congrArg some same)
      simp only [lexemes, List.cons_append, List.append_assoc]
      rw [readValue, if_pos room, if_neg plain, first (.object [] key :: opened) _ head,
        List.nil_append, resume_members others tail, List.reverse_nil, List.nil_append, ofPairs,
        Members.ofPairs_of_nodup distinct]

/-- A written value is read back, in whatever layout it was written. -/
theorem read?_chars (layout : Layout) {value : Value} (fits : value.Fits 0) :
    read? (value.chars layout) = some value := by
  have whole := readsBack value [] [] fits
  rw [List.append_nil, resume] at whole
  rw [read?, scanAll_chars]
  exact whole

theorem fits_ofPairs {level : Nat} {pairs : List (String × Value)} (room : level < maxDepth)
    (first : (Members.keys pairs).head? ≠ some reservedKey)
    (each : ∀ pair ∈ pairs, pair.2.Fits (level + 1)) : (ofPairs pairs).Fits level := by
  refine fits_object_iff.mpr ⟨room, Members.nodup_ofPairs pairs, ?_, ?_⟩
  · rwa [Members.head?_keys_ofPairs]
  · intro member inside
    obtain ⟨pair, known, same⟩ := Members.mem_ofPairs inside
    exact same ▸ each pair known

/-- What the reader keeps: `Held` of the open containers in front of a value, and `Done` of them
and a value that has been read there. -/
structure ReadInvariant (Held : List OpenContainer → Prop)
    (Done : List OpenContainer → Value → Prop) : Prop where
  scalar {opened : List OpenContainer} {value : Value} : Held opened →
    value.isContainer = false → Done opened value
  emptyArray {opened : List OpenContainer} : Held opened → opened.length < maxDepth →
    Done opened (.array [])
  beginArray {opened : List OpenContainer} : Held opened → opened.length < maxDepth →
    Held (.array [] :: opened)
  nextItem {outer : List OpenContainer} {items : List Value} {value : Value} :
    Done (.array items :: outer) value → Held (.array (value :: items) :: outer)
  endArray {outer : List OpenContainer} {items : List Value} {value : Value} :
    Done (.array items :: outer) value → Done outer (.array (value :: items).reverse)
  emptyObject {opened : List OpenContainer} : Held opened → opened.length < maxDepth →
    Done opened (.object [])
  beginObject {opened : List OpenContainer} {key : String} : Held opened →
    opened.length < maxDepth → key ≠ reservedKey → Held (.object [] key :: opened)
  nextMember {outer : List OpenContainer} {pairs : List (String × Value)} {key next : String}
    {value : Value} : Done (.object pairs key :: outer) value →
    Held (.object ((key, value) :: pairs) next :: outer)
  endObject {outer : List OpenContainer} {pairs : List (String × Value)} {key : String}
    {value : Value} : Done (.object pairs key :: outer) value →
    Done outer (.ofPairs ((key, value) :: pairs).reverse)

mutual

/-- What the reader keeps holds of the value that it ends with. -/
theorem done_of_readValue {Held : List OpenContainer → Prop}
    {Done : List OpenContainer → Value → Prop} (kept : ReadInvariant Held Done)
    {opened : List OpenContainer} {lexemes : List Lexeme} {whole : Value} (held : Held opened)
    (read : readValue opened lexemes = some whole) : Done [] whole := by
  -- One obligation for each way that the reader goes on.
  unfold readValue at read
  split at read
  · exact done_of_resume kept (kept.scalar held rfl) read
  · exact done_of_resume kept (kept.scalar held rfl) read
  · exact done_of_resume kept (kept.scalar held rfl) read
  · exact done_of_resume kept (kept.scalar held rfl) read
  · split at read
    · next room => exact done_of_resume kept (kept.emptyArray held room) read
    · contradiction
  · split at read
    · next room => exact done_of_readValue kept (kept.beginArray held room) read
    · contradiction
  · split at read
    · next room => exact done_of_resume kept (kept.emptyObject held room) read
    · contradiction
  · split at read
    · next room =>
      split at read
      · exact done_of_readReserved kept held read
      · next plain => exact done_of_readValue kept (kept.beginObject held room plain) read
    · contradiction
  · contradiction
termination_by lexemes.length

theorem done_of_readReserved {Held : List OpenContainer → Prop}
    {Done : List OpenContainer → Value → Prop} (kept : ReadInvariant Held Done)
    {opened : List OpenContainer} {lexemes : List Lexeme} {whole : Value} (held : Held opened)
    (read : readReserved opened lexemes = some whole) : Done [] whole := by
  unfold readReserved at read
  split at read
  · split at read
    · exact done_of_resume kept (kept.scalar held rfl) read
    · contradiction
  · contradiction
termination_by lexemes.length

theorem done_of_resume {Held : List OpenContainer → Prop}
    {Done : List OpenContainer → Value → Prop} (kept : ReadInvariant Held Done)
    {opened : List OpenContainer} {lexemes : List Lexeme} {value whole : Value}
    (done : Done opened value) (read : resume value opened lexemes = some whole) :
    Done [] whole := by
  unfold resume at read
  split at read
  · exact Option.some.inj read ▸ done
  · exact done_of_readValue kept (kept.nextItem done) read
  · exact done_of_resume kept (kept.endArray done) read
  · exact done_of_readValue kept (kept.nextMember done) read
  · exact done_of_resume kept (kept.endObject done) read
  · contradiction
termination_by lexemes.length

end

/-- What has been read into the open containers fits there. -/
inductive Sound : List OpenContainer → Prop where
  | nil : Sound []
  | array {items : List Value} {outer : List OpenContainer} : outer.length < maxDepth →
      (∀ item ∈ items, item.Fits (outer.length + 1)) → Sound outer →
      Sound (.array items :: outer)
  | object {pairs : List (String × Value)} {key : String} {outer : List OpenContainer} :
      outer.length < maxDepth → (∀ pair ∈ pairs, pair.2.Fits (outer.length + 1)) →
      (∀ last, (Members.keys ((key, last) :: pairs).reverse).head? ≠ some reservedKey) →
      Sound outer → Sound (.object pairs key :: outer)

theorem head?_keys_concat {pairs : List (String × Value)} {key next : String} {value last : Value} :
    (Members.keys ((next, last) :: (key, value) :: pairs).reverse).head?
      = (Members.keys ((key, value) :: pairs).reverse).head? := by
  simp only [List.reverse_cons, Members.keys_append, List.head?_append]
  simp

theorem fits_scalar {level : Nat} {value : Value} (room : level ≤ maxDepth)
    (scalar : value.isContainer = false) : value.Fits level := by
  cases value with
  | array | object => contradiction
  | _ =>
    exact ⟨room, everywhere_iff.mpr ⟨List.nodup_nil, List.forall_mem_nil _⟩,
      everywhere_iff.mpr ⟨nofun, List.forall_mem_nil _⟩⟩

theorem Sound.length_le {opened : List OpenContainer} (sound : Sound opened) :
    opened.length ≤ maxDepth := by
  cases sound with
  | nil => exact Nat.zero_le _
  | array room | object room => exact room

/-- The open containers hold values that fit, so what is read in them fits there. -/
theorem readInvariant_fits :
    ReadInvariant Sound fun opened value => Sound opened ∧ value.Fits opened.length where
  scalar sound scalar := ⟨sound, fits_scalar sound.length_le scalar⟩
  emptyArray sound room := ⟨sound, fits_array_iff.mpr ⟨room, List.forall_mem_nil _⟩⟩
  beginArray sound room := .array room (List.forall_mem_nil _) sound
  nextItem
    | ⟨.array room each outside, fits⟩ =>
      .array room (List.forall_mem_cons.mpr ⟨fits, each⟩) outside
  endArray
    | ⟨.array room each outside, fits⟩ => by
      refine ⟨outside, fits_array_iff.mpr ⟨room, fun item member => ?_⟩⟩
      -- What has been read of the array stands there from the last item to the first.
      exact List.forall_mem_cons.mpr ⟨fits, each⟩ item (List.mem_reverse.mp member)
  emptyObject sound room :=
    ⟨sound, fits_object_iff.mpr ⟨room, List.nodup_nil, nofun, List.forall_mem_nil _⟩⟩
  beginObject sound room plain :=
    .object room (List.forall_mem_nil _) (fun _ same => plain (Option.some.inj same)) sound
  nextMember
    | ⟨.object room each first outside, fits⟩ => by
      refine .object room (List.forall_mem_cons.mpr ⟨fits, each⟩) (fun last => ?_) outside
      rw [head?_keys_concat]
      exact first _
  endObject
    | ⟨.object room each first outside, fits⟩ => by
      refine ⟨outside, fits_ofPairs room (first _) fun pair member => ?_⟩
      rcases List.mem_cons.mp (List.mem_reverse.mp member) with rfl | earlier
      · exact fits
      · exact each pair earlier

theorem parse_eq_ok_iff {text : String} {value : Value} :
    parse text = .ok value ↔ read? text.toList = some value := by
  unfold parse
  cases read? text.toList <;> simp

theorem parse_written (layout : Layout) {value : Value} (fits : value.Fits 0) :
    parse (String.ofList (value.chars layout)) = .ok value := by
  rw [parse_eq_ok_iff, String.toList_ofList]
  exact read?_chars layout fits

theorem fits_of_parse {text : String} {value : Value} (read : parse text = .ok value) :
    value.Fits 0 := by
  rw [parse_eq_ok_iff, read?, Option.bind_eq_some_iff] at read
  obtain ⟨lexemes, -, read⟩ := read
  exact (done_of_readValue readInvariant_fits .nil read).2

/-- A text of a value, with blanks behind it or not, is read as that value just when the value is
one that a text can hold. -/
theorem parse_text_iff (layout : Layout) {value : Value} {blanks : List Char}
    (blank : ∀ c ∈ blanks, isBlank c) :
    parse (String.ofList (value.chars layout ++ blanks)) = .ok value ↔ value.Fits 0 := by
  refine ⟨fits_of_parse, fun fits => ?_⟩
  have read := read?_chars layout fits
  rw [read?, scanAll_chars] at read
  rw [parse_eq_ok_iff, String.toList_ofList, read?, scanAll_chars_blanks layout value blank]
  exact read

/-- Both texts of a value are read as that value, given that the value is one a text can
hold. Every value that is read is one, so its compact text is read and written unchanged. -/
theorem parse_inverts_print :
    (∀ value : Value, value.DistinctKeys → value.Unreserved → value.depth ≤ maxDepth →
        parse value.compact = .ok value ∧ parse value.pretty = .ok value)
      ∧ ∀ (text : String) (value : Value), parse text = .ok value →
        value.DistinctKeys ∧ value.Unreserved ∧ value.depth ≤ maxDepth
          ∧ (parse value.compact).map compact = .ok value.compact := by
  constructor
  · intro value distinct unreserved shallow
    have fits : value.Fits 0 := ⟨by omega, distinct, unreserved⟩
    exact ⟨parse_written .compact fits, parse_written .pretty fits⟩
  · intro text value read
    have fits := fits_of_parse read
    have shallow := fits.shallow
    refine ⟨fits.distinct, fits.unreserved, by omega, ?_⟩
    rw [compact, parse_written .compact fits]
    rfl

/-- The reserved key may come later, and a literal keeps its zeros. -/
theorem parse_inverts_print_nested :
    let value : Value := .object [
      ("", .array [.number ⟨true, 0, [0, 5, 0], some ⟨false, 0, [7]⟩⟩, .array [], .object []]),
      (reservedKey, .string "\x01\"\\/é")]
    value.DistinctKeys ∧ value.Unreserved ∧ value.depth ≤ maxDepth
      ∧ parse value.compact = .ok value ∧ parse value.pretty = .ok value
      ∧ (parse value.compact).map compact = .ok value.compact := by
  intro value
  have distinct : value.DistinctKeys := by decide
  have unreserved : value.Unreserved := by decide
  have shallow : value.depth ≤ maxDepth := by decide
  have read := parse_inverts_print.1 value distinct unreserved shallow
  exact ⟨distinct, unreserved, shallow, read.1, read.2,
    (parse_inverts_print.2 _ _ read.1).2.2.2⟩

end Value

end JsonTree
