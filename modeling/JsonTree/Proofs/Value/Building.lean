import JsonTree.Proofs.Patch.Keys
import JsonTree.Proofs.Related
import JsonTree.Proofs.Value.Foreign
import JsonTree.Proofs.Value.RoundTrip

/-! Objects made from pairs whose keys may come again.

Whichever way an object is made, a key stands where it first came and has the value that came
last: pairs put in one by one, pairs that another library has collected before, or a text that
lists the pairs. So no object that is ever made has a key twice.
-/

set_option autoImplicit false

namespace JsonTree

namespace Members

theorem keys_ofPairs (pairs : List (String × Value)) :
    keys (ofPairs pairs) = (keys pairs).eraseDups := by
  induction pairs using List.reverseRecOn with
  | nil => rfl
  | append_singleton pairs pair ih =>
    rw [ofPairs_concat, keys_put, ih, keys_append, keys_cons, keys_nil, eraseDups_concat]
    simp only [List.mem_eraseDups]

theorem get?_ofPairs (key : String) (pairs : List (String × Value)) :
    get? key (ofPairs pairs) = get? key pairs.reverse := by
  induction pairs using List.reverseRecOn with
  | nil => rfl
  | append_singleton pairs pair ih =>
    obtain ⟨name, value⟩ := pair
    rw [ofPairs_concat, List.reverse_append, List.reverse_singleton, List.singleton_append]
    by_cases same : name = key
    · rw [same, get?_put_self, get?_cons_self]
    · rw [get?_put_of_ne same, ih, get?_cons_of_ne (Ne.symm same)]

theorem get?_ofPairs_eq_some_iff {key : String} {value : Value} {pairs : List (String × Value)} :
    get? key (ofPairs pairs) = some value
      ↔ ∃ front back, pairs = front ++ (key, value) :: back ∧ key ∉ keys back := by
  rw [get?_ofPairs]
  constructor
  · intro found
    obtain ⟨later, earlier, split, absent⟩ := split_of_get? found
    refine ⟨earlier.reverse, later.reverse, ?_, by simpa [keys] using absent⟩
    simpa using congrArg List.reverse split
  · rintro ⟨front, back, rfl, absent⟩
    have later : key ∉ keys back.reverse := by simpa [keys] using absent
    rw [List.reverse_append, List.reverse_cons, List.append_assoc, get?_append_of_not_mem later]
    exact get?_cons_self key value _

end Members

namespace ForeignValue

variable {foreign : ForeignNumbers}

/-- Giving a key a value comes to the same before and after values are taken over. -/
theorem membersToValue?_insert {held : ForeignValue foreign} {value : Value}
    (taken : held.toValue? = some value) (key : String)
    {others : List (String × ForeignValue foreign)} {members : Members}
    (othersTaken : membersToValue? others = some members) :
    membersToValue? (insert key held others) = some (Members.put key value members) := by
  induction others generalizing members with
  | nil =>
    obtain rfl := Option.some.inj othersTaken
    simp [insert, membersToValue?, taken, Members.put]
  | cons member rest ih =>
    obtain ⟨name, old⟩ := member
    simp only [membersToValue?, bind, Option.bind_eq_some_iff] at othersTaken
    obtain ⟨first, firstTaken, later, laterTaken, ⟨⟩⟩ := othersTaken
    by_cases same : name = key
    · simp [insert, same, membersToValue?, taken, laterTaken, Members.put]
    · simp [insert, same, membersToValue?, firstTaken, ih laterTaken, Members.put]

theorem membersToValue?_append {front back : List (String × ForeignValue foreign)}
    {members : Members} (taken : membersToValue? (front ++ back) = some members) :
    ∃ first second, membersToValue? front = some first ∧ membersToValue? back = some second
      ∧ members = first ++ second := by
  induction front generalizing members with
  | nil => exact ⟨[], members, rfl, taken, rfl⟩
  | cons member rest ih =>
    obtain ⟨name, held⟩ := member
    simp only [List.cons_append, membersToValue?, bind, Option.bind_eq_some_iff] at taken
    obtain ⟨value, valueTaken, later, laterTaken, ⟨⟩⟩ := taken
    obtain ⟨first, second, firstTaken, secondTaken, rfl⟩ := ih laterTaken
    exact ⟨_, second, by simp [membersToValue?, valueTaken, firstTaken]; rfl, secondTaken, rfl⟩

theorem membersToValue?_collect {pairs : List (String × ForeignValue foreign)} {values : Members}
    (taken : membersToValue? pairs = some values) :
    membersToValue? (collect pairs) = some (Members.ofPairs values) := by
  induction pairs using List.reverseRecOn generalizing values with
  | nil =>
    obtain rfl := Option.some.inj taken
    rfl
  | append_singleton pairs pair ih =>
    obtain ⟨front, last, frontTaken, lastTaken, rfl⟩ := membersToValue?_append taken
    obtain ⟨key, held⟩ := pair
    simp only [membersToValue?, bind, Option.bind_eq_some_iff] at lastTaken
    obtain ⟨value, valueTaken, _, ⟨⟩, ⟨⟩⟩ := lastTaken
    rw [Members.ofPairs_concat, collect, List.foldl_append]
    exact membersToValue?_insert valueTaken key (ih frontTaken)

theorem toValue?_collect {pairs : List (String × ForeignValue foreign)} {values : Members}
    (taken : membersToValue? pairs = some values) :
    toValue? (.object (collect pairs)) = some (.ofPairs values) := by
  rw [toValue?, membersToValue?_collect taken, Option.map_some, Value.ofPairs,
    Members.ofPairs_of_nodup (Members.nodup_ofPairs values)]
  rfl

end ForeignValue

namespace Value

theorem distinctKeys_scalar {value : Value} (scalar : value.isContainer = false) :
    value.DistinctKeys :=
  (fits_scalar (Nat.zero_le maxDepth) scalar).distinct

theorem distinctKeys_ofPairs {pairs : List (String × Value)}
    (each : ∀ pair ∈ pairs, pair.2.DistinctKeys) : (ofPairs pairs).DistinctKeys := by
  refine distinctKeys_object.mpr ⟨Members.nodup_ofPairs pairs, fun member inside => ?_⟩
  obtain ⟨pair, known, same⟩ := Members.mem_ofPairs inside
  exact same ▸ each pair known

/-- A text lists pairs as the members of one object, with any blanks between its tokens, any
escapes in its strings and any spelling of its exponents. -/
def Lists (text : String) (pairs : List (String × Value)) : Prop :=
  Lexeme.scanAll text.toList = some (object pairs).lexemes

theorem lists_chars (layout : Layout) (pairs : List (String × Value)) :
    Lists (String.ofList ((object pairs).chars layout)) pairs := by
  rw [Lists, String.toList_ofList, scanAll_chars]

/-- A text that lists pairs is read as the object that is built from them. -/
theorem Lists.parse {text : String} {pairs : List (String × Value)} (lists : Lists text pairs)
    (first : (Members.keys pairs).head? ≠ some reservedKey)
    (each : ∀ pair ∈ pairs, pair.2.Fits 1) : Value.parse text = .ok (ofPairs pairs) := by
  have room : ([] : List OpenContainer).length < maxDepth := by decide
  rw [parse_eq_ok_iff, read?, lists, Option.bind_some]
  cases pairs with
  | nil => rw [lexemes, readValue, if_pos room]; rfl
  | cons pair pairs =>
    obtain ⟨key, value⟩ := pair
    obtain ⟨head, tail⟩ := List.forall_mem_cons.mp each
    have plain : key ≠ reservedKey := fun same => first (congrArg some same)
    simp only [lexemes, List.cons_append, List.append_assoc]
    rw [readValue, if_pos room, if_neg plain, readsBack value [.object [] key] _ head,
      resume_members (fun member _ => member.2.readsBack) tail]
    rfl

/-- The values that parsing, building and patching come to. -/
inductive Produced : Value → Prop where
  | null : Produced null
  | bool (flag : Bool) : Produced (bool flag)
  | number (value : Number) : Produced (number value)
  | string (content : String) : Produced (string content)
  | array {items : List Value} : (∀ item ∈ items, Produced item) → Produced (array items)
  | object {pairs : List (String × Value)} : (∀ pair ∈ pairs, Produced pair.2) →
      Produced (ofPairs pairs)
  | inserted {members : Members} {key : String} {value : Value} : Produced (object members) →
      Produced value → Produced (object (Members.put key value members))
  | child {value child : Value} : Produced value → child ∈ value.children → Produced child
  | parsed {text : String} {value : Value} : parse text = .ok value → Produced value
  | converted {foreign : ForeignNumbers} {held : ForeignValue foreign} {value : Value} :
      held.toValue? = some value → Produced value
  | operand {text : String} {patch : Patch} {operation : Operation} {value : Value} :
      Patch.parse text = .ok patch → operation ∈ patch → value ∈ operation.value? → Produced value
  | patched {patch : Patch} {document changed : Value} :
      (∀ operation ∈ patch, ∀ value ∈ operation.value?, Produced value) → Produced document →
      Patch.apply patch document = .ok changed → Produced changed

end Value

namespace ForeignValue

variable {foreign : ForeignNumbers}

-- A foreign object may have a key twice; what is made of it has not.
mutual

theorem distinctKeys_of_toValue? (held : ForeignValue foreign) {value : Value}
    (taken : held.toValue? = some value) : value.DistinctKeys := by
  match held with
  | .null | .bool _ | .string _ =>
    rw [toValue?] at taken
    exact Option.some.inj taken ▸ Value.distinctKeys_scalar rfl
  | .number _ =>
    rw [toValue?] at taken
    obtain ⟨number, -, rfl⟩ := Option.map_eq_some_iff.mp taken
    exact Value.distinctKeys_scalar rfl
  | .array items =>
    rw [toValue?] at taken
    obtain ⟨values, inner, rfl⟩ := Option.map_eq_some_iff.mp taken
    exact Value.distinctKeys_array.mpr (distinctKeys_of_itemsToValue? items inner)
  | .object members =>
    rw [toValue?] at taken
    obtain ⟨pairs, inner, rfl⟩ := Option.map_eq_some_iff.mp taken
    exact Value.distinctKeys_ofPairs (distinctKeys_of_membersToValue? members inner)

theorem distinctKeys_of_itemsToValue? (items : List (ForeignValue foreign)) {values : List Value}
    (taken : itemsToValue? items = some values) : ∀ value ∈ values, value.DistinctKeys := by
  match items with
  | [] => exact Option.some.inj taken ▸ List.forall_mem_nil _
  | item :: rest =>
    simp only [itemsToValue?, bind, Option.bind_eq_some_iff] at taken
    obtain ⟨first, firstTaken, others, othersTaken, ⟨⟩⟩ := taken
    exact List.forall_mem_cons.mpr
      ⟨distinctKeys_of_toValue? item firstTaken, distinctKeys_of_itemsToValue? rest othersTaken⟩

theorem distinctKeys_of_membersToValue? (members : List (String × ForeignValue foreign))
    {values : Members} (taken : membersToValue? members = some values) :
    ∀ pair ∈ values, pair.2.DistinctKeys := by
  match members with
  | [] => exact Option.some.inj taken ▸ List.forall_mem_nil _
  | (key, held) :: rest =>
    simp only [membersToValue?, bind, Option.bind_eq_some_iff] at taken
    obtain ⟨first, firstTaken, others, othersTaken, ⟨⟩⟩ := taken
    exact List.forall_mem_cons.mpr
      ⟨distinctKeys_of_toValue? held firstTaken, distinctKeys_of_membersToValue? rest othersTaken⟩

end

end ForeignValue

namespace Value

theorem Produced.distinctKeys {value : Value} (produced : Produced value) : value.DistinctKeys := by
  induction produced with
  | null | bool _ | number _ | string _ => exact distinctKeys_scalar rfl
  | array _ ih => exact distinctKeys_array.mpr ih
  | object _ ih => exact distinctKeys_ofPairs ih
  | inserted _ _ members new =>
    obtain ⟨keys, each⟩ := distinctKeys_object.mp members
    refine distinctKeys_object.mpr ⟨Members.nodup_put keys, fun member inside => ?_⟩
    rcases Members.mem_put inside with last | earlier
    · exact last ▸ new
    · exact each member earlier
  | child _ held ih => exact (everywhere_iff.mp ih).2 _ held
  | parsed read => exact (fits_of_parse read).distinct
  | converted taken => exact ForeignValue.distinctKeys_of_toValue? _ taken
  | operand read member held => exact (Patch.fits_of_parse read _ member _ held).distinct
  | patched _ _ applied new document => exact Patch.distinctKeys_apply new document applied

/-- All ways to make an object of pairs come to the same: each key stands where it first came,
with its last value. The ways are to build it, to put the pairs into an empty map one by one, to
read a text that lists them, and to take over what another library has collected of them. And no
object that is ever parsed, built or patched has a key twice. -/
theorem repeated_keys_merged :
    (∀ pairs : List (String × Value),
        Members.keys (ofPairs pairs).members = (pairs.map Prod.fst).eraseDups
        ∧ (∀ key value, (ofPairs pairs).member? key = some value
          ↔ ∃ front back, pairs = front ++ (key, value) :: back ∧ key ∉ back.map Prod.fst)
        ∧ object (pairs.foldl (fun map pair => Members.put pair.1 pair.2 map) []) = ofPairs pairs)
      ∧ (∀ (layout : Layout) pairs, Lists (String.ofList ((object pairs).chars layout)) pairs)
      ∧ (∀ text pairs, Lists text pairs → (pairs.map Prod.fst).head? ≠ some reservedKey →
        (∀ pair ∈ pairs, pair.2.depth ≤ 126 ∧ pair.2.Unreserved ∧ pair.2.DistinctKeys) →
        parse text = .ok (ofPairs pairs))
      ∧ (∀ (foreign : ForeignNumbers) (held : List (String × ForeignValue foreign)) pairs,
        ForeignValue.membersToValue? held = some pairs →
        ForeignValue.toValue? (.object (ForeignValue.collect held)) = some (ofPairs pairs))
      ∧ ∀ value, Produced value → value.DistinctKeys := by
  refine ⟨fun pairs => ⟨?_, fun key value => ?_, rfl⟩, lists_chars, ?_, ?_,
    fun _ => Produced.distinctKeys⟩
  · exact Members.keys_ofPairs pairs
  · exact Members.get?_ofPairs_eq_some_iff
  · intro text pairs lists first each
    refine lists.parse first fun pair member => ?_
    obtain ⟨shallow, unreserved, distinct⟩ := each pair member
    have room : 1 + pair.2.depth ≤ maxDepth := by
      have limit : maxDepth = 127 := rfl
      omega
    exact ⟨room, distinct, unreserved⟩
  · exact fun _ _ _ => ForeignValue.toValue?_collect

/-- Two keys that come again, with the reserved key between them. -/
theorem repeated_keys_merged_interleaved :
    let pairs : List (String × Value) := [("b", .number (.ofInt 1)), ("a", .null),
      (reservedKey, .string "1"), ("b", .array []), ("a", .bool true)]
    let built : Value := .object [("b", .array []), ("a", .bool true), (reservedKey, .string "1")]
    let held : List (String × ForeignValue .respelledTexts) :=
      [("a", .null), ("b", .null), ("a", .bool true)]
    (∀ pair ∈ pairs, pair.2.depth ≤ 126 ∧ pair.2.Unreserved ∧ pair.2.DistinctKeys)
      ∧ parse (object pairs).pretty = .ok built
      ∧ ForeignValue.toValue? (.object (ForeignValue.collect held))
        = some (.object [("a", .bool true), ("b", .null)])
      ∧ Produced built ∧ built.DistinctKeys := by
  intro pairs built held
  obtain ⟨-, listed, texts, collected, produced⟩ := repeated_keys_merged
  have each : ∀ pair ∈ pairs, pair.2.depth ≤ 126 ∧ pair.2.Unreserved ∧ pair.2.DistinctKeys := by
    decide
  have read : parse (object pairs).pretty = .ok built :=
    texts _ pairs (listed .pretty pairs) (by decide) each
  have taken : ForeignValue.membersToValue? held
      = some [("a", .null), ("b", .null), ("a", .bool true)] := rfl
  exact ⟨each, read, collected _ held _ taken, .parsed read, produced built (.parsed read)⟩

end Value

end JsonTree
