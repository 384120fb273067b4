import JsonTree.Proofs.Number.ReadBack
import JsonTree.Proofs.Number.Spelling
import JsonTree.Proofs.Value.Everywhere
import JsonTree.Value.Foreign
import JsonTree.Value.Lexeme

/-! Values can always be serialized, and come back from another library as they were.

Both rest on the texts that numbers hold. They are literals, so a library that reads literals
refuses none of them; and they are spelled canonically already, so a library that respells
nothing but exponents writes them as they are.
-/

set_option autoImplicit false

namespace JsonTree

/-- The other library reads the literals and nothing else, and of what it writes only the exponent
may be spelled in another way. -/
structure ForeignNumbers.RespellsLiterals (foreign : ForeignNumbers) : Prop where
  reads : ∀ text, (foreign.read? text).isSome = true ↔ ∃ number, Number.Spelled text number
  respells : ∀ text held, foreign.read? text = some held →
    Number.respell (foreign.chars held) = Number.respell text

def ForeignNumbers.respelledTexts : ForeignNumbers :=
  ⟨List Char, fun text => (Number.read? text).map fun _ => Number.respell text, id⟩

theorem ForeignNumbers.respellsLiterals_respelledTexts : respelledTexts.RespellsLiterals where
  reads text := by
    rw [respelledTexts, Option.isSome_map, Option.isSome_iff_exists]
    exact exists_congr fun _ => Number.read?_eq_some_iff
  respells text held read := by
    obtain ⟨_, -, rfl⟩ := Option.map_eq_some_iff.mp read
    exact Number.respell_respell text

theorem ForeignNumbers.RespellsLiterals.ofTrusted?_chars {foreign : ForeignNumbers}
    (lawful : foreign.RespellsLiterals) {text : List Char} {held : foreign.Held}
    (read : foreign.read? text = some held) :
    Number.ofTrusted? (foreign.chars held) = Number.ofTrusted? text := by
  rw [Number.ofTrusted?, lawful.respells text held read, Number.ofTrusted?]

/-- What is spelled as it is kept, the other library writes as it was. -/
structure ForeignNumbers.KeepsCanonical (foreign : ForeignNumbers) : Prop extends
    foreign.RespellsLiterals where
  keeps : ∀ text held, Number.Canonical text → foreign.read? text = some held →
    foreign.chars held = text

theorem ForeignNumbers.keepsCanonical_respelledTexts : respelledTexts.KeepsCanonical where
  toRespellsLiterals := respellsLiterals_respelledTexts
  keeps text held canonical read := by
    obtain ⟨_, -, rfl⟩ := Option.map_eq_some_iff.mp read
    exact canonical.marked.respell

theorem Lexeme.holds_of_next? {text rest : List Char} {number : Number}
    (read : next? text = some (.number number, rest)) :
    ∃ written, written ++ rest = text ∧ number.Holds written := by
  unfold next? at read
  split at read
  case h_10 =>
    obtain ⟨_, -, other⟩ := Option.map_eq_some_iff.mp read
    cases other
  case h_11 =>
    obtain ⟨⟨value, left⟩, scanned, same⟩ := Option.map_eq_some_iff.mp read
    cases same
    obtain ⟨written, spelled, split⟩ := Number.spelled_of_scan scanned
    exact ⟨written, split, spelled.holds⟩
  all_goals cases read

variable {foreign : ForeignNumbers}

namespace Number

theorem exists_held (lawful : foreign.KeepsCanonical) (number : Number) :
    ∃ held, foreign.read? number.chars = some held ∧ foreign.chars held = number.chars := by
  obtain ⟨held, read⟩ :=
    Option.isSome_iff_exists.mp ((lawful.reads _).mpr ⟨number, number.spelled_chars⟩)
  exact ⟨held, read, lawful.keeps _ _ number.canonical_chars read⟩

/-- Whichever way a number is handed over, what is written is its text. -/
theorem handOver?_chars (lawful : foreign.KeepsCanonical) (number : Number) :
    ∃ handed, number.handOver? foreign = some handed ∧ handed.chars = number.chars := by
  -- An integer is handed over only when it is written with the text of the number.
  unfold handOver?
  split
  · next value taken =>
    exact ⟨_, rfl, beq_iff_eq.mp (Option.filter_eq_some_iff.mp taken).2⟩
  · split
    · next value taken =>
      exact ⟨_, rfl, beq_iff_eq.mp (Option.filter_eq_some_iff.mp taken).2⟩
    · obtain ⟨held, read, same⟩ := exists_held lawful number
      exact ⟨.literal held, by rw [read]; rfl, same⟩

theorem integer?_ofInt (value : Int) : (ofInt value).integer? = some value := by
  have whole : (ofInt value).isInteger = true := rfl
  have signed : (if decide (value < 0) then -(value.natAbs : Int) else value.natAbs) = value := by
    split
    · next negative =>
      have below := of_decide_eq_true negative
      omega
    · next positive =>
      have above := of_decide_eq_false (Bool.eq_false_iff.mpr positive)
      omega
  rw [integer?, if_pos whole]
  exact congrArg some signed

theorem eq_ofInt_of_chars {number : Number} {value : Int} (same : intChars value = number.chars) :
    number = ofInt value := by
  have read := read?_eq_some_iff.mpr number.spelled_chars
  rw [← same, ← chars_ofInt, read?_eq_some_iff.mpr (ofInt value).spelled_chars] at read
  exact (Option.some.inj read).symm

theorem handOver?_ofInt {value : Int} (lower : leastInt64 ≤ value)
    (upper : value ≤ greatestUInt64) :
    (ofInt value).handOver? foreign
      = some (if value ≤ greatestInt64 then .int64 value else .uint64 value) := by
  have written : (intChars value == (ofInt value).chars) = true := by
    rw [chars_ofInt, beq_self_eq_true]
  by_cases small : value ≤ greatestInt64
  · have signed : (ofInt value).int64? = some value := by
      rw [int64?, integer?_ofInt, Option.filter_some, if_pos (by simp [lower, small])]
    rw [handOver?, signed, Option.filter_some, if_pos written, if_pos small]
  · have beyond : (ofInt value).int64? = none := by
      rw [int64?, integer?_ofInt, Option.filter_some, if_neg (by simp [small])]
    have positive : ¬ (ofInt value).negative = true := by
      have bound : 0 < greatestInt64 := by decide
      simp only [ofInt, decide_eq_true_eq]
      omega
    have unsigned : (ofInt value).uint64? = some value := by
      rw [uint64?, if_neg positive, integer?_ofInt, Option.filter_some, if_pos (by simp [upper])]
    rw [handOver?, beyond, Option.filter_none, unsigned, Option.filter_some, if_pos written,
      if_neg small]

theorem int64?_inside {number : Number} {value : Int} (read : number.int64? = some value) :
    leastInt64 ≤ value ∧ value ≤ greatestUInt64 := by
  have inside := of_decide_eq_true (Option.filter_eq_some_iff.mp read).2
  have wider : greatestInt64 ≤ greatestUInt64 := by decide
  omega

theorem uint64?_inside {number : Number} {value : Int} (read : number.uint64? = some value) :
    leastInt64 ≤ value ∧ value ≤ greatestUInt64 := by
  unfold uint64? at read
  split at read
  · contradiction
  · next positive =>
    obtain ⟨integer, inside⟩ := Option.filter_eq_some_iff.mp read
    have whole := (parts_of_integer? integer).2.2
    rw [if_neg positive] at whole
    have below : leastInt64 ≤ 0 := by decide
    exact ⟨by omega, of_decide_eq_true inside⟩

theorem handOver?_literal {number : Number}
    (other : ∀ value, leastInt64 ≤ value → value ≤ greatestUInt64 → number ≠ ofInt value) :
    number.handOver? foreign = (foreign.read? number.chars).map .literal := by
  have refused {reading : Option Int}
      (inside : ∀ value ∈ reading, leastInt64 ≤ value ∧ value ≤ greatestUInt64) :
      reading.filter (intChars · == number.chars) = none := by
    rw [Option.filter_eq_none_iff]
    intro value read same
    obtain ⟨lower, upper⟩ := inside value read
    exact other value lower upper (eq_ofInt_of_chars (beq_iff_eq.mp same))
  rw [handOver?, refused fun _ => int64?_inside, refused fun _ => uint64?_inside]

theorem serialize?_eq (lawful : foreign.KeepsCanonical) (number : Number) :
    number.serialize? foreign = some number.chars := by
  obtain ⟨handed, given, same⟩ := handOver?_chars lawful number
  rw [serialize?, given, Option.map_some, same]

end Number

theorem ForeignValue.insert_of_not_mem {α : Type} {key : String} {members : List (String × α)}
    (absent : key ∉ members.map Prod.fst) (value : α) :
    insert key value members = members ++ [(key, value)] := by
  induction members with
  | nil => rfl
  | cons member rest ih =>
    rw [List.map_cons, List.mem_cons, not_or] at absent
    rw [insert, if_neg (Ne.symm absent.1), ih absent.2, List.cons_append]

theorem ForeignValue.collect_of_nodup {α : Type} {pairs : List (String × α)}
    (distinct : (pairs.map Prod.fst).Nodup) : collect pairs = pairs := by
  induction pairs using List.reverseRecOn with
  | nil => rfl
  | append_singleton pairs pair ih =>
    rw [List.map_append, List.nodup_append] at distinct
    have absent : pair.1 ∉ pairs.map Prod.fst :=
      fun earlier => distinct.2.2 _ earlier _ (by simp) rfl
    rw [collect, List.foldl_append]
    exact (congrArg (insert pair.1 pair.2) (ih distinct.1)).trans (insert_of_not_mem absent pair.2)

namespace Value

theorem serializeItems?_eq {layout : Layout} {depth : Nat} {items : List Value}
    (each : ∀ item ∈ items, item.serialize? foreign layout depth = some (item.write layout depth)) :
    serializeItems? foreign layout depth items = some (writeItems layout depth items) := by
  induction items with
  | nil => rfl
  | cons item rest ih =>
    obtain ⟨first, others⟩ := List.forall_mem_cons.mp each
    simp only [serializeItems?, first, ih others, bind, Option.bind, writeItems]

theorem serializeMembers?_eq {layout : Layout} {depth : Nat} {members : Members}
    (each : ∀ member ∈ members,
      member.2.serialize? foreign layout depth = some (member.2.write layout depth)) :
    serializeMembers? foreign layout depth members = some (writeMembers layout depth members) := by
  induction members with
  | nil => rfl
  | cons member rest ih =>
    obtain ⟨first, others⟩ := List.forall_mem_cons.mp each
    simp only [serializeMembers?, first, ih others, bind, Option.bind, writeMembers]

/-- The serializer writes the text of every value. -/
theorem serialize?_eq (lawful : foreign.KeepsCanonical) (layout : Layout) (value : Value)
    (depth : Nat) : value.serialize? foreign layout depth = some (value.write layout depth) := by
  induction value generalizing depth with
  | number value => rw [serialize?, value.serialize?_eq lawful, write]
  | array items ih =>
    cases items with
    | nil => rw [serialize?, write]
    | cons item rest =>
      obtain ⟨first, others⟩ := List.forall_mem_cons.mp ih
      have later := serializeItems?_eq fun item member => others item member (depth + 1)
      simp only [serialize?, first, later, bind, Option.bind, write]
  | object members ih =>
    cases members with
    | nil => rw [serialize?, write]
    | cons member rest =>
      obtain ⟨first, others⟩ := List.forall_mem_cons.mp ih
      have later := serializeMembers?_eq fun member inside => others member inside (depth + 1)
      simp only [serialize?, first, later, bind, Option.bind, write]
  | _ => rw [serialize?, write]

theorem keys_membersToForeign (members : Members) :
    (membersToForeign foreign members).map Prod.fst = Members.keys members := by
  induction members with
  | nil => rfl
  | cons member rest ih => rw [membersToForeign, List.map_cons, ih, Members.keys_cons]

theorem items_toForeign {items : List Value}
    (each : ∀ item ∈ items, (item.toForeign foreign).toValue? = some item) :
    ForeignValue.itemsToValue? (itemsToForeign foreign items) = some items := by
  induction items with
  | nil => rfl
  | cons item rest ih =>
    obtain ⟨first, others⟩ := List.forall_mem_cons.mp each
    simp only [itemsToForeign, ForeignValue.itemsToValue?, first, ih others, bind, Option.bind]

theorem members_toForeign {members : Members}
    (each : ∀ member ∈ members, (member.2.toForeign foreign).toValue? = some member.2) :
    ForeignValue.membersToValue? (membersToForeign foreign members) = some members := by
  induction members with
  | nil => rfl
  | cons member rest ih =>
    obtain ⟨first, others⟩ := List.forall_mem_cons.mp each
    simp only [membersToForeign, ForeignValue.membersToValue?, first, ih others, bind, Option.bind]

/-- A value comes back as it was; no number of it has become null on the way. -/
theorem toValue?_toForeign (lawful : foreign.KeepsCanonical) {value : Value}
    (distinct : value.DistinctKeys) : (value.toForeign foreign).toValue? = some value := by
  induction value with
  | number value =>
    obtain ⟨held, read, same⟩ := value.exists_held lawful
    simp only [toForeign, read, ForeignValue.toValue?, same, value.spelled_chars.holds.trusted,
      Option.map_some]
  | array items ih =>
    have each := distinctKeys_array.mp distinct
    have inner := items_toForeign fun item member => ih item member (each item member)
    simp only [toForeign, ForeignValue.toValue?, inner, Option.map_some]
  | object members ih =>
    obtain ⟨keys, each⟩ := distinctKeys_object.mp distinct
    have inner := members_toForeign fun member inside => ih member inside (each member inside)
    -- Keys are distinct, so no member gets lost where members are collected, there or here.
    have collected : ForeignValue.collect (membersToForeign foreign members)
        = membersToForeign foreign members := by
      rw [← keys_membersToForeign] at keys
      exact ForeignValue.collect_of_nodup keys
    rw [toForeign, collected, ForeignValue.toValue?, inner, Option.map_some, ofPairs,
      Members.ofPairs_of_nodup keys]
  | _ => rw [toForeign, ForeignValue.toValue?]

/-- Every number holds the canonical spelling of what it was made from: a text that is parsed, an
integer, a finite floating-point number, which is printed without an exponent and reads back, or a
literal of a document text. So its text is what is written of it, no value fails to be serialized,
and every value comes back from another library as it was. -/
theorem serialized_exactly (lawful : foreign.KeepsCanonical) :
    (∀ text number, Number.parse text = .ok number → number.Holds text.toList)
      ∧ (∀ value : Int, (Number.ofInt value).Holds (intChars value))
      ∧ (∀ bits negative units, Binary64.ofBits bits = .finite negative units →
        ∃ number, Number.ofBinary64? (.finite negative units) = some number
          ∧ number.exponent = none ∧ number.nearest = .finite negative units)
      ∧ (∀ text number, Number.Spelled text number →
        number.Holds text ∧ (number.exponent = none → number.chars = text))
      ∧ (∀ text number rest, Lexeme.next? text = some (.number number, rest) →
        ∃ written held, written ++ rest = text ∧ number.Holds written
          ∧ foreign.read? written = some held
          ∧ Number.ofTrusted? (foreign.chars held) = some number)
      ∧ (∀ number : Number, Number.Canonical number.chars)
      ∧ (∀ text, Number.respell (Number.respell text) = Number.respell text)
      ∧ (∀ number : Number, ∃ handed, number.handOver? foreign = some handed
        ∧ handed.chars = number.chars ∧ number.serialize? foreign = some number.chars)
      ∧ (∀ (layout : Layout) (value : Value),
        value.serialize? foreign layout 0 = some (value.chars layout))
      ∧ ∀ value : Value, value.DistinctKeys → (value.toForeign foreign).toValue? = some value := by
  refine ⟨fun _ _ => Number.holds_of_parse, Number.holds_ofInt, ?_, ?_, ?_,
    Number.canonical_chars, Number.respell_respell, ?_, ?_, ?_⟩
  · intro bits negative units float
    obtain ⟨number, printed, plain⟩ := Number.ofBinary64?_finite negative units
    have back := Number.nearest_of_ofBinary64? (float ▸ printed)
    exact ⟨number, printed, plain, back.trans float⟩
  · exact fun _ _ spelled => ⟨spelled.holds, spelled.chars_of_plain⟩
  · intro text number rest read
    obtain ⟨written, split, holds⟩ := Lexeme.holds_of_next? read
    obtain ⟨held, taken⟩ :=
      Option.isSome_iff_exists.mp ((lawful.reads written).mpr ⟨number, holds.literal⟩)
    exact ⟨written, held, split, holds, taken,
      (lawful.ofTrusted?_chars taken).trans holds.trusted⟩
  · intro number
    obtain ⟨handed, given, same⟩ := number.handOver?_chars lawful
    exact ⟨handed, given, same, number.serialize?_eq lawful⟩
  · exact fun layout value => value.serialize?_eq lawful layout 0
  · exact fun _ distinct => toValue?_toForeign lawful distinct

/-- Minus zero, the ends of both ranges of integers, a tenth and a literal that the other library
respells. -/
theorem serialized_exactly_ranges :
    let foreign := ForeignNumbers.respelledTexts
    let power : Number := ⟨false, 1, [], some ⟨false, 5, []⟩⟩
    let minusZero : Number := ⟨true, 0, [], none⟩
    let tenth := Binary64.ofBits 0x3fb999999999999a
    let value : Value := .object [("a", .array [.number power, .number minusZero]),
      ("b", .number (.ofInt leastInt64)), ("c", .number (.ofInt greatestUInt64))]
    foreign.KeepsCanonical ∧ foreign.read? ['1', 'E', '5'] = some ['1', 'e', '+', '5']
      ∧ Number.parse "1E5" = .ok power ∧ power.Holds ['1', 'E', '5']
      ∧ power.chars = ['1', 'e', '+', '5']
      ∧ (∃ number, Number.ofBinary64? tenth = some number ∧ number.chars = ['0', '.', '1']
        ∧ number.nearest = tenth)
      ∧ (∃ held, minusZero.handOver? foreign = some (.literal held)
        ∧ (Number.Handed.literal held).chars = ['-', '0'])
      ∧ (Number.ofInt leastInt64).handOver? foreign = some (.int64 leastInt64)
      ∧ (Number.ofInt greatestUInt64).handOver? foreign = some (.uint64 greatestUInt64)
      ∧ value.serialize? foreign .pretty 0 = some (value.chars .pretty)
      ∧ (value.toForeign foreign).toValue? = some value := by
  intro foreign power minusZero tenth value
  have lawful : foreign.KeepsCanonical := ForeignNumbers.keepsCanonical_respelledTexts
  have parsed : Number.parse "1E5" = .ok power := by decide +kernel
  obtain ⟨holds, -, floats, -, -, -, -, -, written, back⟩ := serialized_exactly lawful
  have distinct : value.DistinctKeys := by decide
  have float : tenth = .finite false ((twoTo 52 + 0x999999999999a) * twoTo 1018) := by
    decide +kernel
  have printed : (Number.ofBinary64? tenth).map Number.chars = some ['0', '.', '1'] := by
    decide +kernel
  obtain ⟨number, shown, -, nearest⟩ := floats _ _ _ float
  rw [← float] at shown nearest
  rw [shown, Option.map_some] at printed
  have other (value : Int) (_ : leastInt64 ≤ value) (_ : value ≤ greatestUInt64) :
      minusZero ≠ .ofInt value := by
    intro same
    obtain ⟨negative, whole, -⟩ := Number.mk.inj same
    have below := of_decide_eq_true negative.symm
    omega
  have unsigned : minusZero.chars = ['-', '0'] := by decide +kernel
  obtain ⟨held, read, same⟩ := minusZero.exists_held lawful
  have literal : minusZero.handOver? foreign = some (.literal held) := by
    rw [Number.handOver?_literal other, read, Option.map_some]
  exact ⟨lawful, rfl, parsed, holds "1E5" power parsed, by decide +kernel,
    ⟨number, shown, Option.some.inj printed, nearest⟩, ⟨held, literal, same.trans unsigned⟩,
    Number.handOver?_ofInt (by decide) (by decide), Number.handOver?_ofInt (by decide) (by decide),
    written .pretty value, back value distinct⟩

end Value

end JsonTree
