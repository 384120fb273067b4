import JsonTree.Proofs.Patch.Sequence
import JsonTree.Proofs.Pointer.Text

/-! Texts that are no pointers, and where they go wrong.

Tokens are unescaped one by one, each from the place on where its part of the text begins. The
slashes between them start no escape and complete none, so a tilde is bare in its part just when
it is bare in the whole text, and the first one that is met is the leftmost.
-/

set_option autoImplicit false

namespace JsonTree.Pointer

def Completes (text : List Char) : Prop := text.head? = some '0' ∨ text.head? = some '1'

instance (text : List Char) : Decidable (Completes text) := inferInstanceAs (Decidable (_ ∨ _))

/-- Each tilde is followed by a `0` or a `1` immediately. -/
def Escaped (text : List Char) : Prop :=
  ∀ front back, text = front ++ '~' :: back → Completes back

/-- The leftmost tilde that starts no escape stands between two parts of a text. -/
structure FirstBare (text front back : List Char) : Prop where
  split : text = front ++ '~' :: back
  before : Escaped front
  bare : ¬ Completes back

def EndsToken (text : List Char) : Prop := text = [] ∨ text.head? = some '/'

instance (text : List Char) : Decidable (EndsToken text) := inferInstanceAs (Decidable (_ ∨ _))

/-- What is wrong with a text that is no pointer, and at which byte. A tilde dangles where its
token ends with it. -/
inductive Refuses (text : List Char) : Nat → Fault → Prop where
  | missingSlash : text ≠ [] → text.head? ≠ some '/' → Refuses text 0 .missingSlash
  | bare {front back : List Char} : text.head? = some '/' → FirstBare text front back →
      Refuses text (byteLength front) (.escape (if EndsToken back then .dangling else .unknown))

variable {text front back rest : List Char} {c : Char}

theorem escaped_nil : Escaped [] := by
  intro front back split
  cases front <;> contradiction

theorem escaped_cons : Escaped (c :: rest) ↔ (c = '~' → Completes rest) ∧ Escaped rest := by
  constructor
  · intro escaped
    refine ⟨?_, fun front back split => escaped (c :: front) back (congrArg (c :: ·) split)⟩
    rintro rfl
    exact escaped [] rest rfl
  · rintro ⟨first, others⟩ front back split
    cases front with
    | nil =>
      obtain ⟨tilde, rfl⟩ := List.cons.inj split
      exact first tilde
    | cons d front => exact others front back (List.cons.inj split).2

theorem escaped_cons_of_ne (plain : c ≠ '~') : Escaped (c :: rest) ↔ Escaped rest :=
  escaped_cons.trans (and_iff_right fun tilde => absurd tilde plain)

theorem Completes.append (completes : Completes text) (rest : List Char) :
    Completes (text ++ rest) := by
  unfold Completes at completes ⊢
  rw [List.head?_append]
  rcases completes with found | found <;> simp [found]

theorem completes_append_slash (rest : List Char) :
    Completes (text ++ '/' :: rest) ↔ Completes text := by
  cases text with
  | nil => simp [Completes]
  | cons c tail => exact Iff.rfl

theorem Escaped.append (first : Escaped front) (second : Escaped back) :
    Escaped (front ++ back) := by
  induction front with
  | nil => exact second
  | cons c front ih =>
    obtain ⟨starts, others⟩ := escaped_cons.mp first
    exact escaped_cons.mpr ⟨fun tilde => (starts tilde).append back, ih others⟩

theorem FirstBare.not_escaped (found : FirstBare text front back) : ¬ Escaped text :=
  fun escaped => found.bare (escaped front back found.split)

theorem FirstBare.cons (starts : c = '~' → Completes front) (found : FirstBare text front back) :
    FirstBare (c :: text) (c :: front) back where
  split := congrArg (c :: ·) found.split
  before := escaped_cons.mpr ⟨starts, found.before⟩
  bare := found.bare

theorem FirstBare.behind (escaped : Escaped rest) (found : FirstBare text front back) :
    FirstBare (rest ++ text) (rest ++ front) back where
  split := by rw [found.split, List.append_assoc]
  before := escaped.append found.before
  bare := found.bare

/-- A text behind it that begins another token leaves the leftmost bare tilde where it is. -/
theorem FirstBare.inFront (found : FirstBare text front back) (rest : List Char) :
    FirstBare (text ++ '/' :: rest) front (back ++ '/' :: rest) where
  split := by rw [found.split, List.append_assoc, List.cons_append]
  before := found.before
  bare := fun completes => found.bare ((completes_append_slash rest).mp completes)

theorem FirstBare.front_eq {otherFront otherBack : List Char} (found : FirstBare text front back)
    (other : FirstBare text otherFront otherBack) : front = otherFront := by
  obtain ⟨rfl, before, bare⟩ := found
  obtain ⟨split, otherBefore, otherBare⟩ := other
  -- Were one of the two further on, the other one would stand in the escaped text before it.
  rcases List.append_eq_append_iff.mp split with ⟨between, rfl, same⟩ | ⟨between, rfl, same⟩
  · cases between with
    | nil => rw [List.append_nil]
    | cons d between =>
      obtain ⟨rfl, rfl⟩ := List.cons.inj same
      exact absurd ((otherBefore front between rfl).append _) bare
  · cases between with
    | nil => rw [List.append_nil]
    | cons d between =>
      obtain ⟨rfl, rfl⟩ := List.cons.inj same
      exact absurd ((before otherFront between rfl).append _) otherBare

theorem escaped_of_unescape {position : Nat} {token : List Char}
    (read : unescape position text = .ok token) : Escaped text := by
  fun_induction unescape position text generalizing token with
  | case1 => exact escaped_nil
  | case2 position rest ih =>
    obtain ⟨tail, later, -⟩ := map_eq_ok_iff.mp read
    exact escaped_cons.mpr ⟨fun _ => .inl rfl, (escaped_cons_of_ne (by decide)).mpr (ih later)⟩
  | case3 position rest ih =>
    obtain ⟨tail, later, -⟩ := map_eq_ok_iff.mp read
    exact escaped_cons.mpr ⟨fun _ => .inr rfl, (escaped_cons_of_ne (by decide)).mpr (ih later)⟩
  | case4 | case5 => contradiction
  | case6 position c rest _ _ notLast notFront ih =>
    obtain ⟨tail, later, -⟩ := map_eq_ok_iff.mp read
    have plain : c ≠ '~' := ne_tilde notLast notFront
    exact (escaped_cons_of_ne plain).mpr (ih later)

theorem firstBare_of_unescape {position : Nat} {error : EscapeError}
    (failed : unescape position text = .error error) :
    ∃ front back, FirstBare text front back ∧ error.position = position + byteLength front
      ∧ error.fault = if back = [] then .dangling else .unknown := by
  fun_induction unescape position text with
  | case1 => contradiction
  | case2 position rest ih =>
    obtain ⟨front, back, found, place, fault⟩ := ih (map_eq_error_iff.mp failed)
    -- An escape is in front of the bare tilde, and its two bytes count.
    refine ⟨'~' :: '0' :: front, back, ?_, ?_, fault⟩
    · exact .cons (fun _ => .inl rfl) (.cons (fun tilde => absurd tilde (by decide)) found)
    · rw [place, byteLength_cons, byteLength_cons, ← Nat.add_assoc, ← Nat.add_assoc]
      rfl
  | case3 position rest ih =>
    obtain ⟨front, back, found, place, fault⟩ := ih (map_eq_error_iff.mp failed)
    refine ⟨'~' :: '1' :: front, back, ?_, ?_, fault⟩
    · exact .cons (fun _ => .inr rfl) (.cons (fun tilde => absurd tilde (by decide)) found)
    · rw [place, byteLength_cons, byteLength_cons, ← Nat.add_assoc, ← Nat.add_assoc]
      rfl
  | case4 position =>
    obtain rfl := Except.error.inj failed
    exact ⟨[], [], ⟨rfl, escaped_nil, by decide⟩, rfl, rfl⟩
  | case5 position c rest zero one =>
    obtain rfl := Except.error.inj failed
    refine ⟨[], c :: rest, ⟨rfl, escaped_nil, ?_⟩, rfl, rfl⟩
    rintro (same | same)
    · exact zero (Option.some.inj same)
    · exact one (Option.some.inj same)
  | case6 position c rest _ _ notLast notFront ih =>
    obtain ⟨front, back, found, place, fault⟩ := ih (map_eq_error_iff.mp failed)
    have plain : c ≠ '~' := ne_tilde notLast notFront
    refine ⟨c :: front, back, .cons (fun tilde => absurd tilde plain) found, ?_, fault⟩
    rw [place, byteLength_cons, Nat.add_assoc]

section

variable {position : Nat} {parts : List (List Char)}

theorem endsToken_parts (parts : List (List Char)) : EndsToken (parts.flatMap ('/' :: ·)) := by
  cases parts with
  | nil => exact .inl rfl
  | cons part others => exact .inr rfl

theorem endsToken_append_iff (free : '/' ∉ back) (ends : EndsToken rest) :
    EndsToken (back ++ rest) ↔ back = [] := by
  cases back with
  | nil => simpa using ends
  | cons c back =>
    rw [List.mem_cons, not_or] at free
    simp [EndsToken, Ne.symm free.1]

theorem FirstBare.inFront_of_endsToken (found : FirstBare text front back) (ends : EndsToken rest) :
    FirstBare (text ++ rest) front (back ++ rest) := by
  rcases ends with rfl | slash
  · simpa using found
  · obtain ⟨tail, rfl⟩ := List.head?_eq_some_iff.mp slash
    exact found.inFront tail

theorem escaped_of_readSegments {tokens : List String}
    (read : readSegments position parts = .ok tokens) : Escaped (parts.flatMap ('/' :: ·)) := by
  induction parts generalizing position tokens with
  | nil => exact escaped_nil
  | cons part others ih =>
    simp only [readSegments, bind_eq_ok_iff] at read
    obtain ⟨token, first, more, later, -⟩ := read
    rw [List.flatMap_cons]
    refine Escaped.append ?_ (ih later)
    exact (escaped_cons_of_ne (by decide)).mpr (escaped_of_unescape first)

/-- The position in the text runs along with the tokens: it begins behind the slash of each. -/
theorem firstBare_of_readSegments {error : EscapeError} (free : ∀ part ∈ parts, '/' ∉ part)
    (failed : readSegments (position + 1) parts = .error error) :
    ∃ front back, FirstBare (parts.flatMap ('/' :: ·)) front back
      ∧ error.position = position + byteLength front
      ∧ error.fault = if EndsToken back then .dangling else .unknown := by
  induction parts generalizing position with
  | nil => contradiction
  | cons part others ih =>
    obtain ⟨firstFree, othersFree⟩ := List.forall_mem_cons.mp free
    rw [List.flatMap_cons, List.cons_append]
    rw [readSegments, bind_eq_error_iff] at failed
    -- The tilde is in the first part, or the first part is escaped and the tilde is further on.
    rcases failed with first | ⟨token, first, later⟩
    · obtain ⟨front, back, found, place, fault⟩ := firstBare_of_unescape first
      have backFree : '/' ∉ back := by
        intro member
        rw [found.split] at firstFree
        exact firstFree (List.mem_append_right _ (List.mem_cons_of_mem _ member))
      have ends := endsToken_parts others
      refine ⟨'/' :: front, back ++ others.flatMap ('/' :: ·),
        .cons (fun tilde => absurd tilde (by decide)) (found.inFront_of_endsToken ends), ?_, ?_⟩
      · rw [place, byteLength_cons, Nat.add_assoc]
        rfl
      · simp only [fault, endsToken_append_iff backFree ends]
    · rw [bind_eq_error_iff] at later
      rcases later with later | ⟨_, _, done⟩
      · have next : position + 1 + byteLength part + 1 = position + (1 + byteLength part) + 1 := by
          omega
        rw [next] at later
        obtain ⟨front, back, found, place, fault⟩ := ih othersFree later
        have escaped := (escaped_cons_of_ne (by decide : '/' ≠ '~')).mpr (escaped_of_unescape first)
        refine ⟨'/' :: part ++ front, back, found.behind escaped, ?_, fault⟩
        rw [place, byteLength_append, byteLength_cons, Nat.add_assoc]
        rfl
      · contradiction

end

section

variable {raw : String}

theorem escaped_of_parse {pointer : Pointer} (parsed : parse raw = .ok pointer) :
    raw = "" ∨ raw.toList.head? = some '/' ∧ Escaped raw.toList := by
  unfold parse at parsed
  split at parsed
  · next empty => exact .inl (String.ext empty)
  · next body slash =>
    split at parsed
    · next tokens read =>
      have escaped := escaped_of_readSegments read
      rw [flatMap_segments, ← slash] at escaped
      exact .inr ⟨by rw [slash]; rfl, escaped⟩
    · contradiction
  · contradiction

theorem refuses_of_parse {error : SyntaxError} (failed : parse raw = .error error) :
    error.pointer = raw ∧ Refuses raw.toList error.position error.fault := by
  unfold parse at failed
  split at failed
  · contradiction
  · next body slash =>
    split at failed
    · contradiction
    · next inner read =>
      obtain rfl := Except.error.inj failed
      -- The tokens are the parts between slashes, so no slash can hide what ends a token.
      have free : ∀ part ∈ segments '/' body, '/' ∉ part :=
        fun _ => separator_not_mem_segments '/'
      have whole : readSegments (0 + 1) (segments '/' body) = .error inner := read
      obtain ⟨front, back, found, place, fault⟩ := firstBare_of_readSegments free whole
      rw [flatMap_segments, ← slash] at found
      refine ⟨rfl, ?_⟩
      simp only [place, fault, Nat.zero_add]
      exact .bare (by rw [slash]; rfl) found
  · next nonempty noSlash =>
    obtain rfl := Except.error.inj failed
    refine ⟨rfl, .missingSlash nonempty fun slash => ?_⟩
    obtain ⟨tail, same⟩ := List.head?_eq_some_iff.mp slash
    exact noSlash tail same

theorem Refuses.unique {place otherPlace : Nat} {fault otherFault : Fault}
    (first : Refuses text place fault) (second : Refuses text otherPlace otherFault) :
    place = otherPlace ∧ fault = otherFault := by
  cases first with
  | missingSlash _ noSlash =>
    cases second with
    | missingSlash => exact ⟨rfl, rfl⟩
    | bare slash => contradiction
  | bare slash found =>
    cases second with
    | missingSlash _ noSlash => contradiction
    | bare _ other =>
      obtain rfl := found.front_eq other
      have same := List.append_cancel_left (found.split.symm.trans other.split)
      obtain rfl := (List.cons.inj same).2
      exact ⟨rfl, rfl⟩

/-- A text is a pointer, or there is one thing wrong with it. -/
theorem Refuses.not_escaped {place : Nat} {fault : Fault}
    (refuses : Refuses raw.toList place fault) :
    ¬ (raw = "" ∨ raw.toList.head? = some '/' ∧ Escaped raw.toList) := by
  rintro (rfl | ⟨slash, escaped⟩)
  · cases refuses with
    | missingSlash nonempty => exact nonempty rfl
    | bare slash => contradiction
  · cases refuses with
    | missingSlash _ noSlash => exact noSlash slash
    | bare _ found => exact found.not_escaped escaped

theorem parse_succeeds_iff :
    (∃ pointer, parse raw = .ok pointer)
      ↔ raw = "" ∨ raw.toList.head? = some '/' ∧ Escaped raw.toList := by
  constructor
  · rintro ⟨pointer, parsed⟩
    exact escaped_of_parse parsed
  · intro valid
    cases read : parse raw with
    | ok pointer => exact ⟨pointer, rfl⟩
    | error error => exact absurd valid (refuses_of_parse read).2.not_escaped

theorem parse_eq_error_iff {error : SyntaxError} :
    parse raw = .error error
      ↔ error.pointer = raw ∧ Refuses raw.toList error.position error.fault := by
  refine ⟨refuses_of_parse, ?_⟩
  rintro ⟨about, refuses⟩
  cases read : parse raw with
  | ok pointer => exact absurd (escaped_of_parse read) refuses.not_escaped
  | error other =>
    obtain ⟨otherAbout, otherRefuses⟩ := refuses_of_parse read
    obtain ⟨place, fault⟩ := otherRefuses.unique refuses
    exact congrArg _ (by cases other; cases error; simp_all)

end

/-- A text is a pointer just when it is empty, or begins with a slash and each tilde in it starts
an escape. The error of any other text is about that text, at its first byte when the slash is
missing and else at its leftmost bare tilde. An operation with such a text, the source of a move
or copy before its path, reports just that, whatever the document is. -/
theorem syntax_errors_exact :
    (∀ raw, (∃ pointer, parse raw = .ok pointer)
        ↔ raw = "" ∨ raw.toList.head? = some '/' ∧ Escaped raw.toList)
      ∧ (∀ raw error, parse raw = .error error
        ↔ error.pointer = raw ∧ Refuses raw.toList error.position error.fault)
      ∧ ∀ (operation : Operation) (error : SyntaxError), FirstUnreadable operation.pointers error →
        (∀ document, operation.apply document
          = .error ⟨error.pointer, .invalidPointer error.position error.fault⟩)
        ∧ ∀ front back before document, Patch.apply front before = .ok document →
          ∃ failure, Patch.apply (front ++ operation :: back) before = .error failure
            ∧ failure = ⟨front.length, error.pointer, .invalidPointer error.position error.fault⟩
            ∧ failure.message = "operation " ++ natText front.length ++ ": " ++
              ("invalid pointer " ++ ("'" ++ error.pointer ++ "'") ++ ": " ++
                (error.fault.message ++ " (position " ++ natText error.position ++ ")")) := by
  refine ⟨fun raw => parse_succeeds_iff, fun raw error => parse_eq_error_iff, ?_⟩
  intro operation error first
  have fails := operation.apply_reads.unread error first
  refine ⟨fails, fun front back before document done => ?_⟩
  refine ⟨_, Patch.apply_eq_error_iff.mpr (Patch.blames_iff.mpr ?_), rfl, rfl⟩
  exact ⟨front, operation, back, document, rfl, rfl, done, fails document⟩

/-- A tilde that ends its token, behind an escape and a letter of two bytes. -/
theorem syntax_errors_exact_dangling :
    let raw := "/é~0/a~/~2"
    let error : SyntaxError := ⟨raw, 7, .escape .dangling⟩
    let operation : Operation := .move raw "x"
    let failure : PatchError := ⟨1, raw, .invalidPointer 7 (.escape .dangling)⟩
    Refuses raw.toList 7 (.escape .dangling) ∧ FirstUnreadable operation.pointers error
      ∧ Patch.apply [.add "" .null] .null = .ok .null
      ∧ Patch.apply [.add "" .null, operation, .remove ""] .null = .error failure
      ∧ failure.message = "operation 1: invalid pointer '/é~0/a~/~2': "
        ++ "dangling '~' at end of reference token (position 7)" := by
  intro raw error operation failure
  have parsed : parse raw = .error error := by decide +kernel
  have first : FirstUnreadable operation.pointers error := @.here error ["x"] parsed
  have done : Patch.apply [.add "" .null] .null = .ok .null := by rfl
  obtain ⟨-, errors, operations⟩ := syntax_errors_exact
  obtain ⟨_, fails, rfl, message⟩ := (operations operation error first).2 _ [.remove ""] _ _ done
  exact ⟨((errors raw error).mp parsed).2, first, done, fails, by decide +kernel⟩

end JsonTree.Pointer
