import JsonTree.Proofs.Patch.Change
import JsonTree.Proofs.Pointer.Text

/-! Patches reach what lookups reach.

An operation walks to the container that its pointer ends in and deals with the last token
there; a lookup takes every token in the same way. They agree on which pointers lead to a
value and on the name of what stands in the way of the others. Only an addition needs no
value in its place, and what it makes of the last token is a matter of how that is spelled.
-/

set_option autoImplicit false

namespace JsonTree

def Ends {ε α : Type} (run : Except ε α) : Option ε → Prop
  | none => ∃ result, run = .ok result
  | some failure => run = .error failure

theorem Ends.unique {ε α : Type} {run : Except ε α} {first second : Option ε}
    (one : Ends run first) (other : Ends run second) : first = second := by
  cases run <;> cases first <;> cases second <;> simp_all [Ends]

/-- A fault of lookups and one of patches that share their name. A scalar in the way is of
one kind for both; the patch may say what it was to be changed by. -/
inductive SameName : LookupError → PatchFault → Prop where
  | pathNotFound : SameName .pathNotFound .pathNotFound
  | indexOutOfRange : SameName .indexOutOfRange .indexOutOfRange
  | descend (kind : Kind) : SameName (.typeMismatch kind) (.typeMismatch (.descend kind))
  | removeFrom (kind : Kind) : SameName (.typeMismatch kind) (.typeMismatch (.removeFrom kind))
  | replaceIn (kind : Kind) : SameName (.typeMismatch kind) (.typeMismatch (.replaceIn kind))

theorem SameName.ofLookup (error : LookupError) : SameName error (.ofLookup error) := by
  cases error with
  | pathNotFound => exact .pathNotFound
  | indexOutOfRange => exact .indexOutOfRange
  | typeMismatch kind => exact .descend kind

/-- A step of a patch beside a lookup: where a value is found the step goes on with it, and
where none is it fails by the same name. -/
inductive Follows {α : Type} (agrees : Value → α → Prop) :
    Except LookupError Value → Except PatchFault α → Prop where
  | found {value : Value} {result : α} :
      agrees value result → Follows agrees (.ok value) (.ok result)
  | missing {error : LookupError} {fault : PatchFault} :
      SameName error fault → Follows agrees (.error error) (.error fault)

namespace Follows

variable {α β : Type} {agrees : Value → α → Prop} {lookup : Except LookupError Value}
  {step : Except PatchFault α}

theorem bind {later : Value → β → Prop} (follows : Follows agrees lookup step)
    {lookOn : Value → Except LookupError Value} {goOn : α → Except PatchFault β}
    (next : ∀ value result, agrees value result → Follows later (lookOn value) (goOn result)) :
    Follows later (lookup >>= lookOn) (step >>= goOn) := by
  cases follows with
  | found pair => exact next _ _ pair
  | missing name => exact .missing name

theorem eq_error (follows : Follows agrees lookup step) {error : LookupError}
    (absent : lookup = .error error) : ∃ fault, SameName error fault ∧ step = .error fault := by
  subst absent
  cases follows with
  | missing name => exact ⟨_, name, rfl⟩

theorem isOk_eq (follows : Follows agrees lookup step) : step.isOk = lookup.isOk := by
  cases follows <;> rfl

end Follows

namespace Value

variable (document container new : Value) (tokens parents : List String) (token : String)

theorem locate_follows : Follows (· = ·) (document.get tokens) (document.locate tokens) := by
  unfold locate
  cases document.get tokens with
  | ok value => exact .found rfl
  | error error => exact .missing (.ofLookup error)

theorem removeMember_follows :
    Follows (fun value taken => taken.1 = value) (container.child token)
      (container.removeMember token) := by
  cases container with
  | object members =>
    simp only [child, removeMember]
    cases Members.get? token members with
    | some value => exact .found rfl
    | none => exact .missing .pathNotFound
  | array items =>
    simp only [child, removeMember]
    cases existingIndex token items.length with
    | error error => exact .missing (.ofLookup error)
    | ok index =>
      dsimp only
      cases items[index]? with
      | some item => exact .found rfl
      | none => exact .missing .indexOutOfRange
  | _ => exact .missing (.removeFrom _)

theorem replaceMember_follows :
    Follows (fun _ _ => True) (container.child token) (container.replaceMember token new) := by
  cases container with
  | object members =>
    simp only [child, replaceMember]
    cases Members.get? token members with
    | some value => exact .found trivial
    | none => exact .missing .pathNotFound
  | array items =>
    simp only [child, replaceMember]
    cases place : existingIndex token items.length with
    | error error => exact .missing (.ofLookup error)
    | ok index =>
      dsimp only
      rw [List.getElem?_eq_getElem (existingIndex_lt place)]
      exact .found trivial
  | _ => exact .missing (.replaceIn _)

theorem get_concat :
    document.get (parents ++ [token])
      = document.get parents >>= fun container => container.child token := by
  have last (container : Value) : container.get [token] = container.child token := by
    rw [get_cons]
    cases container.child token <;> rfl
  rw [get_append]
  simp only [last]

theorem removeAt_follows :
    Follows (fun value taken => taken.1 = value) (document.get (parents ++ [token]))
      (document.removeAt ⟨parents ++ [token]⟩) := by
  simp only [removeAt, Pointer.last?_concat, List.dropLast_concat, enter_bind, get_concat]
  refine (locate_follows document parents).bind ?_
  rintro container _ rfl
  have removed := removeMember_follows container token
  generalize container.child token = lookup at removed ⊢
  generalize container.removeMember token = step at removed ⊢
  cases removed with
  | found pair => exact .found pair
  | missing name => exact .missing name

theorem replaceAt_follows :
    Follows (fun _ _ => True) (document.get (parents ++ [token]))
      (document.replaceAt ⟨parents ++ [token]⟩ new) := by
  rw [show document.replaceAt ⟨parents ++ [token]⟩ new = _ from
    Change.applyAt_eq (.replace new) document parents token, get_concat]
  refine (locate_follows document parents).bind ?_
  rintro container _ rfl
  have replaced := replaceMember_follows container new token
  simp only [Change.edit]
  generalize container.child token = lookup at replaced ⊢
  generalize container.replaceMember token new = step at replaced ⊢
  cases replaced with
  | found => exact .found trivial
  | missing name => exact .missing name

/-- What becomes of an addition to a container, by the spelling of its token. -/
inductive Addition : Value → String → Option PatchFault → Prop where
  | member (members : Members) (token : String) : Addition (.object members) token none
  | append (items : List Value) : Addition (.array items) "-" none
  | insert {items : List Value} {place : Nat} : place ≤ items.length →
      Addition (.array items) (natText place) none
  | beyond {items : List Value} {place : Nat} : items.length < place →
      Addition (.array items) (natText place) (some .indexOutOfRange)
  | negative (items : List Value) {digits : List Digit} : digits ≠ [] →
      Addition (.array items) (String.ofList ('-' :: Digit.chars digits)) (some .indexOutOfRange)
  | unplaced (items : List Value) {token : String} : token ≠ "-" →
      (∀ place, token ≠ natText place) →
      (∀ digits, digits ≠ [] → token ≠ String.ofList ('-' :: Digit.chars digits)) →
      Addition (.array items) token (some .pathNotFound)
  | scalar {value : Value} (token : String) : value.isContainer = false →
      Addition value token (some (.typeMismatch (.addTo value.kind)))

theorem exists_addition : ∃ outcome, Addition container token outcome := by
  cases container with
  | object members => exact ⟨_, .member members token⟩
  | array items =>
    by_cases last : token = "-"
    · subst last
      exact ⟨_, .append items⟩
    by_cases index : ∃ place, token = natText place
    · obtain ⟨place, rfl⟩ := index
      rcases Nat.lt_or_ge items.length place with outside | inside
      · exact ⟨_, .beyond outside⟩
      · exact ⟨_, .insert inside⟩
    by_cases minus : ∃ digits, digits ≠ [] ∧ token = String.ofList ('-' :: Digit.chars digits)
    · obtain ⟨digits, nonempty, rfl⟩ := minus
      exact ⟨_, .negative items nonempty⟩
    · exact ⟨_, .unplaced items last (not_exists.mp index)
        fun digits nonempty same => minus ⟨digits, nonempty, same⟩⟩
  | _ => exact ⟨_, .scalar token rfl⟩

variable {document container new token}

theorem ends_addMember {outcome : Option PatchFault}
    (addition : Addition container token outcome)
    (bound : ∀ items, container = .array items → (items.length : Int) ≤ greatestUInt64) :
    Ends (container.addMember token new) outcome := by
  cases addition with
  | member members => exact ⟨_, rfl⟩
  | append items => exact ⟨_, rfl⟩
  | @insert items place inside =>
    have held := Int.le_trans (Int.ofNat_le.mpr inside) (bound items rfl)
    simp only [addMember, ArrayPlace.ofToken_natText held, if_pos inside]
    exact ⟨_, rfl⟩
  | @beyond items place outside =>
    -- A place that no index can hold is refused by its text already, and with the same fault.
    by_cases held : (place : Int) ≤ greatestUInt64
    · simp only [addMember, ArrayPlace.ofToken_natText held, if_neg (Nat.not_le.mpr outside)]
      rfl
    · simp only [addMember, ArrayPlace.ofToken_natText_beyond (Int.not_le.mp held)]
      rfl
  | negative items nonempty =>
    simp only [addMember, ArrayPlace.ofToken_negative nonempty]
    rfl
  | unplaced items noAppend noIndex noNegative =>
    simp only [addMember, ArrayPlace.ofToken_unplaced noAppend noIndex noNegative]
    rfl
  | scalar _ leaf => cases container <;> first | contradiction | rfl

end Value

/-- How an addition to a document ends. All but the last token have to lead to a container. -/
inductive Pointer.Addition (target : Pointer) (document : Value) : Option PatchFault → Prop where
  | root : target = .root → Addition target document none
  | unreached {parent : Pointer} {error : LookupError} : target.parent? = some parent →
      parent.get document = .error error → Addition target document (some (.ofLookup error))
  | reached {parent : Pointer} {token : String} {container : Value}
      {outcome : Option PatchFault} : target.parent? = some parent → target.last? = some token →
      parent.get document = .ok container → container.Addition token outcome →
      Addition target document outcome

/-- The container that a pointer ends in, if it is an array, has no more items than a
64-bit index counts. -/
def Pointer.Countable (target : Pointer) (document : Value) : Prop :=
  ∀ parent items, target.parent? = some parent → parent.get document = .ok (.array items) →
    (items.length : Int) ≤ greatestUInt64

namespace Pointer

variable {target : Pointer} {document : Value}

theorem exists_addition (target : Pointer) (document : Value) :
    ∃ outcome, target.Addition document outcome := by
  rcases target.root_or_concat with rfl | ⟨parents, token, rfl⟩
  · exact ⟨_, .root rfl⟩
  · cases reached : Pointer.get ⟨parents⟩ document with
    | error error => exact ⟨_, .unreached (parent?_concat parents token) reached⟩
    | ok container =>
      obtain ⟨outcome, addition⟩ := container.exists_addition token
      exact ⟨_, .reached (parent?_concat parents token) (last?_concat parents token) reached
        addition⟩

theorem ends_addAt {outcome : Option PatchFault} (addition : target.Addition document outcome)
    (countable : target.Countable document) (new : Value) :
    Ends (document.addAt target new) outcome := by
  rcases target.root_or_concat with rfl | ⟨parents, token, rfl⟩
  · cases addition with
    | root => exact ⟨_, rfl⟩
    | unreached parent => contradiction
    | reached parent => contradiction
  · rw [show document.addAt ⟨parents ++ [token]⟩ new = _ from
      Change.applyAt_eq (.add new) document parents token, Value.locate]
    -- Below the root the container is looked up first, and what is found there decides.
    cases addition with
    | root root => exact absurd root (concat_ne_root parents token)
    | unreached parent absent =>
      obtain rfl := parent_of_concat parent
      rw [show document.get parents = _ from absent]
      rfl
    | @reached _ _ container outcome parent last there addition =>
      obtain rfl := parent_of_concat parent
      obtain rfl := last_of_concat last
      have ends : Ends (container.addMember token new) outcome :=
        Value.ends_addMember addition fun items array =>
          countable _ items (parent?_concat parents token) (array ▸ there)
      rw [show document.get parents = _ from there]
      simp only [Except.mapError, bind, Except.bind, Change.edit]
      cases outcome with
      | none =>
        obtain ⟨changed, added⟩ := ends
        rw [added]
        exact ⟨_, rfl⟩
      | some fault =>
        rw [show container.addMember token new = _ from ends]
        rfl

end Pointer

namespace Operation

/-- The text of the pointer at which an operation needs a value; an addition needs none. -/
def needed? : Operation → Option String
  | .add _ _ => none
  | .remove path | .replace path _ | .test path _ => some path
  | .move source _ | .copy source _ => some source

/-- What the operations do at a pointer, beside what a lookup finds there. -/
structure FollowsLookup (path : String) (target : Pointer) (document : Value) : Prop where
  /-- The walk that changes take ends where the lookup does, with its value or its fault. -/
  navigates : document.navigate target.tokens
    = (target.get document).map fun found => ⟨found, document.set target.tokens⟩
  replaces : ∀ new, ((Operation.replace path new).apply document).isOk
    ↔ (target.get document).isOk
  removes : ((Operation.remove path).apply document).isOk
    ↔ (target.get document).isOk ∧ target ≠ .root
  /-- What a move takes out is what is found. -/
  takes : ∀ found, (∃ remaining, document.removeAt target = .ok (found, remaining))
    ↔ target.get document = .ok found ∧ target ≠ .root
  moves : ∀ found remaining goal place, document.removeAt target = .ok (found, remaining) →
    Pointer.parse goal = .ok place →
    (Operation.move path goal).apply document = placeFault goal (remaining.addAt place found)
  copies : ∀ found goal place, target.get document = .ok found → Pointer.parse goal = .ok place →
    (Operation.copy path goal).apply document = placeFault goal (document.addAt place found)
  tests : ∀ found expected, target.get document = .ok found →
    (Operation.test path expected).apply document
      = if found.equals .ordered expected then .ok document else .error ⟨path, .testFailed⟩
  /-- Without a value every operation that needs one fails by the name of the lookup's fault. -/
  missing : ∀ error (operation : Operation) place, target.get document = .error error →
    operation.needed? = some path → Pointer.parse operation.path = .ok place →
    ∃ fault, SameName error fault ∧ operation.apply document = .error ⟨path, fault⟩
  adds : target.Countable document → ∀ new outcome, target.Addition document outcome
    ↔ Ends ((Operation.add path new).apply document) (outcome.map (PlacedFault.mk path))

variable {path : String} {target : Pointer} {document : Value}

theorem readPointer_ok (parsed : Pointer.parse path = .ok target) :
    readPointer path = .ok target := by
  rw [readPointer, parsed]
  rfl

theorem ends_placeFault {α : Type} {step : Except PatchFault α} {outcome : Option PatchFault} :
    Ends (placeFault path step) (outcome.map (PlacedFault.mk path)) ↔ Ends step outcome := by
  cases step <;> cases outcome <;> simp [Ends, placeFault, Except.mapError]

theorem isOk_placeFault {α : Type} (step : Except PatchFault α) :
    (placeFault path step).isOk = step.isOk := by
  cases step <;> rfl

theorem isOk_iff {ε α : Type} {run : Except ε α} : run.isOk ↔ ∃ result, run = .ok result := by
  cases run <;> simp [Except.isOk, Except.toBool]

theorem locate_of_get {found : Value} (there : target.get document = .ok found) :
    document.locate target.tokens = .ok found := by
  rw [Value.locate, show document.get target.tokens = _ from there]
  rfl

theorem removeAt_missing {error : LookupError} (absent : target.get document = .error error) :
    ∃ fault, SameName error fault ∧ document.removeAt target = .error fault := by
  rcases target.root_or_concat with rfl | ⟨parents, token, rfl⟩
  · contradiction
  · exact (Value.removeAt_follows document parents token).eq_error absent

theorem replaceAt_missing {error : LookupError} (absent : target.get document = .error error)
    (new : Value) :
    ∃ fault, SameName error fault ∧ document.replaceAt target new = .error fault := by
  rcases target.root_or_concat with rfl | ⟨parents, token, rfl⟩
  · contradiction
  · exact (Value.replaceAt_follows document new parents token).eq_error absent

theorem isOk_replaceAt (target : Pointer) (document new : Value) :
    (document.replaceAt target new).isOk = (target.get document).isOk := by
  rcases target.root_or_concat with rfl | ⟨parents, token, rfl⟩
  · rfl
  · exact (Value.replaceAt_follows document new parents token).isOk_eq

theorem removeAt_eq_ok_iff {found : Value} :
    (∃ remaining, document.removeAt target = .ok (found, remaining))
      ↔ target.get document = .ok found ∧ target ≠ .root := by
  rcases target.root_or_concat with rfl | ⟨parents, token, rfl⟩
  · constructor
    · rintro ⟨remaining, removed⟩
      contradiction
    · rintro ⟨-, notRoot⟩
      exact absurd rfl notRoot
  · have follows := Value.removeAt_follows document parents token
    have notRoot := Pointer.concat_ne_root parents token
    simp only [Pointer.get, ne_eq, notRoot, not_false_eq_true, and_true]
    generalize document.get (parents ++ [token]) = lookup at follows ⊢
    generalize document.removeAt ⟨parents ++ [token]⟩ = step at follows ⊢
    cases follows with
    | missing name => simp
    | @found value taken pair =>
      obtain ⟨old, remaining⟩ := taken
      obtain rfl : old = value := pair
      simp

/-- At a pointer that is read from a text, operations succeed where a lookup does and fail
for the same reason. An addition succeeds by the container and the spelling of the token. -/
theorem apply_follows_lookup (parsed : Pointer.parse path = .ok target) (document : Value) :
    FollowsLookup path target document := by
  have read := readPointer_ok parsed
  constructor
  case navigates => exact document.navigate_eq target.tokens
  case replaces =>
    intro new
    simp only [apply, read, bind, Except.bind, isOk_placeFault, isOk_replaceAt]
  case removes =>
    have ran : ((Operation.remove path).apply document).isOk = (document.removeAt target).isOk := by
      simp only [apply, read, bind, Except.bind]
      cases document.removeAt target <;> rfl
    rw [ran, isOk_iff, isOk_iff]
    simp only [Prod.exists, removeAt_eq_ok_iff, exists_and_right]
  case takes => exact fun found => removeAt_eq_ok_iff
  case moves =>
    intro found remaining goal place taken goalParsed
    simp only [apply, read, bind, Except.bind, readPointer_ok goalParsed, taken]
    rfl
  case copies =>
    intro found goal place there goalParsed
    simp only [apply, read, bind, Except.bind, readPointer_ok goalParsed, locate_of_get there]
    rfl
  case tests =>
    intro found expected there
    simp only [apply, read, bind, Except.bind, locate_of_get there]
    rfl
  case missing =>
    intro error operation place absent needed goalParsed
    have unlocated := (Value.locate_follows document target.tokens).eq_error absent
    -- An operation that needs the place fails as removing, replacing or locating there does, since
    -- that is its first effect; only for a goal is another pointer read before.
    cases operation with
    | add => contradiction
    | remove =>
      obtain rfl := Option.some.inj needed
      obtain ⟨fault, name, removed⟩ := removeAt_missing absent
      exact ⟨fault, name, by simp only [apply, read, bind, Except.bind, removed]; rfl⟩
    | replace _ new =>
      obtain rfl := Option.some.inj needed
      obtain ⟨fault, name, replaced⟩ := replaceAt_missing absent new
      exact ⟨fault, name, by simp only [apply, read, bind, Except.bind, replaced]; rfl⟩
    | move _ goal =>
      obtain rfl := Option.some.inj needed
      obtain ⟨fault, name, removed⟩ := removeAt_missing absent
      have goalRead : readPointer goal = .ok place := readPointer_ok goalParsed
      exact ⟨fault, name, by simp only [apply, read, bind, Except.bind, goalRead, removed]; rfl⟩
    | copy _ goal =>
      obtain rfl := Option.some.inj needed
      obtain ⟨fault, name, located⟩ := unlocated
      have goalRead : readPointer goal = .ok place := readPointer_ok goalParsed
      exact ⟨fault, name, by simp only [apply, read, bind, Except.bind, goalRead, located]; rfl⟩
    | test =>
      obtain rfl := Option.some.inj needed
      obtain ⟨fault, name, located⟩ := unlocated
      exact ⟨fault, name, by simp only [apply, read, bind, Except.bind, located]; rfl⟩
  case adds =>
    intro countable new outcome
    simp only [apply, read, bind, Except.bind, ends_placeFault]
    constructor
    · intro addition
      exact Pointer.ends_addAt addition countable new
    · intro ends
      obtain ⟨other, addition⟩ := target.exists_addition document
      obtain rfl := (Pointer.ends_addAt addition countable new).unique ends
      exact addition

/-- A negative index leads to nothing and takes no addition. -/
theorem apply_follows_lookup_negative :
    let document : Value := .object [("a", .array [.null])]
    let target : Pointer := ⟨["a", "-0"]⟩
    Pointer.parse "/a/-0" = .ok target ∧ FollowsLookup "/a/-0" target document
      ∧ target.get document = .error .indexOutOfRange
      ∧ ((Operation.replace "/a/-0" .null).apply document).isOk = false
      ∧ (Operation.add "/a/-0" .null).apply document = .error ⟨"/a/-0", .indexOutOfRange⟩ := by
  intro document target
  have parsed : Pointer.parse "/a/-0" = .ok target := by rfl
  have absent : target.get document = .error .indexOutOfRange := by rfl
  have follows := apply_follows_lookup parsed document
  have countable : target.Countable document := by
    intro parent items enclosing there
    obtain rfl := Option.some.inj enclosing
    obtain rfl := Value.array.inj (Except.ok.inj there)
    decide
  have refused : target.Addition document (some .indexOutOfRange) :=
    .reached rfl rfl rfl (.negative [.null] (List.cons_ne_nil 0 []))
  refine ⟨parsed, follows, absent, Bool.eq_false_iff.mpr fun replaced => ?_,
    (follows.adds countable .null _).mp refused⟩
  rw [follows.replaces, absent] at replaced
  contradiction

end Operation

end JsonTree
