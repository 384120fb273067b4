import JsonTree.Pointer.Basic
import JsonTree.Proofs.Outcome
import JsonTree.Proofs.Text.Segments

/-! Pointers and their texts, one for one.

A spelled token holds no `/`, so the parts between the slashes of a text are the spellings
of its tokens. Reading a spelling takes two characters where there is a `~`, as spelling
made two of one; a text that is read is therefore the spelling of what is read from it.
-/

set_option autoImplicit false

namespace JsonTree.Pointer

theorem slash_not_mem_escapeChar (c : Char) : '/' ∉ escapeChar c := by
  unfold escapeChar
  split
  · decide
  · split
    · decide
    · next other => exact fun member => other (List.mem_singleton.mp member).symm

theorem slash_not_mem_escape (token : List Char) : '/' ∉ escape token := by
  intro member
  obtain ⟨c, -, inside⟩ := List.mem_flatMap.mp member
  exact slash_not_mem_escapeChar c inside

theorem escapeChar_of_ne {c : Char} (tilde : c ≠ '~') (slash : c ≠ '/') : escapeChar c = [c] := by
  rw [escapeChar, if_neg tilde, if_neg slash]

theorem unescape_escapeChar (position : Nat) (c : Char) (rest : List Char) :
    ∃ next, unescape position (escapeChar c ++ rest) = (unescape next rest).map (c :: ·) := by
  by_cases tilde : c = '~'
  · subst tilde
    exact ⟨position + 2, rfl⟩
  by_cases slash : c = '/'
  · subst slash
    exact ⟨position + 2, rfl⟩
  · refine ⟨position + c.utf8Size, ?_⟩
    rw [escapeChar_of_ne tilde slash, List.singleton_append, unescape]
    all_goals simp [tilde]

theorem unescape_escape (position : Nat) (token : List Char) :
    unescape position (escape token) = .ok token := by
  induction token generalizing position with
  | nil => rfl
  | cons c rest ih =>
    obtain ⟨next, step⟩ := unescape_escapeChar position c (escape rest)
    rw [escape, List.flatMap_cons, ← escape, step, ih]
    rfl

theorem ne_tilde {c : Char} {rest : List Char} (notLast : c = '~' → rest = [] → False)
    (notFront : ∀ next tail, c = '~' → rest = next :: tail → False) : c ≠ '~' := by
  intro same
  cases rest with
  | nil => exact notLast same rfl
  | cons next others => exact notFront next others same rfl

theorem escape_of_unescape {position : Nat} {segment token : List Char} (free : '/' ∉ segment)
    (read : unescape position segment = .ok token) : escape token = segment := by
  fun_induction unescape position segment generalizing token with
  | case1 =>
    obtain rfl := Except.ok.inj read
    rfl
  | case2 position rest ih | case3 position rest ih =>
    obtain ⟨tail, later, rfl⟩ := map_eq_ok_iff.mp read
    rw [List.mem_cons, List.mem_cons, not_or, not_or] at free
    rw [← ih free.2.2 later]
    rfl
  | case4 | case5 => contradiction
  | case6 position c rest _ _ notLast notFront ih =>
    obtain ⟨tail, later, rfl⟩ := map_eq_ok_iff.mp read
    rw [List.mem_cons, not_or] at free
    have tilde : c ≠ '~' := ne_tilde notLast notFront
    rw [escape, List.flatMap_cons, ← escape, ih free.2 later,
      escapeChar_of_ne tilde (Ne.symm free.1), List.singleton_append]

theorem readSegments_escape (position : Nat) (tokens : List String) :
    readSegments position (tokens.map fun token => escape token.toList) = .ok tokens := by
  induction tokens generalizing position with
  | nil => rfl
  | cons token others ih =>
    rw [List.map_cons, readSegments, unescape_escape, ih]
    simp [bind, Except.bind, pure, Except.pure]

theorem escape_of_readSegments {position : Nat} {parts : List (List Char)} {tokens : List String}
    (free : ∀ segment ∈ parts, '/' ∉ segment) (read : readSegments position parts = .ok tokens) :
    (tokens.map fun token => escape token.toList) = parts := by
  induction parts generalizing position tokens with
  | nil =>
    obtain rfl := Except.ok.inj read
    rfl
  | cons segment rest ih =>
    simp only [readSegments, bind, Except.bind] at read
    rw [List.forall_mem_cons] at free
    cases first : unescape position segment with
    | error error => rw [first] at read; contradiction
    | ok token =>
      rw [first] at read
      dsimp only at read
      cases later : readSegments (position + byteLength segment + 1) rest with
      | error error => rw [later] at read; contradiction
      | ok others =>
        rw [later] at read
        obtain rfl := Except.ok.inj read
        rw [List.map_cons, String.toList_ofList, escape_of_unescape free.1 first, ih free.2 later]

theorem chars_eq (tokens : List String) :
    chars ⟨tokens⟩ = (tokens.map fun token => escape token.toList).flatMap ('/' :: ·) :=
  (List.flatMap_map ..).symm

theorem toList_text (pointer : Pointer) : pointer.text.toList = pointer.chars :=
  String.toList_ofList

theorem parse_text (pointer : Pointer) : parse pointer.text = .ok pointer := by
  obtain ⟨tokens⟩ := pointer
  have free : ∀ segment ∈ tokens.map fun token => escape token.toList, '/' ∉ segment := by
    intro segment member
    obtain ⟨token, -, rfl⟩ := List.mem_map.mp member
    exact slash_not_mem_escape token.toList
  unfold parse
  rw [toList_text, chars_eq]
  cases tokens with
  | nil => rfl
  | cons token others =>
    have parts := segments_flatMap _ _ free
    have read := readSegments_escape 1 (token :: others)
    rw [List.map_cons] at read
    simp only [List.map_cons, List.flatMap_cons, List.cons_append, parts, read]

theorem text_of_parse {raw : String} {pointer : Pointer} (parsed : parse raw = .ok pointer) :
    pointer.text = raw := by
  refine String.ext ?_
  rw [toList_text]
  unfold parse at parsed
  split at parsed
  · next empty =>
    obtain rfl := Except.ok.inj parsed
    rw [empty]
    rfl
  · next body slash =>
    split at parsed
    · next tokens read =>
      obtain rfl := Except.ok.inj parsed
      have parts := escape_of_readSegments (fun _ => separator_not_mem_segments '/') read
      rw [chars_eq, parts, flatMap_segments, slash]
    · contradiction
  · contradiction

theorem root_or_concat (target : Pointer) :
    target = root ∨ ∃ parents token, target = ⟨parents ++ [token]⟩ := by
  obtain ⟨tokens⟩ := target
  rcases tokens.eq_nil_or_concat with rfl | ⟨parents, token, rfl⟩
  · exact .inl rfl
  · exact .inr ⟨parents, token, by rw [List.concat_eq_append]⟩

section

variable (parents : List String) (token : String)

theorem last?_concat : last? ⟨parents ++ [token]⟩ = some token := List.getLast?_concat ..

theorem parent?_concat : parent? ⟨parents ++ [token]⟩ = some ⟨parents⟩ := by
  simp [parent?, isRoot]

variable {parents token}

theorem parent_of_concat {parent : Pointer}
    (enclosing : parent? ⟨parents ++ [token]⟩ = some parent) : ⟨parents⟩ = parent :=
  Option.some.inj ((parent?_concat parents token).symm.trans enclosing)

theorem last_of_concat {last : String} (named : last? ⟨parents ++ [token]⟩ = some last) :
    token = last :=
  Option.some.inj ((last?_concat parents token).symm.trans named)

variable (parents token)

theorem concat_ne_root : (⟨parents ++ [token]⟩ : Pointer) ≠ root := by
  simp [root]

theorem text_concat :
    text ⟨parents ++ [token]⟩ = text ⟨parents⟩ ++ "/" ++ escapeToken token := by
  refine String.ext ?_
  simp only [String.toList_append, toList_text, escapeToken, String.toList_ofList, chars,
    List.flatMap_append, List.flatMap_cons, List.flatMap_nil, List.append_nil, List.append_assoc]
  rfl

end

/-- The pointer that is some steps further up; none beyond the root. -/
def ancestor? (pointer : Pointer) : Nat → Option Pointer
  | 0 => some pointer
  | steps + 1 => pointer.parent?.bind fun parent => parent.ancestor? steps

theorem ancestor?_concat (parents : List String) (token : String) (steps : Nat) :
    ancestor? ⟨parents ++ [token]⟩ (steps + 1) = ancestor? ⟨parents⟩ steps := by
  rw [ancestor?, parent?_concat, Option.bind_some]

theorem ancestor?_eq_root_iff {pointer : Pointer} {steps : Nat} :
    pointer.ancestor? steps = some root ↔ steps = pointer.tokens.length := by
  induction steps generalizing pointer with
  | zero =>
    obtain ⟨tokens⟩ := pointer
    simp [ancestor?, root, eq_comm]
  | succ steps ih =>
    rcases pointer.root_or_concat with rfl | ⟨parents, token, rfl⟩
    · simp [ancestor?, parent?, isRoot, root]
    · rw [ancestor?_concat, ih, List.length_append, List.length_singleton, Nat.add_left_inj]

theorem parents_concat (parents : List String) (token : String) :
    Pointer.parents ⟨parents ++ [token]⟩ = ⟨parents⟩ :: Pointer.parents ⟨parents⟩ := by
  unfold Pointer.parents
  rw [List.length_append, List.length_singleton, List.range_succ, List.reverse_append,
    List.reverse_singleton, List.singleton_append, List.map_cons, List.take_left' rfl]
  congr 1
  refine List.map_congr_left fun length shorter => ?_
  have inside := List.mem_range.mp (List.mem_reverse.mp shorter)
  rw [List.take_append_of_le_length (Nat.le_of_lt inside)]

theorem getElem?_parents (pointer : Pointer) (steps : Nat) :
    pointer.parents[steps]? = pointer.ancestor? (steps + 1) := by
  induction steps generalizing pointer with
  | zero =>
    rcases pointer.root_or_concat with rfl | ⟨parents, token, rfl⟩
    · rfl
    · rw [parents_concat, ancestor?_concat]
      rfl
  | succ steps ih =>
    rcases pointer.root_or_concat with rfl | ⟨parents, token, rfl⟩
    · rfl
    · rw [parents_concat, ancestor?_concat, List.getElem?_cons_succ, ih]

/-- Every list of tokens has one text, and every text that is read has one list of tokens.
The text of a pointer is that of its parent and the spelling of its last token, and the root
is as many steps up as there are tokens. -/
theorem text_tokens_correspond :
    (∀ tokens, parse (text ⟨tokens⟩) = .ok ⟨tokens⟩)
      ∧ ∀ raw pointer, parse raw = .ok pointer →
        text ⟨pointer.tokens⟩ = raw
          ∧ (raw ≠ "" → ∃ parent last, pointer.parent? = some parent ∧ pointer.last? = some last
            ∧ parent.text ++ "/" ++ escapeToken last = raw)
          ∧ (∀ steps, pointer.ancestor? steps = some root ↔ steps = pointer.tokens.length)
          ∧ ∀ steps, pointer.parents[steps]? = pointer.ancestor? (steps + 1) := by
  refine ⟨fun tokens => parse_text ⟨tokens⟩, fun raw pointer parsed => ?_⟩
  have spelled := text_of_parse parsed
  refine ⟨spelled, fun notEmpty => ?_, fun _ => ancestor?_eq_root_iff, pointer.getElem?_parents⟩
  rcases pointer.root_or_concat with rfl | ⟨parents, token, rfl⟩
  · exact absurd spelled.symm notEmpty
  · exact ⟨⟨parents⟩, token, parent?_concat parents token, last?_concat parents token,
      (text_concat parents token).symm.trans spelled⟩

theorem text_tokens_correspond_escapes :
    let pointer : Pointer := ⟨["~1", "a/b~", "", "0", ""]⟩
    parse "/~01/a~1b~0//0/" = .ok pointer ∧ text ⟨pointer.tokens⟩ = "/~01/a~1b~0//0/"
      ∧ pointer.ancestor? 5 = some root := by
  intro pointer
  have parsed : parse "/~01/a~1b~0//0/" = .ok pointer := by rfl
  obtain ⟨spelled, -, steps, -⟩ := text_tokens_correspond.2 _ _ parsed
  exact ⟨parsed, spelled, (steps 5).mpr rfl⟩

end JsonTree.Pointer
