import JsonTree.Text.Segments

/-! Cutting a text at a separator and joining the parts again. -/

set_option autoImplicit false

namespace JsonTree

theorem flatMap_segments (separator : Char) (text : List Char) :
    (segments separator text).flatMap (separator :: ·) = separator :: text := by
  induction text with
  | nil => rfl
  | cons c rest ih =>
    unfold segments
    split
    · next same => rw [List.flatMap_cons, ih, same, List.singleton_append]
    · split
      · next none => rw [none] at ih; contradiction
      · next first others some =>
        rw [some, List.flatMap_cons] at ih
        rw [List.flatMap_cons, ← (List.cons.inj ih).2]
        rfl

theorem separator_not_mem_segments (separator : Char) {text segment : List Char}
    (part : segment ∈ segments separator text) : separator ∉ segment := by
  induction text generalizing segment with
  | nil =>
    obtain rfl := List.mem_singleton.mp part
    exact List.not_mem_nil
  | cons c rest ih =>
    unfold segments at part
    split at part
    · rcases List.mem_cons.mp part with rfl | later
      · exact List.not_mem_nil
      · exact ih later
    · next other =>
      split at part
      · next none =>
        obtain rfl := List.mem_singleton.mp part
        exact fun member => other (List.mem_singleton.mp member).symm
      · next first others some =>
        rcases List.mem_cons.mp part with rfl | later
        · have front := ih (some ▸ List.mem_cons_self)
          rw [List.mem_cons, not_or]
          exact ⟨Ne.symm other, front⟩
        · exact ih (some ▸ List.mem_cons_of_mem _ later)

theorem segments_of_not_mem {separator : Char} {segment : List Char}
    (free : separator ∉ segment) : segments separator segment = [segment] := by
  induction segment with
  | nil => rfl
  | cons c rest ih =>
    rw [List.mem_cons, not_or] at free
    rw [segments, if_neg (Ne.symm free.1), ih free.2]

theorem segments_append {separator : Char} {segment : List Char} (free : separator ∉ segment)
    (rest : List Char) :
    segments separator (segment ++ separator :: rest) = segment :: segments separator rest := by
  induction segment with
  | nil => rw [List.nil_append, segments, if_pos rfl]
  | cons c tail ih =>
    rw [List.mem_cons, not_or] at free
    rw [List.cons_append, segments, if_neg (Ne.symm free.1), ih free.2]

theorem segments_flatMap {separator : Char} (first : List Char) (others : List (List Char))
    (free : ∀ segment ∈ first :: others, separator ∉ segment) :
    segments separator (first ++ others.flatMap (separator :: ·)) = first :: others := by
  induction others generalizing first with
  | nil =>
    rw [List.flatMap_nil, List.append_nil]
    exact segments_of_not_mem (free first List.mem_cons_self)
  | cons second others ih =>
    rw [List.flatMap_cons, List.cons_append, segments_append (free first List.mem_cons_self)]
    rw [ih second fun segment member => free segment (List.mem_cons_of_mem _ member)]

/-- Parts with a separator behind each are found again, with nothing behind the last one. -/
theorem segments_terminated {separator : Char} {parts : List (List Char)}
    (free : ∀ part ∈ parts, separator ∉ part) :
    segments separator (parts.flatMap (· ++ [separator])) = parts ++ [[]] := by
  induction parts with
  | nil => rfl
  | cons part parts ih =>
    obtain ⟨first, others⟩ := List.forall_mem_cons.mp free
    rw [List.flatMap_cons, List.append_assoc, List.singleton_append, segments_append first,
      ih others, List.cons_append]

end JsonTree
