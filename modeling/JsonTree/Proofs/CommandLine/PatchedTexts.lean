import JsonTree.Engine
import JsonTree.Proofs.CommandLine.Commands
import JsonTree.Proofs.Patch.Keys
import JsonTree.Proofs.Value.RoundTrip

/-! Patched documents are read back, unless an object begins with the reserved key.

A patch keeps the keys of every object distinct, so nothing but the reserved key can keep the
text of a patched document from being read as that document. An object can come to begin with
that key in two ways: the key is the first that is added to it, or what stood in front of it is
taken away.
-/

set_option autoImplicit false

namespace JsonTree

theorem Value.Lacks.unreserved {value : Value} (lacks : value.Lacks reservedKey) :
    value.Unreserved :=
  fun inner inside first => lacks inner inside (List.mem_of_head? first)

theorem Value.parse_text_iff_unreserved (layout : Layout) {value : Value} {blanks : List Char}
    (blank : ∀ c ∈ blanks, isBlank c) (distinct : value.DistinctKeys)
    (shallow : value.depth ≤ maxDepth) :
    Value.parse (String.ofList (value.chars layout ++ blanks)) = .ok value ↔ value.Unreserved := by
  rw [parse_text_iff layout blank]
  exact ⟨fun fits => fits.unreserved, fun unreserved => ⟨by omega, distinct, unreserved⟩⟩

theorem Engine.applyPatch_eq_ok_iff {text patchText written : String} :
    applyPatch text patchText = .ok written
      ↔ ∃ document operations patched, Value.parse text = .ok document
        ∧ Patch.parse patchText = .ok operations
        ∧ Patch.apply operations document = .ok patched ∧ patched.compact = written := by
  simp only [applyPatch, readText, bind_eq_ok_iff, mapError_eq_ok_iff, pure, Except.pure,
    Except.ok.injEq]
  constructor
  · rintro ⟨document, parsed, operations, patchParsed, patched, applied, same⟩
    exact ⟨document, operations, patched, parsed, patchParsed, applied, same⟩
  · rintro ⟨document, operations, patched, parsed, patchParsed, applied, same⟩
    exact ⟨document, parsed, operations, patchParsed, patched, applied, same⟩

namespace CommandLine

variable {text patchText : String} {document patched : Value} {operations : Patch}

theorem render_line (pretty : Bool) (value : Value) :
    ∃ layout, render pretty value ++ "\n" = String.ofList (value.chars layout ++ ['\n']) := by
  cases pretty with
  | false => exact ⟨.compact, String.ofList_append.symm⟩
  | true => exact ⟨.pretty, String.ofList_append.symm⟩

section

variable {σ : Type} [Host (StateM σ)]

theorem run_patch {arguments : List String} {logLevel file : String} {input : Option String}
    {pretty : Bool} {environment : Option String} {state read after : σ} {report : Report}
    (requested : Request.ofArguments arguments = .run logLevel (.patch file input none pretty))
    (patches : Patches file input state patched read)
    (ran : perform (run arguments environment) state = (report, after)) :
    report.exit = 0 ∧ report.stdout = render pretty patched ++ "\n" := by
  obtain ⟨log, commanded⟩ := patches.runPatch none pretty
  obtain ⟨exit, stdout, -⟩ := perform_run requested (commanded : _ = (_, read)) ran
  exact ⟨exit, stdout⟩

end

def one : Value := .number ⟨false, 1, [], none⟩

def reserving : String :=
  "[\x7b\"op\":\"add\",\"path\":\"/$serde_json::private::Number\",\"value\":1\x7d]"

theorem parse_reserving :
    Patch.parse reserving = .ok [.add "/$serde_json::private::Number" one] := by
  have written :
      (Patch.toValue [.add "/$serde_json::private::Number" one]).compact = reserving := by
    decide +kernel
  have fits : one.Fits 2 := Value.fits_scalar (by decide) rfl
  exact written ▸ Patch.parse_written .compact (by simpa [Operation.value?] using fits)

/-- What is written of a patched document is read as that document just when no object begins
with the reserved key, which is so when the key is in neither the document nor the patch. -/
theorem patched_reread (parsed : Value.parse text = .ok document)
    (patchParsed : Patch.parse patchText = .ok operations)
    (applied : Patch.apply operations document = .ok patched)
    (shallow : patched.depth ≤ maxDepth) :
    (∃ written, Engine.applyPatch text patchText = .ok written
        ∧ (Value.parse written = .ok patched ↔ patched.Unreserved))
      ∧ (∀ {σ : Type} [Host (StateM σ)] {arguments : List String} {logLevel file : String}
          {input : Option String} {pretty : Bool} {environment : Option String}
          {state between read after : σ} {report : Report},
          Request.ofArguments arguments = .run logLevel (.patch file input none pretty) →
          perform (readFile file) state = (.ok patchText, between) →
          perform (readSource input) between = (.ok text, read) →
          perform (run arguments environment) state = (report, after) →
          report.exit = 0 ∧ (Value.parse report.stdout = .ok patched ↔ patched.Unreserved))
      ∧ (document.Lacks reservedKey → (∀ operation ∈ operations, operation.Lacks reservedKey) →
        patched.Unreserved) := by
  -- What was read has distinct keys, and the patch keeps them so.
  have distinct : patched.DistinctKeys := by
    refine Patch.distinctKeys_apply (fun operation member value held => ?_)
      (Value.fits_of_parse parsed).distinct applied
    exact (Patch.fits_of_parse patchParsed operation member value held).distinct
  refine ⟨⟨patched.compact, ?_, ?_⟩, ?_, ?_⟩
  · exact Engine.applyPatch_eq_ok_iff.mpr
      ⟨document, operations, patched, parsed, patchParsed, applied, rfl⟩
  · have read := Value.parse_text_iff_unreserved .compact (List.forall_mem_nil _) distinct shallow
    rwa [List.append_nil] at read
  · intro σ _ arguments logLevel file input pretty environment state between read after report
      requested patchRead documentRead ran
    obtain ⟨exit, stdout⟩ :=
      run_patch requested ⟨patchRead, patchParsed, documentRead, parsed, applied⟩ ran
    obtain ⟨layout, spelled⟩ := render_line pretty patched
    rw [stdout, spelled]
    have newline : ∀ c ∈ ['\n'], isBlank c := List.forall_mem_singleton.mpr (by decide)
    exact ⟨exit, Value.parse_text_iff_unreserved layout newline distinct shallow⟩
  · exact fun lacks each => (Patch.lacks_apply each lacks applied).unreserved

/-- The reserved key does no harm behind another one. -/
theorem patched_reread_later_key :
    let patched : Value := .object [("a", one), (reservedKey, one)]
    let files : Directory := ⟨[("d", "\x7b\"a\":1\x7d"), ("p", reserving)], .ok ""⟩
    ∃ written report after, Engine.applyPatch "\x7b\"a\":1\x7d" reserving = .ok written
      ∧ Value.parse written = .ok patched
      ∧ perform (run ["patch", "-p", "p", "-i", "d", "--pretty"] none) files = (report, after)
      ∧ report.exit = 0 ∧ Value.parse report.stdout = .ok patched := by
  intro patched files
  have parsed : Value.parse "\x7b\"a\":1\x7d" = .ok (.object [("a", one)]) := by
    have written : (Value.object [("a", one)]).compact = "\x7b\"a\":1\x7d" := by decide +kernel
    exact written ▸ Value.parse_written .compact ⟨by decide, by decide, by decide⟩
  have applied : Patch.apply [.add "/$serde_json::private::Number" one] (.object [("a", one)])
      = .ok patched := by rfl
  have requested : Request.ofArguments ["patch", "-p", "p", "-i", "d", "--pretty"]
      = .run "warn" (.patch "p" (some "d") none true) := by decide
  have unreserved : patched.Unreserved := by decide
  obtain ⟨⟨written, answered, read⟩, printed, -⟩ :=
    patched_reread parsed parse_reserving applied (by decide)
  have patchRead : perform (readFile "p") files = (.ok reserving, files) := rfl
  have documentRead : perform (readSource (some "d")) files = (.ok "\x7b\"a\":1\x7d", files) := rfl
  rcases ran : perform (run ["patch", "-p", "p", "-i", "d", "--pretty"] none) files
    with ⟨report, after⟩
  obtain ⟨exit, reread⟩ := printed requested patchRead documentRead ran
  exact ⟨written, report, after, answered, read.mpr unreserved, rfl, exit, reread.mpr unreserved⟩

theorem patched_unread :
    let patched : Value := .object [(reservedKey, one)]
    Value.parse "\x7b\x7d" = .ok (.object [])
      ∧ Patch.parse reserving = .ok [.add "/$serde_json::private::Number" one]
      ∧ Patch.apply [.add "/$serde_json::private::Number" one] (.object []) = .ok patched
      ∧ patched.depth ≤ maxDepth
      ∧ Engine.applyPatch "\x7b\x7d" reserving = .ok patched.compact
      ∧ Value.parse patched.compact = .error .malformed := by
  intro patched
  have parsed : Value.parse "\x7b\x7d" = .ok (.object []) := by
    have written : (Value.object []).compact = "\x7b\x7d" := by decide +kernel
    exact written ▸ Value.parse_written .compact ⟨by decide, by decide, by decide⟩
  have applied : Patch.apply [.add "/$serde_json::private::Number" one] (.object [])
      = .ok patched := by rfl
  have answered := Engine.applyPatch_eq_ok_iff.mpr
    ⟨_, _, patched, parsed, parse_reserving, applied, rfl⟩
  -- Behind the reserved key only a string can be read, and this is a number.
  have refused : Value.read? (patched.chars .compact) = none := by
    rw [Value.read?, Value.scanAll_chars]
    simp [patched, one, Value.lexemes, readValue, readReserved]
  refine ⟨parsed, parse_reserving, applied, by decide, answered, ?_⟩
  rw [Value.parse, Value.compact, String.toList_ofList, refused]

end CommandLine

end JsonTree
