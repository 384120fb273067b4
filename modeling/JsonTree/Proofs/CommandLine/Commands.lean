import JsonTree.Proofs.CommandLine.Storage
import JsonTree.Proofs.Path.CacheRuns

/-! How the commands end.

A command reads what it needs, computes its output and, at the very end, may write it. So
everything that can go wrong does so before anything is written or while it is.
-/

set_option autoImplicit false

namespace JsonTree.CommandLine

namespace Outcome

def exit (outcome : Outcome) : Nat :=
  match outcome.result with
  | .ok (exit, _) => exit
  | .error _ => 1

def stdout (outcome : Outcome) : String :=
  match outcome.result with
  | .ok (_, stdout) => stdout
  | .error _ => ""

theorem stdout_of_ok {outcome : Outcome} {exit : Nat} {text : String}
    (succeeded : outcome.result = .ok (exit, text)) : outcome.stdout = text := by
  simp only [stdout, succeeded]

theorem report_exit (outcome : Outcome) (filter : LogFilter) :
    (outcome.report filter).exit = outcome.exit := by
  cases result : outcome.result <;> simp only [report, exit, result]

theorem report_stdout (outcome : Outcome) (filter : LogFilter) :
    (outcome.report filter).stdout = outcome.stdout := by
  cases result : outcome.result <;> simp only [report, stdout, result]

end Outcome

section

variable {σ : Type} [Host (StateM σ)]

/-- A run answers with the outcome of its command and leaves what the command leaves. -/
theorem perform_run {arguments : List String} {logLevel : String} {command : Command}
    (requested : Request.ofArguments arguments = .run logLevel command)
    {environment : Option String} {state after left : σ} {outcome : Outcome} {report : Report}
    (commanded : perform (runCommand command) state = (outcome, left))
    (ran : perform (run arguments environment) state = (report, after)) :
    report.exit = outcome.exit ∧ report.stdout = outcome.stdout ∧ after = left := by
  simp only [run, requested, perform_bind, commanded, perform_pure, Prod.mk.injEq] at ran
  obtain ⟨rfl, rfl⟩ := ran
  exact ⟨outcome.report_exit _, outcome.report_stdout _, rfl⟩

theorem parsePatch_eq_ok_iff {file text : String} {operations : Patch} :
    parsePatch file text = .ok operations ↔ Patch.parse text = .ok operations := by
  unfold parsePatch
  cases Patch.parse text with
  | ok read => simp
  | error cause => cases cause <;> simp

theorem parseDocument_eq_ok_iff (source : String) {text : String} {document : Value} :
    parseDocument source text = .ok document ↔ Value.parse text = .ok document := by
  unfold parseDocument
  cases Value.parse text <;> simp

theorem queryText_eq_ok_iff {expression : String} {first pretty : Bool} {text : String}
    {success : Nat × String} :
    (queryText expression first pretty text).result = .ok success
      ↔ ∃ document path, Value.parse text = .ok document ∧ Path.parse expression = .ok path
        ∧ (0, renderLines pretty
          (if first then (path.first? document).toList else (path.cursor document).toList))
          = success := by
  simp only [← parseDocument_eq_ok_iff "input"]
  have looked := (PathCache.tracks_after none []).lookUp_eq expression
  unfold queryText
  cases parseDocument "input" text with
  | error failure => simp
  | ok document =>
    simp only [show PathCache.new none = PathCache.after none [] from rfl, looked]
    cases Path.parse expression <;> simp

theorem queryText_exit {expression : String} {first pretty : Bool} {text : String} :
    (queryText expression first pretty text).exit = 0
      ↔ ∃ document path, Value.parse text = .ok document
        ∧ Path.parse expression = .ok path := by
  rw [Outcome.exit]
  cases result : (queryText expression first pretty text).result with
  | error failure =>
    refine iff_of_false Nat.one_ne_zero ?_
    rintro ⟨document, path, parsed, compiled⟩
    rw [queryText_eq_ok_iff.mpr ⟨document, path, parsed, compiled, rfl⟩] at result
    cases result
  | ok success =>
    obtain ⟨document, path, parsed, compiled, rfl⟩ := queryText_eq_ok_iff.mp result
    exact iff_of_true rfl ⟨document, path, parsed, compiled⟩

theorem queryText_stdout {expression : String} {first pretty : Bool} {text : String}
    (failed : (queryText expression first pretty text).exit ≠ 0) :
    (queryText expression first pretty text).stdout = "" := by
  rw [Outcome.stdout]
  cases result : (queryText expression first pretty text).result with
  | error failure => rfl
  | ok success =>
    obtain ⟨document, path, parsed, compiled, -⟩ := queryText_eq_ok_iff.mp result
    exact absurd (queryText_exit.mpr ⟨document, path, parsed, compiled⟩) failed

theorem patchText_eq_ok_iff {operations : Patch} {pretty : Bool} {text : String}
    {success : Nat × String} :
    (patchText operations pretty text).result = .ok success
      ↔ ∃ document patched, Value.parse text = .ok document
        ∧ Patch.apply operations document = .ok patched
        ∧ (0, render pretty patched ++ "\n") = success := by
  simp only [← parseDocument_eq_ok_iff "input"]
  unfold patchText
  cases parseDocument "input" text with
  | error failure => simp
  | ok document => cases applied : Patch.apply operations document <;> simp [applied]

theorem deliver_failed (output : Option String) (log : List LogLine) (failure : Failure) :
    deliver output ⟨log, .error failure⟩ = (pure ⟨log, .error failure⟩ : StateM σ Outcome) := by
  cases output <;> rfl

theorem perform_deliver (path : String) (log : List LogLine) (text : String) (state : σ) :
    (∃ after, perform (Host.writeFile path text) state = (.ok (), after)
        ∧ perform (deliver (some path) ⟨log, .ok (0, text)⟩) state = (⟨log, .ok (0, "")⟩, after))
      ∨ ∃ error failure after, perform (Host.writeFile path text) state = (.error error, after)
        ∧ perform (deliver (some path) ⟨log, .ok (0, text)⟩) state
          = (⟨log, .error failure⟩, after) := by
  simp only [deliver, perform_bind]
  rcases perform (Host.writeFile path text) state with ⟨error | written, after⟩
  · exact .inr ⟨error, _, after, rfl, rfl⟩
  · exact .inl ⟨after, rfl, rfl⟩

inductive Patches (patch : String) (input : Option String) (state : σ) (patched : Value)
    (after : σ) : Prop where
  | intro {patchText documentText : String} {operations : Patch} {document : Value}
      {between : σ} :
      perform (readFile patch) state = (.ok patchText, between) →
      Patch.parse patchText = .ok operations →
      perform (readSource input) between = (.ok documentText, after) →
      Value.parse documentText = .ok document → Patch.apply operations document = .ok patched →
      Patches patch input state patched after

namespace Patches

variable {patch : String} {input : Option String} {state read : σ} {patched : Value}

theorem runPatch (patches : Patches patch input state patched read) (output : Option String)
    (pretty : Bool) :
    ∃ log, perform (CommandLine.runPatch patch input output pretty) state
      = perform (deliver output ⟨log, .ok (0, render pretty patched ++ "\n")⟩) read := by
  obtain @⟨_, documentText, operations, document, _, patchRead, patchParsed, documentRead,
    documentParsed, applied⟩ := patches
  have computed : (patchText operations pretty documentText).result
      = .ok (0, render pretty patched ++ "\n") :=
    patchText_eq_ok_iff.mpr ⟨document, patched, documentParsed, applied, rfl⟩
  refine ⟨(patchText operations pretty documentText).log, ?_⟩
  rw [← computed]
  simp only [CommandLine.runPatch, perform_bind, patchRead,
    parsePatch_eq_ok_iff.mpr patchParsed, documentRead]

theorem unique {other : Value} {later : σ} (patches : Patches patch input state patched read)
    (again : Patches patch input state other later) : patched = other ∧ read = later := by
  obtain ⟨patchRead, patchParsed, documentRead, documentParsed, applied⟩ := patches
  obtain ⟨patchReread, patchReparsed, documentReread, documentReparsed, reapplied⟩ := again
  grind

end Patches

section

variable (storage : Storage σ)

theorem files_readFile (path : String) (state : σ) :
    storage.files (perform (readFile path) state).2 = storage.files state := by
  rw [← storage.files_readFile path state]
  simp only [readFile, perform_bind]
  cases (perform (Host.readFile path) state).1 <;> rfl

theorem files_readSource (source : Option String) (state : σ) :
    storage.files (perform (readSource source) state).2 = storage.files state := by
  cases source with
  | some path => exact files_readFile storage path state
  | none =>
    rw [← storage.files_readInput state]
    simp only [readSource, perform_bind]
    cases (perform Host.readInput state).1 <;> rfl

theorem Patches.files {patch : String} {input : Option String} {state read : σ} {patched : Value}
    (patches : Patches patch input state patched read) :
    storage.files read = storage.files state := by
  obtain ⟨patchRead, -, documentRead, -, -⟩ := patches
  have first := files_readFile storage patch state
  have second := files_readSource storage input (perform (readFile patch) state).2
  rw [patchRead] at first second
  rw [documentRead] at second
  exact second.trans first

theorem runPatch_unpatched {patch : String} {input : Option String} {state : σ}
    (unpatched : ¬ ∃ patched read, Patches patch input state patched read)
    (output : Option String) (pretty : Bool) :
    ∃ log failure after, perform (runPatch patch input output pretty) state
        = (⟨log, .error failure⟩, after)
      ∧ storage.files after = storage.files state := by
  -- Whatever step fails first, only reads came before it.
  have first := files_readFile storage patch state
  rcases patchRead : perform (readFile patch) state with ⟨failure | operationsText, between⟩
  · rw [patchRead] at first
    refine ⟨[], failure, between, ?_, first⟩
    simp only [runPatch, perform_bind, patchRead, perform_pure]
  rw [patchRead] at first
  cases parsed : parsePatch patch operationsText with
  | error failure =>
    refine ⟨[], failure, between, ?_, first⟩
    simp only [runPatch, perform_bind, patchRead, parsed, perform_pure]
  | ok operations =>
    have second := (files_readSource storage input between).trans first
    rcases documentRead : perform (readSource input) between with ⟨failure | text, after⟩
    · rw [documentRead] at second
      refine ⟨[], failure, after, ?_, second⟩
      simp only [runPatch, perform_bind, patchRead, parsed, documentRead, perform_pure]
    rw [documentRead] at second
    rcases computed : patchText operations pretty text with ⟨log, failure | success⟩
    · refine ⟨log, failure, after, ?_, second⟩
      simp only [runPatch, perform_bind, patchRead, parsed, documentRead, computed,
        deliver_failed, perform_pure]
    · obtain ⟨document, patched, documentParsed, applied, -⟩ :=
        patchText_eq_ok_iff.mp (congrArg Outcome.result computed)
      exact absurd ⟨patched, after, patchRead, parsePatch_eq_ok_iff.mp parsed, documentRead,
        documentParsed, applied⟩ unpatched

inductive PatchEnds (patch : String) (input output : Option String) (pretty : Bool) (state : σ) :
    Outcome × σ → Prop where
  | unpatched {log : List LogLine} {failure : Failure} {after : σ} :
      (¬ ∃ patched read, Patches patch input state patched read) →
      storage.files after = storage.files state →
      PatchEnds patch input output pretty state (⟨log, .error failure⟩, after)
  | refused {path : String} {patched : Value} {read after : σ} {log : List LogLine}
      {error : FileError} {failure : Failure} :
      output = some path → Patches patch input state patched read →
      perform (Host.writeFile path (render pretty patched ++ "\n")) read = (.error error, after) →
      PatchEnds patch input output pretty state (⟨log, .error failure⟩, after)
  | written {path : String} {patched : Value} {read after : σ} {log : List LogLine} :
      output = some path → Patches patch input state patched read →
      perform (Host.writeFile path (render pretty patched ++ "\n")) read = (.ok (), after) →
      PatchEnds patch input output pretty state (⟨log, .ok (0, "")⟩, after)
  | printed {patched : Value} {read : σ} {log : List LogLine} :
      output = none → Patches patch input state patched read →
      PatchEnds patch input output pretty state
        (⟨log, .ok (0, render pretty patched ++ "\n")⟩, read)

theorem runPatch_ends (patch : String) (input output : Option String) (pretty : Bool)
    (state : σ) :
    PatchEnds storage patch input output pretty state
      (perform (runPatch patch input output pretty) state) := by
  by_cases comes : ∃ patched read, Patches patch input state patched read
  · obtain ⟨patched, read, patches⟩ := comes
    obtain ⟨log, ran⟩ := patches.runPatch output pretty
    rw [ran]
    cases output with
    | none => exact .printed rfl patches
    | some path =>
      rcases perform_deliver path log (render pretty patched ++ "\n") read with
        ⟨after, wrote, delivered⟩ | ⟨error, failure, after, wrote, delivered⟩
      · exact delivered ▸ .written rfl patches wrote
      · exact delivered ▸ .refused rfl patches wrote
  · obtain ⟨log, failure, after, ran, same⟩ := runPatch_unpatched storage comes output pretty
    rw [ran]
    exact .unpatched comes same

theorem runQuery_ends (expression : String) (input : Option String) (first pretty : Bool)
    (state : σ) :
    ((perform (runQuery expression input first pretty) state).1.exit ≠ 0 →
        (perform (runQuery expression input first pretty) state).1.stdout = "")
      ∧ storage.files (perform (runQuery expression input first pretty) state).2
        = storage.files state := by
  rw [← files_readSource storage input state]
  simp only [runQuery, perform_bind]
  cases (perform (readSource input) state).1 with
  | error failure => exact ⟨fun _ => rfl, rfl⟩
  | ok text => exact ⟨queryText_stdout, rfl⟩

end

end

end JsonTree.CommandLine
