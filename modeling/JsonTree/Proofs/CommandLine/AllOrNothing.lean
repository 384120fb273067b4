import JsonTree.Proofs.CommandLine.Commands
import JsonTree.Proofs.Patch.Records

/-! A run either has its whole effect or none.

A patch command reads both of its texts before it writes, so it makes no difference whether
the file that it writes is one of those that it has read, under whichever name.
-/

set_option autoImplicit false

namespace JsonTree.CommandLine

def Request.Compares (request : Request) : Prop :=
  ∃ logLevel left right orderedArrays,
    request = .run logLevel (.equals left right orderedArrays)

/-- An output has gone where it was to go: to the standard output, or into a file, of which
it is then the whole content. -/
def Files.Received {File : Type} (before after : Files File) (output : Option String)
    (text stdout : String) : Prop :=
  match output with
  | none => stdout = text ∧ after = before
  | some path => stdout = "" ∧ before.Replaced after path text

section

variable {σ : Type} [Host (StateM σ)] (storage : Storage σ)

namespace PatchEnds

variable {patch : String} {input output : Option String} {pretty : Bool} {state after : σ}
  {outcome : Outcome}

theorem fails (ends : PatchEnds storage patch input output pretty state (outcome, after))
    (failed : outcome.exit ≠ 0) :
    outcome.stdout = "" ∧ storage.files after = storage.files state := by
  cases ends with
  | unpatched none same => exact ⟨rfl, same⟩
  | refused named patches wrote =>
    exact ⟨rfl, (storage.files_failed wrote).trans (patches.files storage)⟩
  | written named patches wrote => exact absurd rfl failed
  | printed unnamed patches => exact absurd rfl failed

theorem exit_eq_zero_iff
    (ends : PatchEnds storage patch input output pretty state (outcome, after)) :
    outcome.exit = 0 ↔ ∃ patched read, Patches patch input state patched read
      ∧ ∀ path ∈ output,
        (perform (Host.writeFile path (render pretty patched ++ "\n")) read).1 = .ok () := by
  cases ends with
  | unpatched none same =>
    refine iff_of_false Nat.one_ne_zero ?_
    rintro ⟨patched, read, patches, -⟩
    exact none ⟨patched, read, patches⟩
  | @refused path patched read _ _ _ _ named patches wrote =>
    refine iff_of_false Nat.one_ne_zero ?_
    -- There is one patched document, so it is the one that could not be written.
    rintro ⟨other, later, again, accepted⟩
    obtain ⟨rfl, rfl⟩ := patches.unique again
    have written := accepted path named
    rw [wrote] at written
    cases written
  | @written path patched read _ _ named patches wrote =>
    refine iff_of_true rfl ⟨patched, read, patches, ?_⟩
    intro other mentioned
    obtain rfl := Option.mem_unique named mentioned
    exact congrArg Prod.fst wrote
  | @printed patched _ _ unnamed patches =>
    exact iff_of_true rfl ⟨patched, after, patches, by simp [unnamed]⟩

theorem received (ends : PatchEnds storage patch input output pretty state (outcome, after))
    (succeeded : outcome.exit = 0) :
    ∃ patched read, Patches patch input state patched read
      ∧ (storage.files state).Received (storage.files after) output
        (render pretty patched ++ "\n") outcome.stdout := by
  cases ends with
  | unpatched none same => cases succeeded
  | refused named patches wrote => cases succeeded
  | @written path patched read _ _ named patches wrote =>
    refine ⟨patched, read, patches, ?_⟩
    rw [named]
    exact ⟨rfl, patches.files storage ▸ storage.files_written wrote⟩
  | @printed patched _ _ unnamed patches =>
    refine ⟨patched, after, patches, ?_⟩
    rw [unnamed]
    exact ⟨rfl, patches.files storage⟩

end PatchEnds

/-- A run that fails has printed nothing and changed no file, and a patch command that does
not fail has put the patched document where it was to go and has done nothing else. -/
theorem run_all_or_nothing {arguments : List String} (environment : Option String)
    {state after : σ} {report : Report} (selected : ¬ (Request.ofArguments arguments).Compares)
    (ran : perform (run arguments environment) state = (report, after)) :
    (report.exit ≠ 0 → report.stdout = "" ∧ storage.files after = storage.files state)
      ∧ ∀ logLevel patch input output pretty,
        Request.ofArguments arguments = .run logLevel (.patch patch input output pretty) →
          (report.exit = 0 ↔ ∃ patched read, Patches patch input state patched read
            ∧ ∀ path ∈ output,
              (perform (Host.writeFile path (render pretty patched ++ "\n")) read).1 = .ok ())
          ∧ (report.exit = 0 → ∃ patched read, Patches patch input state patched read
            ∧ (storage.files state).Received (storage.files after) output
              (render pretty patched ++ "\n") report.stdout) := by
  cases requested : Request.ofArguments arguments with
  | run level command =>
    rcases commanded : perform (runCommand command) state with ⟨outcome, left⟩
    obtain ⟨exit, stdout, rfl⟩ := perform_run requested commanded ran
    rw [exit, stdout]
    -- A query touches no file, so its run is all or nothing by its outcome alone.
    cases command with
    | query expression input first pretty =>
      have ends := runQuery_ends storage expression input first pretty state
      rw [show perform (runQuery expression input first pretty) state = _ from commanded] at ends
      exact ⟨fun failed => ⟨ends.1 failed, ends.2⟩, fun _ _ _ _ _ other => by cases other⟩
    | patch patch input output pretty =>
      have ends := runPatch_ends storage patch input output pretty state
      rw [show perform (runPatch patch input output pretty) state = _ from commanded] at ends
      refine ⟨ends.fails, ?_⟩
      rintro _ _ _ _ _ ⟨⟩
      exact ⟨ends.exit_eq_zero_iff, ends.received⟩
    | equals left right orderedArrays =>
      exact absurd ⟨level, left, right, orderedArrays, requested⟩ selected
  | usageFault =>
    simp only [run, requested, perform_pure, Prod.mk.injEq] at ran
    obtain ⟨rfl, rfl⟩ := ran
    exact ⟨fun _ => ⟨rfl, rfl⟩, fun _ _ _ _ _ other => by cases other⟩
  | help | version =>
    simp only [run, requested, perform_pure, Prod.mk.injEq] at ran
    obtain ⟨rfl, rfl⟩ := ran
    exact ⟨fun failed => absurd rfl failed, fun _ _ _ _ _ other => by cases other⟩

end

/-- A document, and a patch that takes away all that the document holds. -/
def emptying : Directory :=
  ⟨[("d", "[1]"), ("p", "[\x7b\"op\":\"remove\",\"path\":\"/0\"\x7d]")], .ok ""⟩

/-- The document is read and written under two names. -/
theorem run_all_or_nothing_aliased :
    ∃ report after,
      perform (run ["patch", "-p", "p", "-i", "d", "-o", "./d"] none) emptying = (report, after)
        ∧ report.exit = 0 ∧ report.stdout = "" ∧ after.file? "d" = some "[]\n"
        ∧ after.file? "p" = emptying.file? "p" := by
  have requested : Request.ofArguments ["patch", "-p", "p", "-i", "d", "-o", "./d"]
      = .run "warn" (.patch "p" (some "d") (some "./d") false) := by decide
  have selected :
      ¬ (Request.ofArguments ["patch", "-p", "p", "-i", "d", "-o", "./d"]).Compares := by
    rw [requested]
    rintro ⟨_, _, _, _, ⟨⟩⟩
  have parsed : Patch.parse "[\x7b\"op\":\"remove\",\"path\":\"/0\"\x7d]" = .ok [.remove "/0"] := by
    have written : (Patch.toValue [.remove "/0"]).compact
        = "[\x7b\"op\":\"remove\",\"path\":\"/0\"\x7d]" := by decide +kernel
    exact written ▸ Patch.parse_written .compact (by simp [Operation.value?])
  have documentParsed : Value.parse "[1]" = .ok (.array [.number ⟨false, 1, [], none⟩]) := by
    have written : (Value.array [.number ⟨false, 1, [], none⟩]).compact = "[1]" := by
      decide +kernel
    exact written ▸ Value.parse_written .compact ⟨by decide, by decide, by decide⟩
  have patches : Patches "p" (some "d") emptying (.array []) emptying :=
    .intro rfl parsed rfl documentParsed rfl
  obtain ⟨-, patched⟩ := run_all_or_nothing Directory.storage none selected rfl
  obtain ⟨exit, received⟩ := patched _ _ _ _ _ requested
  have succeeded := exit.mpr ⟨_, _, patches, by rintro path ⟨⟩; rfl⟩
  obtain ⟨_, _, again, stdout, file, named, content, others⟩ := received succeeded
  obtain ⟨rfl, rfl⟩ := patches.unique again
  obtain rfl : "d" = file := Option.some_inj.mp named
  have apart : "p" ≠ "d" := by decide
  exact ⟨_, _, rfl, succeeded, stdout, content, others "p" apart⟩

end JsonTree.CommandLine
