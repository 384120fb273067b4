import JsonTree.Proofs.CommandLine.Commands
import JsonTree.Proofs.Outcome
import JsonTree.Proofs.Path.Addresses
import JsonTree.Proofs.Path.PoolRuns
import JsonTree.Proofs.Path.Selected
import JsonTree.Proofs.Value.OneLine

/-! The command line and the engine answer queries alike.

Both come to the values that a path selects from a document. The engine writes them as one
array and the command line on lines. Since a compact text has no line break, the lines can be
told apart again, and between commas they make up the text of the array.
-/

set_option autoImplicit false

namespace JsonTree

namespace Engine

variable (limit : Option Nat) (calls : List Call) {text expression : String}

theorem tracks_after : (after limit calls).cache.Tracks limit (onCache calls) := by
  rw [after_cache]
  exact PathCache.tracks_after limit (onCache calls)

theorem query_eq_ok_iff {answer : String} :
    ((after limit calls).query text expression).1 = .ok answer
      ↔ ∃ document path, Value.parse text = .ok document ∧ Path.parse expression = .ok path
        ∧ (Value.array (path.cursor document).toList).compact = answer := by
  have answered : ((after limit calls).respond (.query text expression)).1 = _ :=
    respond_uncached (tracks_after limit calls) rfl
  have same : ((after limit calls).query text expression).1 = _ := Answer.text.inj answered
  simp only [same, readText, bind_eq_ok_iff, mapError_eq_ok_iff, pure, Except.pure,
    Except.ok.injEq, exists_and_left]

theorem query_succeeds_iff :
    (∃ answer, ((after limit calls).query text expression).1 = .ok answer)
      ↔ ∃ document path, Value.parse text = .ok document ∧ Path.parse expression = .ok path := by
  constructor
  · rintro ⟨answer, answered⟩
    obtain ⟨document, path, parsed, compiled, -⟩ := (query_eq_ok_iff limit calls).mp answered
    exact ⟨document, path, parsed, compiled⟩
  · rintro ⟨document, path, parsed, compiled⟩
    exact ⟨_, (query_eq_ok_iff limit calls).mpr ⟨document, path, parsed, compiled, rfl⟩⟩

theorem queryFirst_eq_ok_iff {answer : Option String} :
    ((after limit calls).queryFirst text expression).1 = .ok answer
      ↔ ∃ document path, Value.parse text = .ok document ∧ Path.parse expression = .ok path
        ∧ (path.first? document).map Value.compact = answer := by
  have answered : ((after limit calls).respond (.queryFirst text expression)).1 = _ :=
    respond_uncached (tracks_after limit calls) rfl
  have same : ((after limit calls).queryFirst text expression).1 = _ := Answer.first.inj answered
  simp only [same, readText, bind_eq_ok_iff, mapError_eq_ok_iff, pure, Except.pure,
    Except.ok.injEq, exists_and_left]

end Engine

namespace CommandLine

variable {σ : Type} [Host (StateM σ)]

theorem perform_runQuery {input : Option String} {state : σ} {text : String}
    (read : (perform (readSource input) state).1 = .ok text) (expression : String)
    (first pretty : Bool) :
    (perform (runQuery expression input first pretty) state).1
      = queryText expression first pretty text := by
  simp only [runQuery, perform_bind, read, perform_pure]

theorem segments_renderLines (values : List Value) :
    segments '\n' (renderLines false values).toList
      = (values.map Value.compact).map String.toList ++ [[]] := by
  have lines : (renderLines false values).toList
      = ((values.map Value.compact).map String.toList).flatMap (· ++ ['\n']) := by
    simp [renderLines, render, List.flatMap_map]
  rw [lines]
  refine segments_terminated ?_
  simp only [List.forall_mem_map]
  exact fun value _ => value.newline_not_mem_compact

/-- A query command succeeds where the engine answers. Its lines are then the texts of the
values that are selected, and the answers of the engine are made of these lines. -/
theorem surfaces_agree {arguments : List String} {logLevel expression text : String}
    {input : Option String} {first pretty : Bool} (environment : Option String)
    {state after : σ} {report : Report} (limit : Option Nat) (calls : List Engine.Call)
    (requested : Request.ofArguments arguments
      = .run logLevel (.query expression input first pretty))
    (read : (perform (readSource input) state).1 = .ok text)
    (ran : perform (run arguments environment) state = (report, after)) :
    (report.exit = 0
        ↔ ∃ answer, ((Engine.after limit calls).query text expression).1 = .ok answer)
      ∧ (report.exit = 0 → ∃ document path, Value.parse text = .ok document
        ∧ Path.parse expression = .ok path ∧ ∃ lines,
          lines = (path.results document).map Value.compact
          ∧ List.Forall₂ (fun line value => Value.parse line = .ok value) lines
            (path.results document)
          ∧ ((Engine.after limit calls).query text expression).1
            = .ok ("[" ++ ",".intercalate lines ++ "]")
          ∧ ((Engine.after limit calls).queryFirst text expression).1 = .ok lines.head?
          ∧ (pretty = false → first = false →
            segments '\n' report.stdout.toList = lines.map String.toList ++ [[]])
          ∧ (pretty = false → first = true →
            report.stdout = lines.head?.elim "" (· ++ "\n"))) := by
  rcases commanded : perform (runCommand (.query expression input first pretty)) state
    with ⟨outcome, left⟩
  obtain ⟨exit, stdout, rfl⟩ := perform_run requested commanded ran
  obtain rfl : queryText expression first pretty text = outcome :=
    (perform_runQuery read expression first pretty).symm.trans (congrArg Prod.fst commanded)
  rw [exit, stdout, queryText_exit]
  refine ⟨(Engine.query_succeeds_iff limit calls).symm, ?_⟩
  rintro ⟨document, path, parsed, compiled⟩
  -- The command and the engine both run the cursor of the path, and its list is the results.
  have succeeded : (queryText expression first pretty text).result = .ok (0, _) :=
    queryText_eq_ok_iff.mpr ⟨document, path, parsed, compiled, rfl⟩
  have printed := Outcome.stdout_of_ok succeeded
  have front := CursorPool.first?_eq_head? path document
  rw [path.toList_cursor] at printed front
  refine ⟨document, path, parsed, compiled, _, rfl, path.results_reread parsed, ?_, ?_, ?_, ?_⟩
  · rw [← Value.compact_array, ← path.toList_cursor]
    exact (Engine.query_eq_ok_iff limit calls).mpr ⟨document, path, parsed, compiled, rfl⟩
  · rw [List.head?_map, ← front]
    exact (Engine.queryFirst_eq_ok_iff limit calls).mpr ⟨document, path, parsed, compiled, rfl⟩
  · rintro rfl rfl
    rw [printed]
    exact segments_renderLines _
  · rintro rfl rfl
    rw [printed, List.head?_map, ← front]
    cases path.first? document <;> simp [renderLines, render]

/-- A line break inside a string is escaped, and the engine keeps no path at all. -/
theorem surfaces_agree_escaped :
    let text := "[[1.50],\"a\\nb\"]"
    let engine := Engine.after (some 0) [.query "0" "$[*]"]
    ∃ report after,
      perform (run ["query", "$[*]"] none) (⟨[], .ok text⟩ : Directory) = (report, after)
        ∧ report.exit = 0
        ∧ segments '\n' report.stdout.toList = ["[1.50]".toList, "\"a\\nb\"".toList, []]
        ∧ (engine.query text "$[*]").1 = .ok text
        ∧ (engine.queryFirst text "$[*]").1 = .ok (some "[1.50]") := by
  intro text engine
  let values : List Value := [.array [.number ⟨false, 1, [5, 0], none⟩], .string "a\nb"]
  have requested : Request.ofArguments ["query", "$[*]"]
      = .run "warn" (.query "$[*]" none false false) := by decide
  have written : (Value.array values).compact = text := by decide +kernel
  have parsed : Value.parse text = .ok (.array values) :=
    written ▸ Value.parse_written .compact ⟨by decide, by decide, by decide⟩
  have compiled : Path.parse "$[*]" = .ok ⟨"$[*]", [.wildcard]⟩ := by decide +kernel
  have read : (perform (readSource none) (⟨[], .ok text⟩ : Directory)).1 = .ok text := rfl
  obtain ⟨exit, agree⟩ :=
    surfaces_agree none (some 0) [.query "0" "$[*]"] requested read rfl
  have succeeded := exit.mpr
    ((Engine.query_succeeds_iff _ _).mpr ⟨_, _, parsed, compiled⟩)
  obtain ⟨document, path, reparsed, recompiled, _, rfl, -, answer, front, lines, -⟩ :=
    agree succeeded
  obtain rfl := Except.ok.inj (parsed.symm.trans reparsed)
  obtain rfl := Except.ok.inj (compiled.symm.trans recompiled)
  have selected : (Path.results ⟨"$[*]", [.wildcard]⟩ (.array values)).map Value.compact
      = ["[1.50]", "\"a\\nb\""] := by decide +kernel
  rw [selected] at answer front lines
  exact ⟨_, _, rfl, succeeded, lines rfl rfl, answer, front⟩

end CommandLine

end JsonTree
