import Mathlib.Data.List.DropRight
import JsonTree.Engine
import JsonTree.Proofs.Path.Recognition
import JsonTree.Proofs.Related

/-! What a cache holds after any calls on it, and what the next call answers.

Answers never depend on earlier calls. What is kept does, and in a way that can be said
without running the calls: it is the beginning, as long as the limit allows, of the list of
the expressions looked up since the cache was last cleared, without those that are no paths
and without those that had come before.
-/

set_option autoImplicit false

namespace JsonTree

def upTo {α : Type} (limit : Option Nat) (items : List α) : List α :=
  limit.elim items items.take

def reached (limit : Option Nat) (count : Nat) : Bool := limit.any fun bound => bound ≤ count

section Limit

variable {α : Type} (limit : Option Nat) (items : List α)

@[simp] theorem upTo_nil : upTo limit ([] : List α) = [] := by
  cases limit <;> simp [upTo]

theorem upTo_length_le (bound : Nat) : (upTo (some bound) items).length ≤ bound := by
  simp only [upTo, Option.elim, List.length_take]
  omega

theorem upTo_concat (item : α) :
    upTo limit (items ++ [item])
      = if reached limit (upTo limit items).length then upTo limit items
        else upTo limit items ++ [item] := by
  cases limit with
  | none => rfl
  | some bound =>
    simp only [upTo, reached, Option.elim, Option.any, decide_eq_true_eq, List.length_take]
    split
    · next full => rw [List.take_append_of_le_length (by omega)]
    · next room => rw [List.take_of_length_le, List.take_of_length_le] <;> grind

theorem upTo_eq_of_room (room : ¬ reached limit (upTo limit items).length) :
    upTo limit items = items := by
  cases limit with
  | none => rfl
  | some bound =>
    simp only [upTo, reached, Option.elim, Option.any, decide_eq_true_eq, List.length_take]
      at room ⊢
    exact List.take_of_length_le (by omega)

end Limit

def Path.isPath (expression : String) : Bool := (Path.parse expression).isOk

@[simp] theorem Path.isPath_of_ok {expression : String} {path : Path}
    (parsed : Path.parse expression = .ok path) : Path.isPath expression = true := by
  rw [isPath, parsed]
  rfl

@[simp] theorem Path.isPath_of_error {expression : String} {error : SyntaxError}
    (refused : Path.parse expression = .error error) : Path.isPath expression = false := by
  rw [isPath, refused]
  rfl

namespace PathCache

inductive Call where
  | lookUp (expression : String)
  | query (document : Value) (expression : String)
  | queryFirst (document : Value) (expression : String)
  | contains (expression : String)
  | stats
  | clear

inductive Answer where
  | path (result : Except Path.SyntaxError Path)
  | values (result : Except Path.SyntaxError (List Value))
  | first (result : Except Path.SyntaxError (Option Value))
  | kept (isKept : Bool)
  | stats (hits misses size : Nat)
  | cleared

def Answer.failed : Answer → Bool
  | .path (.error _) | .values (.error _) | .first (.error _) => true
  | _ => false

def respond (cache : PathCache) : Call → Answer × PathCache
  | .lookUp expression => let (path, cache) := cache.lookUp expression; (.path path, cache)
  | .query document expression =>
    let (values, cache) := cache.query document expression
    (.values values, cache)
  | .queryFirst document expression =>
    let (value, cache) := cache.queryFirst document expression
    (.first value, cache)
  | .contains expression => (.kept (cache.contains expression), cache)
  | .stats => (.stats cache.hits cache.misses cache.size, cache)
  | .clear => (.cleared, cache.clear)

def after (limit : Option Nat) (calls : List Call) : PathCache :=
  calls.foldl (fun cache call => (cache.respond call).2) (new limit)

theorem after_concat (limit : Option Nat) (calls : List Call) (call : Call) :
    after limit (calls ++ [call]) = ((after limit calls).respond call).2 :=
  List.foldl_concat ..

namespace Call

def expression? : Call → Option String
  | .lookUp expression | .query _ expression | .queryFirst _ expression => some expression
  | .contains _ | .stats | .clear => none

def isClear : Call → Bool
  | .clear => true
  | _ => false

def uncached? : Call → Option Answer
  | .lookUp expression => some (.path (Path.parse expression))
  | .query document expression =>
    some (.values ((Path.parse expression).map fun path => (path.cursor document).toList))
  | .queryFirst document expression =>
    some (.first ((Path.parse expression).map fun path => path.first? document))
  | .contains _ | .stats | .clear => none

end Call

def lookedUp (calls : List Call) : List String := calls.filterMap Call.expression?

def sinceClear (calls : List Call) : List Call := calls.rtakeWhile fun call => !call.isClear

/-- The paths that calls have asked for since the last clearing, each where it first was. -/
def asked (calls : List Call) : List String :=
  ((lookedUp (sinceClear calls)).filter Path.isPath).eraseDups

def retained (limit : Option Nat) (calls : List Call) : List String := upTo limit (asked calls)

section Retained

variable (limit : Option Nat) (calls : List Call)

theorem asked_clear : asked (calls ++ [.clear]) = [] := by
  simp [asked, sinceClear, lookedUp, Call.isClear]

theorem asked_other {call : Call} (noLookup : call.expression? = none)
    (goesOn : call.isClear = false) : asked (calls ++ [call]) = asked calls := by
  simp [asked, sinceClear, lookedUp, goesOn, noLookup]

theorem asked_lookUp {call : Call} {expression : String}
    (looksUp : call.expression? = some expression) :
    asked (calls ++ [call])
      = if Path.isPath expression ∧ expression ∉ asked calls then asked calls ++ [expression]
        else asked calls := by
  have goesOn : call.isClear = false := by
    cases call <;> simp_all [Call.expression?, Call.isClear]
  have lookups : lookedUp (sinceClear (calls ++ [call]))
      = lookedUp (sinceClear calls) ++ [expression] := by
    simp [sinceClear, lookedUp, goesOn, looksUp]
  unfold asked
  rw [lookups, List.filter_append]
  cases valid : Path.isPath expression with
  | false => simp [valid]
  | true =>
    rw [List.filter_cons_of_pos valid, List.filter_nil, eraseDups_concat]
    simp only [List.mem_eraseDups, true_and, ite_not]

theorem retained_lookUp {call : Call} {expression : String}
    (looksUp : call.expression? = some expression) :
    retained limit (calls ++ [call])
      = if Path.isPath expression ∧ expression ∉ retained limit calls
          ∧ ¬ reached limit (retained limit calls).length
        then retained limit calls ++ [expression] else retained limit calls := by
  unfold retained
  rw [asked_lookUp calls looksUp]
  by_cases full : reached limit (upTo limit (asked calls)).length
  · -- Whatever is asked for only now comes too late.
    have late : ¬ (Path.isPath expression ∧ expression ∉ upTo limit (asked calls)
        ∧ ¬ reached limit (upTo limit (asked calls)).length) := fun added => added.2.2 full
    rw [if_neg late]
    split
    · rw [upTo_concat, if_pos full]
    · rfl
  · have all := upTo_eq_of_room limit (asked calls) full
    by_cases new : Path.isPath expression ∧ expression ∉ asked calls
    · rw [if_pos new, upTo_concat, if_neg full, if_pos ⟨new.1, by rw [all]; exact new.2, full⟩]
    · rw [if_neg new, if_neg fun added => new ⟨added.1, all ▸ added.2.1⟩]

end Retained

inductive LookUp (cache : PathCache) (expression : String) :
    Except Path.SyntaxError Path × PathCache → Prop where
  | hit {path : Path} : cache.find? expression = some path →
      LookUp cache expression (.ok path, { cache with hits := cache.hits + 1 })
  | refused {error : Path.SyntaxError} : cache.find? expression = none →
      Path.parse expression = .error error →
      LookUp cache expression (.error error, { cache with misses := cache.misses + 1 })
  | full {path : Path} : cache.find? expression = none → Path.parse expression = .ok path →
      cache.isFull = true →
      LookUp cache expression (.ok path, { cache with misses := cache.misses + 1 })
  | kept {path : Path} : cache.find? expression = none → Path.parse expression = .ok path →
      cache.isFull = false →
      LookUp cache expression
        (.ok path, { cache with misses := cache.misses + 1, paths := cache.paths ++ [path] })

theorem lookUp_cases (cache : PathCache) (expression : String) :
    LookUp cache expression (cache.lookUp expression) := by
  unfold lookUp
  cases found : cache.find? expression with
  | some path => exact .hit found
  | none =>
    cases parsed : Path.parse expression with
    | error error => exact .refused found parsed
    | ok path =>
      cases full : cache.isFull with
      | true => exact .full found parsed full
      | false => exact .kept found parsed full

inductive Moves (cache : PathCache) (call : Call) : PathCache → Prop where
  | looksUp {expression : String} : call.expression? = some expression →
      Moves cache call (cache.lookUp expression).2
  | observes : call.expression? = none → call.isClear = false → Moves cache call cache
  | clears : call = .clear → Moves cache call cache.clear

theorem respond_moves (cache : PathCache) (call : Call) :
    Moves cache call (cache.respond call).2 := by
  cases call with
  | lookUp expression | query _ expression | queryFirst _ expression => exact .looksUp rfl
  | contains _ | stats => exact .observes rfl rfl
  | clear => exact .clears rfl

theorem contains_iff (cache : PathCache) (expression : String) :
    cache.contains expression = true ↔ expression ∈ cache.paths.map Path.expression := by
  simp [contains, find?, List.find?_isSome]

structure Tracks (cache : PathCache) (limit : Option Nat) (calls : List Call) : Prop where
  bound : cache.limit = limit
  expressions : cache.paths.map Path.expression = retained limit calls
  parsed : ∀ path ∈ cache.paths, Path.parse path.expression = .ok path
  lookups : cache.hits + cache.misses = (lookedUp calls).length

namespace Tracks

variable {limit : Option Nat} {calls : List Call} {cache : PathCache}

theorem find?_eq_none_iff (tracks : cache.Tracks limit calls) (expression : String) :
    cache.find? expression = none ↔ expression ∉ retained limit calls := by
  rw [← tracks.expressions, ← contains_iff, contains]
  cases cache.find? expression <;> simp

theorem mem_of_find? (tracks : cache.Tracks limit calls) {expression : String} {path : Path}
    (found : cache.find? expression = some path) : expression ∈ retained limit calls := by
  rw [← tracks.expressions, ← contains_iff, contains, found]
  rfl

theorem parse_eq_of_find? (tracks : cache.Tracks limit calls) {expression : String} {path : Path}
    (found : cache.find? expression = some path) : Path.parse expression = .ok path := by
  have same : path.expression = expression := by simpa using List.find?_some found
  exact same ▸ tracks.parsed path (List.mem_of_find?_eq_some found)

theorem isFull_eq (tracks : cache.Tracks limit calls) :
    cache.isFull = reached limit (retained limit calls).length := by
  rw [← tracks.expressions, List.length_map, isFull, tracks.bound, size, reached]

theorem lookUp_eq (tracks : cache.Tracks limit calls) (expression : String) :
    (cache.lookUp expression).1 = Path.parse expression := by
  have outcome := lookUp_cases cache expression
  generalize cache.lookUp expression = looked at outcome ⊢
  cases outcome with
  | hit found => exact (tracks.parse_eq_of_find? found).symm
  | refused _ parsed | full _ parsed _ | kept _ parsed _ => exact parsed.symm

theorem lookUp_counts (tracks : cache.Tracks limit calls) (expression : String) :
    (cache.lookUp expression).2.hits
        = cache.hits + (if expression ∈ retained limit calls then 1 else 0)
      ∧ (cache.lookUp expression).2.misses
        = cache.misses + (if expression ∈ retained limit calls then 0 else 1) := by
  have outcome := lookUp_cases cache expression
  generalize cache.lookUp expression = looked at outcome ⊢
  cases outcome with
  | hit found => simp [tracks.mem_of_find? found]
  | refused missing _ | full missing _ _ | kept missing _ _ =>
    simp [(tracks.find?_eq_none_iff expression).mp missing]

theorem lookUp (tracks : cache.Tracks limit calls) {call : Call} {expression : String}
    (looksUp : call.expression? = some expression) :
    (cache.lookUp expression).2.Tracks limit (calls ++ [call]) := by
  have grown := retained_lookUp limit calls looksUp
  have same (rejected : ¬ (Path.isPath expression ∧ expression ∉ retained limit calls
        ∧ ¬ reached limit (retained limit calls).length)) :
      cache.paths.map Path.expression = retained limit (calls ++ [call]) := by
    rw [grown, if_neg rejected]
    exact tracks.expressions
  have counted : (lookedUp (calls ++ [call])).length = cache.hits + cache.misses + 1 := by
    simp [tracks.lookups, lookedUp, looksUp]
  have outcome := lookUp_cases cache expression
  generalize cache.lookUp expression = looked at outcome ⊢
  -- Only the last way adds to what is kept; each of the others lacks one condition for it.
  cases outcome with
  | hit found =>
    have before := tracks.mem_of_find? found
    exact ⟨tracks.bound, same fun added => added.2.1 before, tracks.parsed, by grind⟩
  | refused missing refused =>
    have noPath : ¬ Path.isPath expression := by simp [refused]
    exact ⟨tracks.bound, same fun added => noPath added.1, tracks.parsed, by grind⟩
  | full missing parsed full =>
    rw [tracks.isFull_eq] at full
    exact ⟨tracks.bound, same fun added => added.2.2 full, tracks.parsed, by grind⟩
  | @kept path missing parsed room =>
    rw [tracks.isFull_eq] at room
    have new := (tracks.find?_eq_none_iff expression).mp missing
    rw [if_pos ⟨Path.isPath_of_ok parsed, new, by simp [room]⟩] at grown
    have own : path.expression = expression := (Path.parse_eq_ok_iff.mp parsed).1
    refine ⟨tracks.bound, ?_, ?_, by grind⟩
    · rw [grown, List.map_append, tracks.expressions, ← own]
      rfl
    · intro held member
      rcases List.mem_append.mp member with old | last
      · exact tracks.parsed held old
      · rw [List.mem_singleton.mp last, own]
        exact parsed

theorem respond (tracks : cache.Tracks limit calls) (call : Call) :
    (cache.respond call).2.Tracks limit (calls ++ [call]) := by
  have move := respond_moves cache call
  generalize (cache.respond call).2 = next at move ⊢
  cases move with
  | looksUp looksUp => exact tracks.lookUp looksUp
  | observes noLookup goesOn =>
    refine ⟨tracks.bound, ?_, tracks.parsed, ?_⟩
    · rw [tracks.expressions, retained, retained, asked_other calls noLookup goesOn]
    · simpa [lookedUp, noLookup] using tracks.lookups
  | clears =>
    subst call
    refine ⟨tracks.bound, ?_, by simp [clear], ?_⟩
    · rw [retained, asked_clear, upTo_nil]
      rfl
    · rw [lookedUp, List.filterMap_append, List.length_append]
      exact tracks.lookups

end Tracks

theorem tracks_after (limit : Option Nat) (calls : List Call) :
    (after limit calls).Tracks limit calls := by
  induction calls using List.reverseRecOn with
  | nil =>
    refine ⟨rfl, ?_, by simp [after, new], rfl⟩
    simp [retained, asked, sinceClear, lookedUp, after, new]
  | append_singleton calls call ih =>
    rw [after_concat]
    exact ih.respond call

example : (after (some 2) [.lookUp "$.a", .clear, .lookUp "$.b", .lookUp "$[", .lookUp "$.b",
    .queryFirst .null "$.*", .lookUp "$.c"]).paths.map Path.expression = ["$.b", "$.*"] := by
  cbv

theorem Tracks.respond_uncached {limit : Option Nat} {calls : List Call} {cache : PathCache}
    (tracks : cache.Tracks limit calls) {call : Call} {answer : Answer}
    (uncached : call.uncached? = some answer) : (cache.respond call).1 = answer := by
  cases call with
  | lookUp expression | query document expression | queryFirst document expression =>
    rw [← Option.some_inj, ← uncached]
    simp only [PathCache.respond, query, queryFirst, Call.uncached?, tracks.lookUp_eq]
  | contains _ | stats | clear => cases uncached

theorem lookUp_paths_of_error {cache : PathCache} {expression : String}
    {error : Path.SyntaxError} (failed : (cache.lookUp expression).1 = .error error) :
    (cache.lookUp expression).2.paths = cache.paths := by
  have outcome := lookUp_cases cache expression
  generalize cache.lookUp expression = looked at outcome failed ⊢
  cases outcome with
  | refused _ _ => rfl
  | hit _ | full _ _ _ | kept _ _ _ => cases failed

theorem respond_paths_of_failed {cache : PathCache} {call : Call}
    (failed : (cache.respond call).1.failed = true) :
    (cache.respond call).2.paths = cache.paths := by
  cases call with
  | lookUp expression | query document expression | queryFirst document expression =>
    simp only [respond, query, queryFirst] at failed ⊢
    cases found : (cache.lookUp expression).1 with
    | error error => exact lookUp_paths_of_error found
    | ok path => simp [found, Except.map, Answer.failed] at failed
  | contains _ | stats => rfl
  | clear => cases failed

/-- What the calls so far say of a cache, and of the next call on it. -/
structure Predicted (cache : PathCache) (limit : Option Nat) (calls : List Call) : Prop where
  expressions : cache.paths.map Path.expression = retained limit calls
  contains : ∀ expression,
    cache.contains expression = true ↔ expression ∈ retained limit calls
  bounded : ∀ bound, limit = some bound → cache.size ≤ bound
  lookups : cache.hits + cache.misses = (lookedUp calls).length
  answers : ∀ call answer, call.uncached? = some answer → (cache.respond call).1 = answer
  /-- A lookup counts once, as a hit exactly where its expression is kept. -/
  hits : ∀ call expression, call.expression? = some expression →
    (cache.respond call).2.hits
        = cache.hits + (if expression ∈ retained limit calls then 1 else 0)
      ∧ (cache.respond call).2.misses
        = cache.misses + (if expression ∈ retained limit calls then 0 else 1)
  counters : ∀ call, call.expression? = none →
    (cache.respond call).2.hits = cache.hits ∧ (cache.respond call).2.misses = cache.misses
  failures : ∀ call, (cache.respond call).1.failed = true →
    (cache.respond call).2.paths = cache.paths

theorem Tracks.predicted {limit : Option Nat} {calls : List Call} {cache : PathCache}
    (tracks : cache.Tracks limit calls) : cache.Predicted limit calls where
  expressions := tracks.expressions
  contains expression := by rw [contains_iff, tracks.expressions]
  bounded bound limited := by
    subst limited
    rw [size, ← List.length_map, tracks.expressions]
    exact upTo_length_le (asked calls) bound
  lookups := tracks.lookups
  answers _ _ uncached := tracks.respond_uncached uncached
  hits call expression looksUp := by
    have counts := tracks.lookUp_counts expression
    cases call with
    | lookUp _ | query _ _ | queryFirst _ _ => cases looksUp; exact counts
    | contains _ | stats | clear => cases looksUp
  counters call noLookup := by
    cases call with
    | lookUp _ | query _ _ | queryFirst _ _ => cases noLookup
    | contains _ | stats | clear => exact ⟨rfl, rfl⟩
  failures _ failed := respond_paths_of_failed failed

end PathCache

namespace Engine

inductive Call where
  | query (text expression : String)
  | queryFirst (text expression : String)
  | cacheSize
  | clearCache

inductive Answer where
  | text (result : Except EngineError String)
  | first (result : Except EngineError (Option String))
  | size (size : Nat)
  | cleared

def Answer.failed : Answer → Bool
  | .text (.error _) | .first (.error _) => true
  | _ => false

def respond (engine : Engine) : Call → Answer × Engine
  | .query text expression =>
    let (result, engine) := engine.query text expression
    (.text result, engine)
  | .queryFirst text expression =>
    let (result, engine) := engine.queryFirst text expression
    (.first result, engine)
  | .cacheSize => (.size engine.cacheSize, engine)
  | .clearCache => (.cleared, engine.clearCache)

def after (limit : Option Nat) (calls : List Call) : Engine :=
  calls.foldl (fun engine call => (engine.respond call).2) (new limit)

theorem after_concat (limit : Option Nat) (calls : List Call) (call : Call) :
    after limit (calls ++ [call]) = ((after limit calls).respond call).2 :=
  List.foldl_concat ..

namespace Call

def onCache? : Call → Option PathCache.Call
  | .query text expression =>
    (readText text).toOption.map fun document => .query document expression
  | .queryFirst text expression =>
    (readText text).toOption.map fun document => .queryFirst document expression
  | .cacheSize => some .stats
  | .clearCache => some .clear

def uncached? : Call → Option Answer
  | .query text expression => some (.text do
      let document ← readText text
      let path ← (Path.parse expression).mapError .path
      pure (Value.array (path.cursor document).toList).compact)
  | .queryFirst text expression => some (.first do
      let document ← readText text
      let path ← (Path.parse expression).mapError .path
      pure ((path.first? document).map Value.compact))
  | .cacheSize | .clearCache => none

end Call

def onCache (calls : List Call) : List PathCache.Call := calls.filterMap Call.onCache?

theorem respond_cache (engine : Engine) (call : Call) :
    (engine.respond call).2.cache
      = call.onCache?.elim engine.cache fun call => (engine.cache.respond call).2 := by
  cases call with
  | query text expression | queryFirst text expression =>
    simp only [respond, query, queryFirst, Call.onCache?]
    cases readText text <;> rfl
  | cacheSize | clearCache => rfl

theorem after_cache (limit : Option Nat) (calls : List Call) :
    (after limit calls).cache = PathCache.after limit (onCache calls) := by
  induction calls using List.reverseRecOn with
  | nil => rfl
  | append_singleton calls call ih =>
    have more : onCache (calls ++ [call]) = onCache calls ++ call.onCache?.toList := by
      rw [onCache, List.filterMap_append, onCache]
      cases place : call.onCache? <;> simp [place]
    rw [after_concat, respond_cache, ih, more]
    cases call.onCache? with
    | none => simp
    | some inner => exact (PathCache.after_concat limit (onCache calls) inner).symm

theorem respond_uncached {limit : Option Nat} {calls : List PathCache.Call} {engine : Engine}
    (tracks : engine.cache.Tracks limit calls) {call : Call} {answer : Answer}
    (uncached : call.uncached? = some answer) : (engine.respond call).1 = answer := by
  cases call with
  | query text expression | queryFirst text expression =>
    rw [← Option.some_inj, ← uncached]
    simp only [respond, query, queryFirst, PathCache.query, PathCache.queryFirst, Call.uncached?]
    cases readText text with
    | error error => rfl
    | ok document =>
      dsimp only
      rw [tracks.lookUp_eq]
      cases Path.parse expression <;> rfl
  | cacheSize | clearCache => cases uncached

theorem respond_paths_of_failed {engine : Engine} {call : Call}
    (failed : (engine.respond call).1.failed = true) :
    (engine.respond call).2.cache.paths = engine.cache.paths := by
  cases call with
  | query text expression | queryFirst text expression =>
    simp only [respond, query, queryFirst, PathCache.query, PathCache.queryFirst] at failed ⊢
    cases read : readText text with
    | error error => rfl
    | ok document =>
      simp only [read] at failed
      cases found : (engine.cache.lookUp expression).1 with
      | error error => exact PathCache.lookUp_paths_of_error found
      | ok path => simp [found, Except.map, Except.mapError, Answer.failed] at failed
  | cacheSize => rfl
  | clearCache => cases failed

/-- What the calls so far say of an engine, and of the next call on it. -/
structure Predicted (engine : Engine) (limit : Option Nat) (calls : List Call) : Prop where
  cache : engine.cache.Predicted limit (onCache calls)
  size : engine.cacheSize = (PathCache.retained limit (onCache calls)).length
  answers : ∀ call answer, call.uncached? = some answer → (engine.respond call).1 = answer
  moves : ∀ call, (engine.respond call).2.cache
    = call.onCache?.elim engine.cache fun call => (engine.cache.respond call).2
  failures : ∀ call, (engine.respond call).1.failed = true →
    (engine.respond call).2.cache.paths = engine.cache.paths

end Engine

/-- After any calls on a new cache or a new engine, what is kept, what was counted and what
the next call answers can be told from the calls alone. -/
theorem cached_runs_predicted (limit : Option Nat) :
    (∀ calls, (PathCache.after limit calls).Predicted limit calls)
      ∧ ∀ calls, (Engine.after limit calls).Predicted limit calls := by
  refine ⟨fun calls => (PathCache.tracks_after limit calls).predicted, fun calls => ?_⟩
  have tracks : (Engine.after limit calls).cache.Tracks limit (Engine.onCache calls) := by
    rw [Engine.after_cache]
    exact PathCache.tracks_after limit (Engine.onCache calls)
  exact {
    cache := tracks.predicted
    size := by rw [Engine.cacheSize, PathCache.size, ← tracks.expressions, List.length_map]
    answers := fun _ _ uncached => Engine.respond_uncached tracks uncached
    moves := Engine.respond_cache _
    failures := fun _ failed => Engine.respond_paths_of_failed failed }

end JsonTree
