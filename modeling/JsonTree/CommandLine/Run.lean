import JsonTree.CommandLine.Arguments
import JsonTree.CommandLine.Host
import JsonTree.CommandLine.LogFilter
import JsonTree.Patch.Apply
import JsonTree.Patch.Document
import JsonTree.Path.Cache
import JsonTree.Value.Diagnostic
import JsonTree.Value.Writer

/-! The commands of the command line.

Output is formed completely before any of it is written, so a run that fails has
written nothing.
-/

set_option autoImplicit false

namespace JsonTree.CommandLine

/-- Why a step failed. What is wrong with a text that is no JSON text is left open. -/
inductive Cause where
  | text (message : String)
  | malformedText
  deriving DecidableEq, Repr

structure Failure where
  context : String
  cause : Cause
  deriving DecidableEq, Repr

def indentLines (text : String) : String :=
  String.ofList (text.toList.flatMap fun c => if c = '\n' then ['\n', ' ', ' ', ' ', ' '] else [c])

def Failure.text (failure : Failure) : String :=
  "Error: " ++ failure.context ++ "\n\nCaused by:\n    " ++
    match failure.cause with
    | .text message => indentLines message ++ "\n"
    | .malformedText => "0: JSON parse error: "

structure Report where
  exit : Nat
  stdout : String
  stderr : String
  deriving DecidableEq, Repr

/-- What a command comes to. The exit code counts when it does not fail. -/
structure Outcome where
  log : List LogLine
  result : Except Failure (Nat × String)

def Outcome.report (filter : LogFilter) (outcome : Outcome) : Report :=
  match outcome.result with
  | .ok (exit, stdout) => ⟨exit, stdout, filter.text outcome.log⟩
  | .error failure => ⟨1, "", filter.text outcome.log ++ failure.text⟩

def programTarget : String := "jsondoc"

def cacheTarget : String := "jsondoc_core::path::cache"

def patchTarget : String := "jsondoc_core::patch"

def cacheLine : CacheEvent → LogLine
  | .hit expression => ⟨.debug, cacheTarget, "path cache hit", [("expression", .quoted expression)]⟩
  | .compiled expression selectors =>
    ⟨.debug, cacheTarget, "path cache miss, compiled",
      [("expression", .quoted expression), ("tokens", .number selectors)]⟩
  | .full expression =>
    ⟨.debug, cacheTarget, "path cache full, not retaining", [("expression", .quoted expression)]⟩

def operationLine (index : Nat) (operation : Operation) : LogLine :=
  ⟨.trace, patchTarget, "applying patch operation",
    [("index", .number index), ("op", .quoted operation.name.text),
      ("path", .quoted operation.path)]⟩

def abortLine (error : PatchError) : LogLine :=
  ⟨.debug, patchTarget, "patch aborted",
    [("index", .number error.index), ("pointer", .quoted error.pointer),
      ("error", .bare error.message)]⟩

def patchLines (operations : List Operation) : Except PatchError Value → List LogLine
  | .ok _ => operations.mapIdx operationLine
  | .error error => (operations.take (error.index + 1)).mapIdx operationLine ++ [abortLine error]

def render (pretty : Bool) (value : Value) : String :=
  if pretty then value.pretty else value.compact

def renderLines (pretty : Bool) (values : List Value) : String :=
  String.join (values.map fun value => render pretty value ++ "\n")

def parseDocument (source text : String) : Except Failure Value :=
  match Value.parse text with
  | .ok document => .ok document
  | .error _ => .error ⟨"Failed to parse JSON from " ++ source, .malformedText⟩

def parsePatch (file text : String) : Except Failure Patch :=
  let context := "Invalid patch document: " ++ file
  match Patch.parse text with
  | .ok operations => .ok operations
  | .error (.text _) => .error ⟨context, .malformedText⟩
  | .error (.patch error) => .error ⟨context, .text error.message⟩

def queryText (expression : String) (first pretty : Bool) (text : String) : Outcome :=
  match parseDocument "input" text with
  | .error failure => ⟨[], .error failure⟩
  | .ok document =>
    let cache := PathCache.new none
    let lookUpLines := (cache.events expression).map cacheLine
    match (cache.lookUp expression).1 with
    | .error error =>
      ⟨lookUpLines,
        .error ⟨"Failed to compile path expression: " ++ expression, .text error.message⟩⟩
    | .ok path =>
      let values :=
        if first then (path.first? document).toList else (path.cursor document).toList
      let finished : LogLine :=
        ⟨.debug, programTarget, "query finished", [("expression", .bare expression)]⟩
      ⟨lookUpLines ++ [finished], .ok (0, renderLines pretty values)⟩

def patchText (operations : Patch) (pretty : Bool) (text : String) : Outcome :=
  match parseDocument "input" text with
  | .error failure => ⟨[], .error failure⟩
  | .ok document =>
    let patched := Patch.apply operations document
    let lines := patchLines operations patched
    match patched with
    | .error error => ⟨lines, .error ⟨"Failed to apply patch", .text error.message⟩⟩
    | .ok value =>
      let applied : LogLine :=
        ⟨.debug, programTarget, "patch applied", [("operations", .number operations.length)]⟩
      ⟨lines ++ [applied], .ok (0, render pretty value ++ "\n")⟩

variable {m : Type → Type} [Monad m] [Host m]

def readFile (path : String) : m (Except Failure String) := do
  match ← Host.readFile path with
  | .ok text => return .ok text
  | .error error => return .error ⟨"Failed to read file: " ++ path, .text error.message⟩

def readSource : Option String → m (Except Failure String)
  | some path => readFile path
  | none => do
    match ← Host.readInput (m := m) with
    | .ok text => return .ok text
    | .error error => return .error ⟨"Failed to read from stdin", .text error.message⟩

def deliver (output : Option String) (outcome : Outcome) : m Outcome :=
  match output, outcome.result with
  | some path, .ok (exit, text) => do
    match ← Host.writeFile path text with
    | .ok () => return ⟨outcome.log, .ok (exit, "")⟩
    | .error error =>
      return ⟨outcome.log, .error ⟨"Failed to write file: " ++ path, .text error.message⟩⟩
  | _, _ => return outcome

def runQuery (expression : String) (input : Option String) (first pretty : Bool) : m Outcome := do
  match ← readSource input with
  | .error failure => return ⟨[], .error failure⟩
  | .ok text => return queryText expression first pretty text

def runPatch (patch : String) (input output : Option String) (pretty : Bool) : m Outcome := do
  match ← readFile patch with
  | .error failure => return ⟨[], .error failure⟩
  | .ok patchDocument =>
    match parsePatch patch patchDocument with
    | .error failure => return ⟨[], .error failure⟩
    | .ok operations =>
      match ← readSource input with
      | .error failure => return ⟨[], .error failure⟩
      | .ok text => deliver output (patchText operations pretty text)

def readDocument (path : String) : m (Except Failure Value) := do
  match ← readFile path with
  | .error failure => return .error failure
  | .ok text => return parseDocument path text

def runEquals (left right : String) (orderedArrays : Bool) : m Outcome := do
  match ← readDocument left with
  | .error failure => return ⟨[], .error failure⟩
  | .ok leftDocument =>
    match ← readDocument right with
    | .error failure => return ⟨[], .error failure⟩
    | .ok rightDocument =>
      let order := if orderedArrays then ArrayOrder.ordered else .unordered
      let equal := leftDocument.equals order rightDocument
      return ⟨[], .ok (if equal then 0 else 1, boolText equal ++ "\n")⟩

def runCommand : Command → m Outcome
  | .query expression input first pretty => runQuery expression input first pretty
  | .patch patch input output pretty => runPatch patch input output pretty
  | .equals left right orderedArrays => runEquals left right orderedArrays

def versionText : String := "jsondoc 0.1.0\n"

def helpText : String :=
  "Query, patch and compare JSON documents\n\n"
    ++ "Usage: jsondoc [--log-level <FILTER>] <COMMAND>\n\n"
    ++ "Commands:\n"
    ++ "  query <EXPRESSION> [-i <FILE>] [--first] [--pretty]\n"
    ++ "  patch -p <FILE> [-i <FILE>] [-o <FILE>] [--pretty]\n"
    ++ "  equals <LEFT> <RIGHT> [--ordered-arrays]\n"

/-- The filter of a run and the warnings that come with it. A filter in the environment
counts before the one of the arguments, unless something is wrong with it. -/
def chooseFilter (logLevel : String) (environment : Option String) : LogFilter × List String :=
  match environment.bind LogFilter.parse? with
  | some filter => (filter, [])
  | none => LogFilter.parseLossy logLevel

/-- Run the command line. `environment` is the log filter of the environment. -/
def run (arguments : List String) (environment : Option String) : m Report :=
  match Request.ofArguments arguments with
  | .usageFault => return ⟨2, "", ""⟩
  | .version => return ⟨0, versionText, ""⟩
  | .help => return ⟨0, helpText, ""⟩
  | .run logLevel command => do
    let (filter, warnings) := chooseFilter logLevel environment
    let outcome ← runCommand command
    let report := outcome.report filter
    return { report with stderr := String.join (warnings.map (· ++ "\n")) ++ report.stderr }

end JsonTree.CommandLine
