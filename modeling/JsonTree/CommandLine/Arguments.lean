/-! The arguments of the command line.

Arguments are read from left to right and the first fault decides, so help that is
asked for before a fault is given all the same.
-/

set_option autoImplicit false

namespace JsonTree.CommandLine

inductive Command where
  | query (expression : String) (input : Option String) (first pretty : Bool)
  | patch (patch : String) (input output : Option String) (pretty : Bool)
  | equals (left right : String) (orderedArrays : Bool)
  deriving DecidableEq, Repr

inductive Request where
  | run (logLevel : String) (command : Command)
  | help
  | version
  | usageFault
  deriving DecidableEq, Repr

inductive OptionKind where
  | flag | value | help | version
  deriving DecidableEq, Repr

structure OptionSpec where
  name : String
  short : Option Char
  kind : OptionKind
  deriving DecidableEq, Repr

inductive Stop where
  | help | version | fault
  deriving DecidableEq, Repr

/-- What one argument is. An option that waits takes the next argument as its value. -/
inductive Shape where
  | positional
  | terminator
  | option (name value : String)
  | waiting (name : String)
  deriving DecidableEq, Repr

def longShape (specs : List OptionSpec) (name : String) (attached : Option String) :
    Except Stop Shape :=
  match specs.find? (·.name == name) with
  | none => .error .fault
  | some spec =>
    match spec.kind, attached with
    | .value, some value => .ok (.option name value)
    | .value, none => .ok (.waiting name)
    | .flag, none => .ok (.option name "")
    | .help, none => .error .help
    | .version, none => .error .version
    | _, some _ => .error .fault

def shortShape (specs : List OptionSpec) (short : Char) (attached : List Char) :
    Except Stop Shape :=
  match specs.find? (·.short == some short) with
  | none => .error .fault
  | some spec =>
    match spec.kind, attached with
    | .help, _ => .error .help
    | .version, _ => .error .version
    | .value, [] => .ok (.waiting spec.name)
    | .value, '=' :: value => .ok (.option spec.name (String.ofList value))
    | .value, value => .ok (.option spec.name (String.ofList value))
    | .flag, [] => .ok (.option spec.name "")
    | .flag, _ => .error .fault

def splitEquals : List Char → List Char × Option (List Char)
  | [] => ([], none)
  | '=' :: rest => ([], some rest)
  | c :: rest => (c :: (splitEquals rest).1, (splitEquals rest).2)

def shape (specs : List OptionSpec) (argument : String) : Except Stop Shape :=
  match argument.toList with
  | ['-', '-'] => .ok .terminator
  | '-' :: '-' :: rest =>
    longShape specs (String.ofList (splitEquals rest).1) ((splitEquals rest).2.map String.ofList)
  | '-' :: short :: attached => shortShape specs short attached
  | _ => .ok .positional

/-- A `-` alone may be a value, other arguments that begin with one may not. -/
def isValue (argument : String) : Bool :=
  match argument.toList with
  | '-' :: _ :: _ => false
  | _ => true

structure Collected where
  options : List (String × String)
  positionals : List String
  deriving DecidableEq, Repr

namespace Collected

def empty : Collected := ⟨[], []⟩

def addOption (collected : Collected) (name value : String) : Except Stop Collected :=
  if collected.options.any (·.1 == name) then .error .fault
  else .ok { collected with options := collected.options ++ [(name, value)] }

def addPositional (limit : Nat) (collected : Collected) (argument : String) :
    Except Stop Collected :=
  if collected.positionals.length < limit then
    .ok { collected with positionals := collected.positionals ++ [argument] }
  else .error .fault

def option? (collected : Collected) (name : String) : Option String :=
  (collected.options.find? (·.1 == name)).map Prod.snd

def flag (collected : Collected) (name : String) : Bool := (collected.option? name).isSome

end Collected

def collect (specs : List OptionSpec) (limit : Nat) (collected : Collected) :
    List String → Except Stop Collected
  | [] => .ok collected
  | argument :: rest =>
    match shape specs argument with
    | .error stop => .error stop
    | .ok .positional =>
      match collected.addPositional limit argument with
      | .error stop => .error stop
      | .ok collected => collect specs limit collected rest
    | .ok .terminator => rest.foldlM (Collected.addPositional limit) collected
    | .ok (.option name value) =>
      match collected.addOption name value with
      | .error stop => .error stop
      | .ok collected => collect specs limit collected rest
    | .ok (.waiting name) =>
      match rest with
      | [] => .error .fault
      | value :: rest =>
        if isValue value then
          match collected.addOption name value with
          | .error stop => .error stop
          | .ok collected => collect specs limit collected rest
        else .error .fault

def logLevelSpec : OptionSpec := ⟨"log-level", none, .value⟩

def helpSpec : OptionSpec := ⟨"help", some 'h', .help⟩

def versionSpec : OptionSpec := ⟨"version", some 'V', .version⟩

def inputSpec : OptionSpec := ⟨"input", some 'i', .value⟩

def outputSpec : OptionSpec := ⟨"output", some 'o', .value⟩

def patchSpec : OptionSpec := ⟨"patch", some 'p', .value⟩

def prettySpec : OptionSpec := ⟨"pretty", none, .flag⟩

def globalSpecs : List OptionSpec := [logLevelSpec, helpSpec, versionSpec]

def querySpecs : List OptionSpec :=
  [logLevelSpec, helpSpec, inputSpec, ⟨"first", none, .flag⟩, prettySpec]

def patchSpecs : List OptionSpec :=
  [logLevelSpec, helpSpec, patchSpec, inputSpec, outputSpec, prettySpec]

def equalsSpecs : List OptionSpec := [logLevelSpec, helpSpec, ⟨"ordered-arrays", none, .flag⟩]

-- In front of the command only the options for all commands are known. The same option
-- may be given once in front of it and once more behind it.

def splitCommand (collected : Collected) : List String →
    Except Stop (Collected × String × List String)
  | [] => .error .fault
  | argument :: rest =>
    match shape globalSpecs argument with
    | .error stop => .error stop
    | .ok .positional => .ok (collected, argument, rest)
    | .ok .terminator => .error .fault
    | .ok (.option name value) =>
      match collected.addOption name value with
      | .error stop => .error stop
      | .ok collected => splitCommand collected rest
    | .ok (.waiting name) =>
      match rest with
      | [] => .error .fault
      | value :: rest =>
        if isValue value then
          match collected.addOption name value with
          | .error stop => .error stop
          | .ok collected => splitCommand collected rest
        else .error .fault

def readCommand (name : String) (arguments : List String) : Except Stop (Collected × Command) :=
  match name with
  | "query" => do
    let collected ← collect querySpecs 1 .empty arguments
    match collected.positionals with
    | [expression] =>
      pure (collected, .query expression (collected.option? "input") (collected.flag "first")
        (collected.flag "pretty"))
    | _ => .error .fault
  | "patch" => do
    let collected ← collect patchSpecs 0 .empty arguments
    match collected.option? "patch" with
    | some patch =>
      pure (collected, .patch patch (collected.option? "input") (collected.option? "output")
        (collected.flag "pretty"))
    | none => .error .fault
  | "equals" => do
    let collected ← collect equalsSpecs 2 .empty arguments
    match collected.positionals with
    | [left, right] => pure (collected, .equals left right (collected.flag "ordered-arrays"))
    | _ => .error .fault
  | "help" =>
    match arguments with
    | [] => .error .help
    | [topic] =>
      if ["query", "patch", "equals", "help"].contains topic then .error .help else .error .fault
    | _ => .error .fault
  | _ => .error .fault

/-- The log level given behind the command counts before the one in front of it. -/
def chosenLogLevel (outer inner : Collected) : String :=
  ((inner.option? "log-level") <|> outer.option? "log-level").getD "warn"

def readRequest (arguments : List String) : Except Stop Request := do
  let (outer, name, rest) ← splitCommand .empty arguments
  let (inner, command) ← readCommand name rest
  pure (.run (chosenLogLevel outer inner) command)

def Request.ofArguments (arguments : List String) : Request :=
  match readRequest arguments with
  | .ok request => request
  | .error .help => .help
  | .error .version => .version
  | .error .fault => .usageFault

end JsonTree.CommandLine
