import JsonTree.Digit
import JsonTree.Text.Diagnostic

/-! The lines of a log and their levels. -/

set_option autoImplicit false

namespace JsonTree.CommandLine

inductive Verbosity where
  | off | error | warn | info | debug | trace
  deriving DecidableEq, Repr

namespace Verbosity

def rank : Verbosity → Nat
  | .off => 0
  | .error => 1
  | .warn => 2
  | .info => 3
  | .debug => 4
  | .trace => 5

def name : Verbosity → String
  | .off => "off"
  | .error => "error"
  | .warn => "warn"
  | .info => "info"
  | .debug => "debug"
  | .trace => "trace"

def all : List Verbosity := [.off, .error, .warn, .info, .debug, .trace]

def ofText? (text : List Char) : Option Verbosity :=
  let digits :=
    match text with
    | '+' :: rest => rest
    | _ => text
  match Digit.all? digits with
  | some digits => all.find? fun verbosity => verbosity.rank == Digit.value digits
  | none => all.find? fun verbosity => verbosity.name.toList == text.map Char.toLower

end Verbosity

inductive FieldValue where
  | number (value : Nat)
  | quoted (text : String)
  | bare (text : String)
  deriving DecidableEq, Repr

def FieldValue.text : FieldValue → String
  | .number value => natText value
  | .quoted text => Diagnostic.quote text
  | .bare text => text

structure LogLine where
  level : Verbosity
  target : String
  message : String
  fields : List (String × FieldValue)
  deriving DecidableEq, Repr

namespace LogLine

def levelText : Verbosity → String
  | .off => ""
  | .error => "ERROR"
  | .warn => " WARN"
  | .info => " INFO"
  | .debug => "DEBUG"
  | .trace => "TRACE"

def text (line : LogLine) : String :=
  levelText line.level ++ " " ++ line.message
    ++ String.join (line.fields.map fun (name, value) => " " ++ name ++ "=" ++ value.text) ++ "\n"

end LogLine

end JsonTree.CommandLine
