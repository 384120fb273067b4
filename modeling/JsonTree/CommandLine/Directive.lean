import JsonTree.CommandLine.FieldTest
import JsonTree.CommandLine.Log
import JsonTree.Text.Bytes

/-! Directives: what a log is asked to let through.

The full form is `target[span{field=value}]=level`. Everything may be left out that is
not needed to tell the rest apart. A level alone stands for every target, and a
directive without a level lets everything through.
-/

set_option autoImplicit false

namespace JsonTree.CommandLine

structure Directive where
  target : Option String
  span : Option String
  field : Option FieldTest
  verbosity : Verbosity
  deriving DecidableEq, Repr

inductive DirectiveFault where
  | malformed
  | badLevel
  | badField (fault : Pattern.Fault)
  deriving DecidableEq, Repr

def DirectiveFault.message : DirectiveFault → String
  | .malformed => "invalid filter directive"
  | .badLevel =>
    "error parsing level filter: expected one of \"off\", \"error\", \"warn\", \"info\", "
      ++ "\"debug\", \"trace\", or a number 0-5"
  | .badField fault => "invalid field filter: " ++ fault.message

def Verbosity.parse (level : List Char) : Except DirectiveFault Verbosity :=
  if level.isEmpty then .ok .trace
  else
    match Verbosity.ofText? level with
    | some verbosity => .ok verbosity
    | none => .error .badLevel

def trimBlanks (text : List Char) : List Char :=
  ((text.dropWhile isWhitespace).reverse.dropWhile isWhitespace).reverse

-- Blanks around a directive are passed over when its marks are looked for, but they
-- count in what stands between the marks: a blank in front moves every part by its size.

/-- A directive that is being read: its whole text, what is still to be looked at, and
the number of bytes already looked at. -/
structure DirectiveReader where
  text : List Char
  position : Nat
  ahead : List Char

namespace DirectiveReader

def ofText (text : List Char) : DirectiveReader := ⟨text, 0, trimBlanks text⟩

def skip (reader : DirectiveReader) : DirectiveReader :=
  match reader.ahead with
  | [] => reader
  | c :: rest => ⟨reader.text, reader.position + c.utf8Size, rest⟩

def remaining (reader : DirectiveReader) : Except DirectiveFault (List Char) :=
  match cutBytes reader.position reader.text with
  | some (_, rest) => .ok rest
  | none => .error .malformed

def upTo (isMark : Char → Bool) (reader : DirectiveReader) :
    Except DirectiveFault (List Char × DirectiveReader) := do
  let size := byteLength (reader.ahead.takeWhile (!isMark ·))
  match cutBytes size (← reader.remaining) with
  | some (part, _) =>
    return (part, ⟨reader.text, reader.position + size, reader.ahead.dropWhile (!isMark ·)⟩)
  | none => .error .malformed

def level (reader : DirectiveReader) : Except DirectiveFault Verbosity :=
  match reader.ahead with
  | [] => .ok .trace
  | '=' :: _ => do Verbosity.parse (← reader.skip.remaining)
  | _ => .error .malformed

def bracket (target : Option String) (reader : DirectiveReader) :
    Except DirectiveFault Directive := do
  let (span, reader) ← reader.skip.upTo fun c => c == ']' || c == '\x7b'
  match reader.ahead with
  | ']' :: _ => return ⟨target, some (String.ofList span), none, ← reader.skip.level⟩
  | '\x7b' :: _ => do
    let (test, reader) ← reader.skip.upTo (· == '\x7d')
    if reader.ahead.isEmpty ∨ test.isEmpty then .error .malformed
    else do
      let field ← (FieldTest.parse test).mapError .badField
      match reader.skip.ahead with
      | ']' :: _ =>
        let span := if span.isEmpty then none else some (String.ofList span)
        return ⟨target, span, some field, ← reader.skip.skip.level⟩
      | _ => .error .malformed
  | _ => .error .malformed

end DirectiveReader

namespace Directive

def ofPlain (text : List Char) : Directive :=
  match Verbosity.ofText? text with
  | some verbosity => ⟨none, none, none, verbosity⟩
  | none => ⟨some (String.ofList text), none, none, .trace⟩

def parse (text : List Char) : Except DirectiveFault Directive :=
  let reader := DirectiveReader.ofText text
  match reader.ahead with
  | [] => .error .malformed
  | '[' :: _ => reader.bracket none
  | first :: _ =>
    if isAlphanumeric first ∨ first = '-' ∨ first = ':' ∨ first = '_' then
      if reader.ahead.any fun c => c == '=' || c == '[' then do
        let (target, reader) ← reader.upTo fun c => c == '=' || c == '['
        match reader.ahead with
        | '[' :: _ => reader.bracket (some (String.ofList target))
        | _ => return ⟨some (String.ofList target), none, none, ← reader.level⟩
      else .ok (ofPlain text)
    else .error .malformed

end Directive

end JsonTree.CommandLine
