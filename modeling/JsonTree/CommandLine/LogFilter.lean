import JsonTree.CommandLine.Directive

/-! Filters, which let some lines of a log through.

A filter has a rule for each directive that can hold for a line. Of the rules that
apply to a line the most specific one decides.
-/

set_option autoImplicit false

namespace JsonTree.CommandLine

structure Rule where
  target : Option String
  field : Option String
  verbosity : Verbosity
  deriving DecidableEq, Repr

/-- No line belongs to a span, and none is asked for the value of a field. -/
def Directive.rule? (directive : Directive) : Option Rule :=
  match directive.span, directive.field with
  | none, none => some ⟨directive.target, none, directive.verbosity⟩
  | none, some ⟨name, none⟩ => some ⟨directive.target, some name, directive.verbosity⟩
  | _, _ => none

namespace Rule

-- Every line has a message, which can be asked for like a field.

def appliesTo (rule : Rule) (line : LogLine) : Bool :=
  rule.target.all (fun target => target.toList.isPrefixOf line.target.toList) &&
    rule.field.all fun name => name == "message" || line.fields.any (·.1 == name)

/-- A longer target is more specific. Of rules with equally long targets one that asks
for a field is, and of two that do the one with the later name. -/
def compareSpecificity (left right : Rule) : Ordering :=
  (compare (left.target.map String.length) (right.target.map String.length)).then
    (compare left.field right.field)

end Rule

abbrev LogFilter := List Rule

namespace LogFilter

def directives (text : String) : List (List Char) :=
  (segments ',' text.toList).filter (!·.isEmpty)

def ofDirectives (directives : List Directive) : LogFilter := directives.filterMap Directive.rule?

def parse? (text : String) : Option LogFilter :=
  match (directives text).mapM Directive.parse with
  | .ok read => some (ofDirectives read)
  | .error _ => none

/-- Read a filter and leave out the directives that are not right. Each of these gives
a warning. -/
def parseLossy (text : String) : LogFilter × List String :=
  let parts := directives text
  let read := parts.filterMap fun part => (Directive.parse part).toOption
  let warnings := parts.filterMap fun part =>
    match Directive.parse part with
    | .ok _ => none
    | .error fault =>
      some ("ignoring \x60" ++ String.ofList part ++ "\x60: " ++ fault.message)
  (ofDirectives read, warnings)

/-- The most specific rule that applies to a line, and of several the last one. -/
def deciding? (filter : LogFilter) (line : LogLine) : Option Rule :=
  (filter.filter (·.appliesTo line)).foldl
    (fun best rule =>
      match best with
      | none => some rule
      | some other => if other.compareSpecificity rule = .gt then some other else some rule)
    none

def passes (filter : LogFilter) (line : LogLine) : Bool :=
  (filter.deciding? line).any fun rule => line.level.rank ≤ rule.verbosity.rank

def text (filter : LogFilter) (lines : List LogLine) : String :=
  String.join ((lines.filter filter.passes).map LogLine.text)

end LogFilter

end JsonTree.CommandLine
