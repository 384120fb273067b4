import JsonTree.Engine

/-! Versions of a document.

Patching, selecting and querying a version give a new one at the end and leave all
others as they are; what fails gives none.
-/

set_option autoImplicit false

namespace JsonTree

inductive HistoryError where
  | engine (error : EngineError)
  | pointer (error : Pointer.SyntaxError)
  | lookup (error : LookupError)
  | unknownVersion
  deriving DecidableEq, Repr

structure History where
  versions : List Value

namespace History

def new (document : Value) : History := ⟨[document]⟩

def version (history : History) (index : Nat) : Except HistoryError Value :=
  match history.versions[index]? with
  | some document => .ok document
  | none => .error .unknownVersion

def patched (history : History) (index : Nat) (patch : String) : Except HistoryError Value := do
  let document ← history.version index
  let operations ← (Patch.parse patch).mapError fun error =>
    match error with
    | .text error => .engine (.text error)
    | .patch error => .engine (.patch error)
  (Patch.apply operations document).mapError fun error => .engine (.patch error)

def selected (history : History) (index : Nat) (pointer : String) : Except HistoryError Value := do
  let document ← history.version index
  let pointer ← (Pointer.parse pointer).mapError .pointer
  (pointer.get document).mapError .lookup

def queried (history : History) (index : Nat) (expression : String) :
    Except HistoryError Value := do
  let document ← history.version index
  let path ← (Path.parse expression).mapError fun error => .engine (.path error)
  pure (.array (path.cursor document).toList)

def record (history : History) : Except HistoryError Value → History
  | .ok document => ⟨history.versions ++ [document]⟩
  | .error _ => history

end History

end JsonTree
