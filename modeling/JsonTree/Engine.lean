import JsonTree.Patch.Apply
import JsonTree.Patch.Document
import JsonTree.Path.Cache
import JsonTree.Value.Writer

/-! Queries and patches from text to text, with one cache for all queries.

Documents are read before expressions and patches. A call that fails keeps no path.
-/

set_option autoImplicit false

namespace JsonTree

inductive EngineError where
  | text (error : ReadError)
  | path (error : Path.SyntaxError)
  | patch (error : PatchError)
  deriving DecidableEq, Repr

structure Engine where
  cache : PathCache
  deriving DecidableEq, Repr

namespace Engine

def new (limit : Option Nat) : Engine := ⟨.new limit⟩

def readText (text : String) : Except EngineError Value := (Value.parse text).mapError .text

def cacheSize (engine : Engine) : Nat := engine.cache.size

def clearCache (engine : Engine) : Engine := ⟨engine.cache.clear⟩

def query (engine : Engine) (text expression : String) : Except EngineError String × Engine :=
  match readText text with
  | .error error => (.error error, engine)
  | .ok document =>
    let (values, cache) := engine.cache.query document expression
    ((values.mapError .path).map fun values => (Value.array values).compact, ⟨cache⟩)

def queryFirst (engine : Engine) (text expression : String) :
    Except EngineError (Option String) × Engine :=
  match readText text with
  | .error error => (.error error, engine)
  | .ok document =>
    let (value, cache) := engine.cache.queryFirst document expression
    ((value.mapError .path).map fun value => value.map Value.compact, ⟨cache⟩)

def applyPatch (text patch : String) : Except EngineError String := do
  let document ← readText text
  let operations ← (Patch.parse patch).mapError fun error =>
    match error with
    | .text error => .text error
    | .patch error => .patch error
  let patched ← (Patch.apply operations document).mapError .patch
  pure patched.compact

def equals (left right : String) (order : ArrayOrder) : Except EngineError Bool := do
  let left ← readText left
  let right ← readText right
  pure (left.equals order right)

end Engine

end JsonTree
