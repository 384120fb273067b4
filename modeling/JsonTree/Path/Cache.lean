import JsonTree.Path.Cursor
import JsonTree.Path.Parser

/-! A cache of the paths that expressions stand for.

The answer to an expression never depends on what was asked before; the cache only
saves reading it again. When it is full, new paths are not kept.
-/

set_option autoImplicit false

namespace JsonTree

/-- The kept paths, oldest first, and how often an expression was or was not among
them. Without a limit, all are kept. The counts go on without an end, where words of
64 bits would begin anew after `2 ^ 64` lookups. -/
structure PathCache where
  limit : Option Nat
  paths : List Path
  hits : Nat
  misses : Nat
  deriving DecidableEq, Repr

inductive CacheEvent where
  | hit (expression : String)
  | compiled (expression : String) (selectors : Nat)
  | full (expression : String)
  deriving DecidableEq, Repr

namespace PathCache

def new (limit : Option Nat) : PathCache := ⟨limit, [], 0, 0⟩

def size (cache : PathCache) : Nat := cache.paths.length

def find? (cache : PathCache) (expression : String) : Option Path :=
  cache.paths.find? fun path => path.expression == expression

def contains (cache : PathCache) (expression : String) : Bool := (cache.find? expression).isSome

def isFull (cache : PathCache) : Bool := cache.limit.any fun limit => limit ≤ cache.size

/-- The path of an expression. Expressions that are no paths are not kept. -/
def lookUp (cache : PathCache) (expression : String) :
    Except Path.SyntaxError Path × PathCache :=
  match cache.find? expression with
  | some path => (.ok path, { cache with hits := cache.hits + 1 })
  | none =>
    let missed := { cache with misses := cache.misses + 1 }
    match Path.parse expression with
    | .error error => (.error error, missed)
    | .ok path =>
      (.ok path, if cache.isFull then missed else { missed with paths := missed.paths ++ [path] })

def events (cache : PathCache) (expression : String) : List CacheEvent :=
  match cache.find? expression with
  | some _ => [.hit expression]
  | none =>
    match Path.parse expression with
    | .error _ => []
    | .ok path =>
      .compiled expression path.selectors.length
        :: if cache.isFull then [.full expression] else []

def clear (cache : PathCache) : PathCache := { cache with paths := [] }

def query (cache : PathCache) (document : Value) (expression : String) :
    Except Path.SyntaxError (List Value) × PathCache :=
  let (path, cache) := cache.lookUp expression
  (path.map fun path => (path.cursor document).toList, cache)

def queryFirst (cache : PathCache) (document : Value) (expression : String) :
    Except Path.SyntaxError (Option Value) × PathCache :=
  let (path, cache) := cache.lookUp expression
  (path.map fun path => path.first? document, cache)

end PathCache

end JsonTree
