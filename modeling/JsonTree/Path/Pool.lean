import JsonTree.Path.Cursor

/-! Several cursors over one document, and tokens that stop them.

A cursor that is bound to a token gives nothing and stays where it is once the token
is cancelled; a token is never revived. Cursors and tokens are numbered from zero in
the order in which they come into being.
-/

set_option autoImplicit false

namespace JsonTree

structure BoundCursor where
  cursor : Cursor
  token : Option Nat

/-- `cancelled` holds, token by token, whether it has been cancelled. -/
structure CursorPool where
  path : Path
  document : Value
  cursors : List BoundCursor
  cancelled : List Bool

inductive PoolCommand where
  | next (cursor : Nat)
  | rest (cursor : Nat)
  | clone (cursor : Nat)
  | evaluate
  | newToken
  | bind (cursor token : Nat)
  | cancel (token : Nat)
  | isCancelled (token : Nat)
  deriving DecidableEq, Repr

inductive PoolAnswer where
  | value (value : Option Value)
  | values (values : List Value)
  | number (index : Nat)
  | flag (flag : Bool)
  | done
  | unknown

namespace CursorPool

def new (path : Path) (document : Value) : CursorPool :=
  ⟨path, document, [⟨path.cursor document, none⟩], []⟩

def isStopped (pool : CursorPool) (bound : BoundCursor) : Bool :=
  bound.token.any fun token => pool.cancelled[token]?.getD false

def setCursor (pool : CursorPool) (index : Nat) (bound : BoundCursor) : CursorPool :=
  { pool with cursors := pool.cursors.set index bound }

def addCursor (pool : CursorPool) (bound : BoundCursor) : PoolAnswer × CursorPool :=
  (.number pool.cursors.length, { pool with cursors := pool.cursors ++ [bound] })

def run (pool : CursorPool) : PoolCommand → PoolAnswer × CursorPool
  | .next index =>
    match pool.cursors[index]? with
    | none => (.unknown, pool)
    | some bound =>
      if pool.isStopped bound then (.value none, pool)
      else
        match bound.cursor.next? with
        | none => (.value none, pool)
        | some (value, cursor) => (.value (some value), pool.setCursor index { bound with cursor })
  | .rest index =>
    match pool.cursors[index]? with
    | none => (.unknown, pool)
    | some bound =>
      if pool.isStopped bound then (.values [], pool)
      else (.values bound.cursor.toList,
        pool.setCursor index { bound with cursor := .exhausted })
  | .clone index =>
    match pool.cursors[index]? with
    | none => (.unknown, pool)
    | some bound => pool.addCursor bound
  | .evaluate => pool.addCursor ⟨pool.path.cursor pool.document, none⟩
  | .newToken =>
    (.number pool.cancelled.length, { pool with cancelled := pool.cancelled ++ [false] })
  | .bind index token =>
    match pool.cursors[index]? with
    | none => (.unknown, pool)
    | some bound => pool.addCursor ⟨bound.cursor, some token⟩
  | .cancel token => (.done, { pool with cancelled := pool.cancelled.set token true })
  | .isCancelled token =>
    match pool.cancelled[token]? with
    | none => (.unknown, pool)
    | some flag => (.flag flag, pool)

def runAll (pool : CursorPool) : List PoolCommand → List PoolAnswer
  | [] => []
  | command :: rest => (pool.run command).1 :: (pool.run command).2.runAll rest

end CursorPool

end JsonTree
