import JsonTree.Path.Pool
import JsonTree.Proofs.Path.CacheRuns
import JsonTree.Proofs.Path.Traversal
import JsonTree.Proofs.Related

/-! Cursors of a pool are bookmarks in one list of results.

A cursor holds tasks that are partly done. All that can be seen of them is how many of the
results have been given, so a pool answers as if each cursor were a place in the results of
a fresh one, and each command moves one place at most.
-/

set_option autoImplicit false

namespace JsonTree

/-- How many results have been given, and the token that stops it if it is bound to one. -/
structure Bookmark where
  place : Nat
  token : Option Nat
  deriving DecidableEq, Repr

/-- A pool of which only the places count. -/
structure Bookmarks where
  marks : List Bookmark
  cancelled : List Bool
  deriving DecidableEq, Repr

namespace Bookmarks

def new : Bookmarks := ⟨[⟨0, none⟩], []⟩

def isStopped (books : Bookmarks) (mark : Bookmark) : Bool :=
  mark.token.any fun token => books.cancelled[token]?.getD false

def setMark (books : Bookmarks) (index : Nat) (mark : Bookmark) : Bookmarks :=
  { books with marks := books.marks.set index mark }

def addMark (books : Bookmarks) (mark : Bookmark) : PoolAnswer × Bookmarks :=
  (.number books.marks.length, { books with marks := books.marks ++ [mark] })

/-- A next result is the one at the place, which goes on by one; at the end it stays. -/
def run (results : List Value) (books : Bookmarks) : PoolCommand → PoolAnswer × Bookmarks
  | .next index =>
    match books.marks[index]? with
    | none => (.unknown, books)
    | some mark =>
      if books.isStopped mark then (.value none, books)
      else
        match results[mark.place]? with
        | none => (.value none, books)
        | some value => (.value (some value), books.setMark index ⟨mark.place + 1, mark.token⟩)
  | .rest index =>
    match books.marks[index]? with
    | none => (.unknown, books)
    | some mark =>
      if books.isStopped mark then (.values [], books)
      else (.values (results.drop mark.place), books.setMark index ⟨results.length, mark.token⟩)
  | .clone index =>
    match books.marks[index]? with
    | none => (.unknown, books)
    | some mark => books.addMark mark
  | .evaluate => books.addMark ⟨0, none⟩
  | .newToken =>
    (.number books.cancelled.length, { books with cancelled := books.cancelled ++ [false] })
  | .bind index token =>
    match books.marks[index]? with
    | none => (.unknown, books)
    | some mark => books.addMark ⟨mark.place, some token⟩
  | .cancel token => (.done, { books with cancelled := books.cancelled.set token true })
  | .isCancelled token =>
    match books.cancelled[token]? with
    | none => (.unknown, books)
    | some flag => (.flag flag, books)

def runAll (results : List Value) (books : Bookmarks) : List PoolCommand → List PoolAnswer
  | [] => []
  | command :: rest =>
    (books.run results command).1 :: (books.run results command).2.runAll results rest

def after (results : List Value) (books : Bookmarks) (commands : List PoolCommand) : Bookmarks :=
  commands.foldl (fun books command => (books.run results command).2) books

def shares (results : List Value) (books : Bookmarks) : List (List Value) :=
  books.marks.map fun mark => results.take mark.place

section

variable {results : List Value} {books : Bookmarks}

theorem cancelled_run (results : List Value) (books : Bookmarks) (command : PoolCommand) :
    (books.run results command).2.cancelled
      = match command with
        | .newToken => books.cancelled ++ [false]
        | .cancel token => books.cancelled.set token true
        | _ => books.cancelled := by
  cases command with
  | next index | rest index =>
    simp only [run]
    repeat' split
    all_goals rfl
  | clone index | bind index => simp only [run]; split <;> rfl
  | isCancelled token => simp only [run]; split <;> rfl
  | evaluate | newToken | cancel => rfl

/-- A command moves no mark, except that a next value and the rest move the one that they are
asked of, unless it is stopped. New marks come last. -/
theorem marks_run (results : List Value) (books : Bookmarks) (command : PoolCommand) :
    (∃ more, (books.run results command).2.marks = books.marks ++ more)
      ∨ ∃ index mark moved, (command = .next index ∨ command = .rest index)
        ∧ books.marks[index]? = some mark ∧ books.isStopped mark = false
        ∧ (books.run results command).2.marks = books.marks.set index moved := by
  have none : ∃ more, books.marks = books.marks ++ more := ⟨[], (List.append_nil _).symm⟩
  -- Only a next value and the rest look at a mark, and both leave it alone when it is stopped.
  cases command with
  | next index =>
    simp only [run]
    split
    · exact .inl none
    · next mark held =>
      split
      · exact .inl none
      · next going =>
        split
        · exact .inl none
        · exact .inr ⟨index, mark, _, .inl rfl, held, Bool.eq_false_iff.mpr going, rfl⟩
  | rest index =>
    simp only [run]
    split
    · exact .inl none
    · next mark held =>
      split
      · exact .inl none
      · next going => exact .inr ⟨index, mark, _, .inr rfl, held, Bool.eq_false_iff.mpr going, rfl⟩
  | clone index | bind index =>
    simp only [run]
    split
    · exact .inl none
    · exact .inl ⟨_, rfl⟩
  | isCancelled token => simp only [run]; split <;> exact .inl none
  | evaluate => exact .inl ⟨_, rfl⟩
  | newToken | cancel => exact .inl none

theorem mark_stays (results : List Value) {command : PoolCommand} {index : Nat} {mark : Bookmark}
    (held : books.marks[index]? = some mark)
    (idle : books.isStopped mark = true ∨ command ≠ .next index ∧ command ≠ .rest index) :
    (books.run results command).2.marks[index]? = some mark := by
  rcases marks_run results books command with ⟨more, marks⟩ | ⟨target, other, moved, asked,
    known, going, marks⟩
  · rw [marks, List.getElem?_append_left (List.getElem?_eq_some_iff.mp held).1, held]
  · rw [marks]
    by_cases same : target = index
    · subst same
      obtain rfl := Option.some.inj (known.symm.trans held)
      rcases idle with stopped | ⟨noNext, noRest⟩
      · rw [going] at stopped
        contradiction
      · exact absurd asked (not_or.mpr ⟨noNext, noRest⟩)
    · rw [List.getElem?_set_ne same, held]

theorem isStopped_run_of_ne {command : PoolCommand} {mark : Bookmark}
    (other : ∀ token, command = .cancel token → mark.token ≠ some token) :
    (books.run results command).2.isStopped mark = books.isStopped mark := by
  unfold isStopped
  cases bound : mark.token with
  | none => rfl
  | some token =>
    rw [Option.any_some, Option.any_some, cancelled_run]
    cases command with
    | cancel target =>
      have differ : target ≠ token := fun same => other target rfl (same ▸ bound)
      simp only [List.getElem?_set_ne differ]
    | newToken => grind
    | _ => rfl

theorem isStopped_run {command : PoolCommand} {mark : Bookmark}
    (stopped : books.isStopped mark = true) :
    (books.run results command).2.isStopped mark = true := by
  by_cases other : ∀ token, command = .cancel token → mark.token ≠ some token
  · rw [isStopped_run_of_ne other, stopped]
  · push Not at other
    obtain ⟨token, rfl, bound⟩ := other
    rw [isStopped, bound, Option.any_some] at stopped ⊢
    rw [cancelled_run]
    grind

theorem stopped_after {index : Nat} {mark : Bookmark} (held : books.marks[index]? = some mark)
    (stopped : books.isStopped mark = true) (commands : List PoolCommand) :
    (books.after results commands).marks[index]? = some mark
      ∧ (books.after results commands).isStopped mark = true := by
  induction commands generalizing books with
  | nil => exact ⟨held, stopped⟩
  | cons command commands ih => exact ih (mark_stays _ held (.inl stopped)) (isStopped_run stopped)

end

end Bookmarks

namespace CursorPool

def after (pool : CursorPool) (commands : List PoolCommand) : CursorPool :=
  commands.foldl (fun pool command => (pool.run command).2) pool

/-- Write down for each cursor what it has given. One that was cloned goes on with the share
of its source. -/
def record (shares : List (List Value)) : PoolCommand → PoolAnswer → List (List Value)
  | .next index, .value (some value) => shares.set index (shares[index]?.getD [] ++ [value])
  | .rest index, .values values => shares.set index (shares[index]?.getD [] ++ values)
  | .clone index, .number _ | .bind index _, .number _ => shares ++ [shares[index]?.getD []]
  | .evaluate, .number _ => shares ++ [[]]
  | _, _ => shares

def recordAll (shares : List (List Value)) (pool : CursorPool) :
    List PoolCommand → List (List Value)
  | [] => shares
  | command :: rest =>
    recordAll (record shares command (pool.run command).1) (pool.run command).2 rest

structure StandsAt (results : List Value) (bound : BoundCursor) (mark : Bookmark) : Prop where
  token : bound.token = mark.token
  inside : mark.place ≤ results.length
  pending : Cursor.pending bound.cursor.tasks = results.drop mark.place

/-- A pool of which bookmarks keep the places. -/
structure Kept (results : List Value) (pool : CursorPool) (books : Bookmarks) : Prop where
  fresh : Cursor.pending (pool.path.cursor pool.document).tasks = results
  cancelled : pool.cancelled = books.cancelled
  each : List.Forall₂ (StandsAt results) pool.cursors books.marks

section

variable {results : List Value} {pool : CursorPool} {books : Bookmarks}

theorem Kept.isStopped (kept : Kept results pool books) {bound : BoundCursor} {mark : Bookmark}
    (stands : StandsAt results bound mark) : pool.isStopped bound = books.isStopped mark := by
  rw [CursorPool.isStopped, Bookmarks.isStopped, stands.token, kept.cancelled]

structure Agree (results : List Value) (left : PoolAnswer × CursorPool)
    (right : PoolAnswer × Bookmarks) : Prop where
  answer : left.1 = right.1
  kept : Kept results left.2 right.2

theorem Kept.set (kept : Kept results pool books) {bound : BoundCursor} {mark : Bookmark}
    (stands : StandsAt results bound mark) (answer : PoolAnswer) (index : Nat) :
    Agree results (answer, pool.setCursor index bound) (answer, books.setMark index mark) :=
  ⟨rfl, kept.fresh, kept.cancelled, forall₂_set kept.each stands index⟩

theorem Kept.add (kept : Kept results pool books) {bound : BoundCursor} {mark : Bookmark}
    (stands : StandsAt results bound mark) :
    Agree results (pool.addCursor bound) (books.addMark mark) :=
  ⟨congrArg PoolAnswer.number kept.each.length_eq,
    kept.fresh, kept.cancelled, List.rel_append kept.each (.cons stands .nil)⟩

theorem Kept.find (kept : Kept results pool books) (index : Nat)
    {onCursor : BoundCursor → PoolAnswer × CursorPool} {onMark : Bookmark → PoolAnswer × Bookmarks}
    (each : ∀ bound mark, StandsAt results bound mark →
      Agree results (onCursor bound) (onMark mark)) :
    Agree results
      (match pool.cursors[index]? with
        | none => (.unknown, pool)
        | some bound => onCursor bound)
      (match books.marks[index]? with
        | none => (.unknown, books)
        | some mark => onMark mark) := by
  rcases rel_cases (forall₂_getElem? kept.each index) with
    ⟨gone, none⟩ | ⟨bound, mark, found, known, stands⟩
  · rw [gone, none]
    exact ⟨rfl, kept⟩
  · rw [found, known]
    exact each bound mark stands

theorem kept_new (path : Path) (document : Value) :
    Kept (path.cursor document).toList (new path document) Bookmarks.new := by
  have fresh := (Cursor.drain_eq_pending (path.cursor document).tasks).symm
  exact ⟨fresh, rfl, .cons ⟨rfl, Nat.zero_le _, fresh⟩ .nil⟩

theorem StandsAt.next? {bound : BoundCursor} {mark : Bookmark}
    (stands : StandsAt results bound mark) :
    (bound.cursor.next? = none ∧ results[mark.place]? = none)
      ∨ ∃ value cursor, bound.cursor.next? = some (value, cursor)
        ∧ results[mark.place]? = some value
        ∧ StandsAt results ⟨cursor, bound.token⟩ ⟨mark.place + 1, mark.token⟩ := by
  have front := Cursor.pending_eq_nextOf bound.cursor.tasks
  rw [stands.pending] at front
  rw [Cursor.next?]
  cases next : Cursor.nextOf bound.cursor.tasks with
  | none =>
    rw [next] at front
    exact .inl ⟨rfl, List.getElem?_eq_none (List.drop_eq_nil_iff.mp front)⟩
  | some found =>
    obtain ⟨value, tasks⟩ := found
    rw [next] at front
    -- A value in front of what is still to come, so the place is one of the results.
    have before : mark.place < results.length := by
      by_contra behind
      rw [List.drop_eq_nil_of_le (Nat.not_lt.mp behind)] at front
      contradiction
    rw [List.drop_eq_getElem_cons before] at front
    obtain ⟨rfl, rest⟩ := List.cons.inj front
    exact .inr ⟨_, ⟨tasks⟩, rfl, List.getElem?_eq_getElem before,
      stands.token, before, rest.symm⟩

/-- A command has one answer from a pool and from its bookmarks, and they stay in step. -/
theorem Kept.run (kept : Kept results pool books) (command : PoolCommand) :
    Agree results (pool.run command) (books.run results command) := by
  cases command with
  | next index =>
    refine kept.find index fun bound mark stands => ?_
    rw [kept.isStopped stands]
    split
    · exact ⟨rfl, kept⟩
    · rcases stands.next? with ⟨finished, ended⟩ | ⟨value, cursor, next, result, later⟩
      · rw [finished, ended]
        exact ⟨rfl, kept⟩
      · rw [next, result]
        exact kept.set later _ index
  | rest index =>
    refine kept.find index fun bound mark stands => ?_
    rw [kept.isStopped stands]
    split
    · exact ⟨rfl, kept⟩
    · have all : bound.cursor.toList = results.drop mark.place :=
        (Cursor.drain_eq_pending _).trans stands.pending
      have ended : StandsAt results ⟨.exhausted, bound.token⟩ ⟨results.length, mark.token⟩ :=
        ⟨stands.token, Nat.le_refl _, List.drop_length.symm⟩
      rw [all]
      exact kept.set ended _ index
  -- A clone and a bound cursor stand where their source does; bound, it has the token it is given.
  | clone index => exact kept.find index fun bound mark stands => kept.add stands
  | bind index token =>
    exact kept.find index fun bound mark stands => kept.add ⟨rfl, stands.inside, stands.pending⟩
  | evaluate => exact kept.add ⟨rfl, Nat.zero_le _, kept.fresh⟩
  | newToken =>
    rw [CursorPool.run, Bookmarks.run, kept.cancelled]
    exact ⟨rfl, kept.fresh, rfl, kept.each⟩
  | cancel token =>
    rw [CursorPool.run, Bookmarks.run, kept.cancelled]
    exact ⟨rfl, kept.fresh, rfl, kept.each⟩
  | isCancelled token =>
    rw [CursorPool.run, Bookmarks.run, kept.cancelled]
    cases books.cancelled[token]? with
    | none => exact ⟨rfl, kept⟩
    | some flag => exact ⟨rfl, kept⟩

theorem Kept.runAll (kept : Kept results pool books) (commands : List PoolCommand) :
    pool.runAll commands = books.runAll results commands := by
  induction commands generalizing pool books with
  | nil => rfl
  | cons command commands ih =>
    obtain ⟨answer, later⟩ := kept.run command
    rw [CursorPool.runAll, Bookmarks.runAll, answer, ih later]

theorem Kept.after (kept : Kept results pool books) (commands : List PoolCommand) :
    Kept results (pool.after commands) (books.after results commands) := by
  induction commands generalizing pool books with
  | nil => exact kept
  | cons command commands ih => exact ih (kept.run command).2

theorem share_of_mark {index : Nat} {mark : Bookmark}
    (held : books.marks[index]? = some mark) :
    (books.shares results)[index]?.getD [] = results.take mark.place := by
  rw [Bookmarks.shares, List.getElem?_map, held]
  rfl

theorem set_shares {index : Nat} {mark : Bookmark} (held : books.marks[index]? = some mark)
    (place : Nat) {values : List Value}
    (given : results.take mark.place ++ values = results.take place) :
    (books.shares results).set index ((books.shares results)[index]?.getD [] ++ values)
      = (books.setMark index ⟨place, mark.token⟩).shares results := by
  rw [share_of_mark held, given, Bookmarks.shares, Bookmarks.shares, Bookmarks.setMark,
    List.map_set]

theorem setMark_self {index : Nat} {mark : Bookmark} (held : books.marks[index]? = some mark) :
    books.setMark index mark = books := by
  obtain ⟨inside, rfl⟩ := List.getElem?_eq_some_iff.mp held
  rw [Bookmarks.setMark, List.set_getElem_self]

theorem add_shares (mark : Bookmark) :
    (books.addMark mark).2.shares results
      = books.shares results ++ [results.take mark.place] := by
  rw [Bookmarks.shares, Bookmarks.addMark, List.map_append]
  rfl

theorem record_run (results : List Value) (books : Bookmarks) (command : PoolCommand) :
    record (books.shares results) command (books.run results command).1
      = (books.run results command).2.shares results := by
  cases command with
  | next index =>
    rw [Bookmarks.run]
    split
    · rfl
    · next mark held =>
      split
      · rfl
      · split
        · rfl
        · next value result =>
          -- What has been given grows by the result at the place.
          refine set_shares held _ ?_
          rw [List.take_add_one, result]
          rfl
  | rest index =>
    rw [Bookmarks.run]
    split
    · rfl
    · next mark held =>
      split
      · -- Nothing is given, and so nothing is added.
        have same := set_shares held mark.place (List.append_nil (results.take mark.place))
        rwa [setMark_self held] at same
      · refine set_shares held _ ?_
        rw [List.take_append_drop, List.take_length]
  | clone index =>
    rw [Bookmarks.run]
    split
    · rfl
    · next mark held => rw [add_shares, ← share_of_mark held]; rfl
  | bind index token =>
    rw [Bookmarks.run]
    split
    · rfl
    · next mark held => rw [add_shares, ← share_of_mark held]; rfl
  | evaluate => rw [Bookmarks.run, add_shares]; rfl
  | newToken | cancel => rfl
  | isCancelled token =>
    rw [Bookmarks.run]
    split <;> rfl

theorem Kept.recordAll (kept : Kept results pool books) (commands : List PoolCommand) :
    recordAll (books.shares results) pool commands
      = (books.after results commands).shares results := by
  induction commands generalizing pool books with
  | nil => rfl
  | cons command commands ih =>
    obtain ⟨answer, later⟩ := kept.run command
    rw [CursorPool.recordAll, answer, record_run, ih later]
    rfl

theorem Kept.asked (kept : Kept results pool books) {index : Nat} {mark : Bookmark}
    (held : books.marks[index]? = some mark) :
    (pool.run (.next index)).1
        = .value (if books.isStopped mark then none else results[mark.place]?)
      ∧ (pool.run (.rest index)).1
        = .values (if books.isStopped mark then [] else results.drop mark.place) := by
  rw [(kept.run (.next index)).answer, (kept.run (.rest index)).answer, Bookmarks.run,
    Bookmarks.run, held]
  dsimp only
  cases books.isStopped mark with
  | true => exact ⟨rfl, rfl⟩
  | false =>
    cases result : results[mark.place]? with
    | none => exact ⟨rfl, rfl⟩
    | some value => exact ⟨rfl, rfl⟩

end

theorem first?_eq_head? (path : Path) (document : Value) :
    path.first? document = (path.cursor document).toList.head? := by
  have front := Cursor.pending_eq_nextOf (path.cursor document).tasks
  rw [Path.first?, Cursor.next?, Cursor.toList, Cursor.drain_eq_pending, front]
  cases Cursor.nextOf (path.cursor document).tasks <;> rfl

theorem after_append (pool : CursorPool) (first second : List PoolCommand) :
    pool.after (first ++ second) = (pool.after first).after second := List.foldl_append ..

/-- A pool answers as bookmarks in the results of a fresh cursor do, and what its cursors have
given are the results up to their marks. A stopped cursor gives nothing from then on and stays
where it is. A command that asks another cursor, or cancels another token, changes nothing for
a cursor. The first value that a path selects is the first of the results. -/
theorem runs_as_bookmarks (path : Path) (document : Value) :
    let results := (path.cursor document).toList
    (∀ commands, (new path document).runAll commands = Bookmarks.new.runAll results commands)
      ∧ (∀ commands, recordAll [[]] (new path document) commands
          = (Bookmarks.new.after results commands).shares results)
      ∧ (∀ before later index mark, (Bookmarks.new.after results before).marks[index]? = some mark →
          (Bookmarks.new.after results before).isStopped mark = true →
          (Bookmarks.new.after results (before ++ later)).marks[index]? = some mark
            ∧ (((new path document).after (before ++ later)).run (.next index)).1 = .value none
            ∧ (((new path document).after (before ++ later)).run (.rest index)).1 = .values [])
      ∧ (∀ commands command index mark,
          (Bookmarks.new.after results commands).marks[index]? = some mark →
          command ≠ .next index → command ≠ .rest index →
          (∀ token, command = .cancel token → mark.token ≠ some token) →
          (((new path document).after (commands ++ [command])).run (.next index)).1
              = (((new path document).after commands).run (.next index)).1
            ∧ (((new path document).after (commands ++ [command])).run (.rest index)).1
              = (((new path document).after commands).run (.rest index)).1)
      ∧ path.first? document = results.head?
      ∧ ∀ limit calls expression,
          ((PathCache.after limit calls).queryFirst document expression).1
            = (Path.parse expression).map fun path => (path.cursor document).toList.head? := by
  intro results
  have kept := kept_new path document
  have split (first second : List PoolCommand) : Bookmarks.new.after results (first ++ second)
      = (Bookmarks.new.after results first).after results second := List.foldl_append ..
  refine ⟨kept.runAll, kept.recordAll, ?_, ?_, first?_eq_head? path document, ?_⟩
  -- That a mark is stopped survives whatever comes later, and it fixes what is answered.
  · intro before later index mark held stopped
    obtain ⟨still, remains⟩ := Bookmarks.stopped_after held stopped later
    rw [← split] at still remains
    have asked := (kept.after (before ++ later)).asked still
    rw [remains] at asked
    exact ⟨still, asked⟩
  -- The command moves neither the mark nor its stop, and these two decide the answer.
  · intro commands command index mark held noNext noRest other
    have still := Bookmarks.mark_stays results held (.inr ⟨noNext, noRest⟩)
    have asked := ((kept.after commands).run command).kept.asked still
    rw [Bookmarks.isStopped_run_of_ne other] at asked
    have earlier := (kept.after commands).asked held
    rw [after_append]
    exact ⟨asked.1.trans earlier.1.symm, asked.2.trans earlier.2.symm⟩
  · intro limit calls expression
    simp only [PathCache.queryFirst, (PathCache.tracks_after limit calls).lookUp_eq,
      first?_eq_head?]

/-- A cursor that was bound behind its first value and stopped behind its second, and what is
left of it when its source and its clone have gone on. -/
theorem runs_as_bookmarks_stopped :
    let path : Path := ⟨"$.*", [.wildcard]⟩
    let document : Value := .array [.null, .bool true, .bool false, .string ""]
    let results := (path.cursor document).toList
    let before : List PoolCommand := [.next 0, .newToken, .bind 0 0, .next 1, .cancel 0]
    let later : List PoolCommand := [.clone 1, .next 2, .rest 0]
    (Bookmarks.new.after results before).marks = [⟨1, none⟩, ⟨2, some 0⟩]
      ∧ (Bookmarks.new.after results (before ++ later)).marks
        = [⟨4, none⟩, ⟨2, some 0⟩, ⟨2, some 0⟩]
      ∧ (((new path document).after (before ++ later)).run (.next 1)).1 = .value none := by
  intro path document results before later
  have stopped := (runs_as_bookmarks path document).2.2.1 before later 1 ⟨2, some 0⟩
    (by decide +kernel) (by decide +kernel)
  exact ⟨by decide +kernel, by decide +kernel, stopped.2.1⟩

end CursorPool

end JsonTree
