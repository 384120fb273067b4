import JsonTree.CommandLine.Run

/-! Machines on which reading changes no file and a write replaces one file or none.

What the commands do to files can be told from these laws alone, whatever else the machine
is. The directory in memory obeys them, whichever of its paths lead to one file.
-/

set_option autoImplicit false

namespace JsonTree.CommandLine

def perform {σ α : Type} (action : StateM σ α) (state : σ) : α × σ := action state

@[simp] theorem perform_pure {σ α : Type} (result : α) (state : σ) :
    perform (pure result) state = (result, state) := rfl

@[simp] theorem perform_bind {σ α β : Type} (action : StateM σ α) (next : α → StateM σ β)
    (state : σ) :
    perform (action >>= next) state
      = perform (next (perform action state).1) (perform action state).2 := rfl

@[simp] theorem perform_get {σ : Type} (state : σ) :
    perform (get : StateM σ σ) state = (state, state) := rfl

/-- Which file a path leads to, be it there or not yet, and what each file holds. -/
structure Files (File : Type) where
  named? : String → Option File
  content? : File → Option String

/-- The file of a path has been given a content, and no other file has changed. -/
def Files.Replaced {File : Type} (before after : Files File) (path content : String) : Prop :=
  ∃ file, before.named? path = some file ∧ after.content? file = some content
    ∧ ∀ other, other ≠ file → after.content? other = before.content? other

/-- The files of a machine, of which a read changes none. A write that fails changes none
either, and one that does not replaces a file by a whole content. -/
structure Storage (σ : Type) [Host (StateM σ)] where
  File : Type
  files : σ → Files File
  files_readFile : ∀ (path : String) (state : σ),
    files (perform (Host.readFile path) state).2 = files state
  files_readInput : ∀ state : σ, files (perform Host.readInput state).2 = files state
  files_failed : ∀ {path content : String} {error : FileError} {state after : σ},
    perform (Host.writeFile path content) state = (.error error, after) →
      files after = files state
  files_written : ∀ {path content : String} {state after : σ},
    perform (Host.writeFile path content) state = (.ok (), after) →
      (files state).Replaced (files after) path content

namespace Directory

theorem find?_replaced (files : List (String × String)) (name content other : String) :
    ((files.map fun file => if file.1 == name then (name, content) else file).find?
        (·.1 == other)).map Prod.snd
      = if other = name then (files.find? (·.1 == name)).map fun _ => content
        else (files.find? (·.1 == other)).map Prod.snd := by
  induction files with
  | nil => simp
  | cons file files ih =>
    rw [List.map_cons]
    by_cases same : file.1 = name
    · by_cases asked : other = name
      · simp [same, asked]
      · simpa [same, asked, Ne.symm asked, -List.find?_map] using ih
    · by_cases found : file.1 = other
      · have apart : other ≠ name := fun equal => same (found.trans equal)
        simp [found, apart]
      · simpa [same, found, -List.find?_map] using ih

theorem file?_setFile (directory : Directory) (name content other : String) :
    (directory.setFile name content).file? other
      = if other = name then some content else directory.file? other := by
  unfold setFile
  split
  · next held =>
    simp only [file?] at held ⊢
    rw [find?_replaced]
    split
    · cases found : directory.files.find? (·.1 == name) with
      | none => simp [found] at held
      | some file => rfl
    · rfl
  · next missing =>
    have none : directory.files.find? (·.1 == name) = none := by
      cases found : directory.files.find? (·.1 == name) with
      | none => rfl
      | some file => simp [file?, found] at missing
    by_cases same : other = name
    · simp [file?, same, none]
    · simp [file?, same, Ne.symm same]

def named? (directory : Directory) (path : String) : Option String :=
  match directory.locate path with
  | .file name | .missing name false => some name
  | _ => none

theorem perform_writeFile (directory : Directory) (path content : String) :
    perform (Host.writeFile path content) directory
      = match directory.write path content with
        | .ok changed => (.ok (), changed)
        | .error error => (.error error, directory) := by
  have steps : (Host.writeFile path content : StateM Directory (Except FileError Unit))
      = do
        match (← get).write path content with
        | .ok changed => do
          set changed
          return .ok ()
        | .error error => return .error error := rfl
  rw [steps, perform_bind, perform_get]
  cases directory.write path content <;> rfl

theorem write_eq_ok_iff {directory after : Directory} {path content : String} :
    directory.write path content = .ok after
      ↔ ∃ name, directory.named? path = some name ∧ directory.setFile name content = after := by
  unfold write named?
  split <;> simp_all

/-- A directory in memory is such a machine, with file names for files. -/
def storage : Storage Directory where
  File := String
  files directory := ⟨directory.named?, directory.file?⟩
  files_readFile _ _ := rfl
  files_readInput _ := rfl
  files_failed := by
    intro path content error directory after failed
    rw [perform_writeFile] at failed
    cases written : directory.write path content with
    | ok changed => simp [written] at failed
    | error cause =>
      rw [written] at failed
      rw [(Prod.mk.inj failed).2]
  files_written := by
    intro path content directory after written
    rw [perform_writeFile] at written
    cases outcome : directory.write path content with
    | error cause => simp [outcome] at written
    | ok changed =>
      rw [outcome] at written
      obtain rfl := (Prod.mk.inj written).2
      obtain ⟨name, named, rfl⟩ := write_eq_ok_iff.mp outcome
      refine ⟨name, named, ?_, fun other differ => ?_⟩
      · exact (directory.file?_setFile ..).trans (if_pos rfl)
      · exact (directory.file?_setFile ..).trans (if_neg differ)

end Directory

end JsonTree.CommandLine
