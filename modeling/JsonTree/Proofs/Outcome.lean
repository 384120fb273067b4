/-! Runs that end with a result or a failure, taken apart. -/

set_option autoImplicit false

namespace JsonTree

variable {ε ζ α β : Type} {run : Except ε α} {next : α → Except ε β} {make : α → β}
  {change : ε → ζ}

theorem bind_eq_ok_iff {result : β} :
    run >>= next = .ok result ↔ ∃ value, run = .ok value ∧ next value = .ok result := by
  cases run <;> simp [bind, Except.bind]

theorem bind_eq_error_iff {failure : ε} :
    run >>= next = .error failure
      ↔ run = .error failure ∨ ∃ value, run = .ok value ∧ next value = .error failure := by
  cases run <;> simp [bind, Except.bind]

theorem map_eq_ok_iff {result : β} :
    run.map make = .ok result ↔ ∃ value, run = .ok value ∧ make value = result := by
  cases run <;> simp [Except.map]

theorem map_eq_error_iff {failure : ε} :
    run.map make = .error failure ↔ run = .error failure := by
  cases run <;> simp [Except.map]

theorem mapError_eq_ok_iff {result : α} : run.mapError change = .ok result ↔ run = .ok result := by
  cases run with
  | ok value =>
    constructor
    · intro same
      rw [Except.ok.inj same]
    · rintro ⟨⟩
      rfl
  | error cause => exact ⟨nofun, nofun⟩

theorem mapError_eq_error_iff {failure : ζ} :
    run.mapError change = .error failure
      ↔ ∃ cause, run = .error cause ∧ change cause = failure := by
  cases run with
  | ok value => exact ⟨nofun, fun ⟨_, same, _⟩ => nomatch same⟩
  | error cause =>
    constructor
    · intro same
      exact ⟨cause, rfl, Except.error.inj same⟩
    · rintro ⟨_, ⟨⟩, rfl⟩
      rfl

/-- Every failure of a run is of one sort. -/
def FailsWith (sort : ε → Prop) (run : Except ε α) : Prop :=
  ∀ failure, run = .error failure → sort failure

namespace FailsWith

variable {sort : ε → Prop}

theorem ok (sort : ε → Prop) (result : α) : FailsWith sort (.ok result) := nofun

theorem error {failure : ε} (fits : sort failure) :
    FailsWith sort (Except.error failure : Except ε α) := by
  rintro _ ⟨⟩
  exact fits

theorem bind (first : FailsWith sort run)
    (second : ∀ value, FailsWith sort (next value)) : FailsWith sort (run >>= next) := by
  intro failure failed
  rcases bind_eq_error_iff.mp failed with early | ⟨value, -, late⟩
  · exact first failure early
  · exact second value failure late

theorem mapError {other : ζ → Prop} (fails : FailsWith sort run)
    (carry : ∀ failure, sort failure → other (change failure)) :
    FailsWith other (run.mapError change) := by
  intro failure failed
  obtain ⟨cause, early, rfl⟩ := mapError_eq_error_iff.mp failed
  exact carry cause (fails cause early)

end FailsWith

end JsonTree
