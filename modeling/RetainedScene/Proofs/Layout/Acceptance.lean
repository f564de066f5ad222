import RetainedScene.Proofs.Layout.Safety

/-!
# Which grids are accepted

Solving refuses a grid for the first of its conditions that does not hold, and has a solution where
all of them do. Memory for the tracks is taken to be there.
-/

set_option autoImplicit false

namespace RetainedScene.Grid

/-- All conditions of a grid. Without cells there are none beside its own. -/
def checks (g : Grid) : List (Check LayoutError) :=
  g.ownChecks ++ [Axis.horizontal, Axis.vertical].flatMap fun axis =>
    cellChecks axis (g.declared axis) 0 (g.spans axis)

theorem refusal?_decides (g : Grid) : Decides g.refusal? g.checks := by
  simp only [refusal?, checks, List.flatMap_cons, List.flatMap_nil, List.append_nil]
  exact g.problem?_decides.append fun _ => (spanProblem?_decides ..).append fun _ =>
    spanProblem?_decides ..

theorem allHold_checks {g : Grid} : AllHold g.checks ↔
    g.Checked ∧ ∀ axis, ∀ s ∈ g.spans axis, s.Fits (g.declared axis) := by
  rw [checks, allHold_append, allHold_ownChecks, allHold_flatMap]
  simp only [allHold_cellChecks]
  refine and_congr_right fun _ => ⟨fun h axis => h axis ?_, fun h axis _ => h axis⟩
  cases axis <;> simp

theorem accepted_iff {g : Grid} : (∃ solution, g.solve = .ok solution) ↔
    g.Checked ∧ ∀ axis, ∀ s ∈ g.spans axis, s.Fits (g.declared axis) := by
  rw [← allHold_checks, ← g.refusal?_decides.eq_none_iff]
  constructor
  · rintro ⟨solution, hsolution⟩
    cases h : g.refusal? with
    | none => rfl
    | some error => cases hsolution.symm.trans (solve_refused h)
  · intro h
    rcases solve_placed h with ⟨-, hsolution⟩ | ⟨columns, rows, rects, -, -, -, hsolution⟩
    · exact ⟨_, hsolution⟩
    · exact ⟨_, hsolution⟩

/-- A grid is solved if nothing is wrong with it, and else refused for the first thing that is. -/
theorem solve_decides (g : Grid) :
    ((∃ solution, g.solve = .ok solution) ↔
      g.Checked ∧ ∀ axis, ∀ s ∈ g.spans axis, s.Fits (g.declared axis)) ∧
    ∀ failure, g.solve = .error failure ↔
      ∃ error, failure = .refused error ∧ FirstFails g.checks error := by
  have decides := g.refusal?_decides
  rw [← allHold_checks, ← decides.eq_none_iff]
  simp only [← decides.eq_some_iff]
  cases h : g.refusal? with
  | some error => simp [solve_refused h, eq_comm]
  | none =>
    obtain ⟨solution, hsolution⟩ : ∃ solution, g.solve = .ok solution := by
      rcases solve_placed h with ⟨-, hempty⟩ | ⟨columns, rows, rects, -, -, -, hplaced⟩
      · exact ⟨_, hempty⟩
      · exact ⟨_, hplaced⟩
    simp [hsolution]

end RetainedScene.Grid
