/-!
# Checks in order

A layout is looked over condition by condition, and refused for the first that does not hold. The
conditions in their order are a list, apart from the function that goes through them.
-/

set_option autoImplicit false

namespace RetainedScene

variable {ε δ : Type}

/-- A condition, and the error where it does not hold. -/
structure Check (ε : Type) where
  holds : Prop
  error : ε

def Check.map (f : ε → δ) (check : Check ε) : Check δ :=
  ⟨check.holds, f check.error⟩

def AllHold (checks : List (Check ε)) : Prop :=
  ∀ check ∈ checks, check.holds

/-- The error is that of the first condition which does not hold. -/
inductive FirstFails : (checks : List (Check ε)) → (error : ε) → Prop
  | here {check : Check ε} {later : List (Check ε)} (h : ¬ check.holds) :
    FirstFails (check :: later) check.error
  | later {check : Check ε} {later : List (Check ε)} {error : ε} (h : check.holds)
    (fails : FirstFails later error) : FirstFails (check :: later) error

/-- Nothing where all conditions hold, and else the error of the first that does not. -/
structure Decides (answer : Option ε) (checks : List (Check ε)) : Prop where
  accepts : answer = none → AllHold checks
  refuses (error : ε) : answer = some error → FirstFails checks error

variable {check : Check ε} {checks later : List (Check ε)} {answer answer' : Option ε} {error : ε}

@[simp]
theorem allHold_nil : AllHold (ε := ε) [] := by
  simp [AllHold]

@[simp]
theorem allHold_cons : AllHold (check :: checks) ↔ check.holds ∧ AllHold checks :=
  List.forall_mem_cons

@[simp]
theorem allHold_append : AllHold (checks ++ later) ↔ AllHold checks ∧ AllHold later :=
  List.forall_mem_append

@[simp]
theorem allHold_map {f : ε → δ} : AllHold (checks.map (Check.map f)) ↔ AllHold checks :=
  List.forall_mem_map

theorem allHold_flatMap {α : Type} {f : α → List (Check ε)} {xs : List α} :
    AllHold (xs.flatMap f) ↔ ∀ x ∈ xs, AllHold (f x) :=
  List.forall_mem_flatMap

/-- One condition for each entry of a list, with an error that names the entry. -/
def entryChecks {α : Type} (holds : α → Prop) (error : Nat → ε) (xs : List α) : List (Check ε) :=
  xs.mapIdx fun entry x => ⟨holds x, error entry⟩

theorem allHold_entryChecks {α : Type} {holds : α → Prop} {error : Nat → ε} {xs : List α} :
    AllHold (entryChecks holds error xs) ↔ ∀ x ∈ xs, holds x := by
  induction xs generalizing error with
  | nil => simp [entryChecks]
  | cons x rest ih =>
    rw [entryChecks, List.mapIdx_cons, allHold_cons, List.forall_mem_cons]
    exact and_congr_right fun _ => ih

namespace FirstFails

theorem not_allHold (h : FirstFails checks error) : ¬ AllHold checks := by
  induction h with
  | here hfails => exact fun hall => hfails (allHold_cons.mp hall).1
  | later _ _ ih => exact fun hall => ih (allHold_cons.mp hall).2

theorem unique {error' : ε} (h : FirstFails checks error) (h' : FirstFails checks error') :
    error = error' := by
  induction h with
  | here hfails =>
    cases h' with
    | here _ => rfl
    | later hholds _ => exact absurd hholds hfails
  | later hholds _ ih =>
    cases h' with
    | here hfails => exact absurd hholds hfails
    | later _ fails => exact ih fails

theorem after (h : FirstFails later error) (hall : AllHold checks) :
    FirstFails (checks ++ later) error := by
  induction checks with
  | nil => exact h
  | cons check rest ih =>
    obtain ⟨hholds, hrest⟩ := allHold_cons.mp hall
    exact .later hholds (ih hrest)

theorem before (h : FirstFails checks error) (later : List (Check ε)) :
    FirstFails (checks ++ later) error := by
  induction h with
  | here hfails => exact .here hfails
  | later hholds _ ih => exact .later hholds ih

theorem map (f : ε → δ) (h : FirstFails checks error) :
    FirstFails (checks.map (Check.map f)) (f error) := by
  induction h with
  | here hfails => exact .here hfails
  | later hholds _ ih => exact .later hholds ih

end FirstFails

namespace Decides

theorem of_allHold (h : AllHold checks) : Decides none checks where
  accepts _ := h
  refuses _ herror := by cases herror

theorem of_firstFails (h : FirstFails checks error) : Decides (some error) checks where
  accepts hnone := by cases hnone
  refuses _ herror := Option.some.inj herror ▸ h

/-- The checks of a list after those of another one. -/
theorem append (h : Decides answer checks) (h' : AllHold checks → Decides answer' later) :
    Decides (answer.or answer') (checks ++ later) := by
  cases answer with
  | some error => exact of_firstFails ((h.refuses error rfl).before later)
  | none =>
    have hall := h.accepts rfl
    exact ⟨fun hnone => allHold_append.mpr ⟨hall, (h' hall).accepts hnone⟩,
      fun error herror => ((h' hall).refuses error herror).after hall⟩

/-- One condition, written as its opposite, before the others. -/
theorem ite {p holds : Prop} [Decidable p] (hp : p ↔ ¬ holds)
    (h : holds → Decides answer checks) :
    Decides (if p then some error else answer) (⟨holds, error⟩ :: checks) := by
  split
  case isTrue hfails => exact of_firstFails (.here (hp.mp hfails))
  case isFalse hnot =>
    have hholds : holds := Classical.not_not.mp fun hfails => hnot (hp.mpr hfails)
    exact ⟨fun hnone => allHold_cons.mpr ⟨hholds, (h hholds).accepts hnone⟩,
      fun error herror => .later hholds ((h hholds).refuses error herror)⟩

theorem iteNot {b : Bool} {holds : Prop} (hb : b = true ↔ holds)
    (h : holds → Decides answer checks) :
    Decides (if !b then some error else answer) (⟨holds, error⟩ :: checks) :=
  ite (by rw [← hb, Bool.not_eq_true', Bool.not_eq_true]) h

/-- The first entry that is not good is the one that is named. -/
theorem findIdx? {α : Type} {good : α → Bool} {holds : α → Prop}
    (hgood : ∀ x, good x = true ↔ holds x) (error : Nat → ε) (xs : List α) :
    Decides ((xs.findIdx? (!good ·)).map error) (entryChecks holds error xs) := by
  induction xs generalizing error with
  | nil => exact of_allHold allHold_nil
  | cons x rest ih =>
    have hstep : ((x :: rest).findIdx? (!good ·)).map error =
        if !good x then some (error 0)
        else (rest.findIdx? (!good ·)).map fun entry => error (entry + 1) := by
      rw [List.findIdx?_cons]
      cases good x with
      | false => rfl
      | true => exact Option.map_map ..
    rw [hstep, entryChecks, List.mapIdx_cons]
    exact iteNot (hgood x) fun _ => ih fun entry => error (entry + 1)

theorem map (f : ε → δ) (h : Decides answer checks) :
    Decides (answer.map f) (checks.map (Check.map f)) where
  accepts hnone := allHold_map.mpr (h.accepts (Option.map_eq_none_iff.mp hnone))
  refuses error herror := by
    obtain ⟨error, hsome, rfl⟩ := Option.map_eq_some_iff.mp herror
    exact (h.refuses error hsome).map f

theorem eq_none_iff (h : Decides answer checks) : answer = none ↔ AllHold checks := by
  refine ⟨h.accepts, fun hall => ?_⟩
  cases answer with
  | none => rfl
  | some error => exact absurd hall (h.refuses error rfl).not_allHold

theorem eq_some_iff (h : Decides answer checks) : answer = some error ↔ FirstFails checks error := by
  refine ⟨h.refuses error, fun hfails => ?_⟩
  cases answer with
  | none => exact absurd (h.accepts rfl) hfails.not_allHold
  | some error' => exact congrArg some ((h.refuses error' rfl).unique hfails)

end Decides

end RetainedScene
