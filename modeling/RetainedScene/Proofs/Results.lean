/-!
# Lists of results

Steps that all give a result give the list of their results.
-/

set_option autoImplicit false

namespace RetainedScene

variable {α β ε : Type} {f : α → Except ε β} {xs : List α}

theorem mapM_ok {g : α → β} (h : ∀ x ∈ xs, f x = .ok (g x)) : xs.mapM f = .ok (xs.map g) := by
  induction xs with
  | nil => rfl
  | cons x rest ih =>
    rw [List.mapM_cons, h x List.mem_cons_self, ih fun y hy => h y (List.mem_cons_of_mem _ hy)]
    rfl

theorem mapM_ok_of_exists (h : ∀ x ∈ xs, ∃ y, f x = .ok y) : ∃ ys, xs.mapM f = .ok ys := by
  induction xs with
  | nil => exact ⟨[], rfl⟩
  | cons x rest ih =>
    obtain ⟨y, hy⟩ := h x List.mem_cons_self
    obtain ⟨ys, hys⟩ := ih fun z hz => h z (List.mem_cons_of_mem _ hz)
    exact ⟨y :: ys, by rw [List.mapM_cons, hy, hys]; rfl⟩

theorem of_mapM_ok {ys : List β} (h : xs.mapM f = .ok ys) : ys.length = xs.length ∧
    ∀ (k : Nat) x, xs[k]? = some x → ∃ y, f x = .ok y ∧ ys[k]? = some y := by
  induction xs generalizing ys with
  | nil =>
    cases h
    exact ⟨rfl, by simp⟩
  | cons x rest ih =>
    rw [List.mapM_cons] at h
    cases hx : f x with
    | error error =>
      rw [hx] at h
      cases h
    | ok y =>
      cases hrest : rest.mapM f with
      | error error =>
        rw [hx, hrest] at h
        cases h
      | ok zs =>
        rw [hx, hrest] at h
        cases h
        obtain ⟨hlength, hat⟩ := ih hrest
        refine ⟨congrArg (· + 1) hlength, fun k z hz => ?_⟩
        cases k with
        | zero =>
          obtain rfl : x = z := by simpa using hz
          exact ⟨y, hx, rfl⟩
        | succ k => exact hat k z hz

end RetainedScene
