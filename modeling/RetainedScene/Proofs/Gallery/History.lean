import RetainedScene.Proofs.Gallery.Arranging

/-!
# Arranging again

A gallery is populated and arranged in any order, also for sizes that it cannot be arranged for.
What the arrangements left behind is never read: the next one ends as it would have ended for a
gallery that has only been populated.
-/

set_option autoImplicit false

namespace RetainedScene.Gallery

/-- What a gallery goes through. -/
inductive Step
  | populate (tiles : Model TileSpec) (dots : Nat)
  | arrange (size : Vec2)

namespace Step

def isPopulate : Step → Bool
  | .populate _ _ => true
  | .arrange _ => false

/-- The tiles are as many as a machine word can count. -/
def Counted : Step → Prop
  | .populate tiles _ => tiles.count < UInt64.size
  | .arrange _ => True

instance : DecidablePred Counted
  | .populate tiles _ => inferInstanceAs (Decidable (tiles.count < UInt64.size))
  | .arrange _ => .isTrue trivial

end Step

def step (f : Circle.Functions) (g : Gallery) : Step → Except Fault Gallery
  | .populate tiles dots => g.refill tiles dots
  | .arrange size => .ok (g.arrangeBy f size).gallery

def run (f : Circle.Functions) (g : Gallery) (steps : List Step) : Except Fault Gallery :=
  steps.foldlM (step f) g

/-- No walk is passing through, and the tiles can be counted. -/
structure Ready (g : Gallery) : Prop where
  tiles : g.tiles.walks = 0
  dots : g.dots.walks = 0
  counted : g.tiles.instances.length < UInt64.size

/-- Nothing but the places of background and title differs. -/
structure OnlyHeaderMoved (g h : Gallery) : Prop where
  background : h.background.unplaced = g.background.unplaced
  title : h.title.unplaced = g.title.unplaced
  tiles : h.tiles = g.tiles
  ring : h.ring = g.ring
  dots : h.dots = g.dots

/-- How the arrangement of a gallery ends, next to that of one which has never been arranged. -/
structure ArrangesLike (f : Circle.Functions) (g fresh : Gallery) (size : Vec2) : Prop where
  fails_iff : (∃ failure, (g.arrangeBy f size).failure = some failure) ↔ Overflows size
  refused : Overflows size → (g.arrangeBy f size).failure = some refusal ∧
    g.OnlyHeaderMoved (g.arrangeBy f size).gallery
  same : ¬ Overflows size → g.arrangeBy f size = fresh.arrangeBy f size

variable {f : Circle.Functions} {g h : Gallery} {tiles : Model TileSpec} {dots : Nat}

theorem new_ready (title : String) : (new title).Ready :=
  ⟨rfl, rfl, show 0 < UInt64.size by decide⟩

/-- No arrangement makes a difference to whether a gallery is ready. -/
theorem ready_congr (hgh : g.unplaced = h.unplaced) : g.Ready ↔ h.Ready := by
  have hready : ∀ x : Gallery, x.Ready ↔ x.unplaced.Ready := by
    intro x
    have hlength : x.unplaced.tiles.instances.length = x.tiles.instances.length :=
      List.length_map ..
    exact ⟨fun hx => ⟨hx.tiles, hx.dots, hlength ▸ hx.counted⟩,
      fun hx => ⟨hx.tiles, hx.dots, hlength ▸ hx.counted⟩⟩
  rw [hready g, hready h, hgh]

/-! ### Populating -/

def refilled (g : Gallery) (tiles : Model TileSpec) (dots : Nat) : Gallery :=
  { g with
    tiles := ⟨tiles.toList.mapIdx (makeTile g.title.color), 0⟩
    dots := ⟨(Model.ofCount dots).toList.mapIdx makeDot, 0⟩ }

theorem refill_eq_refilled (htiles : g.tiles.walks = 0) (hdots : g.dots.walks = 0)
    (tiles : Model TileSpec) (dots : Nat) :
    g.refill tiles dots = .ok (g.refilled tiles dots) := by
  simp only [refill, Repeater.update, Repeater.fill, htiles, hdots, if_true]
  rfl

theorem refill_eq (hg : g.Ready) (tiles : Model TileSpec) (dots : Nat) :
    g.refill tiles dots = .ok (g.refilled tiles dots) :=
  refill_eq_refilled hg.tiles hg.dots tiles dots

theorem refilled_ready (g : Gallery) (hcount : tiles.count < UInt64.size) (dots : Nat) :
    (g.refilled tiles dots).Ready :=
  ⟨rfl, rfl, by simpa [refilled, tiles.length_toList] using hcount⟩

theorem unplaced_refilled (g : Gallery) (tiles : Model TileSpec) (dots : Nat) :
    (g.refilled tiles dots).unplaced = (g.unplaced.refilled tiles dots).unplaced := rfl

/-! ### Histories -/

/-- A history leads where its populating alone leads, apart from where the items are. -/
theorem run_unplaced {steps : List Step} (hcounted : ∀ step ∈ steps, step.Counted) (hg : g.Ready)
    (hgh : g.unplaced = h.unplaced) :
    ∃ g' h', run f g steps = .ok g' ∧ run f h (steps.filter Step.isPopulate) = .ok h' ∧
      g'.Ready ∧ g'.unplaced = h'.unplaced := by
  induction steps generalizing g h with
  | nil => exact ⟨g, h, rfl, rfl, hg, hgh⟩
  | cons first rest ih =>
    obtain ⟨hfirst, hrest⟩ := List.forall_mem_cons.mp hcounted
    cases first with
    | populate tiles dots =>
      have hsame : (g.refilled tiles dots).unplaced = (h.refilled tiles dots).unplaced := by
        rw [unplaced_refilled, hgh, ← unplaced_refilled]
      obtain ⟨g', h', hrun, hrun', hready, hagree⟩ := ih hrest (g.refilled_ready hfirst dots) hsame
      refine ⟨g', h', ?_, ?_, hready, hagree⟩
      · rw [run, List.foldlM_cons, step, refill_eq hg]
        exact hrun
      · rw [List.filter_cons_of_pos rfl, run, List.foldlM_cons, step,
          refill_eq ((ready_congr hgh).mp hg)]
        exact hrun'
    | arrange size =>
      have hkept := unplaced_arrangeBy f g size
      obtain ⟨g', h', hrun, hrun', hready, hagree⟩ :=
        ih hrest ((ready_congr hkept).mpr hg) (hkept.trans hgh)
      refine ⟨g', h', ?_, ?_, hready, hagree⟩
      · rw [run, List.foldlM_cons]
        exact hrun
      · rw [List.filter_cons_of_neg Bool.false_ne_true]
        exact hrun'

theorem arrangesLike_of_unplaced (hf : f.Bounded) (hg : g.Ready)
    (hgh : g.unplaced = h.unplaced) (size : Vec2) : g.ArrangesLike f h size := by
  by_cases hsize : Overflows size
  · have hrefused := arrangeBy_refused f g hsize
    refine ⟨?_, fun _ => ?_, fun hfits => absurd hsize hfits⟩
    · rw [hrefused]
      exact ⟨fun _ => hsize, fun _ => ⟨refusal, rfl⟩⟩
    · rw [hrefused]
      exact ⟨rfl, rfl, rfl, rfl, rfl, rfl⟩
  · have hh := (ready_congr hgh).mp hg
    obtain ⟨hnone, hplaced⟩ := arrangeBy_unplaced hf hg.counted hsize
    have hplaced' := (arrangeBy_unplaced hf hh.counted hsize).2
    refine ⟨?_, fun hinf => absurd hinf hsize, fun _ => ?_⟩
    · rw [hnone]
      exact ⟨fun ⟨_, hfails⟩ => (nomatch hfails), fun hinf => absurd hinf hsize⟩
    · rw [← hplaced, hgh, hplaced']

/-- Whatever a gallery has gone through, it is arranged as if it had only been populated. -/
theorem arrangesLike_fresh (hf : f.Bounded) (title : String) {steps : List Step}
    (hcounted : ∀ step ∈ steps, step.Counted) (size : Vec2) :
    ∃ g fresh, run f (new title) steps = .ok g ∧
      run f (new title) (steps.filter Step.isPopulate) = .ok fresh ∧
      g.ArrangesLike f fresh size := by
  obtain ⟨g, fresh, hrun, hrun', hready, hagree⟩ :=
    run_unplaced (f := f) hcounted (new_ready title) rfl
  exact ⟨g, fresh, hrun, hrun', arrangesLike_of_unplaced hf hready hagree size⟩

/-- Arranged twice, once in vain, and populated anew between the two. -/
def busySteps : List Step :=
  [.populate (.ofList [⟨"north", .white, false⟩, ⟨"east", .white, true⟩]) 3,
    .arrange ⟨900, 560⟩, .arrange ⟨Binary32.infinity, 560⟩,
    .populate (.ofList [⟨"south", .black, true⟩]) 5, .arrange ⟨480, 320⟩]

theorem busy_arrangesLike_fresh : Circle.functions.Bounded ∧
    (∀ step ∈ busySteps, step.Counted) ∧ Overflows ⟨Binary32.infinity, 560⟩ ∧
    ¬ Overflows ⟨900, 560⟩ ∧
    ∃ g fresh, run Circle.functions (new "compass") busySteps = .ok g ∧
      run Circle.functions (new "compass") (busySteps.filter Step.isPopulate) = .ok fresh ∧
      g.ArrangesLike Circle.functions fresh ⟨900, 560⟩ :=
  ⟨Circle.functions_bounded, by decide, by decide +kernel, by decide +kernel,
    arrangesLike_fresh Circle.functions_bounded "compass" (by decide) ⟨900, 560⟩⟩

end RetainedScene.Gallery
