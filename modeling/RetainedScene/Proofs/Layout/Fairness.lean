import RetainedScene.Proofs.Layout.Ending
import RetainedScene.Proofs.Layout.Moves

/-!
# Tracks with one constraint get one size

A round makes the same of tracks that are the same, so that tracks with one constraint stay alike
until the rounds end. Then a single track can be given what rounding left over. It is the first one
of its kind, and is moved in the direction of the flow.
-/

set_option autoImplicit false

namespace RetainedScene

open Scalar

section

variable {α : Type} [Scalar α] {flow : Flow} {tracks final result : List (Track α)} {amount : α}
  {starts : List (List (Track α))}

/-- The track that may be given what is left over: the first one that has room when the rounds
    end. -/
def favoured? (flow? : Option Flow) (final : List (Track α)) : Option Nat :=
  flow?.bind fun flow => final.findIdx? (Track.hasRoom flow)

/-- All rounds together make something of each track by itself. -/
theorem Shares.final_eq_map (h : Shares flow tracks amount starts final result) :
    ∃ become : Track α → Track α, final = tracks.map become := by
  induction h with
  | done _ => exact ⟨id, (List.map_id _).symm⟩
  | last hnext _ => exact ⟨_, (next?_tracks hnext).1⟩
  | again hnext _ _ ih =>
    obtain ⟨become, hfinal⟩ := ih
    exact ⟨_, by rw [hfinal, (next?_tracks hnext).1, List.map_map]⟩

theorem Shares.result_cases (h : Shares flow tracks amount starts final result) :
    result = final ∨ ∃ rest, zero < rest ∧ result = giveRest flow rest final := by
  induction h with
  | done _ => exact .inl rfl
  | @last _ _ round _ _ =>
    rw [Round.settled]
    split
    case isTrue hrest => exact .inr ⟨round.rest, hrest, rfl⟩
    case isFalse => exact .inl rfl
  | again _ _ _ ih => exact ih

theorem Shares.result_of_not_favoured (h : Shares flow tracks amount starts final result) {k : Nat}
    (hk : favoured? (some flow) final ≠ some k) : result[k]? = final[k]? := by
  rcases h.result_cases with rfl | ⟨rest, -, rfl⟩
  · rfl
  · rw [giveRest_getElem?, if_neg (show final.findIdx? _ ≠ some k from hk)]

end

variable {flow : Flow} {flow? : Option Flow} {tracks final result : List (Track Float32)}
  {amount : Float32} {starts : List (List (Track Float32))}
  {constraints : List (Constraint Float32)} {sizes : List Float32}

theorem Shares.result_of_favoured (h : Shares flow tracks amount starts final result) {k : Nat}
    (hk : favoured? (some flow) final = some k) :
    ∃ t u, final[k]? = some t ∧ result[k]? = some u ∧ flow.Onward t.size u.size := by
  obtain ⟨hlt, hroom, -⟩ := List.findIdx?_eq_some_iff_getElem.mp hk
  have ht : final[k]? = some final[k] := List.getElem?_eq_getElem hlt
  rcases h.result_cases with rfl | ⟨rest, hrest, rfl⟩
  · exact ⟨_, _, ht, ht, .refl flow (Track.size_number hroom)⟩
  · have honward := (Track.withRest_between hroom hrest).1
    refine ⟨_, { final[k] with size := final[k].withRest rest flow }, ht, ?_, honward⟩
    rw [giveRest_getElem?, if_pos (show final.findIdx? _ = some k from hk), ht, Option.map_some]

/-- Only the favoured track differs from others with its constraint. -/
structure Fair (constraints : List (Constraint Float32)) (flow? : Option Flow)
    (final : List (Track Float32)) (sizes : List Float32) : Prop where
  alike (i j : Nat) : constraints[i]? = constraints[j]? → favoured? flow? final ≠ some i →
    favoured? flow? final ≠ some j → sizes[i]? = sizes[j]?
  lowest (i j : Nat) : constraints[i]? = constraints[j]? → favoured? flow? final = some i → i ≤ j
  ahead (i j : Nat) (a b : Float32) : constraints[i]? = constraints[j]? →
    favoured? flow? final = some i → sizes[i]? = some a → sizes[j]? = some b →
      ∀ flow, flow? = some flow → flow.Onward b a

/-- Of tracks with one constraint only the lowest may differ, and then it is ahead of the others. -/
structure EvenHanded (constraints : List (Constraint Float32)) (flow? : Option Flow)
    (sizes : List Float32) : Prop where
  others (i j k : Nat) : constraints[i]? = constraints[k]? → constraints[j]? = constraints[k]? →
    k < i → k < j → sizes[i]? = sizes[j]?
  lowest (i j : Nat) (a b : Float32) : constraints[i]? = constraints[j]? →
    (∀ k < i, constraints[k]? ≠ constraints[i]?) → sizes[i]? = some a → sizes[j]? = some b →
      a = b ∨ ∃ flow, flow? = some flow ∧ flow.Onward b a

theorem Fair.evenHanded (h : Fair constraints flow? final sizes) :
    EvenHanded constraints flow? sizes where
  others i j k hik hjk hi hj := by
    refine h.alike i j (hik.trans hjk.symm) (fun hfavoured => ?_) fun hfavoured => ?_
    · exact absurd (h.lowest i k hik hfavoured) (not_le.mpr hi)
    · exact absurd (h.lowest j k hjk hfavoured) (not_le.mpr hj)
  lowest i j a b hij hlowest ha hb := by
    by_cases hi : favoured? flow? final = some i
    · obtain ⟨flow, hflow, -⟩ := Option.bind_eq_some_iff.mp hi
      exact .inr ⟨flow, hflow, h.ahead i j a b hij hi ha hb flow hflow⟩
    · by_cases hj : favoured? flow? final = some j
      · -- A lower one than the lowest would be favoured, so both are the same track.
        have hle := h.lowest j i hij.symm hj
        rcases hle.lt_or_eq with hlt | rfl
        · exact absurd hij.symm (hlowest j hlt)
        · exact absurd hj hi
      · have halike := h.alike i j hij hi hj
        rw [ha, hb] at halike
        exact .inl (Option.some.inj halike)

/-- Tracks with one constraint start alike, and so the rounds leave them alike. -/
theorem Shares.final_congr {start : Constraint Float32 → Track Float32}
    (h : Shares flow (constraints.map start) amount starts final result) {i j : Nat}
    (hij : constraints[i]? = constraints[j]?) : final[i]? = final[j]? := by
  obtain ⟨become, hfinal⟩ := h.final_eq_map
  simp only [hfinal, List.getElem?_map, hij]

theorem Shares.fair {start : Constraint Float32 → Track Float32}
    (h : Shares flow (constraints.map start) amount starts final result) :
    Fair constraints (some flow) final (result.map Track.size) where
  alike i j hij hi hj := by
    rw [List.getElem?_map, List.getElem?_map, h.result_of_not_favoured hi,
      h.result_of_not_favoured hj, h.final_congr hij]
  lowest i j hij hi := by
    obtain ⟨hlt, hroom, hfirst⟩ := List.findIdx?_eq_some_iff_getElem.mp hi
    by_contra hji
    have hget := h.final_congr hij
    rw [List.getElem?_eq_getElem hlt] at hget
    obtain ⟨hjlt, hj⟩ := List.getElem?_eq_some_iff.mp hget.symm
    have hnoRoom := hfirst j (not_le.mp hji)
    rw [hj, hroom] at hnoRoom
    exact hnoRoom rfl
  ahead i j a b hij hi ha hb flow' hflow := by
    obtain rfl := Option.some.inj hflow
    obtain ⟨t, u, ht, hu, honward⟩ := h.result_of_favoured hi
    rw [List.getElem?_map, hu] at ha
    obtain rfl : u.size = a := Option.some.inj ha
    by_cases hj : favoured? (some flow) final = some j
    · obtain rfl := Option.some.inj (hi.symm.trans hj)
      rw [List.getElem?_map, hu] at hb
      obtain rfl : u.size = b := Option.some.inj hb
      exact honward.refl_right
    · rw [List.getElem?_map, h.result_of_not_favoured hj, ← h.final_congr hij, ht] at hb
      obtain rfl : t.size = b := Option.some.inj hb
      exact honward

theorem fillTracks_fair (constraints : List (Constraint Float32)) (available : Float32)
    (hbase : ∀ c ∈ constraints, ∃ base, c.base? = some base) :
    ∃ tracks flow? starts final solved, constraints.mapM Track.ofConstraint = .ok tracks ∧
      Solves tracks (available - total (tracks.map Track.size)) flow? starts final solved ∧
        fillTracks constraints available = .ok (solved.map Track.size) ∧
          Fair constraints flow? final (solved.map Track.size) ∧
            EvenHanded constraints flow? (solved.map Track.size) := by
  have hbase' : ∀ c ∈ constraints, c.base? = some (c.base?.getD 0) := by
    intro c hc
    obtain ⟨base, hbase⟩ := hbase c hc
    rw [hbase]
    rfl
  have htracks := mapM_ofConstraint hbase'
  obtain ⟨flow?, starts, final, solved, hsolves, hsizes⟩ := fillTracks_solves htracks available
  have hfair : Fair constraints flow? final (solved.map Track.size) := by
    cases hsolves with
    | surplus _ shares => exact shares.fair
    | deficit _ _ shares => exact shares.fair
    | fits _ _ =>
      refine ⟨fun i j hij _ _ => ?_, fun i j _ hi => ?_, fun i j a b _ hi _ _ _ _ => ?_⟩
      · simp only [List.getElem?_map, hij]
      · cases hi
      · cases hi
  exact ⟨_, flow?, starts, final, solved, htracks, hsolves, hsizes, hfair, hfair.evenHanded⟩

/-- A fixed column and three that share the rest, which three do not divide. -/
def equalColumns : List (Constraint Float32) :=
  [.fixed 10, .free, .free, .free]

/-- The second column is the first that can take what is left over, and gets it. -/
theorem equalColumns_fair : (∀ c ∈ equalColumns, ∃ base, c.base? = some base) ∧
    ∃ final sizes, fillTracks equalColumns 110 = .ok sizes ∧
      ∃ flow?, Fair equalColumns flow? final sizes ∧ EvenHanded equalColumns flow? sizes ∧
        favoured? flow? final = some 1 := by
  have hbase : ∀ c ∈ equalColumns, ∃ base, c.base? = some base := by
    have hsome : ∀ c ∈ equalColumns, c.base?.isSome = true := by decide +kernel
    exact fun c hc => Option.isSome_iff_exists.mp (hsome c hc)
  obtain ⟨tracks, flow?, starts, final, solved, -, -, hsizes, hfair, heven⟩ :=
    fillTracks_fair equalColumns 110 hbase
  have hdiffer : (fillTracks equalColumns 110).toOption.map
      (fun sizes => decide (sizes[1]? = sizes[2]?)) = some false := by decide +kernel
  rw [hsizes] at hdiffer
  have hdiffer := of_decide_eq_false (Option.some.inj hdiffer)
  refine ⟨hbase, final, _, hsizes, flow?, hfair, heven, ?_⟩
  by_contra hsecond
  refine hdiffer (hfair.alike 1 2 rfl hsecond fun hthird => ?_)
  exact absurd (hfair.lowest 2 1 rfl hthird) (by decide)

end RetainedScene
