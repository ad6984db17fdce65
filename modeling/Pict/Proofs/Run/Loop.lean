import Mathlib.Data.List.Perm.Subperm
import Pict.Proofs.Run.Steps

/-!
# Loops without a bound

`Loop step a visited b` runs `step` over and over, from the state `a` through
the states `visited` until it answers `b`. Nothing bounds the number of steps:
that there is such a run is what it means for the loop to end.

Results:
* `Loop.unique`: a loop ends in one way at most.
* `Loop.exists_of_decreasing`: a loop ends when some number goes down with every step.
* `loop_eachRow`: a loop over rows, of which there are only so many, always ends.
-/
namespace Pict

/-- The loop from `a` goes through the states `visited` and ends with `b`. -/
inductive Loop {α β : Type} (step : α → α ⊕ β) : α → List α → β → Prop where
  | done {a : α} {b : β} : step a = .inr b → Loop step a [a] b
  | again {a a' : α} {visited : List α} {b : β} :
    step a = .inl a' → Loop step a' visited b → Loop step a (a :: visited) b

namespace Loop

variable {α β : Type} {step : α → α ⊕ β} {a : α} {visited visited' : List α} {b b' : β}

/-- A loop goes one way only. -/
theorem unique (h : Loop step a visited b) (h' : Loop step a visited' b') :
    visited = visited' ∧ b = b' := by
  induction h generalizing visited' with
  | done hstep =>
    cases h' with
    | done hstep' => exact ⟨rfl, Sum.inr.inj (hstep.symm.trans hstep')⟩
    | again hstep' _ => cases hstep.symm.trans hstep'
  | again hstep _ ih =>
    cases h' with
    | done hstep' => cases hstep.symm.trans hstep'
    | again hstep' hrest =>
      obtain rfl := Sum.inl.inj (hstep.symm.trans hstep')
      obtain ⟨rfl, rfl⟩ := ih hrest
      exact ⟨rfl, rfl⟩

/-- A state that the loop answers from is the last one, and all others lead on. -/
theorem last (h : Loop step a visited b) {front back : List α} {x : α}
    (hsplit : visited = front ++ x :: back) (hx : step x = .inr b') :
    back = [] ∧ b = b' ∧ ∀ y ∈ front, ∃ y', step y = .inl y' := by
  induction h generalizing front with
  | done hstep =>
    obtain ⟨rfl, hrest⟩ | ⟨_, _, hrest⟩ := List.cons_eq_append_iff.mp hsplit
    · obtain ⟨rfl, rfl⟩ := List.cons.inj hrest
      exact ⟨rfl, Sum.inr.inj (hstep.symm.trans hx), by simp⟩
    · simp at hrest
  | again hstep hloop ih =>
    obtain ⟨rfl, hrest⟩ | ⟨rest, rfl, hrest⟩ := List.cons_eq_append_iff.mp hsplit
    · obtain ⟨rfl, -⟩ := List.cons.inj hrest
      cases hstep.symm.trans hx
    · obtain ⟨hback, hb, hfront⟩ := ih hrest
      refine ⟨hback, hb, fun y hy => ?_⟩
      rcases List.mem_cons.mp hy with rfl | hy
      · exact ⟨_, hstep⟩
      · exact hfront y hy

/-- A loop ends when every step from a state with `P` leads to one with `P` again and with a
smaller measure. -/
theorem exists_of_decreasing {P : α → Prop} {μ : α → Nat}
    (hstep : ∀ a a', P a → step a = .inl a' → P a' ∧ μ a' < μ a) (ha : P a) :
    ∃ visited b, Loop step a visited b ∧ (∀ x ∈ visited, P x ∧ μ x ≤ μ a) ∧
      visited.Pairwise fun x y => μ y < μ x := by
  induction hn : μ a using Nat.strongRecOn generalizing a with
  | _ n ih =>
    subst hn
    cases hnext : step a with
    | inr b =>
      refine ⟨[a], b, .done hnext, ?_, List.pairwise_singleton _ _⟩
      intro x hx
      obtain rfl := List.mem_singleton.mp hx
      exact ⟨ha, Nat.le_refl _⟩
    | inl a' =>
      obtain ⟨ha', hlt⟩ := hstep a a' ha hnext
      obtain ⟨visited, b, hloop, hall, hpairs⟩ := ih _ hlt ha' rfl
      refine ⟨a :: visited, b, .again hnext hloop, ?_, ?_⟩
      · intro x hx
        rcases List.mem_cons.mp hx with rfl | hx
        · exact ⟨ha, Nat.le_refl _⟩
        · exact ⟨(hall x hx).1, Nat.le_trans (hall x hx).2 (Nat.le_of_lt hlt)⟩
      · exact List.pairwise_cons.mpr ⟨fun x hx => Nat.lt_of_le_of_lt (hall x hx).2 hlt, hpairs⟩

end Loop

theorem length_le_of_decreasing {α : Type} {μ : α → Nat} {n : Nat} {xs : List α}
    (hpairs : xs.Pairwise fun x y => μ y < μ x) (hle : ∀ x ∈ xs, μ x ≤ n) :
    xs.length ≤ n + 1 := by
  have hnodup : (xs.map μ).Nodup :=
    List.pairwise_map.mpr (hpairs.imp fun h => (Nat.ne_of_lt h).symm)
  have hrange : xs.map μ ⊆ List.range (n + 1) := by
    intro m hm
    obtain ⟨x, hx, rfl⟩ := List.mem_map.mp hm
    exact List.mem_range.mpr (Nat.lt_succ_of_le (hle x hx))
  have := (List.subperm_of_subset hnodup hrange).length_le
  rwa [List.length_map, List.length_range] at this

namespace Job

variable {σ α : Type}

/-- What a loop does behind a job that answers whether there is more to do. -/
def goOn (next : Session σ → α) :
    EStateM.Result Error (Session σ) Bool → α ⊕ EStateM.Result Error (Session σ) Unit
  | .ok true s => .inl (next s)
  | .ok false s => .inr (.ok () s)
  | .error e s => .inr (.error e s)

def rowStep (body : Nat → Job σ Bool) (height : Nat) (stop : Stop) (x : Nat × Session σ) :
    Nat × Session σ ⊕ EStateM.Result Error (Session σ) Unit :=
  if x.1 < height then
    goOn (fun s => (x.1 + 1, s)) ((checkRow x.1 >>= fun _ => body x.1) stop x.2)
  else .inr (.ok () x.2)

/-- A loop over rows ends, whatever is done in each, after as many steps as there are rows. -/
theorem loop_eachRow (body : Nat → Job σ Bool) (stop : Stop) (height : Nat) :
    ∀ (left row : Nat) (s : Session σ), row + left = height →
      ∃ visited, Loop (rowStep body height stop) (row, s) visited (eachRow body row left stop s) ∧
        visited.length ≤ left + 1 := by
  intro left
  induction left with
  | zero =>
    intro row s hrow
    refine ⟨[(row, s)], .done ?_, Nat.le_refl _⟩
    rw [rowStep, if_neg (by omega)]
    rfl
  | succ left ih =>
    intro row s hrow
    have hstep : rowStep body height stop (row, s) =
        goOn (fun s => (row + 1, s)) ((checkRow row >>= fun _ => body row) stop s) := by
      rw [rowStep, if_pos (by dsimp only; omega)]
    rw [eachRow_succ, bind_apply]
    cases hbody : (checkRow row >>= fun _ => body row) stop s with
    | error e t =>
      refine ⟨[(row, s)], .done ?_, Nat.le_add_left _ _⟩
      rw [hstep, hbody]
      rfl
    | ok more t =>
      rw [hbody] at hstep
      cases more with
      | false => exact ⟨[(row, s)], .done hstep, Nat.le_add_left _ _⟩
      | true =>
        obtain ⟨visited, hloop, hlength⟩ := ih (row + 1) t (by omega)
        exact ⟨(row, s) :: visited, .again hstep hloop, Nat.succ_le_succ hlength⟩

end Job
end Pict
