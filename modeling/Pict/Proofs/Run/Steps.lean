import Pict.Run.Job

/-!
# Jobs one step at a time

Results:
* `bind_eq_ok`: two jobs in a row succeed when the second one does behind the first one.
* `ok_unique`: a job has one outcome.
* `eachRow_succ`: a loop is its first row and the loop over the others.
* `eq_ok_of_toOption`: what a job succeeds with can be computed.
* `check_work`: a check leaves the work alone.
* `checkRow_never`: a stop that never fires changes nothing but the count of checks.
* `map_eq_ok`, `map_eq_error`: what is made of a result.
-/
namespace Pict.Job

variable {σ α β : Type} {stop : Stop} {s t : Session σ}

/-- Two jobs in a row succeed when the second one does behind the first one. -/
theorem bind_eq_ok {a : Job σ α} {f : α → Job σ β} {b : β} :
    (a >>= f) stop s = .ok b t ↔ ∃ x u, a stop s = .ok x u ∧ f x stop u = .ok b t := by
  rw [bind_apply]
  cases a stop s with
  | ok x u =>
    constructor
    · exact fun h => ⟨x, u, rfl, h⟩
    · rintro ⟨_, _, hx, h⟩
      obtain ⟨rfl, rfl⟩ := EStateM.Result.ok.inj hx
      exact h
  | error e u =>
    constructor
    · exact nofun
    · rintro ⟨_, _, hx, -⟩
      cases hx

/-- A loop reads one row, with its check, and goes on with the others if there are more. -/
theorem eachRow_succ (body : Nat → Job σ Bool) (row left : Nat) :
    eachRow body row (left + 1) = (checkRow row >>= fun _ => body row) >>= fun more =>
      if more = true then eachRow body (row + 1) left else pure () := by
  rw [bind_assoc]
  rfl

/-- A job has one outcome. -/
theorem ok_unique {r : EStateM.Result Error (Session σ) α} {a b : α} (hs : r = .ok a s)
    (ht : r = .ok b t) : a = b ∧ s = t :=
  EStateM.Result.ok.inj (hs.symm.trans ht)

theorem pure_eq_ok {a b : α} :
    (pure a : Job σ α) stop s = .ok b t ↔ a = b ∧ s = t := by
  rw [pure_apply, EStateM.Result.ok.injEq]

theorem enforce_eq_ok {limit : Except Breach Unit} {x : Unit} :
    (enforce limit : Job σ Unit) stop s = .ok x t ↔ limit = .ok () ∧ s = t := by
  cases limit with
  | ok y => simp [enforce, pure_apply]
  | error e => simp [enforce, fail_apply]

theorem ofExcept_eq_ok {r : Except Error α} {a : α} :
    (ofExcept r : Job σ α) stop s = .ok a t ↔ r = .ok a ∧ s = t := by
  cases r with
  | ok b => simp [ofExcept, pure_apply]
  | error e => simp [ofExcept, fail_apply]

/-- A job that has a result succeeds with the session it ends with. -/
theorem eq_ok_of_toOption {r : EStateM.Result Error (Session σ) α} {a : α}
    (h : (resultOf r).toOption = some a) : r = .ok a (sessionOf r) := by
  cases r with
  | ok b u =>
    obtain rfl := Option.some.inj h
    rfl
  | error e u => cases h

/-- A check leaves the work alone. -/
theorem check_work (h : (check : Job σ Unit) stop s = .ok () t) : t.work = s.work := by
  unfold check at h
  split at h
  · obtain ⟨-, rfl⟩ := EStateM.Result.ok.inj h
    rfl
  · cases h

/-- Under a stop that never fires a check is only counted. -/
theorem checkRow_never (row : Nat) (s : Session σ) :
    ∃ t, checkRow row .never s = .ok () t ∧ t.work = s.work ∧ t.warnings = s.warnings := by
  unfold checkRow
  split
  · exact ⟨_, check_passes .never s rfl, rfl, rfl⟩
  · exact ⟨s, rfl, rfl, rfl⟩

end Pict.Job

namespace Pict

/-! ## Results -/

section
variable {ε α β : Type} {r : Except ε α} {f : α → β}

/-- What is made of a result fails where the result does. -/
theorem map_eq_error {e : ε} : (f <$> r : Except ε β) = .error e ↔ r = .error e := by
  cases r with
  | ok a => exact ⟨nofun, nofun⟩
  | error e' =>
    show Except.error e' = Except.error e ↔ Except.error e' = Except.error e
    rw [Except.error.injEq, Except.error.injEq]

theorem map_eq_ok {b : β} : (f <$> r : Except ε β) = .ok b ↔ ∃ a, r = .ok a ∧ f a = b := by
  cases r with
  | ok a =>
    constructor
    · exact fun h => ⟨a, rfl, Except.ok.inj h⟩
    · rintro ⟨_, ⟨⟩, rfl⟩
      rfl
  | error e => exact ⟨nofun, fun ⟨_, h, _⟩ => nomatch h⟩

theorem exists_ok_of_map {b : β} (h : r.toOption.map f = some b) : ∃ a, r = .ok a ∧ f a = b := by
  cases r with
  | error e => cases h
  | ok a => exact ⟨a, rfl, Option.some.inj h⟩

end

theorem Report.map_result_error {α β : Type} {f : α → β} {r : Report α} {e : Error} :
    (r.map f).result = .error e ↔ r.result = .error e :=
  map_eq_error

end Pict
