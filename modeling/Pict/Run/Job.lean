import Pict.Run.Error
import Pict.Run.Warning

/-!
# Jobs

A job works on a value of its own, collects warnings, asks a `Stop` whether it
may go on, and fails with an `Error`. What was done up to a failure is kept:
`Report` holds the result, the warnings and the number of checks of any run.
Row loops check once per sixteen rows (`eachRow`).

Results:
* `bind_apply`, `pure_apply` and the lemmas beside them run a job one step at a
  time.
* `check_passes`, `check_refused`: a check changes nothing but the count.
-/
namespace Pict

/-- What a running job has so far. -/
structure Session (σ : Type) where
  /-- How many times the stop was asked. -/
  checks : Nat
  warnings : Array Warning
  work : σ
  deriving DecidableEq, Repr

/-- A computation on work of type `σ` with the result `α`. -/
abbrev Job (σ : Type) := ReaderT Stop (EStateM Error (Session σ))

/-- A finished run. -/
structure Report (α : Type) where
  result : Except Error α
  checks : Nat
  warnings : List Warning

namespace Report

def refused {α : Type} (e : Error) : Report α := ⟨.error e, 0, []⟩

/-- A report with its result replaced by what `f` makes of it. -/
def map {α β : Type} (f : α → β) (r : Report α) : Report β :=
  { result := f <$> r.result, checks := r.checks, warnings := r.warnings }

end Report

namespace Job

variable {σ α : Type}

def work : Job σ σ := fun _ s => .ok s.work s

def modifyWork (f : σ → σ) : Job σ Unit := fun _ s => .ok () { s with work := f s.work }

def fail (e : Error) : Job σ α := fun _ s => .error e s

/-- Asks the stop; fails if it refuses. The refused check counts. -/
def check : Job σ Unit := fun stop s =>
  match stop.refusal? s.checks with
  | none => .ok () { s with checks := s.checks + 1 }
  | some reason => .error (.cancelled reason) { s with checks := s.checks + 1 }

def warn (w : Warning) : Job σ Unit := fun _ s => .ok () { s with warnings := s.warnings.push w }

/-- Fails if a limit is exceeded. -/
def enforce : Except Breach Unit → Job σ Unit
  | .ok () => pure ()
  | .error breach => fail (.limitExceeded breach)

/-- Takes a result or fails with its error. -/
def ofExcept : Except Error α → Job σ α
  | .ok a => pure a
  | .error e => fail e

/-- Asks the stop in front of every sixteenth row. -/
def checkRow (row : Nat) : Job σ Unit := if row % 16 = 0 then check else pure ()

/-- Runs `body` for `left` rows from `row` on, with a check in front of every
sixteenth row, until `body` answers that there are no more. -/
def eachRow (body : Nat → Job σ Bool) : (row left : Nat) → Job σ Unit
  | _, 0 => pure ()
  | row, left + 1 => do
    checkRow row
    if ← body row then eachRow body (row + 1) left

def run (job : Job σ α) (stop : Stop) (work : σ) : EStateM.Result Error (Session σ) α :=
  job stop ⟨0, #[], work⟩

/-! ## One step at a time -/

section
variable {β : Type} (stop : Stop) (s : Session σ)

theorem pure_apply (a : α) : (pure a : Job σ α) stop s = .ok a s := rfl

/-- The second job goes on in the session that the first one left. -/
theorem bind_apply (a : Job σ α) (f : α → Job σ β) :
    (a >>= f) stop s =
      match a stop s with
      | .ok x t => f x stop t
      | .error e t => .error e t := by
  show EStateM.bind (a stop) (fun x => f x stop) s = _
  unfold EStateM.bind
  cases a stop s <;> rfl

theorem work_apply : (work : Job σ σ) stop s = .ok s.work s := rfl

theorem warn_apply (w : Warning) :
    (warn w : Job σ Unit) stop s = .ok () { s with warnings := s.warnings.push w } := rfl

theorem fail_apply (e : Error) : (fail e : Job σ α) stop s = .error e s := rfl

/-- A check that passes is only counted. -/
theorem check_passes (h : stop.refusal? s.checks = none) :
    (check : Job σ Unit) stop s = .ok () { s with checks := s.checks + 1 } := by
  simp only [check, h]

/-- A check that is refused is counted and ends the job. -/
theorem check_refused {reason : StopReason} (h : stop.refusal? s.checks = some reason) :
    (check : Job σ Unit) stop s =
      .error (.cancelled reason) { s with checks := s.checks + 1 } := by
  simp only [check, h]

end

end Job

def sessionOf {σ α : Type} : EStateM.Result Error (Session σ) α → Session σ
  | .ok _ s => s
  | .error _ s => s

def resultOf {σ α : Type} : EStateM.Result Error (Session σ) α → Except Error α
  | .ok a _ => .ok a
  | .error e _ => .error e

def reportOf {σ α : Type} (r : EStateM.Result Error (Session σ) α) : Report α :=
  { result := resultOf r
    checks := (sessionOf r).checks
    warnings := (sessionOf r).warnings.toList }

end Pict
