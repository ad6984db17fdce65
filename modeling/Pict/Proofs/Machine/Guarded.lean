import Pict.Proofs.Machine.Checked
import Pict.Proofs.Run.Stops

/-!
# Guarded jobs

A guarded job does what a job does and may fault on the way. `Runs` compares the two from
one session on: the guarded job does not fault, and its work is that of the job, seen
through `view`.

Results:
* `Runs.bind`, `Runs.ite`: jobs in a row, and choices.
* `Runs.eachRow`: a loop over rows does not fault when no row does from what the rows in front
  of it leave.
* `Guarded.eachRow_ends`, `Guarded.eachRow_faults`: a loop ends as a loop does of which all rows
  that the stop lets through go on, or at the row that faults.
-/
namespace Pict.Machine

variable {σ τ α β : Type}

def sessionVia (view : σ → τ) (s : Session σ) : Session τ := ⟨s.checks, s.warnings, view s.work⟩

def resultVia (view : σ → τ) :
    EStateM.Result Error (Session σ) α → EStateM.Result Error (Session τ) α
  | .ok a s => .ok a (sessionVia view s)
  | .error e s => .error e (sessionVia view s)

@[simp] theorem resultVia_id (r : EStateM.Result Error (Session σ) α) : resultVia id r = r := by
  cases r <;> rfl

/-- A job that may fault. -/
def Guarded (τ α : Type) := Stop → Session τ → Checked (EStateM.Result Error (Session τ) α)

namespace Guarded

def proceed (f : α → Guarded τ β) (stop : Stop) :
    EStateM.Result Error (Session τ) α → Checked (EStateM.Result Error (Session τ) β)
  | .ok a s => f a stop s
  | .error e s => .ok (.error e s)

instance : Monad (Guarded τ) where
  pure a := fun _ s => .ok (.ok a s)
  bind g f := fun stop s => g stop s >>= proceed f stop

def step (job : Job τ α) : Guarded τ α := fun stop s => .ok (job stop s)

def compute (c : Checked α) : Guarded τ α := fun _ s => do
  let a ← c
  pure (.ok a s)

def transform (f : τ → Checked (α × τ)) : Guarded τ α := fun _ s => do
  let (a, w) ← f s.work
  pure (.ok a { s with work := w })

/-- A computation of a result, or of the error to fail with. -/
def settle (c : Checked (Except Error α)) : Guarded τ α := do
  let r ← compute c
  step (Job.ofExcept r)

/-- `Job.eachRow` with a body that may fault. -/
def eachRow (body : Nat → Guarded τ Bool) : (row left : Nat) → Guarded τ Unit
  | _, 0 => pure ()
  | row, left + 1 => do
    step (Job.checkRow row)
    if ← body row then eachRow body (row + 1) left

end Guarded

/-- From the session `s` on the guarded job does not fault. It does to the work, seen through
`view`, what `job` does to it, and `Q` holds of what `job` leaves. -/
structure Runs (view : σ → τ) (g : Guarded τ α) (job : Job σ α) (stop : Stop) (s : Session σ)
    (Q : α → σ → Prop) : Prop where
  same : g stop (sessionVia view s) = .ok (resultVia view (job stop s))
  leaves : ∀ {a : α} {t : Session σ}, job stop s = .ok a t → Q a t.work

namespace Runs

open Guarded

variable {view : σ → τ} {stop : Stop} {s : Session σ} {Q : α → σ → Prop} {R : β → σ → Prop}

theorem mono {g : Guarded τ α} {job : Job σ α} {Q' : α → σ → Prop} (h : Runs view g job stop s Q)
    (hle : ∀ a w, Q a w → Q' a w) : Runs view g job stop s Q' :=
  ⟨h.same, fun hjob => hle _ _ (h.leaves hjob)⟩

theorem and {g : Guarded τ α} {job : Job σ α} {Q' : α → σ → Prop} (h : Runs view g job stop s Q)
    (h' : ∀ a t, job stop s = .ok a t → Q' a t.work) :
    Runs view g job stop s fun a w => Q a w ∧ Q' a w :=
  ⟨h.same, fun hjob => ⟨h.leaves hjob, h' _ _ hjob⟩⟩

theorem pure {a : α} (h : Q a s.work) :
    Runs view (Pure.pure a) (Pure.pure a : Job σ α) stop s Q := by
  refine ⟨rfl, fun hjob => ?_⟩
  obtain ⟨rfl, rfl⟩ := EStateM.Result.ok.inj hjob
  exact h

/-- Jobs in a row. -/
theorem bind {g : Guarded τ α} {job : Job σ α} {f' : α → Guarded τ β} {f : α → Job σ β}
    (h : Runs view g job stop s Q)
    (h' : ∀ a t, Q a t.work → Runs view (f' a) (f a) stop t R) :
    Runs view (g >>= f') (job >>= f) stop s R := by
  have hbind : (g >>= f') stop (sessionVia view s) =
      g stop (sessionVia view s) >>= proceed f' stop := rfl
  cases hjob : job stop s with
  | error e t =>
    refine ⟨?_, fun hok => ?_⟩
    · rw [hbind, h.same, hjob, Job.bind_apply, hjob]
      rfl
    · rw [Job.bind_apply, hjob] at hok
      cases hok
  | ok a t =>
    obtain ⟨hsame, hleaves⟩ := h' a t (h.leaves hjob)
    refine ⟨?_, fun hok => ?_⟩
    · rw [hbind, h.same, hjob, Job.bind_apply, hjob]
      exact hsame
    · rw [Job.bind_apply, hjob] at hok
      exact hleaves hok

theorem step {job : Job σ α} (h : ∀ a t, job stop s = .ok a t → Q a t.work) :
    Runs id (Guarded.step job) job stop s Q :=
  ⟨by rw [resultVia_id]; rfl, fun hjob => h _ _ hjob⟩

theorem compute {c : Checked β} {b : β} {f : β → Guarded τ α} {job : Job σ α} (hc : c = .ok b)
    (h : Runs view (f b) job stop s Q) : Runs view (Guarded.compute c >>= f) job stop s Q := by
  refine ⟨?_, h.leaves⟩
  rw [← h.same, hc]
  rfl

theorem transform {f : τ → Checked (α × τ)} {job : Job σ α} {a : α} {w : σ}
    (hjob : job stop s = .ok a { s with work := w }) (hf : f (view s.work) = .ok (a, view w))
    (hQ : Q a w) : Runs view (Guarded.transform f) job stop s Q := by
  refine ⟨?_, fun hok => ?_⟩
  · show (f (view s.work) >>= _) = _
    rw [hf, hjob]
    rfl
  · rw [hjob] at hok
    obtain ⟨rfl, rfl⟩ := EStateM.Result.ok.inj hok
    exact hQ

theorem look {g : τ → Guarded τ α} {job : Job σ α} (h : Runs view (g (view s.work)) job stop s Q) :
    Runs view (Guarded.step Job.work >>= g) job stop s Q := ⟨h.same, h.leaves⟩

theorem work {g : τ → Guarded τ α} {f : σ → Job σ α}
    (h : Runs view (g (view s.work)) (f s.work) stop s Q) :
    Runs view (Guarded.step Job.work >>= g) (Job.work >>= f) stop s Q := ⟨h.same, h.leaves⟩

theorem warn (w : Warning) :
    Runs view (Guarded.step (Job.warn w)) (Job.warn w) stop s fun _ u => u = s.work := by
  refine ⟨rfl, fun hok => ?_⟩
  obtain ⟨-, rfl⟩ := EStateM.Result.ok.inj hok
  rfl

theorem modifyWork {f' : τ → τ} {f : σ → σ} (h : f' (view s.work) = view (f s.work)) :
    Runs view (Guarded.step (Job.modifyWork f')) (Job.modifyWork f) stop s
      fun _ u => u = f s.work := by
  refine ⟨?_, fun hok => ?_⟩
  · show Except.ok (EStateM.Result.ok () (Session.mk s.checks s.warnings (f' (view s.work)))) = _
    rw [h]
    rfl
  · obtain ⟨-, rfl⟩ := EStateM.Result.ok.inj hok
    rfl

theorem fail (e : Error) :
    Runs view (Guarded.step (Job.fail e)) (Job.fail e) stop s Q := ⟨rfl, fun hok => by cases hok⟩

theorem check : Runs view (Guarded.step Job.check) Job.check stop s fun _ u => u = s.work := by
  cases hrefusal : stop.refusal? s.checks with
  | none =>
    have hpass : (Job.check : Job σ Unit) stop s = .ok () { s with checks := s.checks + 1 } :=
      Job.check_passes stop s hrefusal
    refine ⟨?_, fun hok => ?_⟩
    · rw [hpass, Guarded.step, Job.check_passes stop (sessionVia view s) hrefusal]
      rfl
    · rw [hpass] at hok
      obtain ⟨-, rfl⟩ := EStateM.Result.ok.inj hok
      rfl
  | some reason =>
    have hstop : (Job.check : Job σ Unit) stop s =
        .error (.cancelled reason) { s with checks := s.checks + 1 } :=
      Job.check_refused stop s hrefusal
    refine ⟨?_, fun hok => ?_⟩
    · rw [hstop, Guarded.step, Job.check_refused stop (sessionVia view s) hrefusal]
      rfl
    · rw [hstop] at hok
      cases hok

theorem checkRow (row : Nat) :
    Runs view (Guarded.step (Job.checkRow row)) (Job.checkRow row) stop s
      fun _ u => u = s.work := by
  unfold Job.checkRow
  by_cases hrow : row % 16 = 0
  · rw [if_pos hrow, if_pos hrow]
    exact check
  · rw [if_neg hrow, if_neg hrow]
    exact pure rfl

theorem enforce (limit : Except Breach Unit) :
    Runs view (Guarded.step (Job.enforce limit)) (Job.enforce limit) stop s
      fun _ u => u = s.work := by
  cases limit with
  | ok => exact pure rfl
  | error breach => exact fail _

theorem ofExcept (r : Except Error α) :
    Runs view (Guarded.step (Job.ofExcept r)) (Job.ofExcept r) stop s
      fun a u => r = .ok a ∧ u = s.work := by
  cases r with
  | ok a => exact pure ⟨rfl, rfl⟩
  | error e => exact fail e

theorem settle {c : Checked (Except Error α)} {r : Except Error α} (hc : c = .ok r) :
    Runs view (Guarded.settle c) (Job.ofExcept r) stop s fun a u => r = .ok a ∧ u = s.work :=
  compute hc (ofExcept r)

theorem ite {p : Prop} [Decidable p] {g g' : Guarded τ α} {job job' : Job σ α}
    (h : p → Runs view g job stop s Q) (h' : ¬p → Runs view g' job' stop s Q) :
    Runs view (if p then g else g') (if p then job else job') stop s Q := by
  by_cases hp : p
  · rw [if_pos hp, if_pos hp]
    exact h hp
  · rw [if_neg hp, if_neg hp]
    exact h' hp

theorem warnIf {p : Prop} [Decidable p] {w : Warning} {g : Guarded τ α} {job : Job σ α}
    (h : ∀ u : Session σ, u.work = s.work → Runs view g job stop u Q) :
    Runs view (if p then Guarded.step (Job.warn w) >>= fun _ => g else g)
      (if p then Job.warn w >>= fun _ => job else job) stop s Q :=
  ite (fun _ => (warn w).bind fun _ u hu => h u hu) fun _ => h s rfl

/-- A loop over the rows in front of `height`. Where the invariant holds of a row, the row does
not fault, and the invariant holds of the next one. -/
theorem eachRow {g : Nat → Guarded τ Bool} {body : Nat → Job σ Bool} {I : Nat → σ → Prop}
    {height : Nat}
    (h : ∀ row t, row < height → I row t.work →
      Runs view (g row) (body row) stop t fun _ w => I (row + 1) w) :
    ∀ (left : Nat) {row : Nat} {s : Session σ}, row + left = height → I row s.work →
      Runs view (Guarded.eachRow g row left) (Job.eachRow body row left) stop s
        fun _ w => ∃ r ≤ height, I r w
  | 0, row, s, hleft, hs => pure ⟨row, by omega, hs⟩
  | left + 1, row, s, hleft, hs => by
    refine (checkRow row).bind fun _ t ht => ?_
    refine (h row t (by omega) (by rwa [ht])).bind fun more u hu => ?_
    refine ite (fun _ => eachRow h left (by omega) hu) fun _ => pure ⟨row + 1, by omega, hu⟩

end Runs

/-! ## Loops under a stop -/

/-- How a loop over rows ends under a stop when all rows go on, with the work `w i` in front of row
`i`. -/
def loopEnd (rows : Nat) (warnings : Array Warning) (w : Nat → τ) :
    Stop → EStateM.Result Error (Session τ) Unit
  | .never => .ok () ⟨(rows + 15) / 16, warnings, w rows⟩
  | .after n reason =>
    if 16 * n < rows then .error (.cancelled reason) ⟨n + 1, warnings, w (16 * n)⟩
    else .ok () ⟨(rows + 15) / 16, warnings, w rows⟩

theorem resultVia_loopEnd (view : σ → τ) (rows : Nat) (warnings : Array Warning) (w : Nat → σ)
    (stop : Stop) :
    resultVia view (loopEnd rows warnings w stop) =
      loopEnd rows warnings (fun i => view (w i)) stop := by
  cases stop with
  | never => rfl
  | after n reason => exact apply_ite (resultVia view) _ _ _

namespace Guarded

variable {g : Nat → Guarded τ Bool} {stop : Stop} {w : Nat → τ} {rows m : Nat}
  {warnings : Array Warning}

theorem bind_apply (g : Guarded τ α) (f : α → Guarded τ β) (stop : Stop) (s : Session τ) :
    (g >>= f) stop s = g stop s >>= proceed f stop := rfl

/-- Row `i` of a loop goes on, and leaves the work that the next row finds. -/
def Goes (g : Nat → Guarded τ Bool) (stop : Stop) (w : Nat → τ) (i : Nat) : Prop :=
  ∀ checks warnings,
    g i stop ⟨checks, warnings, w i⟩ = .ok (.ok true ⟨checks, warnings, w (i + 1)⟩)

theorem eachRow_succ {row left : Nat} (hrow : row < stop.rowsBefore rows) (work : τ) :
    eachRow g row (left + 1) stop ⟨(row + 15) / 16, warnings, work⟩ =
      g row stop ⟨(row + 16) / 16, warnings, work⟩ >>=
        proceed (fun more => if more then eachRow g (row + 1) left else pure ()) stop := by
  rw [eachRow, bind_apply, step, Job.checkRow_passes hrow rfl]
  rfl

/-- Rows that go on lead to the row behind them, as far as the stop lets them through. -/
theorem eachRow_goes (hm : m ≤ stop.rowsBefore rows) {left : Nat} :
    ∀ {row : Nat}, row + left = rows → row ≤ m → (∀ i, i < m → Goes g stop w i) →
      eachRow g row left stop ⟨(row + 15) / 16, warnings, w row⟩ =
        eachRow g m (rows - m) stop ⟨(m + 15) / 16, warnings, w m⟩ := by
  have hrows := stop.rowsBefore_le rows
  induction left with
  | zero =>
    intro row hleft hrow _
    obtain rfl : row = m := by omega
    rw [Nat.sub_eq_zero_of_le (by omega)]
  | succ left ih =>
    intro row hleft hrow h
    by_cases hend : row = m
    · rw [hend, show rows - m = left + 1 by omega]
    · have hcome : row < stop.rowsBefore rows := by omega
      rw [eachRow_succ hcome, h row (by omega), ok_bind]
      exact ih (by omega) (by omega) h

/-- A loop of which all rows go on that the stop lets through. -/
theorem eachRow_ends (h : ∀ i < stop.rowsBefore rows, Goes g stop w i) :
    eachRow g 0 rows stop ⟨0, warnings, w 0⟩ = .ok (loopEnd rows warnings w stop) := by
  rw [show (0 : Nat) = (0 + 15) / 16 from rfl,
    eachRow_goes (Nat.le_refl _) (Nat.zero_add _) (Nat.zero_le _) h]
  cases stop with
  | never =>
    rw [Stop.rowsBefore, Nat.sub_self]
    rfl
  | after n reason =>
    rw [Stop.rowsBefore, loopEnd]
    by_cases hlt : 16 * n < rows
    · obtain ⟨left, hleft⟩ : ∃ left, rows - 16 * n = left + 1 := ⟨rows - 16 * n - 1, by omega⟩
      rw [if_pos hlt, Nat.min_eq_right (Nat.le_of_lt hlt), hleft, eachRow, bind_apply, step,
        Job.checkRow_refused rfl (by show (16 * n + 15) / 16 = n; omega)]
      rfl
    · rw [if_neg hlt, Nat.min_eq_left (Nat.le_of_not_lt hlt), Nat.sub_self]
      rfl

/-- A loop ends at a row that faults, when the rows in front of it go on and the stop lets it
through. -/
theorem eachRow_faults {e : Fault} (hm : m < stop.rowsBefore rows)
    (h : ∀ i < m, Goes g stop w i)
    (hfault : ∀ checks, g m stop ⟨checks, warnings, w m⟩ = .error e) :
    eachRow g 0 rows stop ⟨0, warnings, w 0⟩ = .error e := by
  have hrows := stop.rowsBefore_le rows
  obtain ⟨left, hleft⟩ : ∃ left, rows - m = left + 1 := ⟨rows - m - 1, by omega⟩
  rw [show (0 : Nat) = (0 + 15) / 16 from rfl,
    eachRow_goes (Nat.le_of_lt hm) (Nat.zero_add _) (Nat.zero_le _) h, hleft, eachRow_succ hm,
    hfault]
  rfl

theorem eachRow_step (body : Nat → Job τ Bool) (stop : Stop) :
    ∀ (left row : Nat) (s : Session τ),
      eachRow (fun i => step (body i)) row left stop s = .ok (Job.eachRow body row left stop s)
  | 0, _, _ => rfl
  | left + 1, row, s => by
    rw [eachRow, Job.eachRow, bind_apply, Job.bind_apply, step]
    cases hcheck : (Job.checkRow row : Job τ Unit) stop s with
    | error e t => rfl
    | ok a t =>
      show (Guarded.step (body row) >>= _) stop t = _
      rw [bind_apply, step, ok_bind]
      dsimp only
      rw [Job.bind_apply]
      cases body row stop t with
      | error e u => rfl
      | ok more u =>
        cases more with
        | false => rfl
        | true => exact eachRow_step body stop left (row + 1) u

end Guarded

/-- A loop with nothing in it that could fault ends as a guarded one does. -/
theorem eachRow_ends {body : Nat → Job σ Bool} {stop : Stop} {w : Nat → σ} {rows : Nat}
    {warnings : Array Warning}
    (h : ∀ i < stop.rowsBefore rows, Guarded.Goes (fun i => Guarded.step (body i)) stop w i) :
    Job.eachRow body 0 rows stop ⟨0, warnings, w 0⟩ = loopEnd rows warnings w stop :=
  Except.ok.inj ((Guarded.eachRow_step body stop rows 0 _).symm.trans (Guarded.eachRow_ends h))

end Pict.Machine
