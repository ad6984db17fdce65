import Pict.Run.Job

/-!
# Jobs under a stop

A job is run under a stop that never fires, and under one that passes some checks and refuses
the next. `StopsAt` compares the two runs: the stop makes no difference, or the second run
ends at the refused check. A job that `Heeds` the stop is one of which this holds wherever it
starts.

Results:
* `StopsAt.same`, `StopsAt.cancelled`: the two ways in which the second run can end.
* `Heeds.check`, `Heeds.bind`: checks, and jobs in a row.
* `Heeds.error_cases`: whatever the stop is, a job fails with an error of its own or is cancelled.
* `Job.checkRow_passes`, `Job.checkRow_refused`: how far a loop over rows comes.
-/
namespace Pict

variable {σ α β : Type}

/-! ## Sessions -/

/-- All that `s` has counted and told stands in `t` as well. -/
structure Session.Precedes (s t : Session σ) : Prop where
  checks : s.checks ≤ t.checks
  warnings : s.warnings.toList <+: t.warnings.toList

namespace Session.Precedes

variable {s t u : Session σ}

theorem refl (s : Session σ) : s.Precedes s := ⟨Nat.le_refl _, List.prefix_refl _⟩

theorem trans (h : s.Precedes t) (h' : t.Precedes u) : s.Precedes u :=
  ⟨Nat.le_trans h.checks h'.checks, h.warnings.trans h'.warnings⟩

theorem mem (h : s.Precedes t) {w : Warning} (hw : w ∈ s.warnings) : w ∈ t.warnings :=
  Array.mem_toList_iff.mp (h.warnings.subset (Array.mem_toList_iff.mpr hw))

end Session.Precedes

/-! ## A whole run and one that may be stopped -/

/-- Beside the run `whole`, `run` is the one under a stop that passes `n` checks and refuses the
next one. It is the whole run if that has no more checks; else it ends at the first
check behind them, and has told what the whole run told up to there. -/
def StopsAt (n : Nat) (reason : StopReason) (whole run : EStateM.Result Error (Session σ) α) :
    Prop :=
  ((sessionOf whole).checks ≤ n ∧ run = whole) ∨
    (n < (sessionOf whole).checks ∧ ∃ t, run = .error (.cancelled reason) t ∧
      t.checks = n + 1 ∧ t.warnings.toList <+: (sessionOf whole).warnings.toList)

namespace StopsAt

variable {n : Nat} {reason : StopReason} {whole run : EStateM.Result Error (Session σ) α}

/-- A stop that outlasts the checks of the whole run makes no difference. -/
theorem same (h : StopsAt n reason whole run) (hle : (sessionOf whole).checks ≤ n) :
    run = whole := by
  rcases h with ⟨-, hsame⟩ | ⟨hlt, -⟩
  · exact hsame
  · exact absurd hlt (Nat.not_lt.mpr hle)

/-- Any other ends the run at the check that it refuses. -/
theorem cancelled (h : StopsAt n reason whole run) (hlt : n < (sessionOf whole).checks) :
    ∃ t, run = .error (.cancelled reason) t ∧ t.checks = n + 1 := by
  rcases h with ⟨hle, -⟩ | ⟨-, t, hrun, hchecks, -⟩
  · exact absurd hlt (Nat.not_lt.mpr hle)
  · exact ⟨t, hrun, hchecks⟩

end StopsAt

/-- The job fails with its `own` errors only, unless the stop ends it; and the stop does nothing
else to it. -/
structure Job.Heeds (own : Error → Prop) (job : Job σ α) : Prop where
  later : ∀ (stop : Stop) (s : Session σ), s.Precedes (sessionOf (job stop s))
  fails : ∀ {s t : Session σ} {e : Error}, job .never s = .error e t → own e
  stops : ∀ {s : Session σ} (n : Nat) (reason : StopReason), s.checks ≤ n →
    StopsAt n reason (job .never s) (job (.after n reason) s)

namespace Job.Heeds

variable {own : Error → Prop}

/-! ## Single steps -/

theorem quiet {job : Job σ α}
    (h : ∀ s, ∃ a t, (∀ stop, job stop s = .ok a t) ∧ t.checks = s.checks ∧
      s.warnings.toList <+: t.warnings.toList) : Heeds own job where
  later stop s := by
    obtain ⟨a, t, hjob, hchecks, hwarnings⟩ := h s
    rw [hjob]
    exact ⟨Nat.le_of_eq hchecks.symm, hwarnings⟩
  fails {s t e} hfail := by
    obtain ⟨a, u, hjob, -⟩ := h s
    rw [hjob] at hfail
    cases hfail
  stops {s} n reason hn := by
    obtain ⟨a, t, hjob, hchecks, -⟩ := h s
    refine Or.inl ⟨?_, (hjob _).trans (hjob _).symm⟩
    rw [hjob]
    show t.checks ≤ n
    omega

theorem pure (a : α) : Heeds own (Pure.pure a : Job σ α) :=
  quiet fun s => ⟨a, s, fun _ => rfl, rfl, List.prefix_refl _⟩

theorem work : Heeds own (Job.work : Job σ σ) :=
  quiet fun s => ⟨s.work, s, fun _ => rfl, rfl, List.prefix_refl _⟩

theorem modifyWork (f : σ → σ) : Heeds own (Job.modifyWork f) :=
  quiet fun s => ⟨(), { s with work := f s.work }, fun _ => rfl, rfl, List.prefix_refl _⟩

theorem warn (w : Warning) : Heeds own (Job.warn w : Job σ Unit) := by
  refine quiet fun s => ⟨(), { s with warnings := s.warnings.push w }, fun _ => rfl, rfl, ?_⟩
  simp

theorem fail {e : Error} (h : own e) : Heeds own (Job.fail e : Job σ α) where
  later _ s := .refl s
  fails {_ _ _} hfail := by
    obtain ⟨rfl, -⟩ := EStateM.Result.error.inj hfail
    exact h
  stops {_} _ _ hn := Or.inl ⟨hn, rfl⟩

theorem enforce {limit : Except Breach Unit}
    (h : ∀ breach, limit = .error breach → own (.limitExceeded breach)) :
    Heeds own (Job.enforce limit : Job σ Unit) := by
  cases limit with
  | ok _ => exact pure ()
  | error breach => exact fail (h breach rfl)

/-- The one step that asks the stop. -/
theorem check : Heeds own (Job.check : Job σ Unit) where
  later stop s := by
    unfold Job.check
    cases stop.refusal? s.checks <;> exact ⟨Nat.le_succ _, List.prefix_refl _⟩
  fails {s t e} hfail := by
    rw [check_passes .never s rfl] at hfail
    cases hfail
  stops {s} n reason hn := by
    rw [check_passes .never s rfl]
    by_cases hlt : s.checks < n
    · refine Or.inl ⟨hlt, check_passes _ s ?_⟩
      simp [Stop.refusal?, hlt]
    · obtain rfl : s.checks = n := by omega
      have hrefused : (Stop.after s.checks reason).refusal? s.checks = some reason := by
        simp [Stop.refusal?]
      exact Or.inr ⟨Nat.lt_succ_self _, _, check_refused _ s hrefused, rfl, List.prefix_refl _⟩

/-! ## Jobs in a row -/

theorem bind {job : Job σ α} {f : α → Job σ β} (h : Heeds own job) (h' : ∀ a, Heeds own (f a)) :
    Heeds own (job >>= f) where
  later stop s := by
    have hs := h.later stop s
    rw [bind_apply]
    cases hjob : job stop s with
    | error e t =>
      rw [hjob] at hs
      exact hs
    | ok a t =>
      rw [hjob] at hs
      exact hs.trans ((h' a).later stop t)
  fails {s t e} hfail := by
    rw [bind_apply] at hfail
    cases hjob : job .never s with
    | error e' u =>
      rw [hjob] at hfail
      obtain ⟨rfl, -⟩ := EStateM.Result.error.inj hfail
      exact h.fails hjob
    | ok a u =>
      rw [hjob] at hfail
      exact (h' a).fails hfail
  stops {s} n reason hn := by
    have hs := h.stops n reason hn
    rw [bind_apply, bind_apply]
    cases hjob : job .never s with
    | error e t =>
      rw [hjob] at hs
      rcases hs with ⟨hle, hsame⟩ | ⟨hlt, u, hcancelled, hchecks, hwarnings⟩
      · rw [hsame]
        exact Or.inl ⟨hle, rfl⟩
      · rw [hcancelled]
        exact Or.inr ⟨hlt, u, rfl, hchecks, hwarnings⟩
    | ok a t =>
      rw [hjob] at hs
      rcases hs with ⟨hle, hsame⟩ | ⟨hlt, u, hcancelled, hchecks, hwarnings⟩
      · rw [hsame]
        exact (h' a).stops n reason hle
      · -- the first job is stopped, and the second one would only have counted and told more
        have hlater := (h' a).later .never t
        rw [hcancelled]
        exact Or.inr ⟨Nat.lt_of_lt_of_le hlt hlater.checks, u, rfl, hchecks,
          hwarnings.trans hlater.warnings⟩

/-- Whatever the stop is, the job fails with an error of its own or because of the stop. -/
theorem error_cases {job : Job σ α} (h : Heeds own job) {stop : Stop} {s t : Session σ} {e : Error}
    (hs : s.checks = 0) (hfail : job stop s = .error e t) :
    own e ∨ ∃ reason, e = .cancelled reason := by
  cases stop with
  | never => exact Or.inl (h.fails hfail)
  | after n reason =>
    rcases h.stops (s := s) n reason (by omega) with ⟨-, hsame⟩ | ⟨-, u, hcancelled, -⟩
    · exact Or.inl (h.fails (hsame.symm.trans hfail))
    · obtain ⟨rfl, -⟩ := EStateM.Result.error.inj (hcancelled.symm.trans hfail)
      exact Or.inr ⟨reason, rfl⟩

end Job.Heeds

/-! ## Loops over rows -/

/-- How many of some rows a loop comes to before the stop refuses: sixteen for each check that
passes. -/
def Stop.rowsBefore (rows : Nat) : Stop → Nat
  | .never => rows
  | .after passing _ => min rows (16 * passing)

theorem Stop.rowsBefore_le (stop : Stop) (rows : Nat) : stop.rowsBefore rows ≤ rows := by
  cases stop with
  | never => exact Nat.le_refl _
  | after passing reason => exact Nat.min_le_left _ _

namespace Job

variable {stop : Stop} {row rows n : Nat} {s : Session σ}

/-- In front of these rows the stop passes, and is counted by sixteens. -/
theorem checkRow_passes (hrow : row < stop.rowsBefore rows) (hchecks : s.checks = (row + 15) / 16) :
    checkRow row stop s = .ok () { s with checks := (row + 16) / 16 } := by
  unfold checkRow
  split
  · have hpasses : stop.refusal? s.checks = none := by
      cases stop with
      | never => rfl
      | after passing reason =>
        rw [Stop.rowsBefore, Nat.lt_min] at hrow
        exact if_pos (by omega)
    rw [check_passes _ s hpasses]
    have hcount : s.checks + 1 = (row + 16) / 16 := by omega
    rw [hcount]
  · have hcount : (row + 16) / 16 = s.checks := by omega
    rw [hcount]
    rfl

/-- In front of row `16 * n` a stop that passes `n` checks refuses. -/
theorem checkRow_refused {reason : StopReason} (hrow : row = 16 * n) (hchecks : s.checks = n) :
    checkRow row (.after n reason) s = .error (.cancelled reason) { s with checks := n + 1 } := by
  have hrefused : (Stop.after n reason).refusal? s.checks = some reason := by
    simp [Stop.refusal?, hchecks]
  unfold checkRow
  rw [if_pos (by omega), check_refused _ s hrefused, hchecks]

end Job
end Pict
