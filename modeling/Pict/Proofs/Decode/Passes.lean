import Pict.Decode.Walk
import Pict.Proofs.Run.Steps
import Pict.Proofs.Stream.Between

/-!
# Jobs that pass over some bytes

A walk stands between two byte lists with a picture (`Stands`). A job passes
over `bytes` from the picture `p` to the picture `q` (`Passes`) when, under a
stop that never fires, it succeeds, leaves the cursor right behind `bytes`, and
turns `p` into `q`. Warnings, checks and marks are not looked at.

Results:
* `Passes.bind`, `bind_nil`, `bind_last`: jobs in a row pass over bytes in a row.
* `Passes.read`: what a reader takes, the walk passes over.
* `Passes.eachRow_then`, `Passes.eachRow`: a row loop passes over its rows, one after the other.
-/
namespace Pict

/-! ## One step at a time -/

namespace Walk

variable (stop : Stop) (s : Session Walk)

theorem getPicture_apply : getPicture stop s = .ok s.work.picture s := rfl

theorem getCursor_apply : getCursor stop s = .ok s.work.cursor s := rfl

theorem read_apply {α : Type} (r : Reader α) :
    read r stop s =
      .ok (r s.work.cursor).1 { s with work := { s.work with cursor := (r s.work.cursor).2 } } :=
  rfl

theorem read_eq {α : Type} {r : Reader α} {a : Option α} (h : (r s.work.cursor).1 = a) :
    read r stop s =
      .ok a { s with work := { s.work with cursor := (r s.work.cursor).2 } } := by
  rw [read_apply, h]

theorem read_eq_ok {stop : Stop} {s t : Session Walk} {α : Type} {r : Reader α} {a : Option α} :
    read r stop s = .ok a t ↔ (r s.work.cursor).1 = a ∧
      { s with work := { s.work with cursor := (r s.work.cursor).2 } } = t := by
  rw [read_apply, EStateM.Result.ok.injEq]

end Walk

/-- The walk is behind `front` and in front of `rest`, with the picture `p`. -/
structure Stands (s : Session Walk) (front rest : List UInt8) (p : Picture) : Prop where
  cursor : s.work.cursor = .between front rest
  picture : s.work.picture = p

/-- Behind `front` and in front of `rest`, the job passes over `bytes`, turns
the picture `p` into `q`, and answers `a`. -/
def Passes {α : Type} (job : Job Walk α) (front bytes rest : List UInt8) (p : Picture) (a : α)
    (q : Picture) : Prop :=
  ∀ s, Stands s front (bytes ++ rest) p →
    ∃ t, job .never s = .ok a t ∧ Stands t (front ++ bytes) rest q

namespace Passes

variable {α β : Type} {front xs ys rest : List UInt8} {p q r : Picture} {a : α} {b : β}

/-! ## Jobs in a row -/

theorem bind {job : Job Walk α} {f : α → Job Walk β} (h : Passes job front xs (ys ++ rest) p a q)
    (h' : Passes (f a) (front ++ xs) ys rest q b r) :
    Passes (job >>= f) front (xs ++ ys) rest p b r := by
  intro s hs
  rw [List.append_assoc] at hs
  obtain ⟨t, ht, hst⟩ := h s hs
  obtain ⟨u, hu, hsu⟩ := h' t hst
  refine ⟨u, ?_, by rwa [List.append_assoc] at hsu⟩
  rw [Job.bind_apply, ht]
  exact hu

/-- The first job does not move the cursor. -/
theorem bind_nil {job : Job Walk α} {f : α → Job Walk β}
    (h : Passes job front [] (ys ++ rest) p a q)
    (h' : Passes (f a) front ys rest q b r) : Passes (job >>= f) front ys rest p b r := by
  have := Passes.bind h (by rwa [List.append_nil])
  exact this

/-- The second job does not move the cursor. -/
theorem bind_last {job : Job Walk α} {f : α → Job Walk β} (h : Passes job front xs rest p a q)
    (h' : Passes (f a) (front ++ xs) [] rest q b r) : Passes (job >>= f) front xs rest p b r := by
  have h0 : Passes job front xs ([] ++ rest) p a q := h
  have := Passes.bind h0 h'
  rwa [List.append_nil] at this

/-! ## Single steps -/

theorem pure (front rest : List UInt8) (p : Picture) (a : α) :
    Passes (Pure.pure a : Job Walk α) front [] rest p a p := by
  intro s hs
  exact ⟨s, rfl, by rwa [List.append_nil]⟩

theorem getPicture (front rest : List UInt8) (p : Picture) :
    Passes Walk.getPicture front [] rest p p p := by
  intro s hs
  refine ⟨s, ?_, by rwa [List.append_nil]⟩
  rw [← hs.picture]
  rfl

theorem getCursor (front rest : List UInt8) (p : Picture) :
    Passes Walk.getCursor front [] rest p (.between front rest) p := by
  intro s hs
  refine ⟨s, ?_, by rwa [List.append_nil]⟩
  have : s.work.cursor = .between front rest := hs.cursor
  rw [← this]
  rfl

theorem modify (front rest : List UInt8) (p : Picture) (f : Picture → Picture) :
    Passes (Walk.modify f) front [] rest p () (f p) := by
  intro s hs
  refine ⟨_, rfl, ⟨?_, congrArg f hs.picture⟩⟩
  rw [List.append_nil]
  exact hs.cursor

theorem warn (front rest : List UInt8) (p : Picture) (w : Warning) :
    Passes (Job.warn w) front [] rest p () p := by
  intro s hs
  refine ⟨_, rfl, ⟨?_, hs.picture⟩⟩
  rw [List.append_nil]
  exact hs.cursor

theorem check (front rest : List UInt8) (p : Picture) :
    Passes Job.check front [] rest p () p := by
  intro s hs
  refine ⟨_, Job.check_passes .never s rfl, ⟨?_, hs.picture⟩⟩
  rw [List.append_nil]
  exact hs.cursor

/-- A walk that reads what stands in front of it. -/
theorem read {r : Reader α} {bytes : List UInt8}
    (h : r (.between front (bytes ++ rest)) = (some a, .between (front ++ bytes) rest))
    (p : Picture) : Passes (Walk.read r) front bytes rest p (some a) p := by
  intro s hs
  refine ⟨{ s with work := { s.work with cursor := .between (front ++ bytes) rest } }, ?_, rfl,
    hs.picture⟩
  rw [Walk.read_apply, hs.cursor, h]

theorem skip {n : Nat} {bytes : List UInt8} (h : bytes.length = n) (front rest : List UInt8)
    (p : Picture) : Passes (Walk.move (·.skip n)) front bytes rest p () p := by
  intro s hs
  refine ⟨_, rfl, ⟨?_, hs.picture⟩⟩
  show s.work.cursor.skip n = _
  rw [hs.cursor, Cursor.skip_between _ _ _ h]

theorem next {n : Nat} {bytes : List UInt8} (h : bytes.length = n) (front rest : List UInt8)
    (p : Picture) : Passes (Walk.next n) front bytes rest p bytes p :=
  bind_nil (getCursor front _ p) (bind_last (skip h front rest p)
    (by rw [Cursor.next_between _ _ _ h]; exact pure _ _ _ _))

/-! ## Row loops -/

theorem checkRow (front rest : List UInt8) (p : Picture) (row : Nat) :
    Passes (Job.checkRow row) front [] rest p () p := by
  unfold Job.checkRow
  split
  · exact check front rest p
  · exact pure front rest p ()

/-- A loop goes on behind rows that its body passes over one at a time. Behind the last of them
comes `rest`, which is not empty. -/
theorem eachRow_then {ρ : Type} (write : ρ → List UInt8) (step : Picture → ρ → Picture)
    (body : Nat → Job Walk Bool) {rest : List UInt8} (hrest : rest ≠ []) (left : Nat) :
    ∀ (rows : List ρ), (∀ x ∈ rows, ∀ row front more p, more ≠ [] →
        Passes (body row) front (write x) more p true (step p x)) →
      ∀ row front p s, Stands s front (rows.flatMap write ++ rest) p →
        ∃ t, Job.eachRow body row (rows.length + left) .never s =
            Job.eachRow body (row + rows.length) left .never t ∧
          Stands t (front ++ rows.flatMap write) rest (rows.foldl step p)
  | [], _, row, front, p, s, hs => by
    refine ⟨s, by rw [List.length_nil, Nat.zero_add, Nat.add_zero], ?_⟩
    rw [List.flatMap_nil, List.append_nil]
    exact hs
  | x :: rows, hbody, row, front, p, s, hs => by
    have hmore : rows.flatMap write ++ rest ≠ [] := by simp [hrest]
    rw [List.flatMap_cons, List.append_assoc] at hs
    have hx : Passes (Job.checkRow row >>= fun _ => body row) front (write x)
        (rows.flatMap write ++ rest) p true (step p x) :=
      bind_nil (checkRow front _ p row) (hbody x List.mem_cons_self row front _ p hmore)
    obtain ⟨u, hu, hsu⟩ := hx s hs
    obtain ⟨t, ht, hst⟩ := eachRow_then write step body hrest left rows
      (fun y hy => hbody y (List.mem_cons_of_mem x hy)) (row + 1) (front ++ write x) (step p x)
      u hsu
    refine ⟨t, ?_, ?_⟩
    · have hfirst : Job.eachRow body row (rows.length + left + 1) .never s =
          ((Job.checkRow row >>= fun _ => body row) >>= fun more =>
            if more = true then Job.eachRow body (row + 1) (rows.length + left)
            else Pure.pure ()) .never s := by
        rw [bind_assoc]
        rfl
      rw [List.length_cons, Nat.add_right_comm, hfirst, Job.bind_apply, hu,
        show row + (rows.length + 1) = row + 1 + rows.length by omega, ← ht]
      rfl
    · rw [List.flatMap_cons, ← List.append_assoc]
      exact hst

/-- A loop whose body passes over one row at a time passes over all of them.
Behind the last row comes `rest`, which is not empty. -/
theorem eachRow {ρ : Type} (write : ρ → List UInt8) (step : Picture → ρ → Picture)
    (body : Nat → Job Walk Bool) {rest : List UInt8} (hrest : rest ≠ []) (rows : List ρ)
    (hbody : ∀ x ∈ rows, ∀ row front more p, more ≠ [] →
      Passes (body row) front (write x) more p true (step p x)) (row : Nat) (front : List UInt8)
    (p : Picture) :
    Passes (Job.eachRow body row rows.length) front (rows.flatMap write) rest p ()
      (rows.foldl step p) := by
  intro s hs
  obtain ⟨t, ht, hst⟩ := eachRow_then write step body hrest 0 rows hbody row front p s hs
  exact ⟨t, ht, hst⟩

end Passes
end Pict
