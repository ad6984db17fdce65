import Pict.Proofs.Decode.Frame
import Pict.Proofs.Decode.Turns
import Pict.Proofs.Raster.Growth

/-!
# Strips are only ever appended

Nothing but the rows of rasters adds strips to a picture.

Results:
* `adds_allow`: what stands in front of the rows adds none.
* `turn_cases`: what one turn adds, and when.
* `turns_grow`: a whole walk only appends strips, and counts their bytes.
* `ReadsRowsWithin.grows_behind`: so does what follows the rows of a raster.
-/
namespace Pict

open Job

theorem Job.Adds.of_within {α : Type} {job : Job Walk α} (h : Within .sameStrips job) :
    Adds 0 job :=
  fun stop s => .same (h stop s).1 (h stop s).2

namespace Decode

theorem adds_allow (limits : Limits) (op : RasterOp) : Adds 0 (allow limits op) := by
  have hopening : Adds 0 (Raster.readOpening op) :=
    .of_within (Raster.within_readOpening Frame.sameStrips_opens op)
  refine Adds.bind_zero hopening fun opened => ?_
  cases opened with
  | none => exact Adds.pure none
  | some f =>
    exact Adds.bind_zero Adds.getPicture fun _ => Adds.bind_zero (Adds.enforce _) fun _ =>
      Adds.bind_zero (Adds.enforce _) fun _ => Adds.pure _

variable {limits : Limits} {stop : Stop} {s t u : Session Walk} {f : Format}

/-! ## Turns -/

theorem opcode_grows {α : Type} {r : Reader α} {a : Option α} {s₁ s₂ : Session Walk}
    (hread : Walk.read r stop s = .ok a s₁) (hcheck : Job.check stop s₁ = .ok () s₂) :
    s.work.picture.GrowsBy 0 s₂.work.picture := by
  have h₁ : s.work.picture.GrowsBy 0 s₁.work.picture := (Adds.read r).ok hread
  have h₂ : s₁.work.picture.GrowsBy 0 s₂.work.picture := Adds.check.ok hcheck
  exact h₁.trans h₂

theorem ReadsRows.opening_grows (h : ReadsRows limits stop s f u t) :
    s.work.picture.GrowsBy 0 u.work.picture := by
  obtain ⟨op, s₁, s₂, hread, hcheck, hallow, -⟩ := h
  exact (opcode_grows hread hcheck).trans ((adds_allow limits op).ok hallow)

theorem ReadsRows.rows_grow (h : ReadsRows limits stop s f u t) :
    u.work.picture.GrowsBy (u.work.picture.declaredHeight *
      f.rowLimit u.work.picture.width u.work.picture.rowBytes) t.work.picture := by
  obtain ⟨op, s₁, s₂, -, -, -, hrows⟩ := h
  have := Raster.adds_readRows f stop u
  rwa [hrows] at this

theorem adds_dispatch {opcode : Opcode} (h : ∀ op, opcode ≠ .raster op) :
    Adds 0 (dispatch limits opcode) :=
  .of_within (within_dispatch_of_ne Frame.sameStrips_opens h)

/-- A turn adds no strips, unless it reads the rows of a raster. -/
theorem turn_cases {b : Bool} (h : turn limits stop s = .ok b t) :
    s.work.picture.GrowsBy 0 t.work.picture ∨ ∃ f u, ReadsRows limits stop s f u t := by
  rcases turn_eq_ok h with ⟨-, hread⟩ | ⟨opcode, s₁, s₂, goesOn, hread, hcheck, hdispatch, -⟩
  · exact Or.inl ((Adds.read _).ok hread)
  · have hopcode := opcode_grows hread hcheck
    by_cases hraster : ∃ op, opcode = .raster op
    · obtain ⟨op, rfl⟩ := hraster
      rcases dispatch_raster_eq_ok hdispatch with hnone | ⟨f, u, hallow, hrows⟩
      · exact Or.inl (hopcode.trans ((adds_allow limits op).ok hnone))
      · exact Or.inr ⟨f, u, op, s₁, s₂, hread, hcheck, hallow, hrows⟩
    · have hadds : Adds 0 (dispatch limits opcode) :=
        adds_dispatch fun op hop => hraster ⟨op, hop⟩
      exact Or.inl (hopcode.trans (hadds.ok hdispatch))

/-- A turn only ever appends strips. -/
theorem turn_grows {b : Bool} (h : turn limits stop s = .ok b t) :
    ∃ n, s.work.picture.GrowsBy n t.work.picture := by
  rcases turn_cases h with hgrows | ⟨f, u, hreads⟩
  · exact ⟨0, hgrows⟩
  · exact ⟨_, hreads.opening_grows.trans hreads.rows_grow⟩

/-! ## Runs -/

/-- All turns together only ever append strips. -/
theorem turns_grow (n : Nat) :
    ∀ {s : Session Walk}, turns limits n stop s = .ok () t →
      ∃ k, s.work.picture.GrowsBy k t.work.picture := by
  induction n with
  | zero =>
    intro s h
    obtain ⟨-, rfl⟩ := pure_eq_ok.mp h
    exact ⟨0, .refl _⟩
  | succ n ih =>
    intro s h
    rcases turns_succ_eq_ok h with hturn | ⟨v, hturn, hrest⟩
    · exact turn_grows hturn
    · obtain ⟨k, hk⟩ := turn_grows hturn
      obtain ⟨l, hl⟩ := ih hrest
      exact ⟨k + l, hk.trans hl⟩

/-- Behind the rows of a raster strips are only appended. -/
theorem ReadsRowsWithin.grows_behind {v : Session Walk} (n : Nat) :
    ∀ {s : Session Walk}, ReadsRowsWithin limits stop n s f u v → turns limits n stop s = .ok () t →
      ∃ k, v.work.picture.GrowsBy k t.work.picture := by
  induction n with
  | zero => exact fun h => h.elim
  | succ n ih =>
    intro s h hturns
    rcases h with hreads | ⟨w, hw, hwithin⟩
    · rcases turns_behind hreads.turn_eq hturns with ⟨-, rfl⟩ | ⟨-, hrest⟩
      · exact ⟨0, .refl _⟩
      · exact turns_grow n hrest
    · rcases turns_behind hw hturns with ⟨hlast, -⟩ | ⟨-, hrest⟩
      · cases hlast
      · exact ih hwithin hrest

theorem ReadsRowsWithin.grows {n : Nat} :
    ∀ {s : Session Walk}, ReadsRowsWithin limits stop n s f u t →
      ∃ k, s.work.picture.GrowsBy k t.work.picture := by
  induction n with
  | zero => exact fun h => h.elim
  | succ n ih =>
    rintro s (hreads | ⟨v, hturn, hwithin⟩)
    · exact turn_grows hreads.turn_eq
    · obtain ⟨k, hk⟩ := turn_grows hturn
      obtain ⟨l, hl⟩ := ih hwithin
      exact ⟨k + l, hk.trans hl⟩

end Decode
end Pict
