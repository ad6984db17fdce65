import Pict.Decode.Document
import Pict.Proofs.Decode.Passes

/-!
# What a walk consists of

A walk that succeeds is a row of turns, and every turn reads an opcode and does
what it asks for. `ReadsRows` says that a turn reads the rows of a raster,
`ReadsRowsIn` that some turn of a whole run does.

Results:
* `decode_report`, `turns_succ_eq_ok`, `turn_eq_ok`, `dispatch_raster_eq_ok`: what
  stands behind a run, a walk, a turn and a raster that succeed.
* `turns_behind`, `turns_of_decode`: what follows a turn, and a header, that are known.
* `decode_of_turns`: turns that succeed are a run that succeeds.
* `allow_inv`: a raster is opened and its rows are not read before the limits allow what all of
  them are expected to take.
-/
namespace Pict.Decode

open Job

/-! ## Rasters -/

/-- The part of a raster in front of its rows: its opening and the checks of the limits. -/
def allow (limits : Limits) (op : RasterOp) : Job Walk (Option Format) := do
  match ← Raster.readOpening op with
  | none => pure none
  | some f =>
    let p ← Walk.getPicture
    Job.enforce (limits.check p.width p.declaredHeight)
    Job.enforce (limits.checkMemory (p.stripBytes + f.expectedBytes p.width p.declaredHeight))
    pure (some f)

theorem raster_eq (limits : Limits) (op : RasterOp) :
    raster limits op = allow limits op >>= fun allowed =>
      match allowed with
      | none => pure ()
      | some f => Raster.readRows f := by
  unfold raster allow
  rw [bind_assoc]
  congr 1
  funext opened
  cases opened with
  | none => rw [pure_bind]
  | some f => simp only [bind_assoc, pure_bind]

variable {limits : Limits} {stop : Stop} {s t u : Session Walk} {f : Format}

/-- What is allowed is what the opening brought. The limits leave it there. -/
theorem allow_inv {op : RasterOp} {allowed : Option Format}
    (h : allow limits op stop s = .ok allowed u) :
    Raster.readOpening op stop s = .ok allowed u ∧ ∀ f, allowed = some f →
      limits.check u.work.picture.width u.work.picture.declaredHeight = .ok () ∧
      limits.checkMemory (u.work.picture.stripBytes +
        f.expectedBytes u.work.picture.width u.work.picture.declaredHeight) = .ok () := by
  obtain ⟨opened, t, hopening, h⟩ := bind_eq_ok.mp h
  cases opened with
  | none =>
    obtain ⟨rfl, rfl⟩ := pure_eq_ok.mp h
    exact ⟨hopening, nofun⟩
  | some g =>
    obtain ⟨p, v, hp, h⟩ := bind_eq_ok.mp h
    rw [Walk.getPicture_apply] at hp
    obtain ⟨rfl, rfl⟩ := EStateM.Result.ok.inj hp
    obtain ⟨_, v, hcheck, h⟩ := bind_eq_ok.mp h
    obtain ⟨hcanvas, rfl⟩ := enforce_eq_ok.mp hcheck
    obtain ⟨_, v, hcheck, h⟩ := bind_eq_ok.mp h
    obtain ⟨hmemory, rfl⟩ := enforce_eq_ok.mp hcheck
    obtain ⟨rfl, rfl⟩ := pure_eq_ok.mp h
    refine ⟨hopening, ?_⟩
    rintro f ⟨⟩
    exact ⟨hcanvas, hmemory⟩

theorem allow_opening {op : RasterOp} {allowed : Option Format}
    (h : allow limits op stop s = .ok allowed u) : Raster.readOpening op stop s = .ok allowed u :=
  (allow_inv h).1

/-- In front of the rows the limits allow what these are expected to take. -/
theorem allow_eq_ok {op : RasterOp}
    (h : allow limits op stop s = .ok (some f) u) :
    limits.check u.work.picture.width u.work.picture.declaredHeight = .ok () ∧
      limits.checkMemory (u.work.picture.stripBytes +
        f.expectedBytes u.work.picture.width u.work.picture.declaredHeight) = .ok () :=
  (allow_inv h).2 f rfl

/-- A raster either has no rows to read, or its rows are read behind its opening. -/
theorem dispatch_raster_eq_ok {op : RasterOp} {b : Bool}
    (h : dispatch limits (.raster op) stop s = .ok b t) :
    allow limits op stop s = .ok none t ∨
      ∃ f u, allow limits op stop s = .ok (some f) u ∧ Raster.readRows f stop u = .ok () t := by
  obtain ⟨_, t, hraster, h⟩ := bind_eq_ok.mp h
  obtain ⟨-, rfl⟩ := pure_eq_ok.mp h
  rw [raster_eq] at hraster
  obtain ⟨allowed, u, hallow, hrows⟩ := bind_eq_ok.mp hraster
  cases allowed with
  | none =>
    obtain ⟨-, rfl⟩ := pure_eq_ok.mp hrows
    exact Or.inl hallow
  | some f => exact Or.inr ⟨f, u, hallow, hrows⟩

/-! ## Turns -/

/-- A turn reads no opcode, and is the last one, or it does what its opcode asks for. -/
theorem turn_eq_ok {b : Bool} (h : turn limits stop s = .ok b t) :
    (b = false ∧ Walk.read (Opcode.read s.work.picture.version) stop s = .ok none t) ∨
      ∃ opcode s₁ s₂ goesOn,
        Walk.read (Opcode.read s.work.picture.version) stop s = .ok (some opcode) s₁ ∧
        Job.check stop s₁ = .ok () s₂ ∧ dispatch limits opcode stop s₂ = .ok goesOn t ∧
        b = (goesOn && !t.work.cursor.atEnd) := by
  obtain ⟨p, s₀, hp, h⟩ := bind_eq_ok.mp h
  rw [Walk.getPicture_apply] at hp
  obtain ⟨rfl, rfl⟩ := EStateM.Result.ok.inj hp
  obtain ⟨opcode, s₁, hread, h⟩ := bind_eq_ok.mp h
  cases opcode with
  | none =>
    obtain ⟨rfl, rfl⟩ := pure_eq_ok.mp h
    exact Or.inl ⟨rfl, hread⟩
  | some opcode =>
    obtain ⟨_, s₂, hcheck, h⟩ := bind_eq_ok.mp h
    obtain ⟨goesOn, v, hdispatch, h⟩ := bind_eq_ok.mp h
    obtain ⟨c, w, hcursor, h⟩ := bind_eq_ok.mp h
    rw [Walk.getCursor_apply] at hcursor
    obtain ⟨rfl, rfl⟩ := EStateM.Result.ok.inj hcursor
    obtain ⟨rfl, rfl⟩ := pure_eq_ok.mp h
    exact Or.inr ⟨opcode, s₁, s₂, goesOn, hread, hcheck, hdispatch, rfl⟩

theorem turn_raster_eq {op : RasterOp} {s₁ s₂ : Session Walk}
    (hread : Walk.read (Opcode.read s.work.picture.version) stop s = .ok (some (.raster op)) s₁)
    (hcheck : Job.check stop s₁ = .ok () s₂) (hraster : raster limits op stop s₂ = .ok () t) :
    turn limits stop s = .ok (true && !t.work.cursor.atEnd) t := by
  have hdispatch : dispatch limits (.raster op) stop s₂ = .ok true t :=
    bind_eq_ok.mpr ⟨(), t, hraster, rfl⟩
  refine bind_eq_ok.mpr ⟨_, s, rfl, ?_⟩
  refine bind_eq_ok.mpr ⟨_, s₁, hread, ?_⟩
  refine bind_eq_ok.mpr ⟨(), s₂, hcheck, ?_⟩
  exact bind_eq_ok.mpr ⟨true, t, hdispatch, bind_eq_ok.mpr ⟨_, t, rfl, rfl⟩⟩

/-- In a turn from `s` the opcode of a raster is read, and its rows from `u` to `t`. -/
def ReadsRows (limits : Limits) (stop : Stop) (s : Session Walk) (f : Format)
    (u t : Session Walk) : Prop :=
  ∃ op s₁ s₂, Walk.read (Opcode.read s.work.picture.version) stop s = .ok (some (.raster op)) s₁ ∧
    Job.check stop s₁ = .ok () s₂ ∧ allow limits op stop s₂ = .ok (some f) u ∧
    Raster.readRows f stop u = .ok () t

theorem ReadsRows.turn_eq (h : ReadsRows limits stop s f u t) :
    turn limits stop s = .ok (true && !t.work.cursor.atEnd) t := by
  obtain ⟨op, s₁, s₂, hread, hcheck, hallow, hrows⟩ := h
  refine turn_raster_eq hread hcheck ?_
  rw [raster_eq]
  exact bind_eq_ok.mpr ⟨some f, u, hallow, hrows⟩

/-! ## Runs -/

def ReadsRowsWithin (limits : Limits) (stop : Stop) :
    (turns : Nat) → Session Walk → Format → Session Walk → Session Walk → Prop
  | 0, _, _, _, _ => False
  | n + 1, s, f, u, t =>
    ReadsRows limits stop s f u t ∨
      ∃ v, turn limits stop s = .ok true v ∧ ReadsRowsWithin limits stop n v f u t

/-- A walk that is not over yet takes one turn, and more if the picture goes on. -/
theorem turns_succ_eq_ok {n : Nat} (h : turns limits (n + 1) stop s = .ok () t) :
    turn limits stop s = .ok false t ∨
      ∃ v, turn limits stop s = .ok true v ∧ turns limits n stop v = .ok () t := by
  obtain ⟨goesOn, v, hturn, hrest⟩ := bind_eq_ok.mp h
  cases goesOn with
  | false =>
    obtain ⟨-, rfl⟩ := pure_eq_ok.mp hrest
    exact Or.inl hturn
  | true => exact Or.inr ⟨v, hturn, hrest⟩

/-- What follows a turn is the end of the walk, or the walk that goes on. -/
theorem turns_behind {n : Nat} {more : Bool} (hturn : turn limits stop s = .ok more u)
    (h : turns limits (n + 1) stop s = .ok () t) :
    (more = false ∧ u = t) ∨ (more = true ∧ turns limits n stop u = .ok () t) := by
  rcases turns_succ_eq_ok h with hlast | ⟨v, hfirst, hrest⟩
  · exact Or.inl (ok_unique hturn hlast)
  · obtain ⟨hmore, rfl⟩ := ok_unique hturn hfirst
    exact Or.inr ⟨hmore, hrest⟩

theorem ReadsRowsWithin.exists_turn {n : Nat} :
    ∀ {s : Session Walk}, ReadsRowsWithin limits stop n s f u t →
      ∃ v, ReadsRows limits stop v f u t := by
  induction n with
  | zero => exact fun h => h.elim
  | succ n ih =>
    rintro s (hreads | ⟨v, -, hwithin⟩)
    · exact ⟨s, hreads⟩
    · exact ih hwithin

def entered (info : Info) (cursor : Cursor) : Session Walk := ⟨1, #[], start info cursor⟩

/-- A picture decodes when the limits allow the canvas of its header and all its turns succeed. -/
theorem decode_report {source : Source} {doc : Document}
    (h : (decode source limits stop).result = .ok doc) :
    ∃ info cursor t, Header.parse source = .ok (info, cursor) ∧
      limits.check info.width info.height = .ok () ∧
      turns limits cursor.source.size stop (entered info cursor) = .ok () t ∧
      decode source limits stop =
        ⟨.ok ⟨source, limits, t.work.picture⟩, t.checks, t.warnings.toList⟩ := by
  unfold decode at h ⊢
  cases hparse : Header.parse source with
  | error e =>
    rw [hparse] at h
    cases h
  | ok header =>
    obtain ⟨info, cursor⟩ := header
    rw [hparse] at h
    dsimp only at h ⊢
    cases hwalk : walk limits stop info cursor with
    | error e t =>
      rw [hwalk] at h
      cases h
    | ok _ t =>
      obtain ⟨_, s₁, hlimits, hrest⟩ := bind_eq_ok.mp hwalk
      obtain ⟨hcanvas, rfl⟩ := enforce_eq_ok.mp hlimits
      obtain ⟨_, s₂, hcheck, hrest⟩ := bind_eq_ok.mp hrest
      obtain ⟨c, s₃, hcursor, hrest⟩ := bind_eq_ok.mp hrest
      rw [Walk.getCursor_apply] at hcursor
      obtain ⟨rfl, rfl⟩ := EStateM.Result.ok.inj hcursor
      refine ⟨info, cursor, t, rfl, hcanvas, ?_, rfl⟩
      unfold Job.check at hcheck
      split at hcheck
      · obtain ⟨-, rfl⟩ := EStateM.Result.ok.inj hcheck
        exact hrest
      · cases hcheck

theorem decode_eq_ok {source : Source} {doc : Document}
    (h : (decode source limits stop).result = .ok doc) :
    ∃ info cursor t, Header.parse source = .ok (info, cursor) ∧
      turns limits cursor.source.size stop (entered info cursor) = .ok () t ∧
      doc = ⟨source, limits, t.work.picture⟩ := by
  obtain ⟨info, cursor, t, hparse, -, hturns, hreport⟩ := decode_report h
  rw [hreport] at h
  exact ⟨info, cursor, t, hparse, hturns, (Except.ok.inj h).symm⟩

/-- Behind a header that is known, what was decoded is what the turns left. -/
theorem turns_of_decode {source : Source} {info : Info} {cursor : Cursor} {doc : Document}
    (hparse : Header.parse source = .ok (info, cursor))
    (h : (decode source limits stop).result = .ok doc) :
    ∃ t, turns limits cursor.source.size stop (entered info cursor) = .ok () t ∧
      doc = ⟨source, limits, t.work.picture⟩ := by
  obtain ⟨info', cursor', t, hparse', hturns, hdoc⟩ := decode_eq_ok h
  obtain ⟨rfl, rfl⟩ := Prod.mk.inj (Except.ok.inj (hparse.symm.trans hparse'))
  exact ⟨t, hturns, hdoc⟩

/-- What is decoded without limits by turns that succeed. -/
theorem decode_of_turns {source : Source} {info : Info} {cursor : Cursor}
    (hparse : Header.parse source = .ok (info, cursor))
    (hturns : turns .unlimited cursor.source.size .never (entered info cursor) = .ok () t) :
    (decode source .unlimited .never).result = .ok ⟨source, .unlimited, t.work.picture⟩ := by
  have hwalk : walk .unlimited .never info cursor = .ok () t := hturns
  unfold decode
  rw [hparse]
  dsimp only
  rw [hwalk]
  rfl

/-- While a picture is decoded, the rows of a raster are read from `u` to `t`. -/
def ReadsRowsIn (source : Source) (limits : Limits) (stop : Stop) (f : Format)
    (u t : Session Walk) : Prop :=
  ∃ info cursor, Header.parse source = .ok (info, cursor) ∧
    ReadsRowsWithin limits stop cursor.source.size (entered info cursor) f u t

theorem ReadsRowsIn.within {source : Source} {info : Info} {cursor : Cursor}
    (h : ReadsRowsIn source limits stop f u t)
    (hparse : Header.parse source = .ok (info, cursor)) :
    ReadsRowsWithin limits stop cursor.source.size (entered info cursor) f u t := by
  obtain ⟨info', cursor', hparse', hwithin⟩ := h
  obtain ⟨rfl, rfl⟩ := Prod.mk.inj (Except.ok.inj (hparse.symm.trans hparse'))
  exact hwithin

end Pict.Decode
