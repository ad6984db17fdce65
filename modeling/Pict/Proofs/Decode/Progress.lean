import Pict.Proofs.Decode.Composition
import Pict.Proofs.Decode.Frame
import Pict.Proofs.Decode.Scan
import Pict.Proofs.Decode.Turns

/-!
# The walk always goes on

Every turn of the walk starts behind the one before it, even where the rows of
a raster have put the cursor back on the last byte: an opcode takes a byte and
the bounds of a raster take eight more, so that the last byte is ahead of where
the turn started. `Walks` is the walk without the bound on its turns.

Results:
* `turn_moves`: a turn that is not the last one moves the cursor on.
* `decode_advances`: the walk ends after at most as many turns as there are bytes, and its
  row loops and the scan for embedded JPEG data end as well.
* `decode_parked`: the same of a picture whose rows put the cursor back on its last byte.
-/
namespace Pict

open Job

/-! ## Turns -/

/-- An opening that is read to its end takes at least the bounds of the raster. -/
theorem Raster.readOpening_moves {op : RasterOp} {stop : Stop} {s t : Session Walk} {f : Format}
    (hs : s.work.cursor.Inside) (h : readOpening op stop s = .ok (some f) t) :
    s.work.cursor.pos + 8 ≤ t.work.cursor.pos := by
  obtain ⟨_, s₁, htake, h⟩ := bind_eq_ok.mp h
  obtain ⟨hpos₁, hinside₁⟩ :=
    ((within_takeRowBytes Frame.forward_opens op.rowBytes).ok htake).moved hs
  obtain ⟨bounds, s₂, hread, h⟩ := bind_eq_ok.mp h
  obtain ⟨rfl, rfl⟩ := Walk.read_eq_ok.mp hread
  obtain ⟨hforward₂, hcount⟩ := advances_readBounds s₁.work.cursor
  cases hbounds : (readBounds s₁.work.cursor).1 with
  | none =>
    rw [hbounds] at h
    obtain ⟨_, s₃, -, h⟩ := bind_eq_ok.mp h
    cases (pure_eq_ok.mp h).1
  | some bounds =>
    have hpos₂ := hcount hinside₁ (by rw [hbounds]; rfl)
    have hinside₂ := (hforward₂.moved hinside₁).2
    rw [hbounds] at h
    obtain ⟨_, s₃, hresize, h⟩ := bind_eq_ok.mp h
    obtain ⟨-, rfl⟩ := EStateM.Result.ok.inj hresize
    by_cases hpixmap : op.pixmap = true
    · rw [if_pos hpixmap] at h
      obtain ⟨opened, s₄, hread, h⟩ := bind_eq_ok.mp h
      have hpos₄ := (((within_readPixmap Frame.forward_opens op.kind).ok hread).moved hinside₂).1
      cases opened with
      | none =>
        obtain ⟨_, s₅, -, h⟩ := bind_eq_ok.mp h
        obtain ⟨_, s₆, -, h⟩ := bind_eq_ok.mp h
        cases (pure_eq_ok.mp h).1
      | some g =>
        obtain ⟨-, rfl⟩ := pure_eq_ok.mp h
        dsimp only at hpos₄
        omega
    · rw [if_neg hpixmap] at h
      obtain ⟨-, rfl⟩ := pure_eq_ok.mp h
      dsimp only
      omega

namespace Decode

variable {limits : Limits} {stop : Stop} {s t u : Session Walk}

theorem within_allow {R : Frame} (hR : R.Opens) (op : RasterOp) :
    Job.Within R (allow limits op) := by
  refine (Raster.within_readOpening hR op).bind fun opened => ?_
  cases opened with
  | none => exact Within.pure none
  | some f =>
    exact Within.getPicture.bind fun _ => (Within.enforce _).bind fun _ =>
      (Within.enforce _).bind fun _ => Within.pure _

theorem allow_moves {op : RasterOp} {f : Format} (hs : s.work.cursor.Inside)
    (h : allow limits op stop s = .ok (some f) t) :
    s.work.cursor.Forward t.work.cursor ∧ s.work.cursor.pos + 8 ≤ t.work.cursor.pos :=
  ⟨(within_allow Frame.forward_opens op).ok h, Raster.readOpening_moves hs (allow_opening h)⟩

/-- A turn that is not the last one leaves the cursor further on in the same data. -/
theorem turn_moves (hs : s.work.cursor.Inside) (h : turn limits stop s = .ok true t) :
    t.work.cursor.Inside ∧ s.work.cursor.pos < t.work.cursor.pos := by
  rcases turn_eq_ok h with ⟨hfalse, -⟩ | ⟨opcode, s₁, s₂, goesOn, hread, hcheck, hdispatch, -⟩
  · cases hfalse
  obtain ⟨hforward₁, hcount⟩ := Opcode.advances_read s.work.picture.version s.work.cursor
  obtain ⟨hopcode, rfl⟩ := Walk.read_eq_ok.mp hread
  have hinside₁ := (hforward₁.moved hs).2
  have hpos₁ := hcount hs (by rw [hopcode]; rfl)
  have hforward₂ : Cursor.Forward _ s₂.work.cursor := (Within.check (R := .forward)).ok hcheck
  obtain ⟨hpos₂, hinside₂⟩ := hforward₂.moved hinside₁
  have hbehind : s.work.cursor.pos + 1 ≤ s₂.work.cursor.pos := Nat.le_trans hpos₁ hpos₂
  by_cases hraster : ∃ op, opcode = .raster op
  · obtain ⟨op, rfl⟩ := hraster
    rcases dispatch_raster_eq_ok hdispatch with hnone | ⟨f, u, hallow, hrows⟩
    · obtain ⟨hpos, hinside⟩ := ((within_allow Frame.forward_opens op).ok hnone).moved hinside₂
      exact ⟨hinside, Nat.lt_of_lt_of_le hbehind hpos⟩
    · -- the rows may go back to the last byte, which the bounds have put ahead of the turn
      obtain ⟨hforward₃, hbounds⟩ := allow_moves hinside₂ hallow
      have hinside₃ := (hforward₃.moved hinside₂).2
      obtain ⟨hpos, hinside⟩ :=
        ((Raster.within_readRows Frame.onward_rows f).ok hrows).moved hinside₃
      have hsize : u.work.cursor.pos ≤ u.work.cursor.source.size := hinside₃
      exact ⟨hinside, by omega⟩
  · have hother : Job.Within .forward (dispatch limits opcode) :=
      within_dispatch_of_ne Frame.forward_opens fun op hop => hraster ⟨op, hop⟩
    obtain ⟨hpos, hinside⟩ := (hother.ok hdispatch).moved hinside₂
    exact ⟨hinside, Nat.lt_of_lt_of_le hbehind hpos⟩

/-! ## Walks without a bound -/

def enter (limits : Limits) (info : Info) : Job Walk Unit := do
  Job.enforce (limits.check info.width info.height)
  Job.check

theorem enter_work {info : Info} {w : Walk} (h : (enter limits info).run stop w = .ok () s) :
    s.work = w := by
  obtain ⟨_, s₁, hlimits, hcheck⟩ := bind_eq_ok.mp h
  obtain ⟨-, rfl⟩ := enforce_eq_ok.mp hlimits
  exact check_work hcheck

/-- Without limits every walk is let in by a stop that never fires. -/
theorem enter_unlimited (info : Info) (cursor : Cursor) :
    (enter .unlimited info).run .never (start info cursor) = .ok () (entered info cursor) :=
  bind_eq_ok.mpr ⟨(), _, enforce_eq_ok.mpr ⟨rfl, rfl⟩, check_passes _ _ rfl⟩

def turnStep (limits : Limits) (stop : Stop) (s : Session Walk) :
    Session Walk ⊕ EStateM.Result Error (Session Walk) Unit :=
  Job.goOn id (turn limits stop s)

theorem turnStep_eq_inl : turnStep limits stop s = .inl t ↔ turn limits stop s = .ok true t := by
  unfold turnStep
  cases turn limits stop s with
  | error e u => exact ⟨nofun, nofun⟩
  | ok more u =>
    cases more with
    | false => exact ⟨nofun, nofun⟩
    | true =>
      constructor
      · rintro ⟨⟩
        rfl
      · rintro ⟨⟩
        rfl

theorem turnStep_last (h : turn limits stop s = .ok false t) :
    turnStep limits stop s = .inr (.ok () t) := by
  rw [turnStep, h]
  rfl

/-- The walk with as many turns as it takes. They start from the sessions `visited`. -/
inductive Walks (limits : Limits) (stop : Stop) (info : Info) (cursor : Cursor) :
    List (Session Walk) → EStateM.Result Error (Session Walk) Unit → Prop where
  /-- The limits or the stop end the walk in front of its first turn. -/
  | refused {e : Error} {s : Session Walk} :
    (enter limits info).run stop (start info cursor) = .error e s →
      Walks limits stop info cursor [] (.error e s)
  | walked {s : Session Walk} {visited : List (Session Walk)}
      {r : EStateM.Result Error (Session Walk) Unit} :
    (enter limits info).run stop (start info cursor) = .ok () s →
      Loop (turnStep limits stop) s visited r → Walks limits stop info cursor visited r

theorem Walks.unique {info : Info} {cursor : Cursor} {visited visited' : List (Session Walk)}
    {r r' : EStateM.Result Error (Session Walk) Unit}
    (h : Walks limits stop info cursor visited r) (h' : Walks limits stop info cursor visited' r') :
    visited = visited' ∧ r = r' := by
  cases h with
  | refused henter =>
    cases h' with
    | refused henter' => exact ⟨rfl, by cases henter.symm.trans henter'; rfl⟩
    | walked henter' _ => cases henter.symm.trans henter'
  | walked henter hloop =>
    cases h' with
    | refused henter' => cases henter.symm.trans henter'
    | walked henter' hloop' =>
      obtain ⟨-, rfl⟩ := Job.ok_unique henter henter'
      exact hloop.unique hloop'

/-- A bound on the turns that is not reached makes no difference. -/
theorem turns_eq_of_loop {visited : List (Session Walk)}
    {r : EStateM.Result Error (Session Walk) Unit} (h : Loop (turnStep limits stop) s visited r) :
    ∀ {n : Nat}, visited.length ≤ n → turns limits n stop s = r := by
  induction h with
  | @done s r hstep =>
    intro n hn
    obtain ⟨n, rfl⟩ : ∃ m, n = m + 1 := ⟨n - 1, by rw [List.length_singleton] at hn; omega⟩
    rw [turns, bind_apply]
    unfold turnStep at hstep
    cases hturn : turn limits stop s with
    | error e t =>
      rw [hturn] at hstep
      exact Sum.inr.inj hstep
    | ok b t =>
      rw [hturn] at hstep
      cases b with
      | false => exact Sum.inr.inj hstep
      | true => cases hstep
  | @again s s' visited r hstep _ ih =>
    intro n hn
    obtain ⟨n, rfl⟩ : ∃ m, n = m + 1 := ⟨n - 1, by rw [List.length_cons] at hn; omega⟩
    rw [turns, bind_apply, turnStep_eq_inl.mp hstep]
    exact ih (Nat.le_of_succ_le_succ hn)

/-- From inside the data the turns come to an end, each of them starting behind the one
before it. -/
theorem loop_turns (limits : Limits) (stop : Stop) (hs : s.work.cursor.Inside) :
    ∃ visited r, Loop (turnStep limits stop) s visited r ∧
      (visited.Pairwise fun t u => t.work.cursor.pos < u.work.cursor.pos) ∧
      visited.length ≤ s.work.cursor.source.size - s.work.cursor.pos + 1 := by
  -- the bytes ahead of the cursor go down with every turn
  have hstep : ∀ t u : Session Walk,
      t.work.cursor.source = s.work.cursor.source ∧ t.work.cursor.Inside →
      turnStep limits stop t = .inl u →
        (u.work.cursor.source = s.work.cursor.source ∧ u.work.cursor.Inside) ∧
          u.work.cursor.remaining < t.work.cursor.remaining := by
    intro t u ⟨hsource, hinside⟩ h
    have hturn := turnStep_eq_inl.mp h
    have hsame : u.work.cursor.source = t.work.cursor.source :=
      ((within_turn Frame.onward_rows).ok hturn).source
    obtain ⟨hinside', hlt⟩ := turn_moves hinside hturn
    refine ⟨⟨hsame.trans hsource, hinside'⟩, ?_⟩
    have hle : u.work.cursor.pos ≤ u.work.cursor.source.size := hinside'
    unfold Cursor.remaining
    rw [hsame] at hle ⊢
    omega
  obtain ⟨visited, r, hloop, hall, hpairs⟩ := Loop.exists_of_decreasing hstep ⟨rfl, hs⟩
  refine ⟨visited, r, hloop, ?_, length_le_of_decreasing hpairs fun t ht => (hall t ht).2⟩
  refine hpairs.imp_of_mem fun {t u} ht hu hlt => ?_
  have hsource := (hall t ht).1.1.trans (hall u hu).1.1.symm
  unfold Cursor.remaining at hlt
  rw [hsource] at hlt
  omega

/-! ## Whole pictures -/

/-- Behind a header the walk goes on from opcode to opcode and ends: every turn starts further
on in the data than the one before it, whatever the rows of rasters do to the cursor, so that
there are at most as many turns as bytes. The loops over rows, and those that scan for embedded
JPEG data, end as well. -/
theorem decode_advances {source : Source} {info : Info} {cursor : Cursor}
    (h : Header.parse source = .ok (info, cursor)) (limits : Limits) (stop : Stop) :
    (∃ visited r, Walks limits stop info cursor visited r ∧
      decode source limits stop =
        (reportOf r).map (fun _ => ⟨source, limits, (sessionOf r).work.picture⟩) ∧
      (visited.Pairwise fun s t => s.work.cursor.pos < t.work.cursor.pos) ∧
      visited.length ≤ source.size) ∧
    (∀ (f : Format) (s : Session Walk), ∃ rows,
      Loop (Job.rowStep (Raster.readRow f s.work.picture) s.work.picture.declaredHeight stop)
        (0, s) rows (Raster.readRows f stop s) ∧
      rows.length ≤ s.work.picture.declaredHeight + 1) ∧
    ∀ p, ∃ words, Loop (Scan.step source) (Scan.start p) words (Spans.offsets source p) := by
  refine ⟨?_, fun f s => Job.loop_eachRow _ stop _ _ 0 s (Nat.zero_add _),
    fun p => Scan.loop_scan source p⟩
  obtain ⟨rfl, hpos, hsize⟩ := Header.parse_pos h
  rw [decode, h]
  dsimp only
  have hwalk : walk limits stop info cursor =
      (enter limits info >>= fun _ => Walk.getCursor >>= fun c => turns limits c.source.size).run
        stop (start info cursor) := by
    rw [walk, opcodes, enter, bind_assoc]
  cases henter : (enter limits info).run stop (start info cursor) with
  | error e s =>
    refine ⟨[], .error e s, .refused henter, ?_, List.Pairwise.nil, Nat.zero_le _⟩
    rw [hwalk, Job.run, bind_apply]
    unfold Job.run at henter
    rw [henter]
  | ok x s =>
    have hkept : s.work = start info cursor := enter_work henter
    have hcursor : s.work.cursor = cursor := by rw [hkept, start]
    obtain ⟨visited, r, hloop, hpairs, hlength⟩ :=
      loop_turns (s := s) limits stop (by rw [hcursor]; exact hsize)
    rw [hcursor] at hlength
    have hfew : visited.length ≤ cursor.source.size := by omega
    refine ⟨visited, r, .walked henter hloop, ?_, hpairs, hfew⟩
    rw [hwalk, Job.run, bind_apply]
    unfold Job.run at henter
    rw [henter]
    dsimp only
    rw [bind_apply, Walk.getCursor_apply]
    dsimp only
    rw [hcursor, turns_eq_of_loop hloop hfew]

/-- The header of a canvas of two rows of eight pixels. -/
def parkedHeader : HeaderBlock := .one (Vector.replicate 518 0) 2 8

/-- A packed bitmap of two rows. The first one is cut to leave the last byte of the data, the
second one finds nothing behind its length and goes back to that byte, which is then taken for
an opcode. -/
def parkedRaster : List UInt8 :=
  [0x98, 0, 8, 0, 0, 0, 0, 0, 2, 0, 8] ++ List.replicate 18 0 ++ [3, 0xFE, 0xAA]

theorem decode_parked :
    Header.parse (parkedHeader.bytes ++ parkedRaster).toArray =
        .ok (parkedHeader.info, .between parkedHeader.bytes parkedRaster) ∧
      ∃ visited r, Walks .unlimited .never parkedHeader.info
          (.between parkedHeader.bytes parkedRaster) visited r ∧
        (visited.Pairwise fun s t => s.work.cursor.pos < t.work.cursor.pos) ∧
        visited.length ≤ 556 := by
  have hparse := Header.parse_header parkedHeader parkedRaster
  obtain ⟨⟨visited, r, hwalks, -, hpairs, hlength⟩, -⟩ := decode_advances hparse .unlimited .never
  refine ⟨hparse, visited, r, hwalks, hpairs, ?_⟩
  have hsize : (parkedHeader.bytes ++ parkedRaster).toArray.size = 556 := by
    rw [List.size_toArray, List.length_append, HeaderBlock.length_bytes]
    rfl
  rwa [hsize] at hlength

end Decode
end Pict
