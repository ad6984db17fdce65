import Pict.Proofs.Decode.Stopped
import Pict.Proofs.Plane.Reading

/-!
# Reading planes under a stop

Strips are painted row by row, with a check in front of every sixteenth row. Embedded JPEG and the
caller's decoder give all pixels at once, and the stop is not asked at all.

Results:
* `eachRow_checks`: how often a loop over rows asks the stop.
* `heeds_paint`: all painting heeds the stop.
* `readWith_stopped`, `readIntoWith_stopped`: a stop that outlasts the checks of a request makes no
  difference, and any other ends the reading at the check that it refuses.
* `readWith_cancelled`: a request is cancelled by the first check exactly when it is met from strips.
* `decoded_not_cancelled`: pictures of which planes are read although the stop refuses every check.
-/
namespace Pict

/-! ## How often rows are checked -/

namespace Job

variable {σ : Type}

theorem checkRow_checks (row : Nat) (s : Session σ) :
    ∃ t, checkRow row .never s = .ok () t ∧ t.checks + (row + 15) / 16 = s.checks + (row + 16) / 16 := by
  unfold checkRow
  split
  · refine ⟨_, check_passes .never s rfl, ?_⟩
    dsimp only
    omega
  · exact ⟨s, rfl, by omega⟩

/-- A loop over rows that go on, and that are not checked themselves, is checked in front of every
sixteenth row. -/
theorem eachRow_checks {body : Nat → Job σ Bool}
    (hbody : ∀ row s, ∃ t, body row .never s = .ok true t ∧ t.checks = s.checks) (left : Nat) :
    ∀ (row : Nat) (s : Session σ), ∃ t, eachRow body row left .never s = .ok () t ∧
      t.checks + (row + 15) / 16 = s.checks + (row + left + 15) / 16 := by
  induction left with
  | zero => exact fun row s => ⟨s, rfl, rfl⟩
  | succ left ih =>
    intro row s
    obtain ⟨t, ht, hcheck⟩ := checkRow_checks row s
    obtain ⟨u, hu, hsame⟩ := hbody row t
    obtain ⟨v, hv, hrest⟩ := ih (row + 1) u
    refine ⟨v, ?_, by omega⟩
    rw [eachRow, bind_apply, ht]
    dsimp only
    rw [bind_apply, hu]
    exact hv

end Job

/-! ## Painting -/

namespace Picture

variable {own : Error → Prop} (p : Picture) (assembly : Assembly) (win : Window)

theorem heeds_paintRow (i : Nat) : Job.Heeds own (p.paintRow assembly win i) := by
  unfold paintRow
  cases p.scanline? assembly win i with
  | some line => exact (Job.Heeds.modifyWork _).bind fun _ => .pure true
  | none => exact (Job.Heeds.modifyWork _).bind fun _ => .pure true

theorem heeds_paintStrips : Job.Heeds own (p.paintStrips assembly win) := by
  have hthreads : JobProperty.Threads fun _ (job : Job Canvas _) => job.Heeds own :=
    ⟨.pure, .bind, .check⟩
  refine (hthreads.eachRow (p.heeds_paintRow assembly win) _ 0).bind fun _ => ?_
  refine Job.Heeds.work.bind fun canvas => ?_
  split
  · exact .warn _
  · exact .pure ()

theorem paintStrips_checks :
    (sessionOf (p.paintStrips assembly win .never ⟨0, #[], Canvas.empty⟩)).checks =
      (rowsOf assembly win + 15) / 16 := by
  have hbody : ∀ i s, ∃ t, p.paintRow assembly win i .never s = .ok true t ∧ t.checks = s.checks :=
    fun i s => ⟨_, p.paintRow_apply assembly win i .never s, rfl⟩
  obtain ⟨t, ht, hchecks⟩ := Job.eachRow_checks hbody (rowsOf assembly win) 0 ⟨0, #[], Canvas.empty⟩
  have hcount : t.checks = (rowsOf assembly win + 15) / 16 := by
    simpa using hchecks
  unfold paintStrips
  rw [Job.bind_apply, ht]
  dsimp only
  rw [Job.bind_apply, Job.work_apply]
  dsimp only
  split <;> exact hcount

/-- Strips are taken where there are any, unless there is embedded JPEG data or the caller wishes to
pass over them. -/
theorem assembly_isStrips (legacy : Bool) : (p.assembly legacy).isStrips = true ↔
    p.jpegOffsets = #[] ∧ p.strips ≠ #[] ∧ legacy = false := by
  unfold assembly
  split
  · rename_i hjpeg
    constructor
    · exact nofun
    · rintro ⟨hnone, -⟩
      rw [hnone] at hjpeg
      exact absurd hjpeg (by decide)
  · rename_i hjpeg
    have hnone : p.jpegOffsets = #[] := Array.eq_empty_of_size_eq_zero (by omega)
    cases hfirst : p.strips[0]? with
    | none =>
      have hempty : p.strips = #[] :=
        Array.eq_empty_of_size_eq_zero (by simpa using hfirst)
      simp [Assembly.isStrips, hempty]
    | some first =>
      have hsome : p.strips ≠ #[] := by
        rintro hempty
        rw [hempty] at hfirst
        cases hfirst
      cases legacy with
      | true => simp [Assembly.isStrips]
      | false =>
        have hstrips : (p.stripAssembly first).isStrips = true := by
          unfold stripAssembly
          dsimp only
          repeat' split
          all_goals rfl
        simp [hstrips, hnone, hsome]

end Picture

theorem Mosaic.images_error {codec : Codec} {e : Error} :
    ∀ {spans : List (List UInt8)}, images codec spans = .error e → e = .jpeg
  | [], h => by cases h
  | span :: rest, h => by
    unfold images at h
    split at h
    · exact (Except.error.inj h).symm
    · exact images_error (map_eq_error.mp h)

theorem Mosaic.paint_error {codec : Codec} {source : Source} {offsets : List Nat} {win : Window}
    {e : Error} (h : paint codec source offsets win = .error e) : e = .jpeg :=
  images_error (map_eq_error.mp h)

namespace Document

variable {codec : Codec} {doc : Document} {request : Request} {n : Nat} {reason : StopReason}

/-- How often the stop is asked while a request is met. -/
def checksOf (doc : Document) (request : Request) : Nat :=
  (Picture.rowsOf (doc.picture.assembly request.legacy) request.window + 15) / 16

/-- Only embedded JPEG makes painting fail, unless the stop does. -/
theorem heeds_paint (codec : Codec) (doc : Document) (request : Request) (plan : Plan) :
    Job.Heeds (fun e => e = .jpeg) (doc.paint codec request plan) := by
  have hstrips : Job.Heeds (fun e => e = .jpeg) (do
      doc.picture.paintStrips plan.assembly request.window
      let canvas ← Job.work
      pure (canvas.samples plan.layout request.window.pixels) : Job Canvas (List UInt8)) :=
    (doc.picture.heeds_paintStrips plan.assembly request.window).bind fun _ =>
      Job.Heeds.work.bind fun _ => .pure _
  unfold paint
  cases hassembly : plan.assembly with
  | jpeg =>
    dsimp only
    cases hpaint : Mosaic.paint codec doc.source doc.picture.jpegOffsets.toList request.window with
    | ok pixels => exact .pure pixels
    | error e => exact .fail (Mosaic.paint_error hpaint)
  | fallback =>
    refine (Job.Heeds.warn _).bind fun _ => ?_
    cases request.fallback with
    | none => exact .pure _
    | some decoder => exact (Job.Heeds.modifyWork _).bind fun _ => .pure _
  | indexed | gray | planar _ | packed555 =>
    rw [hassembly] at hstrips
    exact hstrips

theorem paint_checks (codec : Codec) (doc : Document) (request : Request) :
    (sessionOf ((doc.paint codec request (doc.planOf request)).run .never Canvas.empty)).checks =
      doc.checksOf request := by
  have hstrips : ∀ assembly layout, (sessionOf ((do
      doc.picture.paintStrips assembly request.window
      let canvas ← Job.work
      pure (canvas.samples layout request.window.pixels) : Job Canvas (List UInt8))
        .never ⟨0, #[], Canvas.empty⟩)).checks =
          (Picture.rowsOf assembly request.window + 15) / 16 := by
    intro assembly layout
    rw [← doc.picture.paintStrips_checks, Job.bind_apply]
    cases doc.picture.paintStrips assembly request.window .never ⟨0, #[], Canvas.empty⟩ <;> rfl
  unfold paint planOf checksOf
  dsimp only
  cases hassembly : doc.picture.assembly request.legacy with
  | jpeg =>
    rw [show Picture.rowsOf .jpeg request.window = 0 from rfl]
    dsimp only
    cases Mosaic.paint codec doc.source doc.picture.jpegOffsets.toList request.window <;> rfl
  | fallback =>
    rw [show Picture.rowsOf .fallback request.window = 0 from rfl]
    unfold Fallback.paint
    cases request.fallback <;> rfl
  | indexed | gray | planar _ | packed555 => exact hstrips _ _

theorem paint_stops (codec : Codec) (doc : Document) (request : Request) (n : Nat)
    (reason : StopReason) :
    StopsAt n reason ((doc.paint codec request (doc.planOf request)).run .never Canvas.empty)
      ((doc.paint codec request (doc.planOf request)).run (.after n reason) Canvas.empty) :=
  (doc.heeds_paint codec request (doc.planOf request)).stops n reason (Nat.zero_le n)

/-- What stops the painting is the stop. -/
theorem paint_cancelled (codec : Codec) (doc : Document) (request : Request) (n : Nat)
    (reason : StopReason) :
    resultOf ((doc.paint codec request (doc.planOf request)).run (.after n reason) Canvas.empty) =
      .error (.cancelled reason) ↔ n < doc.checksOf request := by
  have hstops := doc.paint_stops codec request n reason
  rw [← doc.paint_checks codec request]
  constructor
  · intro hresult
    by_contra hle
    rw [hstops.same (Nat.le_of_not_lt hle)] at hresult
    cases hrun : (doc.paint codec request (doc.planOf request)).run .never Canvas.empty with
    | ok pixels t =>
      rw [hrun] at hresult
      cases hresult
    | error e t =>
      rw [hrun] at hresult
      obtain rfl := Except.error.inj hresult
      cases (doc.heeds_paint codec request (doc.planOf request)).fails hrun
  · intro hlt
    obtain ⟨t, hrun, -⟩ := hstops.cancelled hlt
    rw [hrun]
    rfl

/-! ## Reading -/

def FromStrips (doc : Document) (request : Request) : Prop :=
  doc.picture.jpegOffsets = #[] ∧ doc.picture.strips ≠ #[] ∧ request.legacy = false

/-- A window with pixels is checked exactly when it is taken from strips. -/
theorem checksOf_pos (doc : Document) (request : Request) (hwidth : 0 < request.window.width)
    (hheight : 0 < request.window.height) : 0 < doc.checksOf request ↔ doc.FromStrips request := by
  rw [FromStrips, ← Picture.assembly_isStrips]
  unfold checksOf
  cases doc.picture.assembly request.legacy with
  | indexed | gray =>
    dsimp only [Assembly.isStrips, Picture.rowsOf]
    rw [if_neg (by omega)]
    exact ⟨fun _ => rfl, fun _ => by omega⟩
  | planar _ | packed555 =>
    dsimp only [Assembly.isStrips, Picture.rowsOf]
    exact ⟨fun _ => rfl, fun _ => by omega⟩
  | jpeg | fallback => simp [Assembly.isStrips, Picture.rowsOf]

section
variable (hfits : request.window.fits doc.picture.width doc.picture.height = true)
  (hmemory : Limits.allows doc.limits.memory (doc.planOf request).size)
include hfits hmemory

/-- A stop that passes the checks of a request leaves its reading as it is without a stop, and any
other ends it. -/
theorem readWith_stopped (codec : Codec) (n : Nat) (reason : StopReason) :
    (doc.checksOf request ≤ n →
      doc.readWith codec request (.after n reason) = doc.readWith codec request .never) ∧
    ((doc.readWith codec request (.after n reason)).report.result = .error (.cancelled reason) ↔
      n < doc.checksOf request) := by
  have hstops := doc.paint_stops codec request n reason
  have hchecks := doc.paint_checks codec request
  rw [← doc.paint_cancelled codec request n reason]
  unfold readWith
  rw [plan_eq_ok.mpr ⟨hfits, hmemory, rfl⟩]
  dsimp only
  refine ⟨fun hle => ?_, Report.map_result_error⟩
  rw [hstops.same (hchecks ▸ hle)]

/-- The same of reading into a buffer that is large enough. -/
theorem readIntoWith_stopped (codec : Codec) (n : Nat) (reason : StopReason) {buffer : List UInt8}
    (hbuffer : (doc.planOf request).size ≤ buffer.length) :
    (doc.checksOf request ≤ n →
      doc.readIntoWith codec request buffer (.after n reason) =
        doc.readIntoWith codec request buffer .never) ∧
    ((doc.readIntoWith codec request buffer (.after n reason)).report.result =
      .error (.cancelled reason) ↔ n < doc.checksOf request) := by
  have hstops := doc.paint_stops codec request n reason
  have hchecks := doc.paint_checks codec request
  rw [← doc.paint_cancelled codec request n reason]
  unfold readIntoWith
  rw [plan_eq_ok.mpr ⟨hfits, hmemory, rfl⟩]
  dsimp only
  rw [if_neg (Nat.not_lt.mpr hbuffer), if_neg (Nat.not_lt.mpr hbuffer)]
  refine ⟨fun hle => ?_, Report.map_result_error⟩
  rw [hstops.same (hchecks ▸ hle)]

/-- A stop that refuses every check ends the reading of pixels that are taken from strips, and
of no others: where embedded JPEG or the caller's decoder gives them, no stop makes any difference. -/
theorem readWith_cancelled (hwidth : 0 < request.window.width)
    (hheight : 0 < request.window.height) (codec : Codec) (reason : StopReason) :
    ((doc.readWith codec request (.after 0 reason)).report.result = .error (.cancelled reason) ↔
      doc.FromStrips request) ∧
    (∀ buffer, (doc.planOf request).size ≤ buffer.length →
      ((doc.readIntoWith codec request buffer (.after 0 reason)).report.result =
        .error (.cancelled reason) ↔ doc.FromStrips request)) ∧
    (¬ doc.FromStrips request → ∀ stop,
      doc.readWith codec request stop = doc.readWith codec request .never ∧
      ∀ buffer, (doc.planOf request).size ≤ buffer.length →
        doc.readIntoWith codec request buffer stop = doc.readIntoWith codec request buffer .never) := by
  have hpos := doc.checksOf_pos request hwidth hheight
  refine ⟨?_, fun buffer hbuffer => ?_, fun hothers stop => ?_⟩
  · exact (readWith_stopped hfits hmemory codec 0 reason).2.trans hpos
  · exact (readIntoWith_stopped hfits hmemory codec 0 reason hbuffer).2.trans hpos
  · have hnone : doc.checksOf request = 0 := Nat.eq_zero_of_not_pos fun h => hothers (hpos.mp h)
    cases stop with
    | never => exact ⟨rfl, fun _ _ => rfl⟩
    | after n reason =>
      have hle : doc.checksOf request ≤ n := hnone ▸ Nat.zero_le n
      exact ⟨(readWith_stopped hfits hmemory codec n reason).1 hle, fun buffer hbuffer =>
        (readIntoWith_stopped hfits hmemory codec n reason hbuffer).1 hle⟩

end

open Decode (sampleHeader tallPicture)

/-- The rows of twenty strips are not read under a stop that refuses every check, unless the strips
are passed over. -/
theorem readWith_tallPicture :
    ∃ doc, (decode tallPicture.toArray .unlimited .never).result = .ok doc ∧
      (∀ codec reason, (doc.readWith codec (.ofWindow ⟨2, 1, 3, 18⟩) (.after 0 reason)).report.result =
        .error (.cancelled reason)) ∧
      ∀ codec stop, doc.readWith codec ⟨⟨2, 1, 3, 18⟩, true, none⟩ stop =
        doc.readWith codec ⟨⟨2, 1, 3, 18⟩, true, none⟩ .never := by
  have hmap : (decode tallPicture.toArray .unlimited .never).result.toOption.map (fun doc =>
      (doc.picture.width, doc.picture.height, doc.picture.strips.size, doc.picture.jpegOffsets,
        doc.limits)) = some (8, 20, 20, #[], .unlimited) := by decide +kernel
  obtain ⟨doc, hdoc, hparts⟩ := exists_ok_of_map hmap
  simp only [Prod.mk.injEq] at hparts
  obtain ⟨hwidth, hheight, hstrips, hjpeg, hlimits⟩ := hparts
  let request (legacy : Bool) : Request := ⟨⟨2, 1, 3, 18⟩, legacy, none⟩
  have hfits (legacy : Bool) :
      (request legacy).window.fits doc.picture.width doc.picture.height = true := by
    rw [hwidth, hheight]
    rfl
  have hmemory (legacy : Bool) :
      Limits.allows doc.limits.memory (doc.planOf (request legacy)).size := by
    rw [hlimits]
    exact nofun
  have hsome : doc.picture.strips ≠ #[] := by
    rintro hempty
    rw [hempty] at hstrips
    cases hstrips
  have hall (legacy : Bool) (codec : Codec) (reason : StopReason) :=
    readWith_cancelled (hfits legacy) (hmemory legacy) (Nat.succ_pos 2) (Nat.succ_pos 17) codec
      reason
  refine ⟨doc, hdoc, fun codec reason => ?_, fun codec stop => ?_⟩
  · exact (hall false codec reason).1.mpr ⟨hjpeg, hsome, rfl⟩
  · exact ((hall true codec .cancelled).2.2 (fun h => nomatch h.2.2) stop).1

def jpegPicture : Source :=
  (sampleHeader.bytes ++ [0x00, 0x18, 0x00, 0x00, 0xFF, 0xD8, 0xFF, 0xD9]).toArray

/-- Not every reading of pixels is cancelled by the first check: embedded JPEG is decoded, stacked
and cropped whatever the stop says. -/
theorem decoded_not_cancelled :
    ¬ ∀ (source : Source) (limits : Limits) (stop : Stop) (doc : Document) (codec : Codec)
        (request : Request) (reason : StopReason),
      (decode source limits stop).result = .ok doc →
      request.window.fits doc.picture.width doc.picture.height = true →
      Limits.allows doc.limits.memory (doc.planOf request).size →
      0 < request.window.width → 0 < request.window.height →
      (doc.readWith codec request (.after 0 reason)).report.result = .error (.cancelled reason) := by
  intro hall
  have hmap : (decode jpegPicture .unlimited .never).result.toOption.map (fun doc =>
      (doc.picture.width, doc.picture.height, doc.picture.jpegOffsets, doc.limits)) =
        some (2, 1, #[556], .unlimited) := by decide +kernel
  obtain ⟨doc, hdoc, hparts⟩ := exists_ok_of_map hmap
  simp only [Prod.mk.injEq] at hparts
  obtain ⟨hwidth, hheight, hjpeg, hlimits⟩ := hparts
  let request : Request := .ofWindow ⟨0, 0, 2, 1⟩
  have hfits : request.window.fits doc.picture.width doc.picture.height = true := by
    rw [hwidth, hheight]
    rfl
  have hmemory : Limits.allows doc.limits.memory (doc.planOf request).size := by
    rw [hlimits]
    exact nofun
  have hcancelled := hall _ _ _ doc (fun _ => some ⟨2, 1, [1, 2, 3, 4, 5, 6]⟩) request .cancelled
    hdoc hfits hmemory (by decide) (by decide)
  have hchecked := (readWith_stopped hfits hmemory _ 0 .cancelled).2.mp hcancelled
  have hstrips := (doc.checksOf_pos request (by decide) (by decide)).mp hchecked
  rw [hstrips.1] at hjpeg
  cases hjpeg

end Document
end Pict
