import Pict.Proofs.Plane.Painted

/-!
# What a read consists of

A request that is not refused is met by its plan (`Document.planOf`). Under a
stop that never fires, what is painted is settled by the assembly alone:
`Document.painted` says what, and is the only thing that can still fail.

Results:
* `plan_eq_ok`: which requests are not refused.
* `painted_strips`, `paintStrips_run`: what strips are painted with, and what is warned of.
* `paint_never`: what is painted.
* `readWith_eq_ok`: when a read under a stop that never fires succeeds, and with what.
* `readWith_plane`: what a plane that is read under any stop has.
-/
namespace Pict

def Picture.stripPixels (p : Picture) (assembly : Assembly) (win : Window) : List UInt8 :=
  (Canvas.mk ((List.range' 0 (rowsOf assembly win)).map (p.line assembly win)).toArray 0 none).samples
    (p.layoutOf assembly) win.pixels

namespace Document

variable {codec : Codec} {doc : Document} {request : Request} {plan : Plan} {plane : Plane}

/-- The plan for a request that is not refused. -/
def planOf (doc : Document) (request : Request) : Plan :=
  let assembly := doc.picture.assembly request.legacy
  let layout := doc.picture.layoutOf assembly
  ⟨assembly, layout, request.window.pixels * layout.bytesPerPixel⟩

/-- A request is met when its window is on the canvas and its plane within the memory limit. -/
theorem plan_eq_ok : doc.plan request = .ok plan ↔
    request.window.fits doc.picture.width doc.picture.height = true ∧
      Limits.allows doc.limits.memory (doc.planOf request).size ∧ plan = doc.planOf request := by
  rw [← Limits.checkMemory_eq_ok_iff]
  by_cases hfits : request.window.fits doc.picture.width doc.picture.height = true
  · cases hmemory : doc.limits.checkMemory (doc.planOf request).size with
    | ok =>
      have hplan : doc.plan request = .ok (doc.planOf request) := by
        unfold planOf at hmemory ⊢
        simp only [Document.plan, if_pos hfits, hmemory]
      rw [hplan, Except.ok.injEq]
      exact ⟨fun h => ⟨hfits, rfl, h.symm⟩, fun h => h.2.2.symm⟩
    | error breach =>
      have hplan : doc.plan request = .error (.limitExceeded breach) := by
        unfold planOf at hmemory
        simp only [Document.plan, if_pos hfits, hmemory]
      rw [hplan]
      constructor
      · intro h
        cases h
      · rintro ⟨-, h, -⟩
        cases h
  · have hplan : doc.plan request =
        .error (.outsideCanvas request.window doc.picture.width doc.picture.height) := by
      simp only [Document.plan, if_neg hfits]
    rw [hplan]
    constructor
    · intro h
      cases h
    · exact fun h => absurd h.1 hfits

/-- The planes that the caller's decoder answers for a picture, if there is one and it does. -/
def answer (doc : Document) (fallback : Option FallbackDecoder) : Option (List (List UInt8)) :=
  fallback.bind fun decoder => decoder (doc.source.sliceFrom Header.preambleSize)

/-- What a request is painted with, if no embedded JPEG fails. -/
def painted (codec : Codec) (doc : Document) (request : Request) : Except Error (List UInt8) :=
  match doc.picture.assembly request.legacy with
  | .jpeg => Mosaic.paint codec doc.source doc.picture.jpegOffsets.toList request.window
  | .fallback =>
    .ok (Fallback.lay ((doc.answer request.fallback).getD []) 0
      (List.replicate (doc.planOf request).size 0))
  | .indexed => .ok (doc.picture.stripPixels .indexed request.window)
  | .gray => .ok (doc.picture.stripPixels .gray request.window)
  | .planar stride => .ok (doc.picture.stripPixels (.planar stride) request.window)
  | .packed555 => .ok (doc.picture.stripPixels .packed555 request.window)

/-- Strips are painted, whatever is asked for besides. -/
theorem painted_strips {assembly : Assembly}
    (hassembly : doc.picture.assembly request.legacy = assembly) (hs : assembly.isStrips = true) :
    doc.painted codec request = .ok (doc.picture.stripPixels assembly request.window) := by
  unfold painted
  rw [hassembly]
  cases assembly with
  | jpeg | fallback => cases hs
  | indexed | gray | planar _ | packed555 => rfl

/-- Strips are painted row by row, and all rows are painted. -/
theorem paintStrips_run (p : Picture) (assembly : Assembly) (win : Window) :
    ∃ t, (do
      p.paintStrips assembly win
      let canvas ← Job.work
      pure (canvas.samples (p.layoutOf assembly) win.pixels) : Job Canvas (List UInt8))
        .never ⟨0, #[], Canvas.empty⟩ = .ok (p.stripPixels assembly win) t ∧
      t.warnings.toList =
        Picture.missingWarnings assembly (Int32.ofNat (p.missingRows assembly win)) := by
  obtain ⟨t, ht, hlines, hwarnings⟩ :=
    p.paintStrips_never assembly win ⟨0, #[], Canvas.empty⟩
  refine ⟨t, ?_, by simp [hwarnings, Canvas.empty]⟩
  rw [Job.bind_apply, ht]
  show EStateM.Result.ok ((Canvas.mk t.work.lines 0 none).samples (p.layoutOf assembly) win.pixels)
    t = _
  rw [hlines, Picture.stripPixels]
  exact congrArg (fun lines => EStateM.Result.ok ((Canvas.mk lines 0 none).samples _ _) t)
    Array.empty_append

/-- What a request is painted with under a stop that never fires. -/
theorem paint_never (codec : Codec) (doc : Document) (request : Request) :
    resultOf ((doc.paint codec request (doc.planOf request)).run .never Canvas.empty) =
      doc.painted codec request := by
  have hstrips : ∀ assembly, resultOf ((do
      doc.picture.paintStrips assembly request.window
      let canvas ← Job.work
      pure (canvas.samples (doc.picture.layoutOf assembly) request.window.pixels) :
        Job Canvas (List UInt8)) .never ⟨0, #[], Canvas.empty⟩) =
          .ok (doc.picture.stripPixels assembly request.window) := by
    intro assembly
    obtain ⟨t, ht, -⟩ := paintStrips_run doc.picture assembly request.window
    rw [ht]
    rfl
  unfold painted planOf
  cases doc.picture.assembly request.legacy with
  | jpeg =>
    show resultOf ((Job.ofExcept (Mosaic.paint codec doc.source doc.picture.jpegOffsets.toList
      request.window) : Job Canvas (List UInt8)) .never _) = _
    cases Mosaic.paint codec doc.source doc.picture.jpegOffsets.toList request.window <;> rfl
  | fallback =>
    show resultOf (Fallback.paint doc.source request.fallback _ .never _) = _
    unfold answer
    cases request.fallback <;> rfl
  | indexed | gray | planar _ | packed555 => exact hstrips _

def planeOf (doc : Document) (request : Request) (pixels : List UInt8) : Plane :=
  { pixels
    width := request.window.width
    height := request.window.height
    layout := (doc.planOf request).layout
    bestEffort := (doc.planOf request).assembly = .fallback }

theorem readWith_eq_ok :
    (doc.readWith codec request .never).report.result = .ok plane ↔
      request.window.fits doc.picture.width doc.picture.height = true ∧
        Limits.allows doc.limits.memory (doc.planOf request).size ∧
        ∃ pixels, doc.painted codec request = .ok pixels ∧ plane = doc.planeOf request pixels := by
  rw [← paint_never codec doc request]
  unfold Document.readWith
  cases hplan : doc.plan request with
  | error e =>
    constructor
    · exact nofun
    · rintro ⟨hfits, hmemory, -⟩
      rw [plan_eq_ok.mpr ⟨hfits, hmemory, rfl⟩] at hplan
      cases hplan
  | ok plan =>
    obtain ⟨hfits, hmemory, rfl⟩ := plan_eq_ok.mp hplan
    dsimp only
    cases (doc.paint codec request (doc.planOf request)).run .never Canvas.empty with
    | error e s =>
      constructor
      · exact nofun
      · rintro ⟨-, -, _, hpixels, -⟩
        cases hpixels
    | ok pixels s =>
      constructor
      · intro h
        exact ⟨hfits, hmemory, pixels, rfl, (Except.ok.inj h).symm⟩
      · rintro ⟨-, -, _, hpixels, rfl⟩
        obtain rfl := Except.ok.inj hpixels
        rfl

end Document

/-! ## Sizes -/

theorem Mosaic.length_paint {codec : Codec} {source : Source} {offsets : List Nat} {win : Window}
    {out : List UInt8} (h : paint codec source offsets win = .ok out) :
    out.length = win.pixels * 3 := by
  unfold paint at h
  cases himages : images codec (spans source offsets) with
  | error e =>
    rw [himages] at h
    cases h
  | ok images =>
    rw [himages] at h
    obtain rfl := Except.ok.inj h
    rw [length_window, Window.pixels, Nat.mul_left_comm, Nat.mul_assoc]

/-- The caller's decoder gives as many bytes as it is asked for, whatever it answers. -/
theorem Fallback.length_paint {source : Source} {decoder : Option FallbackDecoder} {size : Nat}
    {stop : Stop} {s t : Session Canvas} {out : List UInt8}
    (h : paint source decoder size stop s = .ok out t) : out.length = size := by
  obtain ⟨_, u, -, h⟩ := Job.bind_eq_ok.mp h
  cases decoder with
  | none =>
    obtain ⟨rfl, -⟩ := Job.pure_eq_ok.mp h
    simp
  | some decoder =>
    obtain ⟨_, v, -, h⟩ := Job.bind_eq_ok.mp h
    obtain ⟨rfl, -⟩ := Job.pure_eq_ok.mp h
    simp [length_lay]

namespace Document

variable {codec : Codec} {doc : Document} {request : Request} {plane : Plane} {stop : Stop}

theorem length_paint {s t : Session Canvas} {out : List UInt8}
    (h : doc.paint codec request (doc.planOf request) stop s = .ok out t) :
    out.length = (doc.planOf request).size := by
  have hstrips : ∀ {assembly : Assembly} {layout : Layout},
      (do
        doc.picture.paintStrips assembly request.window
        let canvas ← Job.work
        pure (canvas.samples layout request.window.pixels) : Job Canvas (List UInt8)) stop s =
          .ok out t →
        out.length = request.window.pixels * layout.bytesPerPixel := by
    intro assembly layout h
    obtain ⟨_, u, -, h⟩ := Job.bind_eq_ok.mp h
    obtain ⟨canvas, v, -, h⟩ := Job.bind_eq_ok.mp h
    obtain ⟨rfl, -⟩ := Job.pure_eq_ok.mp h
    exact canvas.length_samples layout _
  unfold planOf paint at *
  cases hassembly : doc.picture.assembly request.legacy with
  | jpeg =>
    simp only [hassembly] at h
    exact Mosaic.length_paint (Job.ofExcept_eq_ok.mp h).1
  | fallback =>
    simp only [hassembly] at h
    exact Fallback.length_paint h
  | indexed | gray | planar _ | packed555 =>
    simp only [hassembly] at h
    exact hstrips h

/-- Whatever the stop is, a plane that is read is that of its window, with all the bytes that the
memory limit was asked for. -/
theorem readWith_plane (h : (doc.readWith codec request stop).report.result = .ok plane) :
    request.window.fits doc.picture.width doc.picture.height = true ∧
      Limits.allows doc.limits.memory plane.pixels.length ∧
      plane = doc.planeOf request plane.pixels := by
  unfold Document.readWith at h
  cases hplan : doc.plan request with
  | error e =>
    rw [hplan] at h
    cases h
  | ok plan =>
    obtain ⟨hfits, hmemory, rfl⟩ := plan_eq_ok.mp hplan
    rw [hplan] at h
    dsimp only at h
    cases hrun : (doc.paint codec request (doc.planOf request)).run stop Canvas.empty with
    | error e s =>
      rw [hrun] at h
      cases h
    | ok pixels s =>
      rw [hrun] at h
      obtain rfl := Except.ok.inj h
      rw [← length_paint hrun] at hmemory
      exact ⟨hfits, hmemory, rfl⟩

end Document
end Pict
