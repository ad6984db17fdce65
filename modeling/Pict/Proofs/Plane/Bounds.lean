import Pict.Proofs.Decode.Canvas
import Pict.Proofs.Plane.Reading

/-!
# What the limits bound of planes

A request is checked against the canvas and against the memory limit. The canvas is as high as
`Picture.height` says: as declared, and checked, unless there are many more strips than that. The
number of strips is not checked, so that planes may be higher than the limits allow.

Results:
* `Picture.height_cases`: where the height of planes is not the declared one.
* `planes_within_limits`: the width and the memory limit hold of every plane, the others of those
  no higher than declared; they hold of all planes exactly when they hold of that height.
* `planes_beyond_limits`: a plane that is too high.
-/
namespace Pict

namespace Limits

theorem allows_of_le {bound : Option Nat} {a b : Nat} (h : allows bound b) (hle : a ≤ b) :
    allows bound a :=
  fun limit hlimit => Nat.le_trans hle (h limit hlimit)

structure AllowsPlane (l : Limits) (plane : Plane) : Prop where
  width : allows l.width plane.width
  height : allows l.height plane.height
  pixels : allows l.pixels (plane.width * plane.height)
  memory : allows l.memory plane.pixels.length

end Limits

/-- Only strips that outnumber the declared height are taken for the height. -/
theorem Picture.height_cases (p : Picture) :
    p.height = p.declaredHeight ∨
      p.declaredHeight * 4 < p.strips.size ∧ p.height ≤ p.strips.size := by
  unfold height
  dsimp only
  split
  · rename_i hmany
    exact Or.inr ⟨hmany.1, Nat.min_le_left _ _⟩
  · exact Or.inl rfl

/-! ## Planes that can be read -/

/-- A codec that knows an image in front of any bytes decodes all spans. -/
theorem Mosaic.exists_images {codec : Codec} (hcodec : ∀ bytes, (codec bytes).isSome) :
    ∀ spans, ∃ stack, images codec spans = .ok stack
  | [] => ⟨[], rfl⟩
  | span :: rest => by
    obtain ⟨image, himage⟩ := Option.isSome_iff_exists.mp (hcodec span)
    obtain ⟨stack, hstack⟩ := exists_images hcodec rest
    refine ⟨image :: stack, ?_⟩
    simp only [images, himage, hstack]
    rfl

namespace Document

variable {doc : Document} {plane : Plane}

/-- The plane is read from the document, whatever the codec, the request and the stop are. -/
def Reads (doc : Document) (plane : Plane) : Prop :=
  ∃ codec request stop, (doc.readWith codec request stop).report.result = .ok plane

theorem Reads.width_le (h : doc.Reads plane) : plane.width ≤ doc.picture.width := by
  obtain ⟨codec, request, stop, hread⟩ := h
  obtain ⟨hfits, -, hplane⟩ := readWith_plane hread
  simp only [Window.fits, Bool.and_eq_true, decide_eq_true_eq] at hfits
  rw [hplane]
  show request.window.width ≤ _
  omega

theorem Reads.height_le (h : doc.Reads plane) : plane.height ≤ doc.picture.height := by
  obtain ⟨codec, request, stop, hread⟩ := h
  obtain ⟨hfits, -, hplane⟩ := readWith_plane hread
  simp only [Window.fits, Bool.and_eq_true, decide_eq_true_eq] at hfits
  rw [hplane]
  show request.window.height ≤ _
  omega

theorem Reads.memory (h : doc.Reads plane) : Limits.allows doc.limits.memory plane.pixels.length := by
  obtain ⟨codec, request, stop, hread⟩ := h
  exact (readWith_plane hread).2.1

theorem Reads.allowed {height : Nat} (h : doc.Reads plane) (hheight : plane.height ≤ height)
    (hcanvas : doc.limits.check doc.picture.width height = .ok ()) :
    doc.limits.AllowsPlane plane := by
  obtain ⟨hwide, hhigh, hpixels⟩ := (doc.limits.check_eq_ok_iff _ _).mp hcanvas
  refine ⟨?_, ?_, ?_, h.memory⟩
  · exact Limits.allows_of_le hwide h.width_le
  · exact Limits.allows_of_le hhigh hheight
  · exact Limits.allows_of_le hpixels (Nat.mul_le_mul h.width_le hheight)

/-- A window without columns takes no memory, and can be as high as the canvas. -/
theorem exists_reads_height (doc : Document) :
    ∃ plane, doc.Reads plane ∧ plane.height = doc.picture.height := by
  let codec : Codec := fun _ => some ⟨0, 0, []⟩
  have hcodec : ∀ bytes, (codec bytes).isSome := fun _ => rfl
  let request : Request := .ofWindow ⟨0, 0, 0, doc.picture.height⟩
  have hpainted : ∃ pixels, doc.painted codec request = .ok pixels := by
    unfold painted
    split
    · obtain ⟨stack, hstack⟩ := Mosaic.exists_images hcodec
        (Mosaic.spans doc.source doc.picture.jpegOffsets.toList)
      exact ⟨_, by rw [Mosaic.paint, hstack]; rfl⟩
    all_goals exact ⟨_, rfl⟩
  obtain ⟨pixels, hpixels⟩ := hpainted
  refine ⟨doc.planeOf request pixels, ⟨codec, request, .never, ?_⟩, rfl⟩
  refine readWith_eq_ok.mpr ⟨?_, ?_, pixels, hpixels, rfl⟩
  · simp [request, Request.ofWindow, Window.fits]
  · have hsize : (doc.planOf request).size = 0 := by
      simp [planOf, request, Request.ofWindow, Window.pixels]
    rw [hsize]
    exact fun limit _ => Nat.zero_le limit

end Document

/-! ## Planes of decoded pictures -/

namespace Decode

open Document (Reads)

variable {source : Source} {limits : Limits} {stop : Stop} {doc : Document}

/-- The planes of a decoded picture whose declared canvas is within the limits. All are within the
width and the memory limit, and within all limits if they are no higher than declared; a
higher one needs more than four times as many strips as rows are declared. All planes
keep the height limit exactly when the height of the canvas does, and all limits, where the whole
canvas can be read, exactly when the canvas does. -/
theorem planes_within_limits (h : (decode source limits stop).result = .ok doc)
    (hcanvas : limits.AllowsCanvas doc.picture) :
    (∀ plane, doc.Reads plane →
      Limits.allows limits.width plane.width ∧ Limits.allows limits.memory plane.pixels.length ∧
        (plane.height ≤ doc.picture.declaredHeight → limits.AllowsPlane plane) ∧
        (doc.picture.declaredHeight < plane.height →
          doc.picture.declaredHeight * 4 < doc.picture.strips.size ∧
            plane.height ≤ doc.picture.strips.size)) ∧
    ((∀ plane, doc.Reads plane → Limits.allows limits.height plane.height) ↔
      Limits.allows limits.height doc.picture.height) ∧
    ((∃ plane, doc.Reads plane ∧ plane.width = doc.picture.width ∧
        plane.height = doc.picture.height) →
      ((∀ plane, doc.Reads plane → limits.AllowsPlane plane) ↔
        limits.check doc.picture.width doc.picture.height = .ok ())) := by
  obtain rfl : limits = doc.limits := by
    obtain ⟨info, cursor, t, -, -, rfl⟩ := decode_eq_ok h
    rfl
  have hdeclared : doc.limits.check doc.picture.width doc.picture.declaredHeight = .ok () :=
    (doc.limits.check_eq_ok_iff _ _).mpr hcanvas
  refine ⟨fun plane hplane => ⟨?_, hplane.memory, ?_, fun hhigher => ?_⟩, ⟨fun hall => ?_, ?_⟩, ?_⟩
  · exact Limits.allows_of_le hcanvas.1 hplane.width_le
  · exact fun hheight => hplane.allowed hheight hdeclared
  · have hle := hplane.height_le
    rcases doc.picture.height_cases with hsame | ⟨hmany, hstrips⟩
    · omega
    · exact ⟨hmany, Nat.le_trans hle hstrips⟩
  · obtain ⟨plane, hplane, hheight⟩ := doc.exists_reads_height
    rw [← hheight]
    exact hall plane hplane
  · exact fun hheight plane hplane => Limits.allows_of_le hheight hplane.height_le
  · rintro ⟨full, hfull, hwidth, hheight⟩
    constructor
    · intro hall
      have hallowed := hall full hfull
      rw [← hwidth, ← hheight]
      exact (doc.limits.check_eq_ok_iff _ _).mpr
        ⟨hallowed.width, hallowed.height, hallowed.pixels⟩
    · exact fun hcheck plane hplane => hplane.allowed hplane.height_le hcheck

/-- Five bitmaps of two rows of eight pixels, one behind the other. -/
def stackedPicture : Source :=
  (writePicture sampleHeader (List.replicate 5 ⟨0, .raster
    { opening := .bitmap .bitsRect 1 ⟨0, 0, 2, 8⟩ (Vector.replicate 18 0)
      rows := [[0xFF], [0x00]] }⟩) 0 []).toArray

def twoRows : Limits := ⟨none, some 2, some 16, none⟩

theorem decode_stackedPicture :
    ∃ doc plane, (decode stackedPicture twoRows .never).result = .ok doc ∧
      twoRows.AllowsCanvas doc.picture ∧ doc.picture.declaredHeight = 2 ∧
      (doc.readWith (fun _ => none) (.ofWindow doc.fullWindow) .never).report.result = .ok plane ∧
      plane.height = 10 := by
  have hmap : (decode stackedPicture twoRows .never).result.toOption.map (fun doc =>
      (doc.picture.width, doc.picture.declaredHeight,
        (doc.readWith (fun _ => none) (.ofWindow doc.fullWindow) .never).report.result.toOption.map
          (·.height))) = some (8, 2, some 10) := by decide +kernel
  cases hdecode : (decode stackedPicture twoRows .never).result with
  | error e =>
    rw [hdecode] at hmap
    cases hmap
  | ok doc =>
    rw [hdecode] at hmap
    have hsizes := Option.some.inj hmap
    simp only [Prod.mk.injEq] at hsizes
    obtain ⟨hwidth, hdeclared, hread⟩ := hsizes
    have hcanvas : twoRows.AllowsCanvas doc.picture := by
      rw [Limits.AllowsCanvas, hwidth, hdeclared]
      simp [Limits.allows, twoRows]
    cases hplane : (doc.readWith (fun _ => none) (.ofWindow doc.fullWindow) .never).report.result with
    | error e =>
      rw [hplane] at hread
      cases hread
    | ok plane =>
      rw [hplane] at hread
      exact ⟨doc, plane, rfl, hcanvas, hdeclared, hplane, Option.some.inj hread⟩

/-- Not every plane of a decoded picture is within the limits. -/
theorem planes_beyond_limits :
    ¬ ∀ (source : Source) (limits : Limits) (stop : Stop) (doc : Document) (codec : Codec)
        (request : Request) (later : Stop) (plane : Plane),
      (decode source limits stop).result = .ok doc → limits.AllowsCanvas doc.picture →
      (doc.readWith codec request later).report.result = .ok plane →
      limits.AllowsPlane plane := by
  intro hall
  obtain ⟨doc, plane, hdoc, hcanvas, -, hread, hheight⟩ := decode_stackedPicture
  have hallowed := hall stackedPicture twoRows .never doc _ _ .never plane hdoc hcanvas hread
  have hle : plane.height ≤ 2 := hallowed.height 2 rfl
  rw [hheight] at hle
  exact absurd hle (by decide)

/-- The plane that is too high is there because strips outnumber the rows that are declared. -/
theorem reads_stackedPicture :
    ∃ doc plane, (decode stackedPicture twoRows .never).result = .ok doc ∧
      twoRows.AllowsCanvas doc.picture ∧ doc.Reads plane ∧ plane.height = 10 ∧
      doc.picture.declaredHeight * 4 < doc.picture.strips.size := by
  obtain ⟨doc, plane, hdoc, hcanvas, hdeclared, hread, hheight⟩ := decode_stackedPicture
  have hreads : doc.Reads plane := ⟨_, _, _, hread⟩
  obtain ⟨-, -, -, hhigher⟩ := (planes_within_limits hdoc hcanvas).1 plane hreads
  have hmany := hhigher (by rw [hdeclared, hheight]; decide)
  exact ⟨doc, plane, hdoc, hcanvas, hreads, hheight, hmany.1⟩

end Decode
end Pict
