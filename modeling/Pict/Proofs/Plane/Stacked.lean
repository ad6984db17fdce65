import Pict.Proofs.Jpeg.Size
import Pict.Proofs.Plane.Crop
import Pict.Proofs.Plane.Stopped

/-!
# Embedded JPEGs under each other, byte by byte

A picture with embedded JPEG data is read from its spans alone: no stop is asked and no caller's
decoder. The spans decode to images that lie under each other, and the rows of a window are cut from
all their bytes in a row. Of the codec it is only asked that an image has all its bytes
(`Codec.Sized`), and that only where images are told apart.

Results:
* `spans_eq`: spans that are told apart by their distance from the first one.
* `images_eq_ok`, `images_error_iff`: which spans decode, and to what.
* `getElem?_band`, `sample_band`, `sample_outside`: where the rows of one image lie in the stack.
* `readWith_jpeg`: what a read comes to.
* `readWith_stacked`: when it fails, and every byte of its plane when it does not.
-/
namespace Pict

/-- An image that is decoded has three bytes for each of its pixels. -/
def Codec.Sized (codec : Codec) : Prop :=
  ∀ bytes image, codec bytes = some image →
    image.pixels.length = 3 * image.width * image.height

/-- The sample of channel `c` of pixel (`x`, `y`) of an image. -/
def RgbImage.sample? (image : RgbImage) (c x y : Nat) : Option UInt8 :=
  image.pixels[y * (image.width * 3) + (x * 3 + c)]?

theorem Source.getElem?_sliceFrom (source : Source) (p k : Nat) :
    (source.sliceFrom p)[k]? = source[p + k]? := by
  rw [sliceFrom, slice, Array.getElem?_toList, Array.getElem?_extract]
  split
  · rfl
  · rw [Array.getElem?_eq_none (by omega)]

theorem Source.sliceFrom_append (front rest : List UInt8) :
    Source.sliceFrom (front ++ rest).toArray front.length = rest := by
  refine List.ext_getElem? fun k => ?_
  rw [getElem?_sliceFrom, List.getElem?_toArray, List.getElem?_append_right (Nat.le_add_right _ _),
    Nat.add_sub_cancel_left]

namespace Mosaic

variable {codec : Codec} {source : Source} {offsets : List Nat} {spans : List (List UInt8)}
  {stack : List RgbImage}

/-! ## Spans -/

/-- Where no offset comes before the first one, a span is all data from its offset on. -/
theorem spans_eq (h : ∀ offset ∈ offsets, offsets.headD 0 ≤ offset) :
    Mosaic.spans source offsets = offsets.map source.sliceFrom := by
  refine List.map_congr_left fun offset hmem => List.ext_getElem? fun k => ?_
  rw [List.getElem?_drop, Source.getElem?_sliceFrom, Source.getElem?_sliceFrom, ← Nat.add_assoc,
    Nat.add_sub_cancel' (h offset hmem)]

/-- The images of all spans are there when each span has one. -/
theorem images_eq_ok : images codec spans = .ok stack ↔ spans.map codec = stack.map some := by
  induction spans generalizing stack with
  | nil =>
    rw [images, Except.ok.injEq, List.map_nil]
    exact ⟨fun h => by rw [← h]; rfl, fun h => (List.map_eq_nil_iff.mp h.symm).symm⟩
  | cons span rest ih =>
    rw [images, List.map_cons]
    cases codec span with
    | none => cases stack <;> simp
    | some image =>
      dsimp only
      rw [map_eq_ok]
      constructor
      · rintro ⟨images, himages, rfl⟩
        rw [ih.mp himages, List.map_cons]
      · intro h
        cases stack with
        | nil => cases h
        | cons first images =>
          simp only [List.map_cons, List.cons.injEq, Option.some.injEq] at h
          exact ⟨images, ih.mpr h.2, by rw [h.1]⟩

/-- They are not when some span has none. -/
theorem images_error_iff : images codec spans = .error .jpeg ↔
    ∃ span ∈ spans, codec span = none := by
  induction spans with
  | nil => simp [images]
  | cons span rest ih =>
    simp only [images, List.mem_cons, exists_eq_or_imp, ← ih]
    cases codec span with
    | none => simp
    | some image => simp [map_eq_error]

/-! ## Bands -/

variable {front back : List RgbImage} {image : RgbImage} {width : Nat}

theorem length_pixels {row : Nat} (h : ∀ image ∈ stack, image.pixels.length = row * image.height) :
    (stack.flatMap RgbImage.pixels).length = row * (stack.map RgbImage.height).sum := by
  induction stack with
  | nil => simp
  | cons image stack ih =>
    rw [List.flatMap_cons, List.length_append, h image List.mem_cons_self,
      ih fun image hmem => h image (List.mem_cons_of_mem _ hmem), List.map_cons, List.sum_cons,
      Nat.mul_add]

/-- The rows of an image lie behind those of the images above it. -/
theorem getElem?_band {row r k : Nat}
    (h : ∀ other ∈ front ++ image :: back, other.pixels.length = row * other.height)
    (hr : r < image.height) (hk : k < row) :
    ((front ++ image :: back).flatMap RgbImage.pixels)[
      ((front.map RgbImage.height).sum + r) * row + k]? = image.pixels[r * row + k]? := by
  have hfront := length_pixels fun other hmem => h other (List.mem_append_left _ hmem)
  have himage := h image (List.mem_append_right _ List.mem_cons_self)
  have hinside : r * row + k < image.pixels.length := by
    rw [himage]
    exact row_add_lt hr hk
  have hplace : ((front.map RgbImage.height).sum + r) * row + k =
      (front.flatMap RgbImage.pixels).length + (r * row + k) := by
    rw [hfront, Nat.add_mul, Nat.mul_comm row, Nat.add_assoc]
  rw [List.flatMap_append, List.flatMap_cons, hplace, List.getElem?_append_right (by omega),
    Nat.add_sub_cancel_left, List.getElem?_append_left hinside]

/-- Images of one width are stacked at that width. -/
theorem width_eq (hsome : stack ≠ []) (h : ∀ image ∈ stack, image.width = width) :
    Mosaic.width stack = width := by
  unfold Mosaic.width
  cases hfind : (stack.map RgbImage.width).find? (· ≠ 0) with
  | some found =>
    obtain ⟨image, hmem, rfl⟩ := List.mem_map.mp (List.mem_of_find?_eq_some hfind)
    exact h image hmem
  | none =>
    -- no image has a column
    obtain ⟨image, hmem⟩ := List.exists_mem_of_ne_nil stack hsome
    have hzero := List.find?_eq_none.mp hfind _ (List.mem_map_of_mem hmem)
    simp only [h image hmem, decide_eq_true_eq, not_not] at hzero
    exact hzero.symm

section
variable (hsized : ∀ image ∈ stack, image.pixels.length = 3 * image.width * image.height)
  (hwidth : ∀ image ∈ stack, image.width = width)
include hsized hwidth

theorem length_of_width : ∀ image ∈ stack, image.pixels.length = width * 3 * image.height := by
  intro image hmem
  rw [hsized image hmem, hwidth image hmem, Nat.mul_comm 3]

/-- A stack of images of one width has the samples of an image in its band. -/
theorem sample_band {c x r : Nat} (hsplit : stack = front ++ image :: back) (hr : r < image.height)
    (hx : x < width) (hc : c < 3) :
    some (sample stack c x ((front.map RgbImage.height).sum + r)) = image.sample? c x r := by
  subst hsplit
  have hmem : image ∈ front ++ image :: back := List.mem_append_right _ List.mem_cons_self
  have hlength := length_of_width hsized hwidth
  have hk : x * 3 + c < width * 3 := by omega
  have hinside : r * (width * 3) + (x * 3 + c) < image.pixels.length := by
    rw [hlength image hmem]
    exact row_add_lt hr hk
  rw [sample, width_eq (List.ne_nil_of_mem hmem) hwidth, if_pos hk, samples,
    List.getElem?_toArray, getElem?_band hlength hr hk, RgbImage.sample?, hwidth image hmem,
    List.getElem?_eq_getElem hinside]
  rfl

/-- It is black outside of the bands. -/
theorem sample_outside {c x y : Nat} (hsome : stack ≠ []) (hc : c < 3)
    (hout : width ≤ x ∨ (stack.map RgbImage.height).sum ≤ y) : sample stack c x y = 0 := by
  rw [sample, width_eq hsome hwidth]
  split
  · rename_i hk
    have hbelow : (stack.map RgbImage.height).sum ≤ y := by omega
    have hend : (stack.flatMap RgbImage.pixels).length ≤ y * (width * 3) + (x * 3 + c) := by
      have hrows := Nat.mul_le_mul_right (width * 3) hbelow
      rw [length_pixels (length_of_width hsized hwidth), Nat.mul_comm]
      omega
    rw [samples, List.getElem?_toArray, List.getElem?_eq_none hend]
    rfl
  · rfl

end

end Mosaic

/-! ## Reading -/

/-- The plane of a window shows a stack of images: the bytes of all images in a row are cut to rows of
the first width there is, and a row of the window is what such a row has behind its left edge. -/
structure Plane.ShowsStack (plane : Plane) (win : Window) (stack : List RgbImage) : Prop where
  layout : plane.layout = .rgb8
  width : plane.width = win.width
  height : plane.height = win.height
  settled : plane.bestEffort = false
  length : plane.pixels.length = 3 * win.width * win.height
  byte : ∀ i < win.height, ∀ k < 3 * win.width, plane.pixels[i * (3 * win.width) + k]? =
    some (if 3 * win.x + k < 3 * Mosaic.width stack then
      (stack.flatMap RgbImage.pixels).getD
        ((win.y + i) * (3 * Mosaic.width stack) + 3 * win.x + k) 0
      else 0)

theorem Mosaic.showsStack {stack : List RgbImage} {win : Window} {plane : Plane}
    (hpixels : plane.pixels = window stack win) (hlayout : plane.layout = .rgb8)
    (hwidth : plane.width = win.width) (hheight : plane.height = win.height)
    (hsettled : plane.bestEffort = false) : plane.ShowsStack win stack where
  layout := hlayout
  width := hwidth
  height := hheight
  settled := hsettled
  length := by
    rw [hpixels, length_window, Nat.mul_comm win.height, Nat.mul_comm win.width]
  byte := by
    intro i hi k hk
    rw [Nat.mul_comm 3] at hk
    simp only [Nat.mul_comm 3]
    rw [hpixels, getElem?_window stack win hi hk, samples, List.getElem?_toArray,
      List.getD_eq_getElem?_getD, Nat.add_assoc]

namespace Document

variable {codec : Codec} {doc : Document} {request : Request} {plane : Plane} {stop : Stop}

def spans (doc : Document) : List (List UInt8) :=
  Mosaic.spans doc.source doc.picture.jpegOffsets.toList

theorem planOf_jpeg (h : doc.picture.jpegOffsets ≠ #[]) (request : Request) :
    doc.planOf request = ⟨.jpeg, .rgb8, request.window.pixels * 3⟩ := by
  have hassembly : doc.picture.assembly request.legacy = .jpeg :=
    if_pos (Array.size_pos_iff.mpr h)
  unfold planOf
  rw [hassembly]
  rfl

theorem size_jpeg (h : doc.picture.jpegOffsets ≠ #[]) (request : Request) :
    (doc.planOf request).size = 3 * request.window.width * request.window.height := by
  rw [planOf_jpeg h, Nat.mul_assoc, Nat.mul_comm 3]
  rfl

/-- A window that is not refused is read from the images of the spans, under any stop. -/
theorem readWith_jpeg (hjpeg : doc.picture.jpegOffsets ≠ #[])
    (hfits : request.window.fits doc.picture.width doc.picture.height = true)
    (hmemory : Limits.allows doc.limits.memory (3 * request.window.width * request.window.height)) :
    (doc.readWith codec request stop).report.result =
      (fun stack => doc.planeOf request (Mosaic.window stack request.window)) <$>
        Mosaic.images codec doc.spans := by
  have hmet : doc.plan request = .ok (doc.planOf request) :=
    plan_eq_ok.mpr ⟨hfits, size_jpeg hjpeg request ▸ hmemory, rfl⟩
  unfold readWith planeOf
  rw [hmet, planOf_jpeg hjpeg request]
  show (Report.map _ (reportOf ((Job.ofExcept (_ <$> Mosaic.images codec doc.spans) :
    Job Canvas (List UInt8)) stop _))).result = _
  cases Mosaic.images codec doc.spans <;> rfl

theorem planeOf_jpeg (hjpeg : doc.picture.jpegOffsets ≠ #[]) (request : Request)
    (stack : List RgbImage) :
    (doc.planeOf request (Mosaic.window stack request.window)).ShowsStack request.window stack := by
  have hplan := planOf_jpeg hjpeg request
  refine Mosaic.showsStack rfl (congrArg Plan.layout hplan) rfl rfl ?_
  show decide ((doc.planOf request).assembly = .fallback) = false
  rw [hplan]
  rfl

theorem exists_stack (hjpeg : doc.picture.jpegOffsets ≠ #[])
    (h : (doc.readWith codec request stop).report.result = .ok plane) :
    ∃ stack, doc.spans.map codec = stack.map some ∧ plane.ShowsStack request.window stack := by
  cases hplan : doc.plan request with
  | error e =>
    unfold readWith at h
    rw [hplan] at h
    cases h
  | ok plan =>
    obtain ⟨hfits, hmemory, -⟩ := plan_eq_ok.mp hplan
    rw [size_jpeg hjpeg] at hmemory
    rw [readWith_jpeg hjpeg hfits hmemory] at h
    obtain ⟨stack, himages, rfl⟩ := map_eq_ok.mp h
    exact ⟨stack, Mosaic.images_eq_ok.mp himages, planeOf_jpeg hjpeg request stack⟩

/-- Where there is embedded JPEG data, a window that is on the canvas and within the memory limit
fails to be read exactly when the codec fails on some span, whatever else the request asks for and
whatever the stop is. Otherwise its plane shows the stack of the images of the spans. If these are as
wide as each other, a pixel of the window is that of the image in whose band it lies, and black right of
the images and below them. A span is all data from its offset on, unless it is recorded in front of the
first one. -/
theorem readWith_stacked (hcodec : codec.Sized) (hjpeg : doc.picture.jpegOffsets ≠ #[])
    (hfits : request.window.fits doc.picture.width doc.picture.height = true)
    (hmemory : Limits.allows doc.limits.memory (3 * request.window.width * request.window.height))
    (stop : Stop) :
    ((doc.readWith codec request stop).report.result = .error .jpeg ↔
      ∃ span ∈ doc.spans, codec span = none) ∧
    ((∀ span ∈ doc.spans, codec span ≠ none) →
      ∃ plane stack, (doc.readWith codec request stop).report.result = .ok plane ∧
        doc.spans.map codec = stack.map some ∧
        plane.ShowsStack request.window stack ∧
        ∀ width, (∀ image ∈ stack, image.width = width) →
          ∀ i < request.window.height, ∀ j < request.window.width, ∀ c < 3,
            (∀ front image back r, stack = front ++ image :: back → r < image.height →
              request.window.y + i = (front.map RgbImage.height).sum + r →
              request.window.x + j < width →
              plane.sample? c j i = image.sample? c (request.window.x + j) r) ∧
            (width ≤ request.window.x + j ∨
                (stack.map RgbImage.height).sum ≤ request.window.y + i →
              plane.sample? c j i = some 0)) ∧
    ((∀ offset ∈ doc.picture.jpegOffsets.toList, doc.picture.jpegOffsets.toList.headD 0 ≤ offset) →
      doc.spans = doc.picture.jpegOffsets.toList.map doc.source.sliceFrom) := by
  rw [readWith_jpeg hjpeg hfits hmemory, map_eq_error, Mosaic.images_error_iff]
  refine ⟨Iff.rfl, fun hdecodes => ?_, Mosaic.spans_eq⟩
  cases himages : Mosaic.images codec doc.spans with
  | error e =>
    obtain rfl := Mosaic.images_error himages
    obtain ⟨span, hmem, hnone⟩ := Mosaic.images_error_iff.mp himages
    exact absurd hnone (hdecodes span hmem)
  | ok stack =>
    have hspans := Mosaic.images_eq_ok.mp himages
    have hsized : ∀ image ∈ stack, image.pixels.length = 3 * image.width * image.height := by
      intro image hmem
      have hspan : some image ∈ stack.map some := List.mem_map_of_mem hmem
      rw [← hspans] at hspan
      obtain ⟨span, -, hdecoded⟩ := List.mem_map.mp hspan
      exact hcodec _ image hdecoded
    have hsome : stack ≠ [] := by
      rintro rfl
      have hnone := List.map_eq_nil_iff.mp (List.map_eq_nil_iff.mp hspans)
      exact hjpeg (Array.toList_eq_nil_iff.mp hnone)
    have hshows := planeOf_jpeg hjpeg request stack
    have hviews : (doc.planeOf request (Mosaic.window stack request.window)).Views request.window
        (Mosaic.sample stack) := Mosaic.window_views rfl hshows.layout rfl
    refine ⟨_, stack, rfl, hspans, hshows, ?_⟩
    intro width hwidth i hi j hj c hc
    have hsample := hviews c (by rw [hshows.layout]; exact hc) j hj i hi
    constructor
    · intro front image back r hsplit hr hrow hx
      rw [hsample, hrow, Mosaic.sample_band hsized hwidth hsplit hr hx hc]
    · intro hout
      rw [hsample, Mosaic.sample_outside hsized hwidth hsome hc hout]

/-- A JPEG of two gray pixels in a row, with a comment in front of its tables. -/
def flatJpeg (level : UInt8) : List UInt8 :=
  [0xFF, 0xD8, 0xFF, 0xFE, 0x00, 0x03, 0x00] ++
  [0xFF, 0xDB, 0x00, 0x43, 0x00] ++ List.replicate 64 8 ++
  [0xFF, 0xC0, 0x00, 0x0B, 8, 0, 1, 0, 2, 1, 1, 0x11, 0] ++
  [0xFF, 0xC4, 0x00, 0x14, 0x00, 1] ++ List.replicate 15 0 ++ [6] ++
  [0xFF, 0xC4, 0x00, 0x14, 0x10, 1] ++ List.replicate 15 0 ++ [0] ++
  [0xFF, 0xDA, 0x00, 0x08, 1, 1, 0, 0, 0x3F, 0, level, 0xFF, 0xD9]

/-- Two of them behind each other on a canvas of three rows of two pixels. -/
def jpegDocument : Document where
  source := (flatJpeg 0x40 ++ flatJpeg 0x00).toArray
  limits := .unlimited
  picture :=
    { Picture.start ⟨2, 3, .two, none⟩ with
      jpegOffsets := #[0, 146], channels := 3, interleaved := true }

theorem baseline_jpegDocument : jpegDocument.spans.map Jpeg.baseline =
    [some ⟨2, 1, List.replicate 6 160⟩, some ⟨2, 1, List.replicate 6 65⟩] := by
  have hspans : jpegDocument.spans =
      [jpegDocument.source.sliceFrom 0, jpegDocument.source.sliceFrom 146] :=
    Mosaic.spans_eq (by decide)
  have hfirst : jpegDocument.source.sliceFrom 0 = flatJpeg 0x40 ++ flatJpeg 0x00 :=
    Source.sliceFrom_append [] _
  have hsecond : jpegDocument.source.sliceFrom 146 = flatJpeg 0x00 :=
    Source.sliceFrom_append (flatJpeg 0x40) _
  rw [hspans, hfirst, hsecond]
  decide +kernel

/-- The right column of the canvas is a pixel of each JPEG with a black one below. -/
theorem readWith_jpegDocument :
    ∃ plane, (jpegDocument.readWith Jpeg.baseline (.ofWindow ⟨1, 0, 1, 3⟩)
        .never).report.result = .ok plane ∧
      plane.sample? 2 0 0 = some 160 ∧ plane.sample? 2 0 1 = some 65 ∧
      plane.sample? 2 0 2 = some 0 := by
  let request : Request := .ofWindow ⟨1, 0, 1, 3⟩
  have hspans := baseline_jpegDocument
  have hsized : Codec.Sized Jpeg.baseline := fun _ _ h => (Jpeg.baseline_size h).2.2
  have hsome : jpegDocument.picture.jpegOffsets ≠ #[] := by decide
  have hfits : request.window.fits jpegDocument.picture.width jpegDocument.picture.height = true :=
    rfl
  have hmemory : Limits.allows jpegDocument.limits.memory
      (3 * request.window.width * request.window.height) := nofun
  obtain ⟨-, hreads, -⟩ := readWith_stacked hsized hsome hfits hmemory .never
  have hdecodes : ∀ span ∈ jpegDocument.spans, Jpeg.baseline span ≠ none := by
    intro span hmem hnone
    have hspan := List.mem_map_of_mem (f := Jpeg.baseline) hmem
    rw [hspans, hnone] at hspan
    exact absurd hspan (by decide)
  obtain ⟨plane, stack, hread, himages, -, hpixels⟩ := hreads hdecodes
  rw [hspans] at himages
  obtain rfl : [⟨2, 1, List.replicate 6 160⟩, ⟨2, 1, List.replicate 6 65⟩] = stack :=
    (List.map_inj_right fun _ _ => Option.some.inj).mp himages
  have hsamples := hpixels 2 (by decide)
  refine ⟨plane, hread, ?_, ?_, ?_⟩
  · exact (hsamples 0 (by decide) 0 (by decide) 2 (by decide)).1 [] _ _ 0 rfl (by decide) rfl
      (by decide)
  · exact (hsamples 1 (by decide) 0 (by decide) 2 (by decide)).1 [_] _ [] 0 rfl (by decide) rfl
      (by decide)
  · exact (hsamples 2 (by decide) 0 (by decide) 2 (by decide)).2 (Or.inr (by decide))

end Document
end Pict
