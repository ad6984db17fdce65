import Pict.Proofs.Machine.Paper
import Pict.Proofs.Plane.Reading

/-!
# Reading planes on a machine

From a request to a plane: the checks of the window, the choice of an assembly, the
buffer, and what is painted on it from strips, from a stack of embedded images or by the
caller's decoder. The codec and the decoder are the caller's and do not fault; how much they
answer is bounded.

Results:
* `plan_ok`: a request is checked without a fault.
* `mosaic_ok`, `lay_ok`: images, and the planes of a decoder, are laid on the buffer without a
  fault.
* `readWith_ok`, `readIntoWith_ok`: a window is read without a fault, unless it has too many rows
  without a strip (`Overcounts`).
* `readWith_faults`, `readIntoWith_faults`: then the count of these rows faults.
* `Overcounts.strips`: only a picture of more strips than that can have so many rows.
-/
namespace Pict.Machine

open Guarded

/-! ## Plans -/

def height (p : Picture) : Checked Nat := do
  let strips := p.strips.size
  let many ← usize (p.declaredHeight * 4)
  if many < strips then
    if p.declaredHeight = 0 then pure (min strips 0xFFFFFFFF)
    else do
      let third ← divide strips 3
      let rest ← modulo third p.declaredHeight
      pure (if rest ≠ 0 then min strips 0xFFFFFFFF else p.declaredHeight)
  else pure p.declaredHeight

def stripAssembly (p : Picture) (height : Nat) (first : Strip) : Checked Assembly :=
  let strips := p.strips.size
  if first.isWords then pure .packed555
  else if p.palette.isSome then pure .indexed
  else if height = 0 then pure .gray
  else do
    let three ← usize (height * 3)
    let four ← usize (height * 4)
    if strips = three ∨ strips = four then
      let stride ← divide strips height
      pure (.planar stride)
    else pure .gray

def assembly (p : Picture) (height : Nat) (legacy : Bool) : Checked Assembly :=
  if 0 < p.jpegOffsets.size then pure .jpeg
  else
    match p.strips[0]? with
    | none => pure .fallback
    | some first => if legacy then pure .fallback else stripAssembly p height first

def plan (doc : Document) (request : Request) : Checked (Except Error Plan) := do
  let p := doc.picture
  let win := request.window
  let height ← height p
  let assembly ← assembly p height request.legacy
  let layout := p.layoutOf assembly
  let right ← usize (win.x + win.width)
  let bottom ← usize (win.y + win.height)
  if right ≤ p.width ∧ bottom ≤ height then
    let pixels ← usize (win.width * win.height)
    let size ← usize (pixels * layout.bytesPerPixel)
    match doc.limits.checkMemory size with
    | .ok () => pure (.ok ⟨assembly, layout, size⟩)
    | .error breach => pure (.error (.limitExceeded breach))
  else pure (.error (.outsideCanvas win p.width height))

section
variable {p : Picture} {doc : Document} {request : Request}

theorem height_ok (h : p.declaredHeight < 2 ^ 16) : height p = .ok p.height := by
  rw [height, Picture.height]
  rw [usize_ok (by omega), ok_bind]
  by_cases hmany : p.declaredHeight * 4 < p.strips.size
  · rw [if_pos hmany]
    by_cases hzero : p.declaredHeight = 0
    · rw [if_pos hzero, if_pos ⟨hmany, Or.inl hzero⟩]
      rfl
    · rw [if_neg hzero, divide_ok (by decide), ok_bind, modulo_ok hzero, ok_bind]
      by_cases hrest : p.strips.size / 3 % p.declaredHeight ≠ 0
      · rw [if_pos hrest, if_pos ⟨hmany, Or.inr hrest⟩]
        rfl
      · rw [if_neg hrest, if_neg fun h => h.2.elim hzero hrest]
        rfl
  · rw [if_neg hmany, if_neg fun h => hmany h.1]
    rfl

theorem height_lt (h : p.declaredHeight < 2 ^ 16) : p.height < 2 ^ 32 := by
  unfold Picture.height
  dsimp only
  split <;> omega

theorem stripAssembly_ok (h : p.height < 2 ^ 32) (first : Strip) :
    stripAssembly p p.height first = .ok (p.stripAssembly first) := by
  rw [stripAssembly, Picture.stripAssembly]
  by_cases hwords : first.isWords = true
  · rw [if_pos hwords, if_pos hwords]
    rfl
  rw [if_neg hwords, if_neg hwords]
  by_cases hpalette : p.palette.isSome = true
  · rw [if_pos hpalette, if_pos hpalette]
    rfl
  rw [if_neg hpalette, if_neg hpalette]
  by_cases hzero : p.height = 0
  · rw [if_pos hzero, if_neg fun h => h.1 hzero]
    rfl
  rw [if_neg hzero, usize_ok (by omega), ok_bind, usize_ok (by omega), ok_bind]
  by_cases hrows : p.strips.size = p.height * 3 ∨ p.strips.size = p.height * 4
  · rw [if_pos hrows, if_pos ⟨hzero, hrows⟩, divide_ok hzero]
    rfl
  · rw [if_neg hrows, if_neg fun h => hrows h.2]
    rfl

theorem assembly_ok (h : p.height < 2 ^ 32) (legacy : Bool) :
    assembly p p.height legacy = .ok (p.assembly legacy) := by
  rw [assembly, Picture.assembly]
  split
  · rfl
  · cases p.strips[0]? with
    | none => rfl
    | some first =>
      dsimp only
      rw [stripAssembly_ok h]
      split <;> rfl

/-- Rows that are kept in planes have three strips, or four. -/
theorem strided_assembly (p : Picture) (legacy : Bool) : Strided (p.assembly legacy) := by
  intro stride hstride
  unfold Picture.assembly Picture.stripAssembly at hstride
  split at hstride
  · cases hstride
  split at hstride
  · cases hstride
  split at hstride
  · cases hstride
  dsimp only at hstride
  split at hstride
  · cases hstride
  split at hstride
  · cases hstride
  split at hstride
  case isTrue hrows =>
    obtain ⟨hpos, hstrips⟩ := hrows
    obtain rfl := Assembly.planar.inj hstride
    rcases hstrips with hstrips | hstrips <;>
      rw [hstrips, Nat.mul_div_cancel_left _ (Nat.pos_of_ne_zero hpos)] <;> decide
  case isFalse => cases hstride

/-- A picture whose canvas is as large as words can make it, with as many embedded images as
fewer than `2 ^ 31` bytes have place for. -/
structure Small (p : Picture) : Prop where
  width : p.width < 2 ^ 16
  declared : p.declaredHeight < 2 ^ 16
  offsets : p.jpegOffsets.size ≤ 2 ^ 30

/-- The numbers of a window are words of 32 bits. -/
structure InWords (win : Window) : Prop where
  x : win.x < 2 ^ 32
  y : win.y < 2 ^ 32
  width : win.width < 2 ^ 32
  height : win.height < 2 ^ 32

theorem Small.onCanvas {win : Window} (h : Small p) (hfits : win.fits p.width p.height = true) :
    OnCanvas win := by
  have hwidth := h.width
  have hheight := height_lt h.declared
  rw [Window.fits, Bool.and_eq_true, decide_eq_true_iff, decide_eq_true_iff] at hfits
  exact ⟨by omega, by omega, by omega⟩

theorem bytesPerPixel_le (layout : Layout) : layout.bytesPerPixel ≤ 3 := by
  cases layout <;> decide

theorem OnCanvas.size_lt {win : Window} (h : OnCanvas win) (layout : Layout) :
    win.pixels * layout.bytesPerPixel < 2 ^ 51 := by
  have hpixels := h.pixels_lt
  calc win.pixels * layout.bytesPerPixel ≤ win.pixels * 3 :=
        Nat.mul_le_mul_left _ (bytesPerPixel_le layout)
    _ < 2 ^ 51 := by omega

/-- A request is checked without a fault. -/
theorem plan_ok (h : Small doc.picture) (hwords : InWords request.window) :
    plan doc request = .ok (doc.plan request) := by
  obtain ⟨hx, hy, hwidth, hheight⟩ := hwords
  have hfit : (request.window.x + request.window.width ≤ doc.picture.width ∧
      request.window.y + request.window.height ≤ doc.picture.height) ↔
        request.window.fits doc.picture.width doc.picture.height = true := by
    rw [Window.fits, Bool.and_eq_true, decide_eq_true_iff, decide_eq_true_iff]
  rw [plan, Document.plan]
  dsimp only
  rw [height_ok h.declared, ok_bind, assembly_ok (height_lt h.declared), ok_bind,
    usize_ok (by omega), ok_bind, usize_ok (by omega), ok_bind]
  by_cases hfits : request.window.fits doc.picture.width doc.picture.height = true
  · have hwin := h.onCanvas hfits
    have hpixels : request.window.width * request.window.height < 2 ^ 49 := hwin.pixels_lt
    have hsize : request.window.width * request.window.height *
        (doc.picture.layoutOf (doc.picture.assembly request.legacy)).bytesPerPixel < 2 ^ 51 :=
      hwin.size_lt _
    rw [if_pos (hfit.mpr hfits), if_pos hfits, usize_ok (by omega), ok_bind,
      usize_ok (by omega), ok_bind, Window.pixels]
    cases doc.limits.checkMemory _ <;> rfl
  · rw [if_neg fun h => hfits (hfit.mp h), if_neg hfits]
    rfl

end

/-! ## The caller's decoder -/

def lay : (planes : List (List UInt8)) → (i : Nat) → (out : List UInt8) → Checked (List UInt8)
  | [], _, out => pure out
  | plane :: rest, i, out => do
    let start ← usize (i * plane.length)
    if start ≤ out.length then
      let length := min (out.length - start) plane.length
      let part ← slice plane 0 length
      let out ← copy out start (start + length) part
      lay rest (i + 1) out
    else pure out

theorem overwrite_take {α : Type} (out xs : List α) (p : Nat) :
    overwrite out p (xs.take (min (out.length - p) xs.length)) = overwrite out p xs := by
  have hfront : (xs.take (min (out.length - p) xs.length)).take (out.length - p) =
      xs.take (out.length - p) := by
    rw [List.take_take, List.take_eq_take_iff]
    omega
  have hback : out.drop (p + (xs.take (min (out.length - p) xs.length)).length) =
      out.drop (p + xs.length) := by
    rw [List.length_take]
    by_cases hlong : xs.length ≤ out.length - p
    · congr 1
      omega
    · rw [List.drop_of_length_le (by omega), List.drop_of_length_le (by omega)]
  rw [overwrite, overwrite, hfront, hback]

/-- The planes of a decoder are laid on the buffer without a fault. -/
theorem lay_ok : ∀ {planes : List (List UInt8)} {i : Nat} (out : List UInt8),
    i + planes.length < 2 ^ 31 → (∀ plane ∈ planes, plane.length < 2 ^ 31) →
      lay planes i out = .ok (Fallback.lay planes i out)
  | [], _, _, _, _ => rfl
  | plane :: rest, i, out, hcount, hlength => by
    have hplane : plane.length < 2 ^ 31 := hlength plane List.mem_cons_self
    have hrest : i + 1 + rest.length < 2 ^ 31 := by
      rw [List.length_cons] at hcount
      omega
    have hstart : i * plane.length < 2 ^ 64 := by
      calc i * plane.length ≤ 2 ^ 31 * 2 ^ 31 := Nat.mul_le_mul (by omega) (Nat.le_of_lt hplane)
        _ < 2 ^ 64 := by decide
    rw [lay, usize_ok hstart, ok_bind, Fallback.lay]
    by_cases hplace : i * plane.length ≤ out.length
    · rw [if_pos hplace, if_neg (Nat.not_lt.mpr hplace)]
      dsimp only
      rw [slice_ok (Nat.zero_le _) (Nat.min_le_right _ _), ok_bind, List.drop_zero,
        copy_ok (Nat.le_add_right _ _) (by omega) (by rw [List.length_take]; omega), ok_bind,
        overwrite_take]
      exact lay_ok _ hrest fun plane h => hlength plane (List.mem_cons_of_mem _ h)
    · rw [if_neg hplace, if_pos (Nat.lt_of_not_le hplace)]
      rfl

/-! ## Embedded images -/

/-- Images under each other: how wide rows are, how many there are, and their samples. -/
structure Stack where
  width : Nat
  height : Nat
  pixels : List UInt8

namespace Stack

def empty : Stack := ⟨0, 0, []⟩

def push (stack : Stack) (image : RgbImage) : Stack :=
  { width := if stack.width = 0 then image.width else stack.width
    height := stack.height + image.height
    pixels := stack.pixels ++ image.pixels }

theorem pixels_foldl (images : List RgbImage) : ∀ stack : Stack,
    (images.foldl push stack).pixels = stack.pixels ++ images.flatMap RgbImage.pixels := by
  induction images with
  | nil => exact fun stack => (List.append_nil _).symm
  | cons image images ih =>
    intro stack
    rw [List.foldl_cons, ih, List.flatMap_cons, ← List.append_assoc]
    rfl

/-- Rows are as wide as those of the first image that has any. -/
theorem width_foldl (images : List RgbImage) : ∀ stack : Stack,
    (images.foldl push stack).width =
      if stack.width = 0 then Mosaic.width images else stack.width := by
  induction images with
  | nil =>
    intro stack
    by_cases h : stack.width = 0
    · rw [if_pos h]
      exact h
    · rw [if_neg h]
      rfl
  | cons image images ih =>
    intro stack
    rw [List.foldl_cons, ih, push]
    dsimp only
    by_cases hstack : stack.width = 0
    · rw [if_pos hstack, if_pos hstack, Mosaic.width, Mosaic.width, List.map_cons]
      by_cases himage : image.width = 0
      · rw [if_pos himage, List.find?_cons_of_neg (by simpa using himage)]
      · rw [if_neg himage, List.find?_cons_of_pos (by simpa using himage)]
        rfl
    · rw [if_neg hstack, if_neg hstack, if_neg hstack]

end Stack

/-- What a codec is relied on for: an image has three samples for each of its pixels, and as many
columns and rows as a word of 16 bits can tell. -/
def Keeps (codec : Codec) : Prop :=
  ∀ bytes image, codec bytes = some image →
    image.width ≤ 65535 ∧ image.height ≤ 65535 ∧
      image.pixels.length = 3 * image.width * image.height

/-- `Mosaic.images` on a machine, stacked. -/
def stack (codec : Codec) : List (List UInt8) → Stack → Checked (Except Error Stack)
  | [], done => pure (.ok done)
  | span :: rest, done =>
    match codec span with
    | none => pure (.error .jpeg)
    | some image => do
      let _ ← usize (done.height + image.height)
      let _ ← usize (done.pixels.length + image.pixels.length)
      stack codec rest (done.push image)

/-- Row `i` of a window onto a stack, copied to its place. -/
def stackRow (image : Stack) (stride length : Nat) (win : Window) (out : List UInt8) (i : Nat) :
    Checked (List UInt8) := do
  let y ← usize (win.y + i)
  let above ← usize (y * stride)
  let left ← usize (win.x * 3)
  let start ← usize (above + left)
  let front ← usize (i * length)
  let behind ← usize (front + length)
  let place ← slice out front behind
  if start ≤ image.pixels.length then
    let src := image.pixels.drop start
    let reach := min (min length src.length) (stride - left)
    let part ← slice src 0 reach
    let line ← copy place 0 reach part
    copy out front behind line
  else pure out

/-- `Mosaic.window` on a machine, onto a buffer that is gone through in chunks as long as a
row. -/
def paintStack (image : Stack) (win : Window) (out : List UInt8) : Checked (List UInt8) := do
  let stride ← usize (image.width * 3)
  let length ← usize (win.width * 3)
  let rows := min (out.length / max length 1) win.height
  (List.range rows).foldlM (stackRow image stride length win) out

/-- `Mosaic.paint` on a machine, onto a buffer. -/
def mosaic (codec : Codec) (source : Source) (offsets : List Nat) (win : Window)
    (out : List UInt8) : Checked (Except Error (List UInt8)) := do
  match ← stack codec (Mosaic.spans source offsets) Stack.empty with
  | .error e => pure (.error e)
  | .ok image => do
    let out ← paintStack image win out
    pure (.ok out)

theorem foldlM_ok {α : Type} {f : α → Nat → Checked α} {g : Nat → α} {n : Nat}
    (h : ∀ i < n, f (g i) i = .ok (g (i + 1))) : (List.range n).foldlM f (g 0) = .ok (g n) := by
  induction n with
  | zero => rfl
  | succ n ih =>
    rw [List.range_succ, List.foldlM_append, ih fun i hi => h i (Nat.lt_succ_of_lt hi), ok_bind,
      List.foldlM_cons, h n (Nat.lt_succ_self n), ok_bind]
    rfl

section
variable {codec : Codec} {source : Source}

theorem stack_ok (hcodec : Keeps codec) : ∀ {spans : List (List UInt8)} {done : Stack},
    done.height + spans.length * 2 ^ 16 < 2 ^ 64 →
      done.pixels.length + spans.length * (3 * 2 ^ 32) < 2 ^ 64 →
        stack codec spans done =
          .ok ((fun images => images.foldl Stack.push done) <$> Mosaic.images codec spans)
  | [], _, _, _ => rfl
  | span :: rest, done, hheight, hpixels => by
    rw [stack, Mosaic.images]
    cases himage : codec span with
    | none => rfl
    | some image =>
      obtain ⟨hw, hh, hlength⟩ := hcodec _ _ himage
      have hmost : image.pixels.length ≤ 3 * 2 ^ 32 := by
        calc image.pixels.length = 3 * (image.width * image.height) := by
              rw [hlength, Nat.mul_assoc]
          _ ≤ 3 * (65535 * 65535) := Nat.mul_le_mul_left 3 (Nat.mul_le_mul hw hh)
          _ ≤ 3 * 2 ^ 32 := by decide
      rw [List.length_cons] at hheight hpixels
      dsimp only
      rw [usize_ok (by omega), ok_bind, usize_ok (by omega), ok_bind,
        stack_ok hcodec (by show done.height + image.height + _ < _; omega)
          (by show (done.pixels ++ image.pixels).length + _ < _; rw [List.length_append]; omega)]
      cases Mosaic.images codec rest <;> rfl

/-- Rows of a stack are as wide as those of one of its images. -/
theorem width_images_lt (hcodec : Keeps codec) :
    ∀ {spans : List (List UInt8)} {images : List RgbImage},
      Mosaic.images codec spans = .ok images → Mosaic.width images < 2 ^ 16
  | [], _, h => by
    obtain rfl := Except.ok.inj h
    decide
  | span :: rest, _, h => by
    rw [Mosaic.images] at h
    cases himage : codec span with
    | none =>
      rw [himage] at h
      cases h
    | some image =>
      obtain ⟨hw, -, -⟩ := hcodec _ _ himage
      rw [himage] at h
      cases hrest : Mosaic.images codec rest with
      | error e =>
        rw [hrest] at h
        cases h
      | ok images =>
        rw [hrest] at h
        obtain rfl := Except.ok.inj h
        have ih := width_images_lt hcodec hrest
        have hwidth := Stack.width_foldl (image :: images) Stack.empty
        rw [List.foldl_cons, Stack.width_foldl] at hwidth
        have hfirst : (Stack.empty.push image).width = image.width := rfl
        have hempty : Stack.empty.width = 0 := rfl
        rw [hfirst, hempty, if_pos rfl] at hwidth
        rw [← hwidth]
        split <;> omega

theorem row_eq_fit (samples : List UInt8) (width : Nat) (win : Window) (i : Nat) :
    Mosaic.row samples.toArray width win i =
      fit (win.width * 3)
        ((samples.drop ((win.y + i) * (width * 3) + win.x * 3)).take
          (min (win.width * 3) (width * 3 - win.x * 3))) := by
  rw [Mosaic.row]
  rw [Array.toList_extract, List.extract_eq_take_drop, Nat.add_sub_cancel_left]

def rowsSoFar (samples : List UInt8) (width : Nat) (win : Window) (i : Nat) : List UInt8 :=
  (List.range i).flatMap (Mosaic.row samples.toArray width win)

theorem length_rowsSoFar (samples : List UInt8) (width : Nat) (win : Window) (i : Nat) :
    (rowsSoFar samples width win i).length = i * (win.width * 3) := by
  simp only [rowsSoFar, List.length_flatMap, Mosaic.length_row, List.map_const', List.length_range,
    List.sum_replicate_nat]

theorem stackRow_ok {image : Stack} {win : Window} {n i : Nat} (hwidth : image.width < 2 ^ 16)
    (hwin : OnCanvas win) (hi : i < win.height) (hn : n < 2 ^ 63)
    (hroom : i * (win.width * 3) + win.width * 3 ≤ n) :
    stackRow image (image.width * 3) (win.width * 3) win
        (blocks n [rowsSoFar image.pixels image.width win i]) i =
      .ok (blocks n [rowsSoFar image.pixels image.width win (i + 1)]) := by
  have hleft := hwin.left
  have hbottom := hwin.bottom
  have hy : (win.y + i) * (image.width * 3) ≤ 2 ^ 33 * (2 ^ 16 * 3) :=
    Nat.mul_le_mul (by omega) (by omega)
  have hlength := length_rowsSoFar image.pixels image.width win i
  generalize hrows : rowsSoFar image.pixels image.width win i = rows at hlength
  have hrow : [rows][0]? = some rows := rfl
  have hplace : rows.length + win.width * 3 ≤ n := by omega
  have hfront : i * (win.width * 3) = 0 * n + rows.length := by omega
  have hnext : rowsSoFar image.pixels image.width win (i + 1) =
      rows ++ Mosaic.row image.pixels.toArray image.width win i := by
    rw [← hrows, rowsSoFar, List.range_succ, List.flatMap_append, List.flatMap_singleton, rowsSoFar]
  rw [hnext, row_eq_fit, stackRow, usize_ok (by omega), ok_bind, usize_ok (by omega), ok_bind,
    usize_ok (by omega), ok_bind, usize_ok (by omega), ok_bind, usize_ok (by omega), ok_bind,
    usize_ok (by omega), ok_bind, slice_blocks hrow hplace hfront, ok_bind]
  dsimp only
  generalize hstart : (win.y + i) * (image.width * 3) + win.x * 3 = start
  by_cases hsrc : start ≤ image.pixels.length
  · -- what is reached is what is left of the row of the stack, as far as there are samples
    have hpart : (image.pixels.drop start).take (min (min (win.width * 3)
          (image.pixels.drop start).length) (image.width * 3 - win.x * 3)) =
        ((image.pixels.drop start).take
          (min (win.width * 3) (image.width * 3 - win.x * 3))).take (win.width * 3) := by
      rw [List.take_take, List.take_eq_take_iff]
      omega
    rw [if_pos hsrc, slice_ok (Nat.zero_le _) (by omega), ok_bind, List.drop_zero,
      copy_ok (Nat.zero_le _) (by rw [List.length_replicate]; omega)
        (by rw [List.length_take]; omega), ok_bind, hpart, overwrite_blank,
      copy_blocks hrow hplace hfront (length_fit _ _), List.set_cons_zero]
  · rw [if_neg hsrc, List.drop_of_length_le (by omega), List.take_nil, fit_nil,
      ← blocks_set_zeros hrow (win.width * 3), List.set_cons_zero]
    rfl

theorem paintStack_ok {image : Stack} {win : Window} (hwidth : image.width < 2 ^ 16)
    (hwin : OnCanvas win) :
    paintStack image win (List.replicate (win.pixels * 3) 0) =
      .ok (rowsSoFar image.pixels image.width win win.height) := by
  have hpixels := hwin.pixels_lt
  have hcolumns := hwin.width
  have hsize : win.pixels * 3 = win.width * 3 * win.height := by
    rw [Window.pixels, Nat.mul_right_comm]
  have hall : (rowsSoFar image.pixels image.width win win.height).length = win.pixels * 3 := by
    rw [length_rowsSoFar, hsize, Nat.mul_comm]
  have hblank : blocks (win.pixels * 3) [rowsSoFar image.pixels image.width win 0] =
      List.replicate (win.pixels * 3) 0 := by
    rw [blocks_cons, rowsSoFar, List.range_zero, List.flatMap_nil, fit_nil]
    exact List.append_nil _
  have hfull : blocks (win.pixels * 3) [rowsSoFar image.pixels image.width win win.height] =
      rowsSoFar image.pixels image.width win win.height := by
    rw [blocks_cons, fit_of_length hall]
    exact List.append_nil _
  rw [paintStack, usize_ok (by omega), ok_bind, usize_ok (by omega), ok_bind,
    List.length_replicate, hsize, chunks_eq, ← hsize]
  by_cases hempty : win.width * 3 = 0
  · -- a window without columns has no samples
    rw [if_pos hempty, hsize, hempty, Nat.zero_mul]
    rw [hsize, hempty, Nat.zero_mul] at hall
    rw [List.eq_nil_of_length_eq_zero hall]
    rfl
  · rw [if_neg hempty, ← hblank, ← hfull]
    refine foldlM_ok (g := fun i => blocks (win.pixels * 3)
      [rowsSoFar image.pixels image.width win i]) fun i hi => ?_
    refine stackRow_ok hwidth hwin hi (by omega) ?_
    calc i * (win.width * 3) + win.width * 3 = (i + 1) * (win.width * 3) := (Nat.succ_mul _ _).symm
      _ ≤ win.height * (win.width * 3) := Nat.mul_le_mul_right _ hi
      _ = win.pixels * 3 := by rw [hsize, Nat.mul_comm]

/-- A window onto the embedded images is painted without a fault. -/
theorem mosaic_ok {offsets : List Nat} {win : Window} (hcodec : Keeps codec)
    (hoffsets : offsets.length ≤ 2 ^ 30) (hwin : OnCanvas win) :
    mosaic codec source offsets win (List.replicate (win.pixels * 3) 0) =
      .ok (Mosaic.paint codec source offsets win) := by
  have hspans : (Mosaic.spans source offsets).length = offsets.length := List.length_map _
  rw [mosaic, stack_ok hcodec (by show 0 + _ < _; omega) (by show 0 + _ < _; omega), ok_bind,
    Mosaic.paint]
  cases himages : Mosaic.images codec (Mosaic.spans source offsets) with
  | error e => rfl
  | ok images =>
    have hwidth : (images.foldl Stack.push Stack.empty).width = Mosaic.width images :=
      Stack.width_foldl images Stack.empty
    have hpixels : (images.foldl Stack.push Stack.empty).pixels =
        images.flatMap RgbImage.pixels := Stack.pixels_foldl images Stack.empty
    have hpaint := paintStack_ok (by rw [hwidth]; exact width_images_lt hcodec himages) hwin
    rw [hwidth, hpixels] at hpaint
    exact congrArg (· >>= fun out => pure (Except.ok out)) hpaint

end

/-! ## Reading -/

def paintFallback (source : Source) (decoder : Option FallbackDecoder) :
    Guarded Paper (List UInt8) := do
  step (Job.warn .wholeImageFallback)
  match decoder with
  | none => do
    let paper ← step Job.work
    pure paper.out
  | some decoder => do
    let picture := source.sliceFrom Header.preambleSize
    step (Job.modifyWork fun paper : Paper => { paper with handed := some picture })
    let paper ← step Job.work
    compute (lay ((decoder picture).getD []) 0 paper.out)

def paint (codec : Codec) (doc : Document) (request : Request) (plan : Plan) :
    Guarded Paper (List UInt8) := do
  match plan.assembly with
  | .jpeg => do
    let paper ← step Job.work
    settle (mosaic codec doc.source doc.picture.jpegOffsets.toList request.window paper.out)
  | .fallback => paintFallback doc.source request.fallback
  | .indexed | .gray | .planar _ | .packed555 => do
    paintStrips doc.picture plan.assembly request.window
    let paper ← step Job.work
    pure paper.out

/-- A run on a blank buffer. -/
def meet (codec : Codec) (doc : Document) (request : Request) (plan : Plan) (stop : Stop) :
    Checked (EStateM.Result Error (Session Paper) (List UInt8)) :=
  paint codec doc request plan stop ⟨0, #[], ⟨List.replicate plan.size 0, 0, none⟩⟩

/-- The plane that a request is answered with. -/
def planeWith (request : Request) (plan : Plan) (pixels : List UInt8) : Plane :=
  { pixels
    width := request.window.width
    height := request.window.height
    layout := plan.layout
    bestEffort := plan.assembly = .fallback }

def readWith (codec : Codec) (doc : Document) (request : Request) (stop : Stop) :
    Checked Reading := do
  match ← plan doc request with
  | .error e => pure { report := Report.refused e, handed := none }
  | .ok plan => do
    let r ← meet codec doc request plan stop
    pure { report := (reportOf r).map (planeWith request plan)
           handed := (sessionOf r).work.handed }

def left : EStateM.Result Error (Session Paper) (List UInt8) → List UInt8
  | .ok out _ => out
  | .error _ session => session.work.out

def readIntoWith (codec : Codec) (doc : Document) (request : Request) (buffer : List UInt8)
    (stop : Stop) : Checked Writing := do
  match ← plan doc request with
  | .error e => pure { report := Report.refused e, buffer, handed := none }
  | .ok plan =>
    if buffer.length < plan.size then
      pure { report := Report.refused (.bufferTooSmall plan.size buffer.length)
             buffer
             handed := none }
    else do
      let r ← meet codec doc request plan stop
      let buffer ← copy buffer 0 plan.size (left r)
      pure { report := (reportOf r).map fun _ => plan.layout
             buffer
             handed := (sessionOf r).work.handed }

/-- The caller's decoder, if there is one, answers fewer than `2 ^ 31` planes, each of fewer than
`2 ^ 31` samples. -/
def Bounded (fallback : Option FallbackDecoder) : Prop :=
  ∀ decoder ∈ fallback, ∀ picture planes, decoder picture = some planes →
    planes.length < 2 ^ 31 ∧ ∀ plane ∈ planes, plane.length < 2 ^ 31

/-- What a caller keeps to. -/
structure Fair (codec : Codec) (request : Request) : Prop where
  codec : Keeps codec
  words : InWords request.window
  fallback : Bounded request.fallback

/-- A request is not refused, and as many as `2 ^ 31` rows without a strip are counted before the
stop refuses. -/
structure Overcounts (doc : Document) (request : Request) (stop : Stop) : Prop where
  planned : doc.plan request = .ok (doc.planOf request)
  many : 2 ^ 31 ≤
    counted doc.picture (doc.picture.assembly request.legacy) request.window stop

section
variable {codec : Codec} {doc : Document} {request : Request} {stop : Stop}
variable {s : Session Canvas}

theorem counted_le (p : Picture) (assembly : Assembly) (win : Window) (stop : Stop) :
    counted p assembly win stop ≤ Picture.rowsOf assembly win := by
  have hrange : counted p assembly win stop ≤
      (List.range (stop.rowsBefore (Picture.rowsOf assembly win))).length := List.countP_le_length
  rw [List.length_range] at hrange
  exact Nat.le_trans hrange (stop.rowsBefore_le _)

theorem isStrips_of_counted {p : Picture} {assembly : Assembly} {win : Window}
    (h : 0 < counted p assembly win stop) : assembly.isStrips = true := by
  have hrows := Nat.lt_of_lt_of_le h (counted_le p assembly win stop)
  cases assembly with
  | jpeg | fallback => exact absurd hrows (Nat.lt_irrefl 0)
  | indexed | gray | planar _ | packed555 => rfl

/-- A canvas has more than `2 ^ 31` rows only where there are as many strips. -/
theorem Overcounts.strips (h : Small doc.picture) (hover : Overcounts doc request stop) :
    2 ^ 31 ≤ doc.picture.strips.size := by
  have hfits := (Document.plan_eq_ok.mp hover.planned).1
  simp only [Window.fits, Bool.and_eq_true, decide_eq_true_eq] at hfits
  have hrows : Picture.rowsOf (doc.picture.assembly request.legacy) request.window ≤
      request.window.height := by
    unfold Picture.rowsOf
    split <;> first | (split <;> omega) | omega
  have hcount := counted_le doc.picture (doc.picture.assembly request.legacy) request.window stop
  have hheight : 2 ^ 31 ≤ doc.picture.height := by
    have := hover.many
    omega
  have hdeclared := h.declared
  unfold Picture.height at hheight
  dsimp only at hheight
  split at hheight <;> omega

theorem runs_paintFallback {layout : Layout} {pixels : Nat} (hfallback : Bounded request.fallback)
    (hstart : s.work = Canvas.empty) :
    Runs (paperOf layout pixels) (paintFallback doc.source request.fallback)
      (Fallback.paint doc.source request.fallback (pixels * layout.bytesPerPixel)) stop s
      fun out _ => out.length = pixels * layout.bytesPerPixel := by
  have hlength : (List.replicate (pixels * layout.bytesPerPixel) (0 : UInt8)).length =
      pixels * layout.bytesPerPixel := List.length_replicate
  refine (Runs.warn _).bind fun _ t ht => ?_
  have hlines : t.work.lines = #[] := by
    rw [ht, hstart]
    rfl
  cases hdecoder : request.fallback with
  | none =>
    refine Runs.look ?_
    show Runs _ (pure (t.work.samples layout pixels)) _ stop t _
    rw [Canvas.samples_blank hlines]
    exact Runs.pure hlength
  | some decoder =>
    generalize hpicture : doc.source.sliceFrom Header.preambleSize = picture
    have hhand : Runs (paperOf layout pixels)
        (step (Job.modifyWork fun paper : Paper => { paper with handed := some picture }))
        (Job.modifyWork fun canvas : Canvas => { canvas with handed := some picture }) stop t
        fun _ w => w = { t.work with handed := some picture } := Runs.modifyWork rfl
    refine hhand.bind fun _ u hu => Runs.look ?_
    have hlines' : u.work.lines = #[] := by
      rw [hu]
      exact hlines
    have hlay : lay ((decoder picture).getD []) 0
        (List.replicate (pixels * layout.bytesPerPixel) 0) =
          .ok (Fallback.lay ((decoder picture).getD []) 0
            (List.replicate (pixels * layout.bytesPerPixel) 0)) := by
      cases hanswer : decoder picture with
      | none => rfl
      | some planes =>
        obtain ⟨hcount, hplanes⟩ := hfallback decoder hdecoder _ _ hanswer
        exact lay_ok _ (by rw [Option.getD_some]; omega) hplanes
    show Runs _ (compute (lay _ 0 (u.work.samples layout pixels))) _ stop u _
    rw [Canvas.samples_blank hlines', hlay]
    exact Runs.pure (by rw [Fallback.length_lay, hlength])

theorem runs_paint (h : Small doc.picture) (hfair : Fair codec request)
    (hwin : OnCanvas request.window)
    (hcount : counted doc.picture (doc.picture.assembly request.legacy) request.window stop <
      2 ^ 31) :
    Runs (paperOf (doc.planOf request).layout request.window.pixels)
      (paint codec doc request (doc.planOf request))
      (doc.paint codec request (doc.planOf request)) stop ⟨0, #[], Canvas.empty⟩
      fun pixels _ => pixels.length = (doc.planOf request).size := by
  have hstrided := strided_assembly doc.picture request.legacy
  unfold Document.planOf
  generalize doc.picture.assembly request.legacy = assembly at hstrided hcount
  have hstrips : assembly.isStrips = true →
      Runs (paperOf (doc.picture.layoutOf assembly) request.window.pixels)
        (do
          paintStrips doc.picture assembly request.window
          let paper ← step Job.work
          pure paper.out)
        (do
          doc.picture.paintStrips assembly request.window
          let canvas ← Job.work
          pure (canvas.samples (doc.picture.layoutOf assembly) request.window.pixels)) stop
        ⟨0, #[], Canvas.empty⟩ fun pixels _ => pixels.length =
          request.window.pixels * (doc.picture.layoutOf assembly).bytesPerPixel := fun hs =>
    (runs_paintStrips hs hstrided hwin hcount).bind fun _ t _ =>
      Runs.work (Runs.pure (Canvas.length_samples _ _ _))
  cases assembly with
  | jpeg =>
    have hblank : Canvas.empty.samples .rgb8 request.window.pixels =
        List.replicate (request.window.pixels * 3) 0 := Canvas.samples_blank rfl .rgb8 _
    refine Runs.look ?_
    show Runs _ (settle (mosaic _ _ _ _ (Canvas.empty.samples .rgb8 request.window.pixels))) _
      stop _ _
    rw [hblank]
    exact (Runs.settle (mosaic_ok hfair.codec (by simpa using h.offsets) hwin)).mono fun _ _ hout =>
      Mosaic.length_paint hout.1
  | fallback => exact runs_paintFallback hfair.fallback rfl
  | indexed => exact hstrips rfl
  | gray => exact hstrips rfl
  | planar stride => exact hstrips rfl
  | packed555 => exact hstrips rfl

theorem meet_eq (codec : Codec) (doc : Document) (request : Request) (stop : Stop) :
    meet codec doc request (doc.planOf request) stop =
      paint codec doc request (doc.planOf request) stop
        (sessionVia (paperOf (doc.planOf request).layout request.window.pixels)
          ⟨0, #[], Canvas.empty⟩) := by
  have hblank : paperOf (doc.planOf request).layout request.window.pixels Canvas.empty =
      ⟨List.replicate (doc.planOf request).size 0, 0, none⟩ := by
    rw [paperOf, Canvas.samples_blank rfl]
    rfl
  rw [meet, sessionVia, hblank]

/-- A request that is not refused is met on a blank buffer without a fault. -/
theorem meet_ok {plan : Plan} (h : Small doc.picture) (hfair : Fair codec request)
    (hplan : doc.plan request = .ok plan) (hcount : ¬ Overcounts doc request stop) :
    meet codec doc request plan stop =
        .ok (resultVia (paperOf plan.layout request.window.pixels)
          ((doc.paint codec request plan).run stop Canvas.empty)) ∧
      (Document.written plan request.window
        ((doc.paint codec request plan).run stop Canvas.empty)).length = plan.size := by
  obtain ⟨hfits, -, rfl⟩ := Document.plan_eq_ok.mp hplan
  have hfew : counted doc.picture (doc.picture.assembly request.legacy) request.window stop <
      2 ^ 31 := Nat.lt_of_not_le fun hmany => hcount ⟨hplan, hmany⟩
  have hruns := runs_paint h hfair (h.onCanvas hfits) hfew
  refine ⟨?_, ?_⟩
  · rw [meet_eq]
    exact hruns.same
  · unfold Job.run
    cases hrun : doc.paint codec request (doc.planOf request) stop ⟨0, #[], Canvas.empty⟩ with
    | ok pixels t => exact hruns.leaves hrun
    | error e t => exact Canvas.length_samples _ _ _

/-- With too many rows to count it is not met. -/
theorem meet_faults (h : Small doc.picture) (hover : Overcounts doc request stop) :
    meet codec doc request (doc.planOf request) stop = .error .counter := by
  have hs := isStrips_of_counted (Nat.lt_of_lt_of_le (Nat.two_pow_pos 31) hover.many)
  have hstrips := paintStrips_faults hs (strided_assembly doc.picture request.legacy)
    (h.onCanvas (Document.plan_eq_ok.mp hover.planned).1) hover.many
  rw [meet_eq]
  unfold Document.planOf paint
  generalize doc.picture.assembly request.legacy = assembly at hs hstrips
  cases assembly with
  | jpeg | fallback => cases hs
  | indexed | gray | planar _ | packed555 => exact congrArg (· >>= _) hstrips

/-- A window is read without a fault, unless there are too many rows to count. -/
theorem readWith_ok (h : Small doc.picture) (hfair : Fair codec request)
    (hcount : ¬ Overcounts doc request stop) :
    readWith codec doc request stop = .ok (doc.readWith codec request stop) := by
  rw [readWith, plan_ok h hfair.words, ok_bind, Document.readWith]
  cases hplan : doc.plan request with
  | error e => rfl
  | ok plan =>
    obtain ⟨hmeet, -⟩ := meet_ok h hfair hplan hcount
    dsimp only
    rw [hmeet, ok_bind]
    cases (doc.paint codec request plan).run stop Canvas.empty <;> rfl

theorem readWith_faults (h : Small doc.picture) (hwords : InWords request.window)
    (hover : Overcounts doc request stop) :
    readWith codec doc request stop = .error .counter := by
  rw [readWith, plan_ok h hwords, ok_bind, hover.planned]
  dsimp only
  rw [meet_faults h hover]
  rfl

theorem copy_front {α : Type} {xs ys : List α} (h : ys.length ≤ xs.length) :
    copy xs 0 ys.length ys = .ok (ys ++ xs.drop ys.length) := by
  rw [copy_ok (Nat.zero_le _) h rfl, overwrite_front h]

/-- A window is read into a buffer without a fault, unless the buffer is large enough and there are
too many rows to count. -/
theorem readIntoWith_ok {buffer : List UInt8} (h : Small doc.picture) (hfair : Fair codec request)
    (hcount : Overcounts doc request stop → buffer.length < (doc.planOf request).size) :
    readIntoWith codec doc request buffer stop =
      .ok (doc.readIntoWith codec request buffer stop) := by
  rw [readIntoWith, plan_ok h hfair.words, ok_bind, Document.readIntoWith]
  cases hplan : doc.plan request with
  | error e => rfl
  | ok plan =>
    dsimp only
    by_cases hsmall : buffer.length < plan.size
    · rw [if_pos hsmall, if_pos hsmall]
      rfl
    · have hfew : ¬ Overcounts doc request stop := by
        obtain ⟨-, -, rfl⟩ := Document.plan_eq_ok.mp hplan
        exact fun hover => hsmall (hcount hover)
      obtain ⟨hmeet, hlength⟩ := meet_ok h hfair hplan hfew
      rw [if_neg hsmall, if_neg hsmall, hmeet, ok_bind]
      generalize hrun : (doc.paint codec request plan).run stop Canvas.empty = r at hlength
      have hleft : left (resultVia (paperOf plan.layout request.window.pixels) r) =
          Document.written plan request.window r := by
        cases r <;> rfl
      have hfront : (Document.written plan request.window r).length ≤ buffer.length := by omega
      have hcopy := copy_front hfront
      rw [hlength] at hcopy
      rw [hleft, hcopy, ok_bind]
      cases r <;> rfl

theorem readIntoWith_faults {buffer : List UInt8} (h : Small doc.picture)
    (hwords : InWords request.window) (hover : Overcounts doc request stop)
    (hbuffer : (doc.planOf request).size ≤ buffer.length) :
    readIntoWith codec doc request buffer stop = .error .counter := by
  rw [readIntoWith, plan_ok h hwords, ok_bind, hover.planned]
  dsimp only
  rw [if_neg (Nat.not_lt_of_le hbuffer), meet_faults h hover]
  rfl

end

end Pict.Machine
