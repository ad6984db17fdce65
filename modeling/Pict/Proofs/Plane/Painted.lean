import Pict.Plane.Read
import Pict.Proofs.Run.Steps

/-!
# Windows onto an image

An image is a list of rows of pixels, and `Window.of` is what a window shows of
it. A picture shows an image (`Picture.Shows`) when the scanline of every row
can be taken from its strips, channel by channel.

Results:
* `eachRow_paintRow`: what a window is painted with, row by row.
* `Shows.readWith`: a window onto a picture that shows an image is read as that
  window onto the image, one channel after the other.
-/
namespace Pict

variable {α : Type}

/-- The rows of an image that a window shows, each from its left to its right edge. -/
def Window.of (win : Window) (image : List (List α)) : List (List α) :=
  ((image.drop win.y).take win.height).map fun row => (row.drop win.x).take win.width

def Window.samples (win : Window) (image : List (List α)) (channels : List (α → UInt8)) :
    List UInt8 :=
  channels.flatMap fun channel => (win.of image).flatten.map channel

theorem Window.of_take {win : Window} {n : Nat} (h : win.y + win.height ≤ n)
    (image : List (List α)) : win.of (image.take n) = win.of image := by
  rw [Window.of, Window.of, List.drop_take, List.take_take, Nat.min_eq_left (by omega)]

theorem Window.fits_whole (width height : Nat) :
    (Window.mk 0 0 width height).fits width height = true := by
  simp [Window.fits]

theorem Window.of_whole {width height : Nat} {image : List (List α)}
    (hwidth : ∀ row ∈ image, row.length = width) (hcount : image.length = height) :
    Window.of ⟨0, 0, width, height⟩ image = image := by
  have hrow : ∀ row ∈ image, (row.drop 0).take width = row := by
    intro row hrow
    rw [List.drop_zero, ← hwidth row hrow, List.take_length]
  rw [Window.of, List.drop_zero, ← hcount, List.take_length]
  exact (List.map_congr_left hrow).trans (List.map_id _)

namespace Picture

def line (p : Picture) (assembly : Assembly) (win : Window) (i : Nat) : Scanline :=
  (p.scanline? assembly win i).getD (Scanline.blank (p.layoutOf assembly).planes win.width)

/-- Whether a row of a window is painted black. -/
def isMissing (p : Picture) (assembly : Assembly) (win : Window) (i : Nat) : Bool :=
  (p.scanline? assembly win i).isNone

/-! ## Painting -/

/-- The canvas on which row `i` of a window is painted besides. -/
def withRow (p : Picture) (assembly : Assembly) (win : Window) (i : Nat) (canvas : Canvas) :
    Canvas :=
  { canvas with
    lines := canvas.lines.push (p.line assembly win i)
    missing := if p.isMissing assembly win i then canvas.missing + 1 else canvas.missing }

theorem paintRow_apply (p : Picture) (assembly : Assembly) (win : Window) (i : Nat) (stop : Stop)
    (s : Session Canvas) :
    p.paintRow assembly win i stop s =
      .ok true { s with work := p.withRow assembly win i s.work } := by
  unfold paintRow withRow line isMissing
  cases p.scanline? assembly win i <;> rfl

/-- Rows that are painted one after the other leave their lines behind each other, and the missing
ones are counted as far as a signed word goes. -/
theorem foldl_withRow (p : Picture) (assembly : Assembly) (win : Window) (rows : List Nat)
    (canvas : Canvas) :
    rows.foldl (fun canvas i => p.withRow assembly win i canvas) canvas =
      { canvas with
        lines := canvas.lines ++ (rows.map (p.line assembly win)).toArray
        missing := canvas.missing + Int32.ofNat (rows.countP (p.isMissing assembly win)) } := by
  induction rows generalizing canvas with
  | nil => simp
  | cons i rows ih =>
    rw [List.foldl_cons, ih, withRow, List.countP_cons, Canvas.mk.injEq]
    refine ⟨?_, ?_, rfl⟩
    · rw [← Array.toList_inj]
      simp
    · cases p.isMissing assembly win i with
      | false => rfl
      | true =>
        have hone : (if true = true then 1 else 0) = 1 := rfl
        rw [if_pos rfl, hone, Int32.ofNat_add, Int32.add_assoc, Int32.add_comm 1]
        rfl

/-- All rows are painted in order, and none of them warns. -/
theorem eachRow_paintRow (p : Picture) (assembly : Assembly) (win : Window) (n : Nat) :
    ∀ (i : Nat) (s : Session Canvas),
      ∃ t, Job.eachRow (p.paintRow assembly win) i n .never s = .ok () t ∧
        t.work = (List.range' i n).foldl (fun canvas i => p.withRow assembly win i canvas) s.work ∧
        t.warnings = s.warnings := by
  induction n with
  | zero => exact fun i s => ⟨s, rfl, rfl, rfl⟩
  | succ n ih =>
    intro i s
    obtain ⟨t, ht, hwork, hwarnings⟩ := Job.checkRow_never i s
    obtain ⟨u, hu, huwork, huwarnings⟩ := ih (i + 1) { t with work := p.withRow assembly win i t.work }
    refine ⟨u, ?_, ?_, huwarnings.trans hwarnings⟩
    · rw [Job.eachRow, Job.bind_apply, ht]
      dsimp only
      rw [Job.bind_apply, paintRow_apply]
      exact hu
    · rw [huwork, hwork, List.range'_succ, List.foldl_cons]

/-- How many of the first `i` rows of a window are painted black. -/
def missingBefore (p : Picture) (assembly : Assembly) (win : Window) (i : Nat) : Nat :=
  (List.range i).countP (p.isMissing assembly win)

/-- How many of all its rows are. -/
def missingRows (p : Picture) (assembly : Assembly) (win : Window) : Nat :=
  p.missingBefore assembly win (rowsOf assembly win)

/-- The warning for rows that are painted black, if their count is positive. -/
def missingWarnings (assembly : Assembly) (count : Int32) : List Warning :=
  if 0 < count then [missingWarning assembly count.toNatClampNeg] else []

/-- Under a stop that never fires all lines of a window are painted, and the count of the black ones
is told. -/
theorem paintStrips_never (p : Picture) (assembly : Assembly) (win : Window) (s : Session Canvas) :
    ∃ t, p.paintStrips assembly win .never s = .ok () t ∧ t.work.lines =
      s.work.lines ++ ((List.range' 0 (rowsOf assembly win)).map (p.line assembly win)).toArray ∧
      t.warnings = s.warnings ++
        missingWarnings assembly (s.work.missing + Int32.ofNat (p.missingRows assembly win)) := by
  obtain ⟨t, ht, hwork, hwarnings⟩ := p.eachRow_paintRow assembly win (rowsOf assembly win) 0 s
  rw [foldl_withRow] at hwork
  have hmissing : t.work.missing = s.work.missing + Int32.ofNat (p.missingRows assembly win) := by
    rw [hwork, missingRows, missingBefore, List.range_eq_range']
  unfold paintStrips missingWarnings
  rw [Job.bind_apply, ht]
  dsimp only
  rw [Job.bind_apply, Job.work_apply]
  dsimp only
  rw [← hmissing]
  split
  · exact ⟨_, Job.warn_apply .never t _, by rw [hwork], by simp [hwarnings]⟩
  · exact ⟨t, rfl, by rw [hwork], by simp [hwarnings]⟩

end Picture

/-! ## Reading -/

/-- Whether strips are taken row by row. -/
def Assembly.isStrips : Assembly → Bool
  | .indexed | .gray | .planar _ | .packed555 => true
  | .jpeg | .fallback => false

namespace Picture

/-- The picture shows the image: each of its rows can be cropped from the strips
that the assembly takes, one plane for each channel. -/
structure Shows (p : Picture) (assembly : Assembly) (image : List (List α))
    (channels : List (α → UInt8)) : Prop where
  assembled : p.assembly false = assembly
  strips : assembly.isStrips = true
  planes : (p.layoutOf assembly).planes = channels.length
  height : image.length = p.height
  width : ∀ row ∈ image, row.length = p.width
  line : ∀ (win : Window) (i : Nat) (row : List α), image[win.y + i]? = some row →
    win.x + win.width ≤ p.width →
    p.scanline? assembly win i =
      some (channels.map fun channel => ((row.drop win.x).take win.width).map channel)

end Picture

theorem getElem?_of (win : Window) (image : List (List α)) {i : Nat} (h : i < win.height) :
    (win.of image)[i]? = image[win.y + i]?.map fun row => (row.drop win.x).take win.width := by
  rw [Window.of, List.getElem?_map, List.getElem?_take_of_lt h, List.getElem?_drop]

/-- A window on the canvas shows as many pixels as it has. -/
theorem length_flatten_of {win : Window} {image : List (List α)} {width : Nat}
    (hrows : ∀ row ∈ image, row.length = width) (hx : win.x + win.width ≤ width)
    (hy : win.y + win.height ≤ image.length) : (win.of image).flatten.length = win.pixels := by
  have hrow : ∀ row ∈ (image.drop win.y).take win.height,
      ((row.drop win.x).take win.width).length = win.width := by
    intro row hrow
    have := hrows row (List.mem_of_mem_drop (List.mem_of_mem_take hrow))
    rw [List.length_take, List.length_drop]
    omega
  have hcount : ((image.drop win.y).take win.height).length = win.height := by
    rw [List.length_take, List.length_drop]
    omega
  rw [List.length_flatten, Window.of, List.map_map]
  rw [List.map_congr_left (f := List.length ∘ _) (g := fun _ => win.width) hrow, List.map_const',
    hcount, List.sum_replicate_nat, Window.pixels, Nat.mul_comm]

namespace Picture.Shows

variable {p : Picture} {assembly : Assembly} {image : List (List α)} {channels : List (α → UInt8)}
  {win : Window}

theorem lines (h : p.Shows assembly image channels) (hwin : win.fits p.width p.height = true) :
    (List.range' 0 win.height).map (p.line assembly win) =
      (win.of image).map fun row => channels.map fun channel => row.map channel := by
  simp only [Window.fits, Bool.and_eq_true, decide_eq_true_eq] at hwin
  have hlen : (win.of image).length = win.height := by
    rw [Window.of, List.length_map, List.length_take, List.length_drop, h.height]
    omega
  refine List.ext_getElem? fun i => ?_
  by_cases hi : i < win.height
  · have hb : win.y + i < image.length := by
      rw [h.height]
      omega
    have hrow : image[win.y + i]? = some image[win.y + i] := List.getElem?_eq_getElem hb
    have hline := h.line win i _ hrow hwin.1
    rw [List.getElem?_map, List.getElem?_map, getElem?_of win image hi, hrow,
      List.getElem?_range' hi]
    simp only [Option.map_some, Nat.zero_add, Nat.one_mul, Picture.line, hline, Option.getD_some]
  · rw [List.getElem?_eq_none (by simpa using hi), List.getElem?_eq_none (by simpa [hlen] using hi)]

theorem flatMap_lines (rows : List (List α)) (channels : List (α → UInt8)) (c : Nat) :
    ((rows.map fun row => channels.map fun channel => row.map channel).flatMap
        fun line => line.getD c []) =
      (channels[c]?.map fun channel => rows.flatten.map channel).getD [] := by
  induction rows with
  | nil => cases channels[c]? <;> rfl
  | cons row rows ih =>
    rw [List.map_cons, List.flatMap_cons, ih, List.getD_eq_getElem?_getD, List.getElem?_map]
    cases channels[c]? with
    | none => rfl
    | some channel => simp

theorem flatMap_range {β : Type} (g : Option (α → UInt8) → List β) :
    ∀ channels : List (α → UInt8),
      (List.range channels.length).flatMap (fun c => g channels[c]?) =
        channels.flatMap fun channel => g (some channel)
  | [] => rfl
  | channel :: channels => by
    rw [List.length_cons, List.range_succ_eq_map, List.flatMap_cons, List.flatMap_map,
      List.flatMap_cons, ← flatMap_range g channels]
    rfl

/-- What is painted of a window is what the window shows, channel by channel. -/
theorem samples (h : p.Shows assembly image channels) (hwin : win.fits p.width p.height = true)
    {canvas : Canvas}
    (hlines : canvas.lines.toList =
      (List.range' 0 (rowsOf assembly win)).map (p.line assembly win)) :
    canvas.samples (p.layoutOf assembly) win.pixels = win.samples image channels := by
  have hfits := hwin
  simp only [Window.fits, Bool.and_eq_true, decide_eq_true_eq] at hfits
  have hlen := length_flatten_of h.width hfits.1 (by rw [h.height]; exact hfits.2)
  have hpitch : (p.layoutOf assembly).pitch = 1 := by
    have := h.strips
    cases assembly <;> first | rfl | cases this
  have hplane : ∀ c, canvas.plane win.pixels c =
      fit win.pixels ((channels[c]?.map fun channel => (win.of image).flatten.map channel).getD []) :=
    by
    intro c
    rw [Canvas.plane, hlines]
    by_cases hn : rowsOf assembly win = win.height
    · rw [hn, h.lines hwin, flatMap_lines]
    · -- a single plane passes over a window without columns
      have hpixels : win.pixels = 0 := by
        have := h.strips
        have : win.width = 0 := by
          cases assembly <;> simp_all [rowsOf, Assembly.isStrips]
        rw [Window.pixels, this, Nat.zero_mul]
      rw [hpixels]
      exact List.eq_nil_of_length_eq_zero (length_fit _ _) |>.trans
        (List.eq_nil_of_length_eq_zero (length_fit _ _)).symm
  have hfit : ∀ channel : α → UInt8, fit win.pixels ((win.of image).flatten.map channel) =
      (win.of image).flatten.map channel := by
    intro channel
    exact fit_of_length (by rw [List.length_map, hlen])
  rw [Canvas.samples, h.planes, hpitch, Nat.mul_one, funext hplane,
    flatMap_range (fun channel => fit win.pixels
      ((channel.map fun channel => (win.of image).flatten.map channel).getD []))]
  simp only [Option.map_some, Option.getD_some, hfit]
  rfl

/-- A window onto a picture that shows an image is read as that window onto the image. -/
theorem readWith (h : p.Shows assembly image channels) (hwin : win.fits p.width p.height = true)
    (codec : Codec) (source : Source) :
    (Document.readWith codec ⟨source, .unlimited, p⟩ (Request.ofWindow win) .never).report.result =
      .ok
        { pixels := win.samples image channels
          width := win.width
          height := win.height
          layout := p.layoutOf assembly
          bestEffort := false } := by
  have hplan : Document.plan ⟨source, .unlimited, p⟩ (Request.ofWindow win) =
      .ok ⟨assembly, p.layoutOf assembly, win.pixels * (p.layoutOf assembly).bytesPerPixel⟩ := by
    rw [Document.plan]
    show (if win.fits p.width p.height = true then _ else _) = _
    rw [if_pos hwin]
    show Except.ok (Plan.mk (p.assembly false) (p.layoutOf (p.assembly false))
      (win.pixels * (p.layoutOf (p.assembly false)).bytesPerPixel)) = _
    rw [h.assembled]
  have hbest : assembly ≠ .fallback := by
    intro he
    have := h.strips
    rw [he] at this
    cases this
  have hpaint : ∀ plan : Plan, plan.assembly = assembly →
      Document.paint codec ⟨source, .unlimited, p⟩ (Request.ofWindow win) plan =
        (p.paintStrips plan.assembly win >>= fun _ => Job.work >>= fun canvas =>
          pure (canvas.samples plan.layout win.pixels)) := by
    rintro plan rfl
    have := h.strips
    unfold Document.paint
    split <;> first | rfl | (rename_i ha; rw [ha] at this; cases this)
  obtain ⟨t, ht, hlines, -⟩ := p.paintStrips_never assembly win ⟨0, #[], Canvas.empty⟩
  have hlines : t.work.lines.toList =
      (List.range' 0 (rowsOf assembly win)).map (p.line assembly win) := by
    rw [hlines]
    simp [Canvas.empty]
  rw [Document.readWith, hplan]
  dsimp only
  rw [hpaint _ rfl, Job.run, Job.bind_apply, ht]
  dsimp only
  rw [Job.bind_apply, Job.work_apply]
  dsimp only
  rw [Job.pure_apply, h.samples hwin hlines]
  simp only [Report.map, reportOf, resultOf, decide_eq_false hbest]
  rfl

end Picture.Shows
end Pict
