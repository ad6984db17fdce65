import Pict.Proofs.Plane.Stacked

/-!
# Reading into a buffer

A window is read as a new plane, or into the front of a buffer of the caller's. Both ways make the same
plan and paint it in the same run, so that they are refused for the same reasons and tell the same of
what they meet. Whether the buffer is large enough is asked behind the plan and in front of the run. A
run that ends has painted the front of the buffer from one end to the other, whatever stood there.

Results:
* `plan_eq_error`: which requests are refused, and why.
* `readIntoWith_report`: what is met is told alike by both ways, under any stop.
* `readIntoWith_painted`, `readIntoWith_failed`: the buffer afterwards.
* `readWith_eq_error`, `readIntoWith_eq_error`: what both ways fail with.
* `readIntoWith_agrees`: all that can become of a request that is read in both ways.
-/
namespace Pict

/-- The window reaches over the right or the lower edge of a canvas of this size. -/
def Window.Exceeds (win : Window) (width height : Nat) : Prop :=
  width < win.x + win.width ∨ height < win.y + win.height

theorem Window.not_exceeds_iff {win : Window} {width height : Nat} :
    ¬ win.Exceeds width height ↔ win.fits width height = true := by
  simp only [Exceeds, fits, not_or, Nat.not_lt, Bool.and_eq_true, decide_eq_true_eq]

theorem Limits.not_allows_iff {bound : Option Nat} {value : Nat} :
    ¬ allows bound value ↔ ∃ limit, bound = some limit ∧ limit < value := by
  simp only [allows, Option.mem_def, not_forall, Nat.not_le, exists_prop]

namespace Document

variable {codec : Codec} {doc : Document} {request : Request} {buffer : List UInt8} {stop : Stop}
  {plan : Plan} {e : Error}

/-! ## Refusals -/

/-- A request is refused for its window, and then for its memory. -/
theorem plan_eq_error : doc.plan request = .error e ↔
    request.window.Exceeds doc.picture.width doc.picture.height ∧
        e = .outsideCanvas request.window doc.picture.width doc.picture.height ∨
      ¬ request.window.Exceeds doc.picture.width doc.picture.height ∧
        ∃ limit, doc.limits.memory = some limit ∧ limit < (doc.planOf request).size ∧
          e = .limitExceeded (.memory (doc.planOf request).size limit) := by
  by_cases hexceeds : request.window.Exceeds doc.picture.width doc.picture.height
  · have hout : ¬ request.window.fits doc.picture.width doc.picture.height = true := by
      rwa [← Window.not_exceeds_iff, not_not]
    have hplan : doc.plan request =
        .error (.outsideCanvas request.window doc.picture.width doc.picture.height) := by
      simp only [Document.plan, if_neg hout]
    simp [hplan, hexceeds, eq_comm]
  · have hfits := Window.not_exceeds_iff.mp hexceeds
    by_cases hmemory : Limits.allows doc.limits.memory (doc.planOf request).size
    · simp only [plan_eq_ok.mpr ⟨hfits, hmemory, rfl⟩, hexceeds]
      constructor
      · intro hok
        cases hok
      · rintro (⟨hfalse, -⟩ | ⟨-, limit, hlimit, hlt, -⟩)
        · exact hfalse.elim
        · exact absurd (hmemory limit hlimit) (Nat.not_le.mpr hlt)
    · obtain ⟨limit, hlimit, hlt⟩ := Limits.not_allows_iff.mp hmemory
      have hbreach : doc.limits.checkMemory (doc.planOf request).size =
          .error (.memory (doc.planOf request).size limit) := by
        simp only [Limits.checkMemory, Limits.bounded, hlimit, if_pos hlt]
      have hplan : doc.plan request =
          .error (.limitExceeded (.memory (doc.planOf request).size limit)) := by
        unfold planOf at hbreach ⊢
        simp only [Document.plan, if_pos hfits, hbreach]
      simp [hplan, hexceeds, hlimit, hlt, eq_comm]

theorem readWith_refused (h : doc.plan request = .error e) :
    doc.readWith codec request stop = ⟨.refused e, none⟩ := by
  unfold readWith
  rw [h]

theorem readIntoWith_refused (h : doc.plan request = .error e) :
    doc.readIntoWith codec request buffer stop = ⟨.refused e, buffer, none⟩ := by
  unfold readIntoWith
  rw [h]

theorem readIntoWith_tooSmall (h : doc.plan request = .ok plan) (hlt : buffer.length < plan.size) :
    doc.readIntoWith codec request buffer stop =
      ⟨.refused (.bufferTooSmall plan.size buffer.length), buffer, none⟩ := by
  unfold readIntoWith
  rw [h]
  exact if_pos hlt

/-! ## Runs -/

section
variable (h : doc.plan request = .ok plan) (hbuffer : plan.size ≤ buffer.length)
include h hbuffer

/-- What is met is told as its run tells it, and leaves what that has painted in front of the rest of the
buffer. -/
theorem readIntoWith_run : doc.readIntoWith codec request buffer stop =
    let run := (doc.paint codec request plan).run stop Canvas.empty
    ⟨(reportOf run).map fun _ => plan.layout,
      written plan request.window run ++ buffer.drop plan.size, (sessionOf run).work.handed⟩ := by
  unfold readIntoWith
  rw [h]
  exact if_neg (Nat.not_lt.mpr hbuffer)

/-- It is told as if a plane were read of which only the layout is kept. -/
theorem readIntoWith_report :
    (doc.readIntoWith codec request buffer stop).report =
        (doc.readWith codec request stop).report.map Plane.layout ∧
      (doc.readIntoWith codec request buffer stop).handed =
        (doc.readWith codec request stop).handed := by
  rw [readIntoWith_run h hbuffer]
  unfold readWith
  rw [h]
  dsimp only
  cases (doc.paint codec request plan).run stop Canvas.empty with
  | ok pixels s => exact ⟨rfl, rfl⟩
  | error e s => exact ⟨rfl, rfl⟩

end

/-- Embedded JPEG is all that fails under a stop that never fires, and then nothing is painted. -/
theorem paint_failed {s : Session Canvas}
    (h : (doc.paint codec request (doc.planOf request)).run .never Canvas.empty = .error e s) :
    e = .jpeg ∧ s.work = Canvas.empty := by
  refine ⟨(doc.heeds_paint codec request (doc.planOf request)).fails h, ?_⟩
  have hresult := doc.paint_never codec request
  rw [h] at hresult
  unfold painted at hresult
  unfold paint planOf at h
  cases hassembly : doc.picture.assembly request.legacy with
  | jpeg =>
    simp only [hassembly] at h
    cases hpaint : Mosaic.paint codec doc.source doc.picture.jpegOffsets.toList request.window with
    | ok pixels =>
      rw [hpaint] at h
      cases h
    | error e' =>
      rw [hpaint] at h
      obtain ⟨-, rfl⟩ := EStateM.Result.error.inj h
      rfl
  | fallback | indexed | gray | planar _ | packed555 =>
    rw [hassembly] at hresult
    cases hresult

theorem spans_eq_nil (h : doc.picture.assembly request.legacy ≠ .jpeg) : doc.spans = [] := by
  have hnone : doc.picture.jpegOffsets = #[] := by
    by_contra hsome
    exact h (congrArg Plan.assembly (planOf_jpeg hsome request))
  unfold spans
  rw [hnone]
  rfl

theorem painted_error : doc.painted codec request = .error e ↔
    e = .jpeg ∧ ∃ span ∈ doc.spans, codec span = none := by
  unfold painted
  cases hassembly : doc.picture.assembly request.legacy with
  | jpeg =>
    show Mosaic.paint codec _ _ _ = _ ↔ _
    rw [Mosaic.paint, map_eq_error, ← spans]
    constructor
    · intro h
      obtain rfl := Mosaic.images_error h
      exact ⟨rfl, Mosaic.images_error_iff.mp h⟩
    · intro h
      rw [h.1]
      exact Mosaic.images_error_iff.mpr h.2
  | fallback | indexed | gray | planar _ | packed555 =>
    have hother : doc.picture.assembly request.legacy ≠ .jpeg := by
      rw [hassembly]
      exact nofun
    have hnone := spans_eq_nil hother
    simp [hnone]

section
variable (hplan : doc.plan request = .ok (doc.planOf request))
include hplan

theorem readWith_met : (doc.readWith codec request .never).report.result =
    doc.planeOf request <$> doc.painted codec request := by
  rw [← doc.paint_never codec request]
  unfold readWith
  rw [hplan]
  rfl

variable (hbuffer : (doc.planOf request).size ≤ buffer.length)
include hbuffer

/-- A plane that is read is what stands in front of the rest of the buffer. -/
theorem readIntoWith_painted {pixels : List UInt8} (h : doc.painted codec request = .ok pixels) :
    pixels.length = (doc.planOf request).size ∧
      (doc.readIntoWith codec request buffer .never).buffer =
        pixels ++ buffer.drop (doc.planOf request).size := by
  rw [readIntoWith_run hplan hbuffer]
  rw [← doc.paint_never codec request] at h
  cases hrun : (doc.paint codec request (doc.planOf request)).run .never Canvas.empty with
  | error e s =>
    rw [hrun] at h
    cases h
  | ok painted s =>
    rw [hrun] at h
    obtain rfl := Except.ok.inj h
    exact ⟨length_paint hrun, rfl⟩

/-- Where embedded JPEG fails, zeros stand there. -/
theorem readIntoWith_failed (h : doc.painted codec request = .error e) :
    (doc.readIntoWith codec request buffer .never).buffer =
      List.replicate (doc.planOf request).size 0 ++ buffer.drop (doc.planOf request).size := by
  rw [readIntoWith_run hplan hbuffer]
  rw [← doc.paint_never codec request] at h
  cases hrun : (doc.paint codec request (doc.planOf request)).run .never Canvas.empty with
  | ok painted s =>
    rw [hrun] at h
    cases h
  | error e' s =>
    have hnothing : s.work.lines = #[] := by
      rw [(paint_failed hrun).2]
      rfl
    show s.work.samples _ _ ++ _ = _
    rw [Canvas.samples_blank hnothing]
    rfl

/-- A plane and a buffer fail by the same span, or hold the same samples. -/
theorem readIntoWith_met :
    let size := (doc.planOf request).size
    let reading := doc.readWith codec request .never
    let writing := doc.readIntoWith codec request buffer .never
    writing.report = reading.report.map Plane.layout ∧ writing.handed = reading.handed ∧
      ((∀ span ∈ doc.spans, codec span ≠ none) → ∃ plane,
        reading.report.result = .ok plane ∧ writing.report.result = .ok plane.layout ∧
        plane.pixels.length = size ∧ writing.buffer = plane.pixels ++ buffer.drop size) ∧
      ((∃ span ∈ doc.spans, codec span = none) →
        reading.report.result = .error .jpeg ∧ writing.report.result = .error .jpeg ∧
        writing.buffer = List.replicate size 0 ++ buffer.drop size) := by
  intro size reading writing
  have hreading : reading.report.result = doc.planeOf request <$> doc.painted codec request :=
    readWith_met hplan
  obtain ⟨hreport, hhanded⟩ : writing.report = reading.report.map Plane.layout ∧
    writing.handed = reading.handed := readIntoWith_report hplan hbuffer
  have hwriting : writing.report.result = Plane.layout <$> reading.report.result :=
    congrArg Report.result hreport
  refine ⟨hreport, hhanded, fun hdecodes => ?_, fun hfails => ?_⟩
  · cases hpainted : doc.painted codec request with
    | error e =>
      obtain ⟨-, span, hmem, hnone⟩ := painted_error.mp hpainted
      exact absurd hnone (hdecodes span hmem)
    | ok pixels =>
      obtain ⟨hlength, hfront⟩ := readIntoWith_painted hplan hbuffer hpainted
      refine ⟨doc.planeOf request pixels, ?_, ?_, hlength, hfront⟩
      · rw [hreading, hpainted]
        rfl
      · rw [hwriting, hreading, hpainted]
        rfl
  · have hpainted : doc.painted codec request = .error .jpeg := painted_error.mpr ⟨rfl, hfails⟩
    have hjpeg : reading.report.result = .error .jpeg := by
      rw [hreading, hpainted]
      rfl
    refine ⟨hjpeg, ?_, readIntoWith_failed hplan hbuffer hpainted⟩
    rw [hwriting, hjpeg]
    rfl

end

/-! ## Both ways -/

/-- What a read fails with under a stop that never fires. -/
theorem readWith_eq_error : (doc.readWith codec request .never).report.result = .error e ↔
    doc.plan request = .error e ∨
      doc.plan request = .ok (doc.planOf request) ∧
        e = .jpeg ∧ ∃ span ∈ doc.spans, codec span = none := by
  cases hplan : doc.plan request with
  | error refusal => simp [readWith_refused hplan, Report.refused]
  | ok plan =>
    obtain rfl := (plan_eq_ok.mp hplan).2.2
    simp [readWith_met hplan, map_eq_error, painted_error]

/-- The same of reading into a buffer, which can be too small. -/
theorem readIntoWith_eq_error :
    (doc.readIntoWith codec request buffer .never).report.result = .error e ↔
      doc.plan request = .error e ∨
        doc.plan request = .ok (doc.planOf request) ∧
          (buffer.length < (doc.planOf request).size ∧
              e = .bufferTooSmall (doc.planOf request).size buffer.length ∨
            (doc.planOf request).size ≤ buffer.length ∧
              e = .jpeg ∧ ∃ span ∈ doc.spans, codec span = none) := by
  cases hplan : doc.plan request with
  | error refusal => simp [readIntoWith_refused hplan, Report.refused]
  | ok plan =>
    obtain rfl := (plan_eq_ok.mp hplan).2.2
    by_cases hlt : buffer.length < (doc.planOf request).size
    · simp [readIntoWith_tooSmall hplan hlt, Report.refused, hlt, Nat.not_le.mpr hlt, eq_comm]
    · have hbuffer := Nat.le_of_not_lt hlt
      rw [(readIntoWith_report hplan hbuffer).1]
      show Plane.layout <$> _ = _ ↔ _
      simp [readWith_met hplan, map_eq_error, painted_error, hlt, hbuffer]

/-- A request is read in both ways, under a stop that never fires. A window that is not on the canvas is
refused by both, then a plane above the memory limit, and then a buffer that is too small, which only
the second way has; what is refused leaves the buffer as it is. Whatever is not refused is told alike by
both. Either it fails by a span of embedded JPEG that does not decode, and the front of the buffer is
black, or the front of the buffer is the plane that is read. The rest of the buffer stays as it is. -/
theorem readIntoWith_agrees (codec : Codec) (doc : Document) (request : Request)
    (buffer : List UInt8) :
    let win := request.window
    let needed := win.width * win.height * (doc.planOf request).layout.bytesPerPixel
    let outside := win.Exceeds doc.picture.width doc.picture.height
    let allowed := Limits.allows doc.limits.memory needed
    let reading := doc.readWith codec request .never
    let writing := doc.readIntoWith codec request buffer .never
    (∀ shown width height,
      let refused := outside ∧
        shown = win ∧ width = doc.picture.width ∧ height = doc.picture.height
      (reading.report.result = .error (.outsideCanvas shown width height) ↔ refused) ∧
        (writing.report.result = .error (.outsideCanvas shown width height) ↔ refused)) ∧
    (¬ outside → ∀ breach,
      let refused := ∃ limit, doc.limits.memory = some limit ∧ limit < needed ∧
        breach = .memory needed limit
      (reading.report.result = .error (.limitExceeded breach) ↔ refused) ∧
        (writing.report.result = .error (.limitExceeded breach) ↔ refused)) ∧
    (¬ outside → allowed → ∀ size actual,
      (writing.report.result = .error (.bufferTooSmall size actual) ↔
        buffer.length < needed ∧ size = needed ∧ actual = buffer.length)) ∧
    (outside ∨ ¬ allowed ∨ buffer.length < needed → writing.buffer = buffer) ∧
    (¬ outside → allowed → needed ≤ buffer.length →
      writing.report = reading.report.map Plane.layout ∧ writing.handed = reading.handed ∧
      ((∀ span ∈ doc.spans, codec span ≠ none) → ∃ plane,
        reading.report.result = .ok plane ∧ writing.report.result = .ok plane.layout ∧
        plane.pixels.length = needed ∧ writing.buffer = plane.pixels ++ buffer.drop needed) ∧
      ((∃ span ∈ doc.spans, codec span = none) →
        reading.report.result = .error .jpeg ∧ writing.report.result = .error .jpeg ∧
        writing.buffer = List.replicate needed 0 ++ buffer.drop needed)) := by
  intro win needed outside allowed reading writing
  have hplan (hinside : ¬ outside) (hallowed : allowed) :
      doc.plan request = .ok (doc.planOf request) :=
    plan_eq_ok.mpr ⟨Window.not_exceeds_iff.mp hinside, hallowed, rfl⟩
  have hrefused (e : Error) : doc.plan request = .error e ↔
      outside ∧ e = .outsideCanvas win doc.picture.width doc.picture.height ∨
        ¬ outside ∧ ∃ limit, doc.limits.memory = some limit ∧ limit < needed ∧
          e = .limitExceeded (.memory needed limit) := plan_eq_error
  refine ⟨?_, ?_, ?_, ?_, ?_⟩
  · intro shown width height refused
    simp [reading, writing, refused, readWith_eq_error, readIntoWith_eq_error, hrefused]
  · intro hinside breach refused
    simp [reading, writing, refused, readWith_eq_error, readIntoWith_eq_error, hrefused, hinside]
  · intro hinside hallowed size actual
    have hmet := hplan hinside hallowed
    have htoo : writing.report.result = .error (.bufferTooSmall size actual) ↔
        buffer.length < (doc.planOf request).size ∧
          size = (doc.planOf request).size ∧ actual = buffer.length := by
      simp [writing, readIntoWith_eq_error, hmet]
    exact htoo
  · intro h
    cases hasked : doc.plan request with
    | error e => exact congrArg Writing.buffer (readIntoWith_refused hasked)
    | ok plan =>
      obtain ⟨hfits, hallowed, rfl⟩ := plan_eq_ok.mp hasked
      have hlt : buffer.length < needed :=
        (h.resolve_left (Window.not_exceeds_iff.mpr hfits)).resolve_left (not_not_intro hallowed)
      exact congrArg Writing.buffer (readIntoWith_tooSmall hasked hlt)
  · intro hinside hallowed hbuffer
    exact readIntoWith_met (hplan hinside hallowed) hbuffer

/-- Two of the three pixels of a row take six bytes of a buffer of eight, whatever these were. -/
theorem readIntoWith_planarDocument :
    (planarDocument.readIntoWith (fun _ => none) ⟨⟨1, 1, 2, 1⟩, false, none⟩
      (List.replicate 8 7) .never).buffer = [12, 13, 15, 0, 18, 19, 7, 7] := by
  have hread : (planarDocument.readWith (fun _ => none) ⟨⟨1, 1, 2, 1⟩, false, none⟩
      .never).report.result = .ok ⟨[12, 13, 15, 0, 18, 19], 2, 1, .planarRgb8, false⟩ := rfl
  obtain ⟨-, -, -, -, hmet⟩ := readIntoWith_agrees (fun _ => none) planarDocument
    ⟨⟨1, 1, 2, 1⟩, false, none⟩ (List.replicate 8 7)
  obtain ⟨-, -, hpainted, -⟩ := hmet (Window.not_exceeds_iff.mpr rfl) nofun (by decide)
  obtain ⟨plane, hplane, -, -, hbuffer⟩ := hpainted (by decide)
  obtain rfl := Except.ok.inj (hread.symm.trans hplane)
  rw [hbuffer]
  rfl

end Document
end Pict
