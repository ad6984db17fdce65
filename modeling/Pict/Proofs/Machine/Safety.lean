import Pict.Proofs.Decode.Columnless
import Pict.Proofs.Decode.Progress
import Pict.Proofs.Jpeg.Size
import Pict.Proofs.Machine.Planes
import Pict.Proofs.Machine.Walk

/-!
# What a run can fault with

On a machine a picture is probed, decoded and read with the outcome that the definitions without
bounds give. Each step that could go wrong is one of `Checked`, and faults if it does:

* the cursor is compared with the end of the data wherever it is moved
  (`CheckedReader.place`, `Guarded.move`, `fill`);
* a packed row is cut to an end that must lie in a buffer of `packedCapacity` bytes
  (`takePacked`), with signed differences on the way (`clamp`);
* the loops over packets index the row and the words they write (`unpack`, `wordsOf`), and a
  byte looks up a slice of its table (`tablePixels`);
* rows are copied between slices of one length (`copyClamped`, `copyRow`, `stackRow`, `lay`), and
  the samples of three planes are put at offsets of their own (`paintChannel`, `paintPixels`);
* every sum, difference and product of sizes is one of `usize`, `minus` and `isize`;
* rows without a strip are counted in a signed word of 32 bits (`countMissing`).

The last of these is the one that data can make fault, with a picture of `2 ^ 31` strips.

Results:
* `faults_only_counting`: no data shorter than `2 ^ 31` bytes lead to a fault, whatever the limits and
  the stop are, and whatever is read of them afterwards, but for that of the count.
* `keeps_baseline`: the codec for baseline JPEGs answers what is relied on.
* `counter_crowdedPicture`: a picture that is decoded, and faults when it is read.
-/
namespace Pict.Machine

theorem small_decoded {source : Source} {limits : Limits} {stop : Stop} {doc : Document}
    (h : source.size < 2 ^ 31) (hdecode : (Pict.decode source limits stop).result = .ok doc) :
    Small doc.picture := by
  obtain ⟨-, hwidth, hdeclared, hoffsets⟩ := decode_readable h hdecode
  exact ⟨hwidth, hdeclared, by omega⟩

/-- Probing and decoding do not fault, and reading what was decoded, as a new plane or into a buffer,
faults just where `2 ^ 31` rows without a strip are counted, which takes as many strips. Else each has
the outcome that it has without the bounds of a machine. -/
theorem faults_only_counting {source : Source} (h : source.size < 2 ^ 31) (limits : Limits)
    (stop : Stop) :
    probe source = .ok (Pict.probe source) ∧
      decode source limits stop = .ok (Pict.decode source limits stop) ∧
      ∀ doc, (Pict.decode source limits stop).result = .ok doc →
        ∀ codec request, Fair codec request → ∀ (buffer : List UInt8) later,
          (¬ Overcounts doc request later →
            readWith codec doc request later = .ok (doc.readWith codec request later) ∧
            readIntoWith codec doc request buffer later =
              .ok (doc.readIntoWith codec request buffer later)) ∧
          (Overcounts doc request later →
            2 ^ 31 ≤ doc.picture.strips.size ∧
            readWith codec doc request later = .error .counter ∧
            readIntoWith codec doc request buffer later =
              if buffer.length < (doc.planOf request).size then
                .ok (doc.readIntoWith codec request buffer later)
              else .error .counter) := by
  refine ⟨probe_ok h, decode_ok h limits stop, ?_⟩
  intro doc hdecode codec request hfair buffer later
  have hsmall : Small doc.picture := small_decoded h hdecode
  refine ⟨fun hcount => ⟨?_, ?_⟩, fun hover => ⟨hover.strips hsmall, ?_, ?_⟩⟩
  · exact readWith_ok hsmall hfair hcount
  · exact readIntoWith_ok hsmall hfair fun hover => absurd hover hcount
  · exact readWith_faults hsmall hfair.words hover
  · split
    · exact readIntoWith_ok hsmall hfair fun _ => ‹buffer.length < _›
    · exact readIntoWith_faults hsmall hfair.words hover (Nat.le_of_not_lt ‹_›)

/-- A decoded image has its samples. -/
theorem keeps_baseline : Keeps Jpeg.baseline := fun _ _ h => Jpeg.baseline_size h

open Decode in
/-- A packed bitmap of two rows, of which the second one is said to be longer than the data. -/
def longRowPicture : Source :=
  (parkedHeader.bytes ++ [0x98, 0, 8, 0, 0, 0, 0, 0, 2, 0, 8] ++ List.replicate 18 0 ++
    [2, 0xFE, 0xAA, 5, 0xFE, 0x0F, 0xFF]).toArray

theorem faults_only_counting_longRowPicture :
    probe longRowPicture = .ok (Pict.probe longRowPicture) ∧
      ∃ report doc, decode longRowPicture .unlimited .never = .ok report ∧ report.result = .ok doc ∧
        ∃ reading,
          readWith Jpeg.baseline doc (Request.ofWindow doc.fullWindow) .never = .ok reading ∧
          reading.report.result =
            .ok ⟨[1, 0, 1, 0, 1, 0, 1, 0, 0, 0, 0, 0, 1, 1, 1, 1], 8, 2, .gray8, false⟩ := by
  have hsize : longRowPicture.size < 2 ^ 31 := by decide +kernel
  have hplane : ((Pict.decode longRowPicture .unlimited .never).result.toOption.bind fun doc =>
      (doc.readPlane doc.fullWindow .never).report.result.toOption) =
        some ⟨[1, 0, 1, 0, 1, 0, 1, 0, 0, 0, 0, 0, 1, 1, 1, 1], 8, 2, .gray8, false⟩ := by
    decide +kernel
  have hwindow : ((Pict.decode longRowPicture .unlimited .never).result.toOption.map fun doc =>
      (doc.fullWindow, doc.picture.strips.size)) = some (⟨0, 0, 8, 2⟩, 2) := by
    decide +kernel
  obtain ⟨hprobe, hdecode, hread⟩ := faults_only_counting hsize .unlimited .never
  cases hresult : (Pict.decode longRowPicture .unlimited .never).result with
  | error e =>
    rw [hresult] at hplane
    cases hplane
  | ok doc =>
    rw [hresult] at hplane hwindow
    obtain ⟨hwindow, hstrips⟩ := Prod.mk.inj (Option.some.inj hwindow)
    have hfew : ¬ Overcounts doc (Request.ofWindow doc.fullWindow) .never := fun hover => by
      have hmany := hover.strips (small_decoded hsize hresult)
      rw [hstrips] at hmany
      exact absurd hmany (by decide)
    have hfair : Fair Jpeg.baseline (Request.ofWindow doc.fullWindow) := by
      refine ⟨keeps_baseline, ?_, fun decoder hdecoder => by cases hdecoder⟩
      rw [Request.ofWindow, hwindow]
      exact ⟨by decide, by decide, by decide, by decide⟩
    obtain ⟨hreading, -⟩ := (hread doc hresult Jpeg.baseline _ hfair [] .never).1 hfew
    refine ⟨hprobe, _, doc, hdecode, hresult, _, hreading, ?_⟩
    have hpixels : (doc.readPlane doc.fullWindow .never).report.result.toOption =
        some ⟨[1, 0, 1, 0, 1, 0, 1, 0, 0, 0, 0, 0, 1, 1, 1, 1], 8, 2, .gray8, false⟩ := hplane
    cases houtcome : (doc.readPlane doc.fullWindow .never).report.result with
    | error e =>
      rw [houtcome] at hpixels
      cases hpixels
    | ok plane =>
      rw [houtcome] at hpixels
      obtain rfl := Option.some.inj hpixels
      exact houtcome

/-- A picture with words for one of `2 ^ 31 + 1` rows is decoded, but not read. -/
theorem counter_crowdedPicture :
    ∃ report doc, Decode.crowdedPicture.size < 2 ^ 31 ∧
      decode Decode.crowdedPicture .unlimited .never = .ok report ∧ report.result = .ok doc ∧
      Fair Jpeg.baseline (.ofWindow doc.fullWindow) ∧
      readWith Jpeg.baseline doc (.ofWindow doc.fullWindow) .never = .error .counter := by
  obtain ⟨p, hdecode, -, -, hassembly, hwidth, hheight, hmissing⟩ := Decode.decode_crowdedPicture
  let doc : Document := ⟨Decode.crowdedPicture, .unlimited, p⟩
  have hsmall : Small p := small_decoded Decode.size_crowdedPicture hdecode
  have hfits : doc.fullWindow.fits p.width p.height = true := Window.fits_whole _ _
  have hwords : InWords doc.fullWindow := by
    rw [Document.fullWindow, hwidth, hheight]
    exact ⟨by decide, by decide, by decide, by decide⟩
  have hover : Overcounts doc (.ofWindow doc.fullWindow) .never := by
    refine ⟨Document.plan_eq_ok.mpr ⟨hfits, Limits.allows_none _, rfl⟩, ?_⟩
    have hrows : Picture.rowsOf .packed555 doc.fullWindow = 2 ^ 31 + 1 := hheight
    show 2 ^ 31 ≤ counted p (p.assembly false) doc.fullWindow .never
    rw [hassembly, counted, Stop.rowsBefore, hrows, hmissing _ rfl]
  exact ⟨_, doc, Decode.size_crowdedPicture, decode_ok Decode.size_crowdedPicture _ _, hdecode,
    ⟨keeps_baseline, hwords, fun decoder hdecoder => by cases hdecoder⟩,
    readWith_faults hsmall hwords hover⟩

end Pict.Machine
