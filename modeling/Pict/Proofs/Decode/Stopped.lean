import Pict.Proofs.Decode.Composition
import Pict.Proofs.Decode.Parts
import Pict.Proofs.Run.Stops

/-!
# Decoding under a stop

Results:
* `heeds_walks`: every part of a walk heeds the stop, and fails with format errors and with
  limits that are exceeded only.
* `decode_stopped`: a stop that outlasts the checks of a picture makes no difference, and any other
  ends the decoding at the check that it refuses.
-/
namespace Pict

/-- The errors that a walk under these limits has of its own. -/
inductive WalkError (limits : Limits) : Error → Prop where
  | unsupportedVectorData (size : Nat) : WalkError limits (.unsupportedVectorData size)
  | unsupportedBitDepth (depth : Nat) : WalkError limits (.unsupportedBitDepth depth)
  | canvas {width height : Nat} {breach : Breach} (h : limits.check width height = .error breach) :
    WalkError limits (.limitExceeded breach)
  | memory {bytes : Nat} {breach : Breach} (h : limits.checkMemory bytes = .error breach) :
    WalkError limits (.limitExceeded breach)

/-- A walk heeds the stop. -/
theorem heeds_walks (limits : Limits) :
    JobProperty.Walks (fun _ job => job.Heeds (WalkError limits)) limits where
  pure := .pure
  bind := .bind
  getPicture := Job.Heeds.work.bind fun _ => .pure _
  getCursor := Job.Heeds.work.bind fun _ => .pure _
  warn := .warn
  read _ :=
    (Job.Heeds.work.bind fun _ => .pure _).bind fun _ =>
      (Job.Heeds.modifyWork _).bind fun _ => .pure _
  skip _ := .modifyWork _
  setRowBytes _ := .modifyWork _
  setPalette _ := .modifyWork _
  unsupported size := .fail (.unsupportedVectorData size)
  check := .check
  park := .modifyWork _
  store _ := .modifyWork _
  markColor := .modifyWork _
  undecodable depth := .fail (.unsupportedBitDepth depth)
  setJpeg _ := .modifyWork _
  finish := .modifyWork _
  resize _ _ := .modifyWork _
  limitCanvas _ _ := .enforce fun _ h => .canvas h
  limitMemory _ := .enforce fun _ h => .memory h

namespace Decode

/-- A stop that passes as many checks as decoding makes leaves the whole report as it is without a
stop. Any other ends the decoding at the first check it refuses, with its reason; what has been
told by then is what is told first without a stop. -/
theorem decode_stopped (source : Source) (limits : Limits) (n : Nat) (reason : StopReason) :
    ((decode source limits .never).checks ≤ n →
      decode source limits (.after n reason) = decode source limits .never) ∧
    (n < (decode source limits .never).checks →
      (decode source limits (.after n reason)).result = .error (.cancelled reason) ∧
      (decode source limits (.after n reason)).checks = n + 1 ∧
      (decode source limits (.after n reason)).warnings <+:
        (decode source limits .never).warnings) := by
  unfold decode
  cases hparse : Header.parse source with
  | error e => exact ⟨fun _ => rfl, fun h => absurd h (Nat.not_lt_zero n)⟩
  | ok header =>
    obtain ⟨info, cursor⟩ := header
    dsimp only
    have hstops : StopsAt n reason (walk limits .never info cursor)
        (walk limits (.after n reason) info cursor) :=
      ((heeds_walks limits).opcodes info).stops (s := ⟨0, #[], start info cursor⟩) n reason
        (Nat.zero_le n)
    rcases hstops with ⟨hle, hsame⟩ | ⟨hlt, t, hcancelled, hchecks, hwarnings⟩
    · rw [hsame]
      exact ⟨fun _ => rfl, fun h => absurd h (Nat.not_lt.mpr hle)⟩
    · rw [hcancelled]
      exact ⟨fun h => absurd hlt (Nat.not_lt.mpr h), fun _ => ⟨rfl, hchecks, hwarnings⟩⟩

/-- A bitmap of twenty rows of eight pixels, behind an opcode that is passed over with a warning. -/
def tallPicture : List UInt8 :=
  writePicture sampleHeader
    [⟨0, .unknown 0x0BAD⟩,
     ⟨0, .raster
      { opening := .bitmap .bitsRect 1 ⟨0, 0, 20, 8⟩ (Vector.replicate 18 0)
        rows := List.replicate 20 [0xA0] }⟩] 0 [0]

/-- The stop is asked six times: in front of the first opcode, at each of the three opcodes, and in
front of the first and of the seventeenth row. -/
theorem decode_tallPicture :
    (decode tallPicture.toArray .unlimited .never).checks = 6 ∧
      decode tallPicture.toArray .unlimited (.after 6 .timedOut) =
        decode tallPicture.toArray .unlimited .never ∧
      (decode tallPicture.toArray .unlimited (.after 4 .timedOut)).result =
        .error (.cancelled .timedOut) ∧
      (decode tallPicture.toArray .unlimited (.after 4 .timedOut)).checks = 5 := by
  have hchecks : (decode tallPicture.toArray .unlimited .never).checks = 6 := by decide +kernel
  obtain ⟨hresult, hcount, -⟩ := (decode_stopped tallPicture.toArray .unlimited 4 .timedOut).2
    (by rw [hchecks]; decide)
  refine ⟨hchecks, ?_, hresult, hcount⟩
  exact (decode_stopped tallPicture.toArray .unlimited 6 .timedOut).1 (Nat.le_of_eq hchecks)

end Decode
end Pict
