import Pict.Proofs.Decode.Stopped
import Pict.Proofs.Stream.Cut

/-!
# Decoding under limits

Limits only ever refuse. Under tighter limits a job is refused for one that is exceeded, or it
does what it does under the wider ones (`Job.Refines`).

Results:
* `refines_turns`: a walk under tighter limits.
* `decode_tightened`: a picture that is not refused for a limit decodes to the same under all wider
  limits, and under none.
-/
namespace Pict

/-! ## Tighter limits -/

namespace Limits

/-- The bound `wide` allows at least what `tight` does; a missing bound allows everything. -/
def atLeast (wide tight : Option Nat) : Prop := ∀ limit ∈ wide, ∃ limit' ∈ tight, limit' ≤ limit

/-- Every bound of the limits `l'` is at least that of `l`. -/
structure Tighter (l l' : Limits) : Prop where
  width : atLeast l'.width l.width
  height : atLeast l'.height l.height
  pixels : atLeast l'.pixels l.pixels
  memory : atLeast l'.memory l.memory

theorem atLeast.allows {wide tight : Option Nat} (h : atLeast wide tight) {value : Nat}
    (hvalue : Limits.allows tight value) : Limits.allows wide value := by
  intro limit hlimit
  obtain ⟨limit', hlimit', hle⟩ := h limit hlimit
  exact Nat.le_trans (hvalue limit' hlimit') hle

namespace Tighter

variable {l l' : Limits}

theorem unlimited (l : Limits) : l.Tighter .unlimited :=
  ⟨nofun, nofun, nofun, nofun⟩

theorem check (h : l.Tighter l') {width height : Nat} (hl : l.check width height = .ok ()) :
    l'.check width height = .ok () := by
  rw [check_eq_ok_iff] at hl ⊢
  exact ⟨h.width.allows hl.1, h.height.allows hl.2.1, h.pixels.allows hl.2.2⟩

theorem checkMemory (h : l.Tighter l') {bytes : Nat} (hl : l.checkMemory bytes = .ok ()) :
    l'.checkMemory bytes = .ok () := by
  rw [checkMemory_eq_ok_iff] at hl ⊢
  exact h.memory.allows hl

end Tighter
end Limits

/-! ## Jobs under tighter limits -/

/-- The run is refused for a limit that is exceeded. -/
def IsRefused {σ α : Type} (r : EStateM.Result Error (Session σ) α) : Prop :=
  ∃ breach s, r = .error (.limitExceeded breach) s

/-- The job is refused for a limit, or it does what `wide` does. -/
def Job.Refines {σ α : Type} (job wide : Job σ α) : Prop :=
  ∀ stop s, IsRefused (job stop s) ∨ job stop s = wide stop s

namespace Job.Refines

variable {σ α β : Type}

theorem refl (job : Job σ α) : Refines job job := fun _ _ => Or.inr rfl

/-- Jobs in a row; no job goes on behind one that is refused. -/
theorem bind {job wide : Job σ α} {f g : α → Job σ β} (h : Refines job wide)
    (h' : ∀ a, Refines (f a) (g a)) : Refines (job >>= f) (wide >>= g) := by
  intro stop s
  rcases h stop s with ⟨breach, t, hrefused⟩ | hsame
  · refine Or.inl ⟨breach, t, ?_⟩
    rw [bind_apply, hrefused]
  · rw [bind_apply, bind_apply, hsame]
    cases wide stop s with
    | ok a t => exact h' a stop t
    | error e t => exact Or.inr rfl

/-- A check of a limit that the wider one passes whenever it passes. -/
theorem enforce {limit wide : Except Breach Unit} (h : limit = .ok () → wide = .ok ()) :
    Refines (Job.enforce limit : Job σ Unit) (Job.enforce wide) := by
  intro stop s
  cases limit with
  | ok _ =>
    rw [h rfl]
    exact Or.inr rfl
  | error breach => exact Or.inl ⟨breach, s, rfl⟩

end Job.Refines

namespace Decode

open Job

variable {l l' : Limits}

section
variable (h : l.Tighter l')
include h

/-- The limits of a raster are asked behind its opening; all else of it knows of none. -/
theorem refines_raster (op : RasterOp) : Refines (raster l op) (raster l' op) := by
  refine (Refines.refl _).bind fun opened => ?_
  cases opened with
  | none => exact Refines.refl _
  | some f =>
    refine (Refines.refl _).bind fun p => ?_
    refine (Refines.enforce h.check).bind fun _ => ?_
    exact (Refines.enforce h.checkMemory).bind fun _ => Refines.refl _

theorem refines_dispatch (opcode : Opcode) : Refines (dispatch l opcode) (dispatch l' opcode) := by
  cases opcode with
  | raster op => exact (refines_raster h op).bind fun _ => Refines.refl _
  | clipRegion | longComment | shortSkip | jpeg | terminator | unknown code => exact Refines.refl _

theorem refines_turn : Refines (turn l) (turn l') := by
  refine (Refines.refl _).bind fun p => (Refines.refl _).bind fun opcode => ?_
  cases opcode with
  | none => exact Refines.refl _
  | some opcode =>
    exact (Refines.refl _).bind fun _ => (refines_dispatch h opcode).bind fun _ => Refines.refl _

theorem refines_turns (n : Nat) : Refines (turns l n) (turns l' n) := by
  induction n with
  | zero => exact Refines.refl (pure ())
  | succ n ih =>
    refine (refines_turn h).bind fun goesOn => ?_
    cases goesOn with
    | true => exact ih
    | false => exact Refines.refl (pure ())

theorem refines_opcodes (info : Info) : Refines (opcodes l info) (opcodes l' info) :=
  (Refines.enforce h.check).bind fun _ => (Refines.refl _).bind fun _ =>
    (Refines.refl _).bind fun c => refines_turns h c.source.size

end
end Decode

/-! ## Whole pictures -/

def Reader.Yields {α : Type} (P : α → Prop) (r : Reader α) : Prop :=
  ∀ c a, (r c).1 = some a → P a

namespace Reader.Yields

variable {α β : Type} {P : β → Prop}

theorem pure {b : β} (h : P b) : Yields P (Pure.pure b : Reader β) := by
  intro c a ha
  cases ha
  exact h

theorem bind {r : Reader α} {f : α → Reader β} (h : ∀ a, Yields P (f a)) :
    Yields P (r >>= f) := by
  intro c b hb
  obtain ⟨a, -, hrest, -⟩ := bind_some hb
  exact h a _ b hrest

end Reader.Yields

namespace Header

open Reader (Yields)

theorem readFrame_yields : Yields (fun answer : Except Error Info => ∀ e, answer = .error e →
    e = .unrecognizedFormat ∨ ∃ marker, e = .invalidVersion marker) readFrame := by
  refine Yields.bind fun height => ?_
  refine Yields.bind fun width => ?_
  refine Yields.bind fun code => ?_
  refine Yields.bind fun number => ?_
  split
  · exact Yields.pure nofun
  · refine Yields.bind fun marker => ?_
    split
    · exact Yields.bind fun info => Yields.pure nofun
    · exact Yields.pure fun e h => Or.inr ⟨marker, (Except.error.inj h).symm⟩
  · exact Yields.pure fun e h => Or.inl (Except.error.inj h).symm

/-- A header is cut short, or of no known version. -/
theorem parse_error {source : Source} {e : Error} (h : parse source = .error e) :
    e = .unexpectedEof ∨ e = .unrecognizedFormat ∨ ∃ marker, e = .invalidVersion marker := by
  unfold parse at h
  rw [read_start] at h
  have herror := readFrame_yields ⟨source, min frameOffset source.size⟩
  rcases hframe : readFrame ⟨source, min frameOffset source.size⟩ with ⟨answer, d⟩
  rw [hframe] at h herror
  rcases answer with _ | e' | info
  · exact Or.inl (Except.error.inj h).symm
  · obtain rfl := Except.error.inj h
    exact Or.inr (herror _ rfl _ rfl)
  · cases h

end Header

def Document.withLimits (limits : Limits) (doc : Document) : Document := { doc with limits }

namespace Decode

variable {source : Source} {stop : Stop} {l l' : Limits}

theorem decode_withLimits (source : Source) (l : Limits) (stop : Stop) :
    (decode source l stop).map (Document.withLimits l) = decode source l stop := by
  unfold decode
  cases Header.parse source with
  | error e => rfl
  | ok header =>
    dsimp only
    cases walk l stop header.1 header.2 <;> rfl

theorem decode_refines (h : l.Tighter l') (source : Source) (stop : Stop) :
    (∃ breach, (decode source l stop).result = .error (.limitExceeded breach)) ∨
      decode source l stop = (decode source l' stop).map (Document.withLimits l) := by
  unfold decode
  cases Header.parse source with
  | error e => exact Or.inr rfl
  | ok header =>
    obtain ⟨info, cursor⟩ := header
    dsimp only
    rcases refines_opcodes h info stop ⟨0, #[], start info cursor⟩ with
      ⟨breach, s, hrefused⟩ | hsame
    · refine Or.inl ⟨breach, ?_⟩
      rw [walk, Job.run, hrefused]
      rfl
    · have hwalk : walk l stop info cursor = walk l' stop info cursor := hsame
      rw [hwalk]
      refine Or.inr ?_
      cases walk l' stop info cursor <;> rfl

theorem decode_unlimited (source : Source) (stop : Stop) (breach : Breach) :
    (decode source .unlimited stop).result ≠ .error (.limitExceeded breach) := by
  intro hrefused
  unfold decode at hrefused
  cases hparse : Header.parse source with
  | error e =>
    rw [hparse] at hrefused
    obtain rfl := Except.error.inj hrefused
    rcases Header.parse_error hparse with h | h | ⟨marker, h⟩ <;> cases h
  | ok header =>
    obtain ⟨info, cursor⟩ := header
    rw [hparse] at hrefused
    dsimp only at hrefused
    cases hwalk : walk .unlimited stop info cursor with
    | ok a t =>
      rw [hwalk] at hrefused
      cases hrefused
    | error e t =>
      rw [hwalk] at hrefused
      obtain rfl := Except.error.inj hrefused
      have hheeds := (heeds_walks .unlimited).opcodes info
      rcases hheeds.error_cases rfl hwalk with hown | ⟨reason, h⟩
      · cases hown with
        | canvas h => cases h
        | memory h => cases h
      · cases h

/-- Limits only ever refuse. Under tighter limits a picture is refused for one of them, or its
report is that under none, with the limits in force. One that is not refused has the same report
under all wider limits. Without limits none is refused. -/
theorem decode_tightened (h : l.Tighter l') (source : Source) (stop : Stop) :
    ((∃ breach, (decode source l stop).result = .error (.limitExceeded breach)) ∨
      decode source l stop = (decode source .unlimited stop).map (Document.withLimits l)) ∧
    ((∀ breach, (decode source l stop).result ≠ .error (.limitExceeded breach)) →
      decode source l' stop = (decode source l stop).map (Document.withLimits l')) ∧
    ∀ breach, (decode source .unlimited stop).result ≠ .error (.limitExceeded breach) := by
  refine ⟨decode_refines (.unlimited l) source stop, fun hallowed => ?_,
    decode_unlimited source stop⟩
  rcases decode_refines h source stop with ⟨breach, hrefused⟩ | hsame
  · exact absurd hrefused (hallowed breach)
  · calc decode source l' stop
      _ = (decode source l' stop).map (Document.withLimits l') :=
        (decode_withLimits source l' stop).symm
      _ = ((decode source l' stop).map (Document.withLimits l)).map (Document.withLimits l') := by
        cases hreport : (decode source l' stop) with
        | mk result checks warnings => cases result <;> rfl
      _ = (decode source l stop).map (Document.withLimits l') := by rw [hsame]

/-- Bounds that the sample picture just keeps, with the bytes that its strips are expected to take. -/
def sampleLimits : Limits := ⟨some 9, some 2, some 18, some 29⟩

/-- Some of the limits are wider and the others are missing. -/
def wideLimits : Limits := ⟨none, some 100, some 18, none⟩

/-- The sample picture just fits its limits, so that it decodes to the same under wider ones; with
one byte less it is refused. -/
theorem decode_wideLimits :
    sampleLimits.Tighter wideLimits ∧
      (∀ breach, (decode (writePicture sampleHeader sampleElements 3 [1]).toArray sampleLimits
        .never).result ≠ .error (.limitExceeded breach)) ∧
      decode (writePicture sampleHeader sampleElements 3 [1]).toArray wideLimits .never =
        (decode (writePicture sampleHeader sampleElements 3 [1]).toArray sampleLimits .never).map
          (Document.withLimits wideLimits) ∧
      (decode (writePicture sampleHeader sampleElements 3 [1]).toArray
        { sampleLimits with memory := some 28 } .never).result =
          .error (.limitExceeded (.memory 29 28)) := by
  have htighter : sampleLimits.Tighter wideLimits :=
    ⟨nofun, fun limit h => ⟨2, rfl, by cases h; decide⟩, fun limit h => ⟨18, rfl, by cases h; decide⟩,
      nofun⟩
  have hdecodes : (decode (writePicture sampleHeader sampleElements 3 [1]).toArray sampleLimits
      .never).result.toBool = true := by decide +kernel
  have hallowed : ∀ breach, (decode (writePicture sampleHeader sampleElements 3 [1]).toArray
      sampleLimits .never).result ≠ .error (.limitExceeded breach) := by
    intro breach hrefused
    rw [hrefused] at hdecodes
    cases hdecodes
  refine ⟨htighter, hallowed, ?_, by decide +kernel⟩
  exact (decode_tightened htighter _ .never).2.1 hallowed

end Decode
end Pict
