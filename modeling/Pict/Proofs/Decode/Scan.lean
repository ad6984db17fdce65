import Pict.Decode.Spans
import Pict.Proofs.Run.Loop

/-!
# Scanning for embedded JPEG data

`Spans.offsets` says where embedded JPEGs start. Here they are found word by
word, by three loops: one up to the first end marker, and one inside the other
from each start marker to the next. `Scan` is where these loops stand.

Results:
* `loop_scan`: the scan always ends, and finds `Spans.offsets`.
-/
namespace Pict

namespace Spans

variable {source : Source} {p : Nat} {w : UInt16}

theorem wordOffsets_cons (h : source.u16? p = some w) :
    wordOffsets source p = p :: wordOffsets source (p + 2) := by
  have hp : p + 2 ≤ source.size := (source.isSome_u16?_iff p).mp (by rw [h]; rfl)
  have hsize : (source.size - p) / 2 = (source.size - (p + 2)) / 2 + 1 := by omega
  rw [wordOffsets, hsize, List.range_succ_eq_map, List.map_cons, List.map_map, wordOffsets]
  congr 1
  refine List.map_congr_left fun i _ => ?_
  show p + 2 * (i + 1) = p + 2 + 2 * i
  omega

theorem wordOffsets_nil (h : source.u16? p = none) : wordOffsets source p = [] := by
  have hp : ¬p + 2 ≤ source.size := fun hle => by
    have := (source.isSome_u16?_iff p).mpr hle
    rw [h] at this
    cases this
  have hsize : (source.size - p) / 2 = 0 := by omega
  rw [wordOffsets, hsize]
  rfl

def starts (source : Source) (p : Nat) : List Nat := (wordOffsets source p).filter (isStart source)

def laterStarts (source : Source) (p : Nat) : List Nat :=
  (behindEnd source p).filter (isStart source)

theorem starts_nil (h : source.u16? p = none) : starts source p = [] := by
  rw [starts, wordOffsets_nil h, List.filter_nil]

theorem starts_other (h : source.u16? p = some w) (hw : w ≠ startMarker) :
    starts source p = starts source (p + 2) := by
  have hstart : isStart source p = false := by simp [isStart, h, hw]
  rw [starts, wordOffsets_cons h, List.filter_cons, hstart, if_neg Bool.false_ne_true, starts]

theorem starts_marker (h : source.u16? p = some startMarker) :
    starts source p =
      (if p + 2 < source.size then [p] else []) ++ starts source (p + 2) := by
  have hstart : isStart source p = decide (p + 2 < source.size) := by simp [isStart, h]
  rw [starts, wordOffsets_cons h, List.filter_cons, hstart, starts]
  by_cases hmore : p + 2 < source.size <;> simp [hmore]

theorem starts_end (h : source.size ≤ p) : starts source p = [] := by
  refine starts_nil ?_
  cases hw : source.u16? p with
  | none => rfl
  | some w =>
    have := (source.isSome_u16?_iff p).mp (by rw [hw]; rfl)
    omega

theorem laterStarts_nil (h : source.u16? p = none) : laterStarts source p = [] := by
  rw [laterStarts, behindEnd, wordOffsets_nil h]
  rfl

theorem laterStarts_other (h : source.u16? p = some w) (hw : w ≠ endMarker) :
    laterStarts source p = laterStarts source (p + 2) := by
  have hdrop : (source.u16? p != some endMarker) = true := by simp [h, hw]
  rw [laterStarts, behindEnd, wordOffsets_cons h, List.dropWhile_cons, hdrop, if_pos rfl]
  rfl

theorem laterStarts_marker (h : source.u16? p = some endMarker) :
    laterStarts source p = starts source (p + 2) := by
  have hdrop : (source.u16? p != some endMarker) = false := by simp [h]
  rw [laterStarts, behindEnd, wordOffsets_cons h, List.dropWhile_cons, hdrop,
    if_neg Bool.false_ne_true]
  rfl

end Spans

/-- Which loop of a scan is about to go on. -/
inductive ScanLoop where
  /-- The one up to the first end marker. -/
  | toEnd
  /-- The one around the search for start markers. -/
  | around
  /-- The one up to the next start marker. -/
  | toStart
  deriving DecidableEq, Repr

/-- How far a scan has come. -/
structure Scan where
  loop : ScanLoop
  pos : Nat
  found : List Nat
  deriving DecidableEq, Repr

namespace Scan

open Spans

def start (p : Nat) : Scan := ⟨.toEnd, p, [p + 2]⟩

def step (source : Source) (s : Scan) : Scan ⊕ List Nat :=
  match s.loop with
  | .toEnd =>
    match source.u16? s.pos with
    | some w =>
      .inl { s with loop := if w = endMarker then .around else .toEnd, pos := s.pos + 2 }
    | none => .inl { s with loop := .around }
  | .around => if source.size ≤ s.pos then .inr s.found else .inl { s with loop := .toStart }
  | .toStart =>
    match source.u16? s.pos with
    | some w =>
      if w = startMarker then
        .inl
          { loop := .around
            pos := s.pos + 2
            found := s.found ++ if s.pos + 2 < source.size then [s.pos] else [] }
      else .inl { s with pos := s.pos + 2 }
    | none => .inr s.found

/-- What the scan will have found at its end. -/
def outcome (source : Source) (s : Scan) : List Nat :=
  s.found ++
    match s.loop with
    | .toEnd => laterStarts source s.pos
    | .around | .toStart => starts source s.pos

/-- How much there is left to do: the bytes ahead, and the loops on the way to the innermost. -/
def work (source : Source) (s : Scan) : Nat :=
  3 * (source.size - s.pos) +
    match s.loop with
    | .toEnd => 2
    | .around => 1
    | .toStart => 0

variable {source : Source} {s t : Scan} {found : List Nat}

/-- Every step has less to do, and will find the same. -/
theorem step_inl (h : step source s = .inl t) :
    work source t < work source s ∧ outcome source t = outcome source s := by
  obtain ⟨loop, p, earlier⟩ := s
  have hword : ∀ {w}, source.u16? p = some w → p + 2 ≤ source.size := fun hw =>
    (source.isSome_u16?_iff p).mp (by rw [hw]; rfl)
  cases loop with
  | toEnd =>
    cases hw : source.u16? p with
    | none =>
      simp only [step, hw, Sum.inl.injEq] at h
      subst h
      exact ⟨by simp only [work]; omega,
        by simp only [outcome, laterStarts_nil hw, starts_nil hw]⟩
    | some w =>
      have hp := hword hw
      simp only [step, hw, Sum.inl.injEq] at h
      subst h
      by_cases hend : w = endMarker
      · subst hend
        exact ⟨by simp only [work, if_pos]; omega,
          by simp only [outcome, if_pos, laterStarts_marker hw]⟩
      · exact ⟨by simp only [work, if_neg hend]; omega,
          by simp only [outcome, if_neg hend, laterStarts_other hw hend]⟩
  | around =>
    simp only [step] at h
    split at h
    · cases h
    · obtain rfl := Sum.inl.inj h
      exact ⟨by simp only [work]; omega, rfl⟩
  | toStart =>
    cases hw : source.u16? p with
    | none =>
      simp only [step, hw] at h
      cases h
    | some w =>
      have hp := hword hw
      simp only [step, hw] at h
      by_cases hstart : w = startMarker
      · subst hstart
        rw [if_pos rfl] at h
        obtain rfl := Sum.inl.inj h
        exact ⟨by simp only [work]; omega,
          by simp only [outcome, starts_marker hw, List.append_assoc]⟩
      · rw [if_neg hstart] at h
        obtain rfl := Sum.inl.inj h
        exact ⟨by simp only [work]; omega, by simp only [outcome, starts_other hw hstart]⟩

theorem step_inr (h : step source s = .inr found) : found = outcome source s := by
  obtain ⟨loop, p, earlier⟩ := s
  cases loop with
  | toEnd =>
    simp only [step] at h
    split at h <;> cases h
  | around =>
    simp only [step] at h
    split at h
    · rename_i hend
      obtain rfl := Sum.inr.inj h
      simp only [outcome, starts_end hend, List.append_nil]
    · cases h
  | toStart =>
    cases hw : source.u16? p with
    | none =>
      simp only [step, hw] at h
      obtain rfl := Sum.inr.inj h
      simp only [outcome, starts_nil hw, List.append_nil]
    | some w =>
      simp only [step, hw] at h
      split at h <;> cases h

theorem outcome_of_loop {visited : List Scan} (h : Loop (step source) s visited found) :
    found = outcome source s := by
  induction h with
  | done hstep => exact step_inr hstep
  | again hstep _ ih => rw [ih, (step_inl hstep).2]

/-- The scan goes on from loop to loop and ends, with the offsets of all JPEGs found. -/
theorem loop_scan (source : Source) (p : Nat) :
    ∃ visited, Loop (step source) (start p) visited (Spans.offsets source p) := by
  have hstep : ∀ s t, True → step source s = .inl t → True ∧ work source t < work source s :=
    fun s t _ h => ⟨trivial, (step_inl h).1⟩
  obtain ⟨visited, found, hloop, -, -⟩ := Loop.exists_of_decreasing hstep (a := start p) trivial
  obtain rfl : found = Spans.offsets source p := outcome_of_loop hloop
  exact ⟨visited, hloop⟩

end Scan
end Pict
