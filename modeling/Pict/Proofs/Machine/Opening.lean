import Pict.Proofs.Machine.Rows

/-!
# What comes in front of the rows of a raster on a machine

The row bytes of a direct pixmap are a product of sizes; everything else is moving on and
reading.

Results:
* `runs_readOpening`: everything in front of the rows of a raster is read without a fault, and
  leaves a canvas, row bytes and a format that are as large as words can make them.
-/
namespace Pict.Machine

open Guarded

variable {stop : Stop} {s : Session Walk}

def pass (n : Nat) : Guarded Walk Unit := move fun c => c.seek (saturated (c.pos + n))

def takeRowBytes : (rowBytes : Option Nat) → Guarded Walk Unit
  | none => pass 6
  | some n => step (Walk.modify fun p => { p with rowBytes := n })

def takeEntries (flags : UInt16) (declared : Nat) : Guarded Walk (Option Palette) := do
  let c ← step Walk.getCursor
  let available ← compute (divide c.remaining Palette.entrySize)
  if available < declared then step (Job.warn (.paletteTruncated declared available))
  let entries ← read (readEntries (min declared available))
  pure (entries.map fun entries => ⟨flags, entries⟩)

def readPalette : Guarded Walk (Option Palette) := do
  match ← read readDeclared with
  | none => pure none
  | some (flags, declared) => takeEntries flags declared

def directRowBytes (f : Format) (width : Nat) : Checked (Option Nat) :=
  if f.pixelSize = 32 then some <$> usize (width * f.components)
  else if f.pixelSize = 16 then some <$> usize (width * 2)
  else pure none

def readColors (kind : RasterKind) (f : Format) : Guarded Walk Bool := do
  match kind with
  | .directBits =>
    let p ← step Walk.getPicture
    let rowBytes ← compute (directRowBytes f p.width)
    match rowBytes with
    | some n =>
      step (Walk.modify fun p => { p with rowBytes := n })
      pure true
    | none => step (Job.fail (.unsupportedVectorData f.pixelSize))
  | .bitsRect | .bitsRegion | .packBitsRect | .packBitsRegion =>
    match ← readPalette with
    | some palette =>
      step (Walk.modify fun p => { p with palette := some palette })
      pure true
    | none => pure false

def passColors (kind : RasterKind) (f : Format) (settled : Bool) :
    Guarded Walk (Option Format) := do
  if settled then
    pass 18
    if kind.hasRegion then pass 2
    pure (some f)
  else pure none

def readPixmap (kind : RasterKind) : Guarded Walk (Option Format) := do
  match ← read readFormat with
  | none => pure none
  | some f =>
    let settled ← readColors kind f
    passColors kind f settled

def openPixmap (kind : RasterKind) : Guarded Walk (Option Format) := do
  match ← readPixmap kind with
  | some f => pure (some f)
  | none =>
    let c ← step Walk.getCursor
    step (Job.warn (.pixmapTruncated c.pos))
    pure none

def readOpening (op : RasterOp) : Guarded Walk (Option Format) := do
  takeRowBytes op.rowBytes
  match ← read readBounds with
  | none =>
    step (Job.warn (.boundsTruncated op.kind))
    pure none
  | some (width, height) =>
    step (Walk.modify fun p => p.resize width height)
    if op.pixmap then openPixmap op.kind else pure (some Format.bitmap)

/-! ## Without a fault -/

theorem runs_pass {n : Nat} (hn : n < 2 ^ 63) (hs : Sound s.work) :
    Runs id (pass n) (Walk.move (·.skip n)) stop s fun _ w => Sound w := by
  have hpos := hs.tame.pos_lt
  have hskip : s.work.cursor.seek (saturated (s.work.cursor.pos + n)) = s.work.cursor.skip n := by
    rw [saturated_of_lt (by omega), Cursor.skip]
  have honward := (Cursor.Forward.skip s.work.cursor n).onward
  have hpass : pass n stop s = .ok (Walk.move (·.skip n) stop s) := by
    show (CheckedReader.place
      (s.work.cursor.seek (saturated (s.work.cursor.pos + n))) >>= _) >>= _ = _
    rw [hskip, place_ok (hs.tame.onward honward)]
    rfl
  refine ⟨hpass.trans (by rw [resultVia_id]), fun hok => ?_⟩
  obtain ⟨-, rfl⟩ := EStateM.Result.ok.inj hok
  exact hs.onward honward

theorem runs_modify {f : Picture → Picture}
    (h : Sound { s.work with picture := f s.work.picture }) :
    Runs id (step (Walk.modify f)) (Walk.modify f) stop s fun _ w => Sound w := by
  refine Runs.step fun _ t ht => ?_
  obtain ⟨-, rfl⟩ := EStateM.Result.ok.inj ht
  exact h

theorem runs_takeRowBytes {rowBytes : Option Nat} (h : ∀ n ∈ rowBytes, n < 2 ^ 14)
    (hs : Sound s.work) :
    Runs id (takeRowBytes rowBytes) (Raster.takeRowBytes rowBytes) stop s fun _ w => Sound w := by
  cases rowBytes with
  | none => exact runs_pass (by decide) hs
  | some n =>
    have hn := h n rfl
    exact runs_modify ⟨hs.tame, hs.width, hs.height, by dsimp only; omega, hs.unscanned⟩

theorem runs_takeEntries (flags : UInt16) (declared : Nat) (hs : Sound s.work) :
    Runs id (takeEntries flags declared) (Raster.takeEntries flags declared) stop s
      fun _ w => Sound w := by
  refine runs_getCursor.bind fun c t ht => ?_
  obtain ⟨rfl, ht⟩ := ht
  refine Runs.compute (divide_ok (by decide)) (Runs.warnIf fun u hu => ?_)
  have hwork : u.work = s.work := hu.trans ht
  have htame : Tame u.work.cursor := by rw [hwork]; exact hs.tame
  refine (runs_read (agrees_readEntries _) htame).bind fun entries v hv => ?_
  obtain ⟨-, hv, hforward, -⟩ := hv
  rw [hwork] at hforward hv
  refine Runs.pure ?_
  rw [hv]
  exact hs.onward hforward.onward

theorem runs_readPalette (hs : Sound s.work) :
    Runs id readPalette Raster.readPalette stop s fun _ w => Sound w := by
  rw [Raster.readPalette_eq]
  refine (runs_read agrees_readDeclared hs.tame).bind fun declared t ht => ?_
  obtain ⟨-, ht, hforward, -⟩ := ht
  have hsound : Sound t.work := by
    rw [ht]
    exact hs.onward hforward.onward
  cases declared with
  | none => exact Runs.pure hsound
  | some declared => exact runs_takeEntries declared.1 declared.2 hsound

theorem directRowBytes_ok {f : Format} {width : Nat} (hf : SmallFormat f)
    (hwidth : width < 2 ^ 16) :
    directRowBytes f width = .ok (f.directRowBytes? width) ∧
      ∀ n ∈ f.directRowBytes? width, n < 2 ^ 31 := by
  have hproduct : width * f.components < 2 ^ 31 := by
    calc width * f.components ≤ width * 2 ^ 15 := Nat.mul_le_mul_left _ (Nat.le_of_lt hf.2)
      _ < 2 ^ 31 := by omega
  unfold directRowBytes Format.directRowBytes?
  by_cases hlong : f.pixelSize = 32
  · rw [if_pos hlong, if_pos hlong, usize_ok (by omega)]
    refine ⟨rfl, fun n hn => ?_⟩
    obtain rfl := Option.some.inj hn
    exact hproduct
  rw [if_neg hlong, if_neg hlong]
  by_cases hwords : f.pixelSize = 16
  · rw [if_pos hwords, if_pos hwords, usize_ok (by omega)]
    refine ⟨rfl, fun n hn => ?_⟩
    obtain rfl := Option.some.inj hn
    omega
  · rw [if_neg hwords, if_neg hwords]
    exact ⟨rfl, fun n hn => by cases hn⟩

theorem runs_readColors (kind : RasterKind) {f : Format} (hf : SmallFormat f) (hs : Sound s.work) :
    Runs id (readColors kind f) (Raster.readColors kind f) stop s fun _ w => Sound w := by
  have htable : Runs id (readColors .bitsRect f) (Raster.readColors .bitsRect f) stop s
      fun _ w => Sound w := by
    refine (runs_readPalette hs).bind fun palette t ht => ?_
    cases palette with
    | none => exact Runs.pure ht
    | some palette =>
      exact (runs_modify ⟨ht.tame, ht.width, ht.height, ht.rowBytes, ht.unscanned⟩).bind
        fun _ u hu => Runs.pure hu
  cases kind with
  | bitsRect | bitsRegion | packBitsRect | packBitsRegion => exact htable
  | directBits =>
    refine runs_getPicture.bind fun p t ht => ?_
    obtain ⟨rfl, ht⟩ := ht
    obtain ⟨hsame, hsmall⟩ := directRowBytes_ok hf hs.width
    refine Runs.compute hsame ?_
    cases hrowBytes : f.directRowBytes? s.work.picture.width with
    | none => exact Runs.fail _
    | some n =>
      rw [← ht] at hs
      exact (runs_modify ⟨hs.tame, hs.width, hs.height, hsmall n hrowBytes, hs.unscanned⟩).bind
        fun _ u hu => Runs.pure hu

theorem runs_passColors (kind : RasterKind) {f : Format} (hf : SmallFormat f) (settled : Bool)
    (hs : Sound s.work) :
    Runs id (passColors kind f settled) (Raster.passColors kind f settled) stop s
      fun opened w => Sound w ∧ ∀ g, opened = some g → SmallFormat g := by
  have hopened : ∀ g, some f = some g → SmallFormat g := fun g hg => by
    obtain rfl := Option.some.inj hg
    exact hf
  refine Runs.ite (fun _ => ?_) fun _ => Runs.pure ⟨hs, fun g hg => by cases hg⟩
  refine (runs_pass (by decide) hs).bind fun _ t ht => ?_
  refine Runs.ite (fun _ => ?_) fun _ => Runs.pure ⟨ht, hopened⟩
  exact (runs_pass (by decide) ht).bind fun _ u hu => Runs.pure ⟨hu, hopened⟩

theorem runs_readPixmap (kind : RasterKind) (hs : Sound s.work) :
    Runs id (readPixmap kind) (Raster.readPixmap kind) stop s
      fun opened w => Sound w ∧ ∀ g, opened = some g → SmallFormat g := by
  rw [Raster.readPixmap_eq]
  refine (runs_read agrees_readFormat hs.tame).bind fun f t ht => ?_
  obtain ⟨-, ht, hforward, hsmall⟩ := ht
  have hsound : Sound t.work := by
    rw [ht]
    exact hs.onward hforward.onward
  cases f with
  | none => exact Runs.pure ⟨hsound, fun g hg => by cases hg⟩
  | some f =>
    exact (runs_readColors kind (hsmall f rfl) hsound).bind fun settled u hu =>
      runs_passColors kind (hsmall f rfl) settled hu

theorem runs_openPixmap (kind : RasterKind) (hs : Sound s.work) :
    Runs id (openPixmap kind) (Raster.openPixmap kind) stop s
      fun opened w => Sound w ∧ ∀ g, opened = some g → SmallFormat g := by
  refine (runs_readPixmap kind hs).bind fun opened t ht => ?_
  cases opened with
  | some f => exact Runs.pure ht
  | none =>
    refine runs_getCursor.bind fun c u hu => (Runs.warn _).bind fun _ v hv => Runs.pure ⟨?_, ht.2⟩
    rw [hv, hu.2]
    exact ht.1

/-- Everything in front of the rows of a raster is read without a fault. -/
theorem runs_readOpening {op : RasterOp} (hop : SmallRows (.raster op)) (hs : Sound s.work) :
    Runs id (readOpening op) (Raster.readOpening op) stop s
      fun opened w => Sound w ∧ ∀ f, opened = some f → SmallFormat f := by
  rw [Raster.readOpening_eq]
  refine (runs_takeRowBytes (hop op rfl) hs).bind fun _ t ht => ?_
  refine (runs_read agrees_readBounds ht.tame).bind fun bounds u hu => ?_
  obtain ⟨-, hu, hforward, hsmall⟩ := hu
  have hsound : Sound u.work := by
    rw [hu]
    exact ht.onward hforward.onward
  cases bounds with
  | none =>
    refine (Runs.warn _).bind fun _ v hv => Runs.pure ⟨?_, fun f hf => by cases hf⟩
    rwa [hv]
  | some bounds =>
    obtain ⟨width, height⟩ := bounds
    obtain ⟨hwidth, hheight⟩ := hsmall _ rfl
    refine (runs_modify ⟨hsound.tame, override_lt hsound.width hwidth,
      override_lt hsound.height hheight, hsound.rowBytes, hsound.unscanned⟩).bind fun _ v hv => ?_
    refine Runs.ite (fun _ => runs_openPixmap op.kind hv) fun _ => Runs.pure ⟨hv, fun f hf => ?_⟩
    obtain rfl := Option.some.inj hf
    exact ⟨by decide, by decide⟩

end Pict.Machine
