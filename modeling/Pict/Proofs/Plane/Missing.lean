import Pict.Proofs.Plane.Assembled
import Pict.Proofs.Plane.Buffered

/-!
# Rows that lack a strip

A row of a window takes its samples from one strip, or from three where three or four strips make a
row. It lacks one that is not there or has samples of the other kind, and what it lacks is black.
Rows of one strip that lack it are counted, and the count is told as long as it is below `2 ^ 31`.
Rows of three are not counted: in a picture of bytes and words a channel can be black, and no one
tells.

Results:
* `isMissing_iff`: the rows that are counted.
* `gives_channel_iff`: a channel is never there without its strip, but with a strip of words.
* `readWith_lacks`: when a read tells of rows that lack a strip.
* `decoded_silently_black`: a picture whose only row lacks one that no one tells of.
-/
namespace Pict

def Assembly.takesWords : Assembly → Bool
  | .packed555 => true
  | .jpeg | .fallback | .indexed | .gray | .planar _ => false

namespace Picture

/-- The strips that the samples of row `r` of a picture are taken from. -/
def stripsOf (assembly : Assembly) (r : Nat) : List Nat :=
  match assembly with
  | .indexed | .gray | .packed555 => [r]
  | .planar stride => (List.range 3).map (channelStrip stride r)
  | .jpeg | .fallback => []

/-- Strip `k` is there, and of the kind that is taken. -/
def Gives (p : Picture) (assembly : Assembly) (k : Nat) : Prop :=
  ∃ strip, p.strips[k]? = some strip ∧ strip.isWords = assembly.takesWords

/-- Some strip that the samples of row `r` are taken from is absent, or of the other kind. -/
def Lacks (p : Picture) (assembly : Assembly) (r : Nat) : Prop :=
  ∃ k ∈ stripsOf assembly r, ¬ p.Gives assembly k

variable {p : Picture} {assembly : Assembly} {win : Window} {k r i : Nat}

instance : Decidable (p.Gives assembly k) :=
  decidable_of_iff (p.strips[k]?.any fun strip => strip.isWords = assembly.takesWords) <| by
    unfold Gives
    cases p.strips[k]? <;> simp

instance : Decidable (p.Lacks assembly r) :=
  inferInstanceAs (Decidable (∃ k ∈ stripsOf assembly r, ¬ p.Gives assembly k))

def lacking (p : Picture) (assembly : Assembly) (win : Window) : Nat :=
  (List.range win.height).countP fun i => p.Lacks assembly (win.y + i)

/-! ## Strips and samples -/

theorem gives_bytes (h : assembly.takesWords = false) :
    p.Gives assembly k ↔ (p.byteStrip? k).isSome = true := by
  unfold Gives byteStrip?
  rw [h]
  cases p.strips[k]? with
  | none => simp
  | some strip => cases strip <;> simp [Strip.isWords, Strip.bytes?]

theorem gives_words : p.Gives .packed555 k ↔ (p.wordStrip? k).isSome = true := by
  unfold Gives wordStrip?
  cases p.strips[k]? with
  | none => simp
  | some strip => cases strip <;> simp [Assembly.takesWords, Strip.isWords, Strip.words?]

/-- A row of one strip is counted where it lacks it. -/
theorem isMissing_iff (hs : assembly.isStrips = true)
    (hsingle : ∀ stride, assembly ≠ .planar stride) (i : Nat) :
    p.isMissing assembly win i = true ↔ p.Lacks assembly (win.y + i) := by
  have hone : ∀ r, stripsOf assembly r = [r] → (p.Lacks assembly r ↔ ¬ p.Gives assembly r) := by
    intro r hr
    unfold Lacks
    rw [hr]
    simp
  unfold isMissing scanline?
  cases assembly with
  | jpeg | fallback => cases hs
  | planar stride => exact absurd rfl (hsingle stride)
  | indexed | gray =>
    rw [hone _ rfl, gives_bytes rfl]
    simp
  | packed555 =>
    rw [hone _ rfl, gives_words]
    simp

theorem missingRows_eq (hs : assembly.isStrips = true) (hwidth : 0 < win.width)
    (hsingle : ∀ stride, assembly ≠ .planar stride) :
    p.missingRows assembly win = p.lacking assembly win := by
  rw [missingRows, rowsOf_strips hs hwidth, lacking]
  refine List.countP_congr fun i _ => ?_
  rw [isMissing_iff hs hsingle, decide_eq_true_eq]

theorem lacking_pos : 0 < p.lacking assembly win ↔
    ∃ i < win.height, p.Lacks assembly (win.y + i) := by
  simp [lacking, List.countP_pos_iff]

theorem lacking_lt (p : Picture) (assembly : Assembly) (hheight : win.height < 2 ^ 32) :
    p.lacking assembly win < 2 ^ 32 := by
  have hle : p.lacking assembly win ≤ (List.range win.height).length := List.countP_le_length
  rw [List.length_range] at hle
  exact Nat.lt_of_le_of_lt hle hheight

theorem missingWarnings_ne_nil_iff {rows : Nat} (h : rows < 2 ^ 32) :
    missingWarnings assembly (Int32.ofNat rows) ≠ [] ↔ 0 < rows ∧ rows < 2 ^ 31 := by
  rw [missingWarnings_ofNat assembly h]
  by_cases hnone : rows = 0 ∨ 2 ^ 31 ≤ rows
  · rw [if_pos hnone]
    exact ⟨fun htold => absurd rfl htold, fun hrows => by omega⟩
  · rw [if_neg hnone]
    exact ⟨fun _ => by omega, fun _ => List.cons_ne_nil _ _⟩

theorem missingWarnings_eq {rows : Nat} (h : rows < 2 ^ 32)
    (htold : missingWarnings assembly (Int32.ofNat rows) ≠ []) :
    missingWarnings assembly (Int32.ofNat rows) = [missingWarning assembly rows] := by
  obtain ⟨hpos, hfew⟩ := (missingWarnings_ne_nil_iff h).mp htold
  rw [missingWarnings_ofNat assembly h, if_neg (by omega)]

/-! ## Channels -/

section
variable {stride c : Nat} (hjpeg : p.jpegOffsets = #[]) (hsome : p.strips ≠ #[])
  (hplanar : p.assembly false = .planar stride)
include hjpeg hsome hplanar

/-- Channels are taken where there are three or four strips for each row. -/
theorem counts_of_planar : p.CountsChannels ∧ stride = p.strips.size / p.height := by
  obtain ⟨first, hfirst⟩ : ∃ first, p.strips[0]? = some first :=
    ⟨_, Array.getElem?_eq_getElem (Array.size_pos_iff.mpr hsome)⟩
  rw [assembly_first hjpeg hfirst] at hplanar
  cases hkind : first.isWords with
  | true =>
    rw [stripAssembly_words hkind] at hplanar
    cases hplanar
  | false =>
    by_cases hrows : p.palette.isSome = true ∨ ¬ p.CountsChannels
    · rw [stripAssembly_rows hkind hrows] at hplanar
      split at hplanar <;> cases hplanar
    · obtain ⟨hpalette, hcount⟩ := not_or.mp hrows
      have hcount := not_not.mp hcount
      have hnone : p.palette = none := by simpa using hpalette
      rw [stripAssembly_channels hkind hnone hcount] at hplanar
      cases hplanar
      exact ⟨hcount, rfl⟩

/-- The strip of a channel of a row on the canvas is there. What a channel can lack are bytes. -/
theorem gives_channel_iff (hr : r < p.height) (hc : c < 3) :
    ¬ p.Gives (.planar stride) (channelStrip stride r c) ↔
      ∃ samples, p.strips[channelStrip stride r c]? = some (.words samples) := by
  obtain ⟨hcount, rfl⟩ := counts_of_planar hjpeg hsome hplanar
  have hthere := channelOf_lt hcount hr hc
  rw [← channelOf_eq hcount] at hthere
  unfold Gives
  rw [Array.getElem?_eq_getElem hthere]
  cases p.strips[channelStrip (p.strips.size / p.height) r c] <;>
    simp [Strip.isWords, Assembly.takesWords]

end

theorem stripSample_lacking {stride c : Nat} (x y : Nat)
    (h : ¬ p.Gives (.planar stride) (channelStrip stride y c)) :
    p.stripSample (.planar stride) c x y = 0 := by
  rw [gives_bytes rfl, Option.not_isSome_iff_eq_none] at h
  rw [stripSample, h]
  rfl

end Picture

/-! ## Reading -/

namespace Document

variable {codec : Codec} {doc : Document} {win : Window} {fallback : Option FallbackDecoder}

/-- Nothing is told where rows are of three strips, and a channel that lacks its strip is black. -/
theorem readWith_channels_lack {stride : Nat}
    (hplanar : doc.picture.assembly false = .planar stride)
    (hfits : win.fits doc.picture.width doc.picture.height = true)
    (hmemory : Limits.allows doc.limits.memory (doc.planOf ⟨win, false, fallback⟩).size) :
    ∃ plane, (doc.readWith codec ⟨win, false, fallback⟩ .never).report.result = .ok plane ∧
      (doc.readWith codec ⟨win, false, fallback⟩ .never).report.warnings = [] ∧
      ∀ c < 3, ∀ i < win.height,
        ¬ doc.picture.Gives (.planar stride) (Picture.channelStrip stride (win.y + i) c) →
          ∀ j < win.width, plane.sample? c j i = some 0 := by
  have hread := readWith_fromStrips codec ⟨win, false, fallback⟩ hplanar rfl hfits hmemory
  refine ⟨_, hread.1, hread.2.trans (Picture.warnings_planar _ _ _), ?_⟩
  intro c hc i hi hlacks j hj
  have hlayout : (doc.planOf ⟨win, false, fallback⟩).layout =
      doc.picture.layoutOf (.planar stride) := congrArg doc.picture.layoutOf hplanar
  have hviews : (doc.planeOf ⟨win, false, fallback⟩
      (doc.picture.stripPixels (.planar stride) win)).Views win
        (doc.picture.stripSample (.planar stride)) :=
    Picture.stripPixels_views rfl rfl hlayout rfl rfl
  have hchannel : c < (doc.planOf ⟨win, false, fallback⟩).layout.channels := by
    rw [hlayout]
    exact hc
  exact (hviews c hchannel j hj i hi).trans
    (congrArg some (Picture.stripSample_lacking _ _ hlacks))

section
variable (hjpeg : doc.picture.jpegOffsets = #[]) (hsome : doc.picture.strips ≠ #[])
  (hfits : win.fits doc.picture.width doc.picture.height = true) (hwidth : 0 < win.width)
include hjpeg hsome hfits hwidth

theorem readWith_tells (hmemory : Limits.allows doc.limits.memory
      (doc.planOf ⟨win, false, fallback⟩).size) :
    (doc.readWith codec ⟨win, false, fallback⟩ .never).report.warnings =
      match doc.picture.assembly false with
      | .planar _ => []
      | assembly => Picture.missingWarnings assembly
          (Int32.ofNat (doc.picture.lacking assembly win)) := by
  have hs : (doc.picture.assembly false).isStrips = true :=
    (doc.picture.assembly_isStrips false).mpr ⟨hjpeg, hsome, rfl⟩
  rw [(readWith_fromStrips codec ⟨win, false, fallback⟩ rfl hs hfits hmemory).2]
  dsimp only
  cases hassembly : doc.picture.assembly false with
  | jpeg | fallback =>
    rw [hassembly] at hs
    cases hs
  | planar stride => exact Picture.warnings_planar doc.picture stride win
  | indexed | gray | packed555 =>
    exact congrArg (Picture.missingWarnings _ ∘ Int32.ofNat)
      (Picture.missingRows_eq rfl hwidth nofun)

/-- Something is told only of a window that is not refused, and whose rows are of one strip each. -/
theorem of_told (htold : (doc.readWith codec ⟨win, false, fallback⟩ .never).report.warnings ≠ []) :
    Limits.allows doc.limits.memory (doc.planOf ⟨win, false, fallback⟩).size ∧
      ∀ stride, doc.picture.assembly false ≠ .planar stride := by
  have hallowed : Limits.allows doc.limits.memory (doc.planOf ⟨win, false, fallback⟩).size := by
    by_contra hrefused
    obtain ⟨limit, hlimit, hlt⟩ := Limits.not_allows_iff.mp hrefused
    have hplan : doc.plan ⟨win, false, fallback⟩ = .error _ := plan_eq_error.mpr
      (Or.inr ⟨fun h => Window.not_exceeds_iff.mpr hfits h, limit, hlimit, hlt, rfl⟩)
    exact htold (congrArg (fun reading => reading.report.warnings) (readWith_refused hplan))
  refine ⟨hallowed, fun stride hplanar => htold ?_⟩
  rw [readWith_tells hjpeg hsome hfits hwidth hallowed, hplanar]

/-- Then it is the count of the rows that lack their strip. -/
theorem readWith_tells_single
    (hmemory : Limits.allows doc.limits.memory (doc.planOf ⟨win, false, fallback⟩).size)
    (hone : ∀ stride, doc.picture.assembly false ≠ .planar stride) :
    (doc.readWith codec ⟨win, false, fallback⟩ .never).report.warnings =
      Picture.missingWarnings (doc.picture.assembly false)
        (Int32.ofNat (doc.picture.lacking (doc.picture.assembly false) win)) := by
  rw [readWith_tells hjpeg hsome hfits hwidth hmemory]
  split
  · rename_i stride hplanar
    exact absurd hplanar (hone stride)
  · rfl

/-- A window that is taken from strips is told of when it is within the memory limit, its rows are
taken from one strip each, and some row lacks it, but fewer than `2 ^ 31` do; one warning then tells
how many. Where rows are taken from three strips, a channel lacks its strip where that has words: the
channel is black there, and nothing is told. -/
theorem readWith_lacks (hheight : win.height < 2 ^ 32) :
    ((doc.readWith codec ⟨win, false, fallback⟩ .never).report.warnings ≠ [] ↔
      Limits.allows doc.limits.memory (doc.planOf ⟨win, false, fallback⟩).size ∧
      (∀ stride, doc.picture.assembly false ≠ .planar stride) ∧
      (∃ i < win.height, doc.picture.Lacks (doc.picture.assembly false) (win.y + i)) ∧
      doc.picture.lacking (doc.picture.assembly false) win < 2 ^ 31) ∧
    ((doc.readWith codec ⟨win, false, fallback⟩ .never).report.warnings ≠ [] →
      (doc.readWith codec ⟨win, false, fallback⟩ .never).report.warnings =
        [Picture.missingWarning (doc.picture.assembly false)
          (doc.picture.lacking (doc.picture.assembly false) win)]) ∧
    ∀ stride, doc.picture.assembly false = .planar stride →
      (∀ c < 3, ∀ i < win.height,
        (¬ doc.picture.Gives (.planar stride) (Picture.channelStrip stride (win.y + i) c) ↔
          ∃ samples, doc.picture.strips[Picture.channelStrip stride (win.y + i) c]? =
            some (.words samples))) ∧
      (Limits.allows doc.limits.memory (doc.planOf ⟨win, false, fallback⟩).size → ∃ plane,
        (doc.readWith codec ⟨win, false, fallback⟩ .never).report.result = .ok plane ∧
        (doc.readWith codec ⟨win, false, fallback⟩ .never).report.warnings = [] ∧
        ∀ c < 3, ∀ i < win.height,
          ¬ doc.picture.Gives (.planar stride) (Picture.channelStrip stride (win.y + i) c) →
            ∀ j < win.width, plane.sample? c j i = some 0) := by
  have hlacking := doc.picture.lacking_lt (doc.picture.assembly false) hheight
  refine ⟨⟨fun htold => ?_, ?_⟩, fun htold => ?_, fun stride hplanar => ⟨fun c hc i hi => ?_, ?_⟩⟩
  · obtain ⟨hallowed, hone⟩ := of_told hjpeg hsome hfits hwidth htold
    rw [readWith_tells_single hjpeg hsome hfits hwidth hallowed hone,
      Picture.missingWarnings_ne_nil_iff hlacking, Picture.lacking_pos] at htold
    exact ⟨hallowed, hone, htold⟩
  · rintro ⟨hallowed, hone, hlacks⟩
    rw [readWith_tells_single hjpeg hsome hfits hwidth hallowed hone,
      Picture.missingWarnings_ne_nil_iff hlacking, Picture.lacking_pos]
    exact hlacks
  · obtain ⟨hallowed, hone⟩ := of_told hjpeg hsome hfits hwidth htold
    rw [readWith_tells_single hjpeg hsome hfits hwidth hallowed hone] at htold ⊢
    exact Picture.missingWarnings_eq hlacking htold
  · have hinside := hfits
    simp only [Window.fits, Bool.and_eq_true, decide_eq_true_eq] at hinside
    exact Picture.gives_channel_iff hjpeg hsome hplanar (by omega) hc
  · intro hallowed
    exact readWith_channels_lack hplanar hfits hallowed

end

open Decode (writePicture)

/-- A picture of version 1 of a bitmap, a direct pixmap and a bitmap, each of one pixel. -/
def mixedPicture : Source :=
  let bit : RasterBlock :=
    { opening := .bitmap .bitsRect 1 ⟨0, 0, 1, 1⟩ (Vector.replicate 18 0)
      rows := [[0x80]] }
  let color : RasterBlock :=
    { opening := .direct (Vector.replicate 6 0) ⟨0, 0, 1, 1⟩ (Vector.replicate 18 0)
        ⟨16, 3, Vector.replicate 14 0⟩ (Vector.replicate 18 0)
      rows := [[0x7F, 0xFF]] }
  (writePicture (.one (Vector.replicate 518 0) 1 1)
    [⟨0, .raster bit⟩, ⟨0, .raster color⟩, ⟨0, .raster bit⟩] 0 []).toArray

theorem decode_mixedPicture :
    ∃ doc, (decode mixedPicture .unlimited .never).result = .ok doc ∧
      doc.fullWindow = ⟨0, 0, 1, 1⟩ ∧ doc.picture.jpegOffsets = #[] ∧
      doc.picture.strips = #[.bytes [1], .words [0x7FFF], .bytes [1]] ∧
      doc.picture.assembly false = .planar 3 ∧ doc.limits = .unlimited := by
  have hmap : (decode mixedPicture .unlimited .never).result.toOption.map (fun doc =>
      (doc.fullWindow, doc.picture.jpegOffsets, doc.picture.strips, doc.picture.assembly false,
        doc.limits)) =
      some (⟨0, 0, 1, 1⟩, #[], #[.bytes [1], .words [0x7FFF], .bytes [1]], .planar 3,
        .unlimited) := by
    decide +kernel
  obtain ⟨doc, hdoc, hparts⟩ := exists_ok_of_map hmap
  simp only [Prod.mk.injEq] at hparts
  exact ⟨doc, hdoc, hparts⟩

theorem window_mixedPicture {doc : Document} (fallback : Option FallbackDecoder)
    (hwindow : doc.fullWindow = ⟨0, 0, 1, 1⟩) (hlimits : doc.limits = .unlimited) :
    (Window.mk 0 0 1 1).fits doc.picture.width doc.picture.height = true ∧
      Limits.allows doc.limits.memory (doc.planOf ⟨⟨0, 0, 1, 1⟩, false, fallback⟩).size := by
  obtain ⟨-, -, hwidth, hheight⟩ := Window.mk.inj hwindow
  rw [hwidth, hheight, hlimits]
  exact ⟨rfl, nofun⟩

/-- The row lacks its second channel, -/
theorem lacks_mixedPicture {doc : Document}
    (hstrips : doc.picture.strips = #[.bytes [1], .words [0x7FFF], .bytes [1]]) :
    ¬ doc.picture.Gives (.planar 3) 1 := by
  rintro ⟨strip, hstrip, hkind⟩
  rw [hstrips] at hstrip
  obtain rfl : .words [0x7FFF] = strip := Option.some.inj hstrip
  cases hkind

/-- which is read as black, and nothing is told. -/
theorem readWith_mixedPicture :
    ∃ doc plane, (decode mixedPicture .unlimited .never).result = .ok doc ∧
      (doc.readWith (fun _ => none) ⟨⟨0, 0, 1, 1⟩, false, none⟩ .never).report.result = .ok plane ∧
      (doc.readWith (fun _ => none) ⟨⟨0, 0, 1, 1⟩, false, none⟩ .never).report.warnings = [] ∧
      doc.picture.strips[1]? = some (.words [0x7FFF]) ∧ plane.sample? 1 0 0 = some 0 := by
  obtain ⟨doc, hdoc, hwindow, hjpeg, hstrips, hplanar, hlimits⟩ := decode_mixedPicture
  have hsome : doc.picture.strips ≠ #[] := by
    rw [hstrips]
    decide
  obtain ⟨hfits, hallowed⟩ := window_mixedPicture none hwindow hlimits
  obtain ⟨-, -, hchannels⟩ := readWith_lacks hjpeg hsome hfits Nat.one_pos (by decide)
  obtain ⟨-, hread⟩ := hchannels 3 hplanar
  obtain ⟨plane, hplane, hsilent, hblack⟩ := hread hallowed
  refine ⟨doc, plane, hdoc, hplane, hsilent, by rw [hstrips]; rfl, ?_⟩
  exact hblack 1 (by decide) 0 (by decide) (lacks_mixedPicture hstrips) 0 (by decide)

/-- Not every row that lacks a strip is told of. -/
theorem decoded_silently_black :
    ¬ ∀ (source : Source) (limits : Limits) (stop : Stop) (doc : Document) (codec : Codec)
        (win : Window) (fallback : Option FallbackDecoder),
      (decode source limits stop).result = .ok doc →
      doc.picture.jpegOffsets = #[] → doc.picture.strips ≠ #[] →
      win.fits doc.picture.width doc.picture.height = true → 0 < win.width →
      Limits.allows doc.limits.memory (doc.planOf ⟨win, false, fallback⟩).size →
      ((doc.readWith codec ⟨win, false, fallback⟩ .never).report.warnings ≠ [] ↔
        ∃ i < win.height, doc.picture.Lacks (doc.picture.assembly false) (win.y + i)) := by
  intro hall
  obtain ⟨doc, hdoc, hwindow, hjpeg, hstrips, hplanar, hlimits⟩ := decode_mixedPicture
  have hsome : doc.picture.strips ≠ #[] := by
    rw [hstrips]
    decide
  obtain ⟨hfits, hallowed⟩ := window_mixedPicture none hwindow hlimits
  have htold := (hall _ _ _ doc (fun _ => none) ⟨0, 0, 1, 1⟩ none hdoc hjpeg hsome hfits Nat.one_pos
    hallowed).mpr
  rw [readWith_tells hjpeg hsome hfits Nat.one_pos hallowed, hplanar] at htold
  refine htold ⟨0, Nat.one_pos, 1, ?_, lacks_mixedPicture hstrips⟩ rfl
  decide

end Document
end Pict
