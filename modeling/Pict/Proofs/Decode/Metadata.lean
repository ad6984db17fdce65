import Pict.Plane.Assembly
import Pict.Proofs.Decode.Changes
import Pict.Proofs.Decode.Composition

/-!
# What a picture tells about itself and how it is assembled

The opcodes of a picture say whether its pixels are interleaved and how many samples they have; the
layout of its planes is chosen from its strips. The two agree where there is embedded JPEG data, where
there are no strips, and where words or palette indices come first. Plain byte strips are counted: they
are taken for three channels when there are three or four of them for each row, whatever the opcodes
that brought them have said.

Results:
* `coherent_decoded`: what the fields of a decoded picture have to do with each other.
* `layout_jpeg`, `layout_blank`, `layout_first`: how the layout is chosen.
* `decode_layout`: where the metadata and the layout agree.
* `layout_disagrees`: a picture of which they do not.
-/
namespace Pict

open Job

namespace Picture

variable {p q : Picture}

/-! ## The fields of a picture -/

/-- Pixels are interleaved exactly where there is embedded JPEG data, and colored there and where
there are words. -/
structure Coherent (p : Picture) : Prop where
  interleaved : p.interleaved = true ↔ p.jpegOffsets ≠ #[]
  jpeg : p.interleaved = true → p.channels = 3
  words : ∀ strip ∈ p.strips, strip.isWords = true → p.channels = 3
  channels : p.channels = 1 ∨ p.channels = 3

namespace Coherent

theorem start (info : Info) : (Picture.start info).Coherent where
  interleaved := ⟨nofun, fun h => absurd rfl h⟩
  jpeg := nofun
  words := nofun
  channels := Or.inl rfl

theorem reopened (h : p.Coherent) (hq : p.Reopened q) : q.Coherent where
  interleaved := by
    rw [hq.interleaved, hq.jpegOffsets]
    exact h.interleaved
  jpeg := by
    rw [hq.interleaved, hq.channels]
    exact h.jpeg
  words := by
    rw [hq.strips, hq.channels]
    exact h.words
  channels := by
    rw [hq.channels]
    exact h.channels

theorem withJpeg {offsets : List Nat} (hsome : offsets ≠ []) : (p.withJpeg offsets).Coherent where
  interleaved := by
    refine ⟨fun _ hnone => hsome ?_, fun _ => rfl⟩
    have hempty : p.jpegOffsets.toList ++ offsets = [] :=
      Array.toList_appendList.symm.trans (congrArg Array.toList hnone)
    exact (List.append_eq_nil_iff.mp hempty).2
  jpeg _ := rfl
  words _ _ _ := rfl
  channels := Or.inr rfl

/-- Rows of words are rows of direct pixels, which mark the picture as colored. -/
theorem withRows (h : p.Coherent) (f : Format) (width rowBytes : Nat) (rows : List (List UInt8)) :
    (p.withRows f width rowBytes rows).Coherent := by
  cases hcolored : f.isDirect && !rows.isEmpty with
  | true =>
    have hthree : (p.withRows f width rowBytes rows).channels = 3 := by
      rw [Picture.withRows, extend, hcolored]
      rfl
    exact ⟨h.interleaved, fun _ => hthree, fun _ _ _ => hthree, Or.inr hthree⟩
  | false =>
    have hkept : (p.withRows f width rowBytes rows).channels = p.channels := by
      rw [Picture.withRows, extend, hcolored]
      rfl
    refine ⟨h.interleaved, fun hjpeg => hkept.trans (h.jpeg hjpeg), ?_, hkept ▸ h.channels⟩
    intro strip hstrip hwords
    rw [hkept]
    rcases Array.mem_append.mp hstrip with hold | hnew
    · exact h.words strip hold hwords
    · -- such a strip would have marked the picture
      obtain ⟨row, hrow, hmem⟩ := List.mem_flatMap.mp (List.mem_toArray.mp hnew)
      rcases Format.mem_rowStrips hmem with ⟨hsize, -⟩ | ⟨-, samples, rfl, -⟩
      · have hdirect : f.isDirect = true := by simp [Format.isDirect, hsize]
        rw [hdirect, Bool.true_and, Bool.not_eq_false', List.isEmpty_iff] at hcolored
        rw [hcolored] at hrow
        cases hrow
      · cases hwords

end Coherent

/-! ## The layout of a picture -/

/-- There is no embedded JPEG data, and bytes come first among the strips. -/
def StartsWithBytes (p : Picture) : Prop :=
  p.jpegOffsets = #[] ∧ ∃ samples, p.strips[0]? = some (.bytes samples)

/-- There are three or four strips for each row. -/
def CountsChannels (p : Picture) : Prop :=
  p.height ≠ 0 ∧ (p.strips.size = p.height * 3 ∨ p.strips.size = p.height * 4)

instance (p : Picture) : Decidable p.CountsChannels := inferInstanceAs (Decidable (_ ∧ _))

theorem layout_jpeg (h : p.jpegOffsets ≠ #[]) : p.layout = .rgb8 := by
  have hpos : 0 < p.jpegOffsets.size := Array.size_pos_iff.mpr h
  rw [layout, assembly, if_pos hpos]
  rfl

theorem layout_blank (hjpeg : p.jpegOffsets = #[]) (hstrips : p.strips = #[]) :
    p.layout = if p.isRgb then .planarRgb8 else if p.isIndexed then .indexed8 else .gray8 := by
  rw [layout, assembly, hjpeg, hstrips]
  rfl

/-- The first strip decides whether words are unpacked; bytes are indices if there is a palette, and
else are counted. -/
theorem layout_first {first : Strip} (hjpeg : p.jpegOffsets = #[])
    (hfirst : p.strips[0]? = some first) :
    p.layout =
      if first.isWords then .planarRgb8
      else if p.palette.isSome then .indexed8
      else if p.CountsChannels then .planarRgb8 else .gray8 := by
  have hassembly : p.assembly false = p.stripAssembly first := by
    rw [assembly, hjpeg, hfirst]
    rfl
  rw [layout, hassembly, stripAssembly]
  split
  · rfl
  · split
    · rfl
    · split
      · rename_i hcount
        exact (if_pos hcount).symm
      · rename_i hcount
        exact (if_neg hcount).symm

theorem isRgb_iff (h : p.Coherent) : p.isRgb = true ↔ p.channels = 3 := by
  rw [isRgb, decide_eq_true_eq]
  rcases h.channels with hone | hthree <;> omega

theorem isRgb_false (h : p.Coherent) : p.isRgb = false ↔ p.channels = 1 := by
  rw [isRgb, decide_eq_false_iff_not]
  rcases h.channels with hone | hthree <;> omega

/-- A picture that is not colored has neither embedded JPEG data nor words. -/
theorem Coherent.plain (h : p.Coherent) (hplain : p.isRgb = false) :
    p.jpegOffsets = #[] ∧ ∀ strip ∈ p.strips, strip.isWords = false := by
  have hone := (isRgb_false h).mp hplain
  constructor
  · by_contra hjpeg
    have hthree := h.jpeg (h.interleaved.mpr hjpeg)
    omega
  · intro strip hstrip
    by_contra hwords
    have hthree := h.words strip hstrip (by simpa using hwords)
    omega

/-! ## Where the two agree -/

theorem rgb8_iff (h : p.Coherent) : p.interleaved = true ↔ p.layout = .rgb8 := by
  rw [h.interleaved]
  constructor
  · exact layout_jpeg
  · intro hlayout hjpeg
    cases hfirst : p.strips[0]? with
    | none =>
      have hblank : p.strips = #[] := by simpa using hfirst
      rw [layout_blank hjpeg hblank] at hlayout
      split at hlayout
      · cases hlayout
      · split at hlayout <;> cases hlayout
    | some first =>
      rw [layout_first hjpeg hfirst] at hlayout
      repeat' split at hlayout
      all_goals cases hlayout

theorem indexed8_of_isIndexed (h : p.Coherent) (hindexed : p.isIndexed = true) :
    p.layout = .indexed8 := by
  have hboth := hindexed
  rw [isIndexed, Bool.and_eq_true, Bool.not_eq_true'] at hboth
  obtain ⟨hplain, hpalette⟩ := hboth
  obtain ⟨hjpeg, hbytes⟩ := h.plain hplain
  cases hfirst : p.strips[0]? with
  | none =>
    have hblank : p.strips = #[] := by simpa using hfirst
    rw [layout_blank hjpeg hblank, hplain, if_neg Bool.false_ne_true, if_pos hindexed]
  | some first =>
    have hmem : first ∈ p.strips := Array.mem_of_getElem? hfirst
    rw [layout_first hjpeg hfirst, hbytes first hmem, if_neg Bool.false_ne_true, if_pos hpalette]

/-- The layout has one palette index or three samples for a pixel where the metadata say so. -/
structure LayoutAgrees (p : Picture) : Prop where
  indexed : p.isIndexed = true ↔ p.layout = .indexed8
  rgb : p.isRgb = true ↔ p.layout.channels = 3

theorem isIndexed_of_isRgb (h : p.isRgb = true) : p.isIndexed = false := by
  rw [isIndexed, h]
  rfl

theorem LayoutAgrees.of_colored (hcolored : p.isRgb = true) (hthree : p.layout.channels = 3) :
    p.LayoutAgrees where
  indexed := by
    rw [isIndexed_of_isRgb hcolored]
    refine ⟨nofun, fun hlayout => ?_⟩
    rw [hlayout] at hthree
    cases hthree
  rgb := iff_of_true hcolored hthree

theorem LayoutAgrees.of_isIndexed (h : p.Coherent) (hindexed : p.isIndexed = true) :
    p.LayoutAgrees where
  indexed := iff_of_true hindexed (indexed8_of_isIndexed h hindexed)
  rgb := by
    have hplain : ¬ p.isRgb = true := by
      intro hcolored
      rw [isIndexed_of_isRgb hcolored] at hindexed
      cases hindexed
    rw [indexed8_of_isIndexed h hindexed]
    exact iff_of_false hplain (by decide)

/-- Embedded JPEG data, words that come first, and pictures without strips are assembled as the
metadata say. -/
theorem LayoutAgrees.of_not_bytes (h : p.Coherent) (hbytes : ¬ p.StartsWithBytes) :
    p.LayoutAgrees := by
  by_cases hjpeg : p.jpegOffsets = #[]
  · cases hfirst : p.strips[0]? with
    | none =>
      have hblank : p.strips = #[] := by simpa using hfirst
      have hlayout := layout_blank hjpeg hblank
      cases hcolored : p.isRgb with
      | true =>
        rw [if_pos hcolored] at hlayout
        exact .of_colored hcolored (congrArg Layout.channels hlayout)
      | false =>
        cases hindexed : p.isIndexed with
        | true => exact .of_isIndexed h hindexed
        | false =>
          rw [hcolored, hindexed, if_neg Bool.false_ne_true, if_neg Bool.false_ne_true] at hlayout
          constructor
          · rw [hindexed, hlayout]
            exact ⟨nofun, nofun⟩
          · rw [hcolored, hlayout]
            exact ⟨nofun, nofun⟩
    | some first =>
      cases first with
      | bytes samples => exact absurd ⟨hjpeg, samples, hfirst⟩ hbytes
      | words samples =>
        have hthree := h.words _ (Array.mem_of_getElem? hfirst) rfl
        have hlayout : p.layout = .planarRgb8 := layout_first hjpeg hfirst
        exact .of_colored ((isRgb_iff h).mpr hthree) (congrArg Layout.channels hlayout)
  · have hthree := h.jpeg (h.interleaved.mpr hjpeg)
    exact .of_colored ((isRgb_iff h).mpr hthree) (congrArg Layout.channels (layout_jpeg hjpeg))

theorem layout_counted (hbytes : p.StartsWithBytes) (hpalette : p.palette = none) :
    p.layout = if p.CountsChannels then .planarRgb8 else .gray8 := by
  obtain ⟨hjpeg, samples, hfirst⟩ := hbytes
  rw [layout_first hjpeg hfirst, hpalette]
  rfl

theorem isIndexed_of_palette_none (hpalette : p.palette = none) : p.isIndexed = false := by
  rw [isIndexed, hpalette]
  exact Bool.and_false _

/-- Plain bytes are assembled as the metadata say if the count comes to the same. -/
theorem layoutAgrees_counted (hbytes : p.StartsWithBytes) (hpalette : p.palette = none) :
    (p.isIndexed = true ↔ p.layout = .indexed8) ∧ (p.layout.channels = 3 ↔ p.CountsChannels) := by
  rw [isIndexed_of_palette_none hpalette, layout_counted hbytes hpalette]
  by_cases hcount : p.CountsChannels
  · rw [if_pos hcount]
    exact ⟨⟨nofun, nofun⟩, iff_of_true rfl hcount⟩
  · rw [if_neg hcount]
    exact ⟨⟨nofun, nofun⟩, iff_of_false (by decide) hcount⟩

end Picture

namespace Decode

open Picture (Coherent)

variable {limits : Limits} {stop : Stop} {s t : Session Walk} {source : Source} {doc : Document}

theorem coherent_turn {more : Bool} (h : turn limits stop s = .ok more t)
    (hs : s.work.picture.Coherent) : t.work.picture.Coherent := by
  cases turn_changes h with
  | reopened hopened => exact hs.reopened hopened
  | jpeg offsets hsome hpicture =>
    rw [hpicture]
    exact .withJpeg hsome
  | rows f u rows _ hopened _ _ hpicture =>
    rw [hpicture]
    exact (hs.reopened hopened).withRows f _ _ rows

/-- Every decoded picture is coherent. -/
theorem coherent_decoded (h : (decode source limits stop).result = .ok doc) :
    doc.picture.Coherent := by
  obtain ⟨info, cursor, t, -, hturns, rfl⟩ := decode_eq_ok h
  have hstart : (entered info cursor).work.picture.Coherent := .start info
  exact turns_keep (P := fun s => s.work.picture.Coherent) coherent_turn _ hturns hstart

/-- The layout of a decoded picture is interleaved exactly where its metadata say so, and indexed
where they do. It agrees with them in all else unless plain or colored bytes come first. Plain ones
are taken for three channels when they are as many as it takes for that. -/
theorem decode_layout (h : (decode source limits stop).result = .ok doc) :
    (doc.picture.interleaved = true ↔ doc.picture.layout = .rgb8) ∧
    (doc.picture.isIndexed = true → doc.picture.layout = .indexed8) ∧
    (¬ doc.picture.StartsWithBytes → doc.picture.LayoutAgrees) ∧
    (doc.picture.StartsWithBytes → doc.picture.palette.isSome = true →
      doc.picture.isRgb = false → doc.picture.LayoutAgrees) ∧
    (doc.picture.StartsWithBytes → doc.picture.palette = none →
      (doc.picture.isIndexed = true ↔ doc.picture.layout = .indexed8) ∧
      (doc.picture.layout.channels = 3 ↔ doc.picture.CountsChannels)) := by
  have hcoherent := coherent_decoded h
  refine ⟨Picture.rgb8_iff hcoherent, Picture.indexed8_of_isIndexed hcoherent, ?_, ?_, ?_⟩
  · exact .of_not_bytes hcoherent
  · intro _ hpalette hplain
    refine .of_isIndexed hcoherent ?_
    rw [Picture.isIndexed, hplain, hpalette]
    rfl
  · exact Picture.layoutAgrees_counted

/-- A direct pixmap of one pixel with one component of 32 bits. -/
def singlePicture : Source :=
  (writePicture sampleHeader [⟨0, .raster
    { opening := .direct (Vector.replicate 6 0) ⟨0, 0, 1, 1⟩ (Vector.replicate 18 0)
        ⟨32, 1, Vector.replicate 14 0⟩ (Vector.replicate 18 0)
      rows := [[0, 7]] }⟩] 0 []).toArray

theorem decode_singlePicture :
    ∃ doc, (decode singlePicture .unlimited .never).result = .ok doc ∧
      doc.picture.isRgb = true ∧ doc.picture.palette = none ∧ doc.picture.height = 1 ∧
      doc.picture.strips = #[.bytes [7]] ∧ doc.picture.jpegOffsets = #[] := by
  have hmap : (decode singlePicture .unlimited .never).result.toOption.map (fun doc =>
      (doc.picture.isRgb, doc.picture.palette, doc.picture.height, doc.picture.strips,
        doc.picture.jpegOffsets)) = some (true, none, 1, #[.bytes [7]], #[]) := by decide +kernel
  obtain ⟨doc, hdoc, hparts⟩ := exists_ok_of_map hmap
  simp only [Prod.mk.injEq] at hparts
  exact ⟨doc, hdoc, hparts⟩

/-- One strip is not counted as three channels. -/
theorem layout_singlePicture :
    ∃ doc, (decode singlePicture .unlimited .never).result = .ok doc ∧
      doc.picture.StartsWithBytes ∧ doc.picture.isRgb = true ∧ doc.picture.layout.channels ≠ 3 := by
  obtain ⟨doc, hdoc, hcolored, hpalette, hheight, hstrips, hjpeg⟩ := decode_singlePicture
  have hbytes : doc.picture.StartsWithBytes := ⟨hjpeg, [7], by rw [hstrips]; rfl⟩
  refine ⟨doc, hdoc, hbytes, hcolored, fun hthree => ?_⟩
  obtain ⟨-, hcount⟩ := ((decode_layout hdoc).2.2.2.2 hbytes hpalette).2.mp hthree
  rw [hstrips, hheight] at hcount
  exact absurd hcount (by decide)

/-- The layout of a decoded picture does not agree with all of its metadata. -/
theorem layout_disagrees :
    ¬ ∀ (source : Source) (limits : Limits) (stop : Stop) (doc : Document),
      (decode source limits stop).result = .ok doc →
      (doc.picture.interleaved = true ↔ doc.picture.layout = .rgb8) ∧ doc.picture.LayoutAgrees := by
  intro hall
  obtain ⟨doc, hdoc, hcolored, hpalette, hheight, hstrips, hjpeg⟩ := decode_singlePicture
  have hthree := (hall _ _ _ doc hdoc).2.rgb.mp hcolored
  have hbytes : doc.picture.StartsWithBytes := ⟨hjpeg, [7], by rw [hstrips]; rfl⟩
  obtain ⟨-, hcount⟩ := (Picture.layoutAgrees_counted hbytes hpalette).2.mp hthree
  rw [hstrips, hheight] at hcount
  exact absurd hcount (by decide)

end Decode
end Pict
