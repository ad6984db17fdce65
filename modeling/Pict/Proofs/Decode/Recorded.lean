import Pict.Proofs.Decode.Changes
import Pict.Proofs.Decode.Footprint
import Pict.Proofs.Decode.Scan
import Pict.Proofs.Plane.Stacked

/-!
# Which JPEGs are recorded

An opcode for embedded JPEG data ends the walk, so that the offsets of a decoded picture are those of
one scan. The first of them is recorded two bytes behind the opcode before anything is searched for,
and the search for an end marker begins at the opcode itself. If the end marker stands right there, the
search for start markers begins where the first JPEG does, and finds it again.

Results:
* `offsets_increasing`, `offsets_twice`: the offsets of one scan.
* `decode_offsets`: the offsets of a decoded picture are those of one scan.
* `decode_jpegOffsets`: they are increasing unless the first one is recorded twice.
* `offsets_not_increasing`: a picture of which it is.
-/
namespace Pict

namespace Spans

variable {source : Source} {p q : Nat}

/-! ## The offsets of one scan -/

theorem wordOffsets_increasing (source : Source) (p : Nat) :
    (wordOffsets source p).Pairwise (· < ·) := by
  refine List.Pairwise.map _ ?_ List.pairwise_lt_range
  intro i j hij
  omega

theorem le_of_mem_wordOffsets (h : q ∈ wordOffsets source p) : p ≤ q := by
  obtain ⟨i, -, rfl⟩ := List.mem_map.mp h
  exact Nat.le_add_right _ _

theorem behindEnd_sublist (source : Source) (p : Nat) :
    (behindEnd source p).Sublist (wordOffsets source p) :=
  (List.tail_sublist _).trans (List.dropWhile_sublist _)

theorem lt_of_mem_behindEnd (h : q ∈ behindEnd source p) : p < q := by
  have hsub := List.dropWhile_sublist (l := wordOffsets source p)
    fun q => source.u16? q != some endMarker
  have hsorted := (wordOffsets_increasing source p).sublist hsub
  unfold behindEnd at h
  cases hwords : (wordOffsets source p).dropWhile fun q => source.u16? q != some endMarker with
  | nil =>
    rw [hwords] at h
    cases h
  | cons marker words =>
    rw [hwords] at h hsub hsorted
    have hmarker := le_of_mem_wordOffsets (hsub.subset List.mem_cons_self)
    exact Nat.lt_of_le_of_lt hmarker (List.rel_of_pairwise_cons hsorted h)

theorem laterStarts_increasing (source : Source) (p : Nat) :
    (laterStarts source p).Pairwise (· < ·) :=
  ((wordOffsets_increasing source p).sublist (behindEnd_sublist source p)).filter _

/-- The end marker stands at `p`, and a JPEG starts behind it. -/
def FindsFirst (source : Source) (p : Nat) : Prop :=
  source.u16? p = some endMarker ∧ isStart source (p + 2) = true

/-- Where no end marker comes first, or no start marker behind it, all later starts are behind the
first one. -/
theorem lt_of_mem_laterStarts (h : ¬ FindsFirst source p) (hq : q ∈ laterStarts source p) :
    p + 2 < q := by
  have hstart : isStart source q = true := (List.mem_filter.mp hq).2
  cases hword : source.u16? p with
  | none =>
    rw [laterStarts_nil hword] at hq
    cases hq
  | some w =>
    by_cases hend : w = endMarker
    · subst hend
      rw [laterStarts_marker hword] at hq
      have hle := le_of_mem_wordOffsets (List.mem_filter.mp hq).1
      have hne : q ≠ p + 2 := by
        rintro rfl
        exact h ⟨hword, hstart⟩
      omega
    · rw [laterStarts_other hword hend] at hq
      exact lt_of_mem_behindEnd (List.mem_filter.mp hq).1

/-- Then no offset is recorded twice. -/
theorem offsets_increasing (h : ¬ FindsFirst source p) :
    (offsets source p).Pairwise (· < ·) :=
  List.pairwise_cons.mpr ⟨fun _ hq => lt_of_mem_laterStarts h hq, laterStarts_increasing source p⟩

/-- Else the first one is, and no other. -/
theorem offsets_twice (h : FindsFirst source p) :
    ∃ rest, offsets source p = (p + 2) :: (p + 2) :: rest ∧
      ((p + 2) :: rest).Pairwise (· < ·) := by
  obtain ⟨hend, hstart⟩ := h
  have hboth := hstart
  simp only [isStart, Bool.and_eq_true, decide_eq_true_eq] at hboth
  have hlater : laterStarts source p = (p + 2) :: starts source (p + 2 + 2) := by
    rw [laterStarts_marker hend, starts_marker hboth.1, if_pos hboth.2, List.singleton_append]
  refine ⟨starts source (p + 2 + 2), congrArg (List.cons (p + 2)) hlater, ?_⟩
  rw [← hlater]
  exact laterStarts_increasing source p

theorem le_of_mem_offsets (h : q ∈ offsets source p) : p + 2 ≤ q := by
  by_cases hfirst : FindsFirst source p
  · obtain ⟨rest, hoffsets, hsorted⟩ := offsets_twice hfirst
    rw [hoffsets, List.mem_cons] at h
    rcases h with rfl | h
    · exact Nat.le_refl _
    · rcases List.mem_cons.mp h with rfl | h
      · exact Nat.le_refl _
      · exact Nat.le_of_lt (List.rel_of_pairwise_cons hsorted h)
  · rcases List.mem_cons.mp h with rfl | h
    · exact Nat.le_refl _
    · exact Nat.le_of_lt (lt_of_mem_laterStarts hfirst h)

end Spans

open Job

namespace Decode

variable {limits : Limits} {stop : Stop} {s t : Session Walk} {source : Source} {doc : Document}

/-! ## The offsets of a picture -/

theorem dispatch_jpegOffsets {opcode : Opcode} {goesOn : Bool} (hjpeg : opcode ≠ .jpeg)
    (h : dispatch limits opcode stop s = .ok goesOn t) :
    t.work.picture.jpegOffsets = s.work.picture.jpegOffsets := by
  by_cases hraster : ∃ op, opcode = .raster op
  · obtain ⟨op, rfl⟩ := hraster
    rcases dispatch_raster_eq_ok h with hnone | ⟨f, u, hallow, hrows⟩
    · exact ((Raster.reopened_readOpening op).ok (allow_opening hnone)).jpegOffsets
    · have hopened := (Raster.reopened_readOpening op).ok (allow_opening hallow)
      obtain ⟨rows, -, -, hpicture⟩ := Raster.readRows_extends f stop u
      rw [hrows] at hpicture
      exact (congrArg Picture.jpegOffsets hpicture).trans hopened.jpegOffsets
  · have hsame : Within (Frame.same id) (dispatch limits opcode) :=
      within_same (fun op hop => hraster ⟨op, hop⟩) hjpeg
    exact congrArg Picture.jpegOffsets (hsame.ok h)

/-- A turn that records JPEGs is the last one. -/
theorem turn_jpegOffsets {more : Bool} (h : turn limits stop s = .ok more t) :
    t.work.picture.jpegOffsets = s.work.picture.jpegOffsets ∨
      more = false ∧ ∃ p, t.work.picture.jpegOffsets =
        s.work.picture.jpegOffsets ++ Spans.offsets s.work.cursor.source p := by
  rcases turn_eq_ok h with ⟨-, hread⟩ | ⟨opcode, s₁, s₂, goesOn, hread, hcheck, hdispatch, rfl⟩
  · obtain ⟨-, rfl⟩ := Walk.read_eq_ok.mp hread
    exact Or.inl rfl
  have hsource : s₁.work.cursor.source = s.work.cursor.source := by
    obtain ⟨-, rfl⟩ := Walk.read_eq_ok.mp hread
    exact (Opcode.advances_read _ _).1.source
  have hpicture : s₁.work.picture = s.work.picture := by
    obtain ⟨-, rfl⟩ := Walk.read_eq_ok.mp hread
    rfl
  have hwork := check_work hcheck
  rw [← hsource, ← hpicture, ← hwork]
  by_cases hjpeg : opcode = .jpeg
  · subst hjpeg
    obtain ⟨rfl, rfl⟩ := EStateM.Result.ok.inj hdispatch
    refine Or.inr ⟨?_, s₂.work.cursor.pos, rfl⟩
    -- the rest of the data is taken
    simp [Cursor.atEnd, Cursor.seek]
  · exact Or.inl (dispatch_jpegOffsets hjpeg hdispatch)

/-- A walk records what one scan finds, or nothing. -/
theorem turns_jpegOffsets (n : Nat) : ∀ {s : Session Walk},
    turns limits n stop s = .ok () t →
      t.work.picture.jpegOffsets = s.work.picture.jpegOffsets ∨
        ∃ p, t.work.picture.jpegOffsets =
          s.work.picture.jpegOffsets ++ Spans.offsets s.work.cursor.source p := by
  induction n with
  | zero =>
    intro s h
    obtain ⟨-, rfl⟩ := pure_eq_ok.mp h
    exact Or.inl rfl
  | succ n ih =>
    intro s h
    rcases turns_succ_eq_ok h with hlast | ⟨u, hfirst, hrest⟩
    · exact (turn_jpegOffsets hlast).imp_right And.right
    · have hsame : u.work.picture.jpegOffsets = s.work.picture.jpegOffsets :=
        (turn_jpegOffsets hfirst).resolve_right fun hlast => nomatch hlast.1
      have hsource : u.work.cursor.source = s.work.cursor.source :=
        ((within_turn Frame.onward_rows).ok hfirst).source
      rw [← hsame, ← hsource]
      exact ih hrest

/-- The offsets of a decoded picture are those of one scan, if there are any. -/
theorem decode_offsets (h : (decode source limits stop).result = .ok doc) :
    doc.picture.jpegOffsets = #[] ∨
      ∃ p, doc.picture.jpegOffsets.toList = Spans.offsets source p := by
  obtain ⟨info, cursor, t, hparse, hturns, rfl⟩ := decode_eq_ok h
  have hsource := (Header.parse_pos hparse).1
  rcases turns_jpegOffsets _ hturns with hnone | ⟨p, hsome⟩
  · exact Or.inl hnone
  · refine Or.inr ⟨p, ?_⟩
    rw [← hsource]
    show t.work.picture.jpegOffsets.toList = _
    rw [hsome]
    exact Array.toList_appendList

end Decode

/-! ## Planes -/

/-- The end marker stands right in front of the first JPEG, whose start marker is there. -/
def Document.FirstTwice (doc : Document) : Prop :=
  ∃ first, doc.picture.jpegOffsets[0]? = some first ∧
    doc.source.u16? (first - 2) = some Spans.endMarker ∧ Spans.isStart doc.source first = true

namespace Decode

variable {limits : Limits} {stop : Stop} {source : Source} {doc : Document}

theorem firstTwice_iff {p : Nat} (hsource : doc.source = source)
    (h : doc.picture.jpegOffsets.toList = Spans.offsets source p) :
    doc.FirstTwice ↔ Spans.FindsFirst source p := by
  have hfirst : doc.picture.jpegOffsets[0]? = some (p + 2) := by
    rw [← Array.getElem?_toList, h]
    rfl
  unfold Document.FirstTwice Spans.FindsFirst
  rw [hfirst, hsource]
  simp

/-- The first offset of a decoded picture is the smallest one, so that each span is all data from its
offset on. -/
theorem spans_decoded (h : (decode source limits stop).result = .ok doc) :
    doc.spans = doc.picture.jpegOffsets.toList.map doc.source.sliceFrom := by
  refine Mosaic.spans_eq fun offset hmem => ?_
  rcases decode_offsets h with hnone | ⟨p, hsome⟩
  · rw [hnone] at hmem
    cases hmem
  · rw [hsome] at hmem ⊢
    exact Spans.le_of_mem_offsets hmem

/-- The offsets of a decoded picture are increasing unless an end marker stands right in front of the
first one and a start marker at it. Then that one is recorded twice and no other is, and whatever is
read shows its image twice. -/
theorem decode_jpegOffsets (h : (decode source limits stop).result = .ok doc) :
    (doc.picture.jpegOffsets.toList.Pairwise (· < ·) ↔ ¬ doc.FirstTwice) ∧
    (doc.FirstTwice → ∃ first rest, doc.picture.jpegOffsets.toList = first :: first :: rest ∧
      (first :: rest).Pairwise (· < ·)) ∧
    ∀ codec request later plane, doc.picture.jpegOffsets ≠ #[] →
      (doc.readWith codec request later).report.result = .ok plane →
      ∃ stack, (doc.picture.jpegOffsets.toList.map fun offset =>
          codec (doc.source.sliceFrom offset)) = stack.map some ∧
        plane.ShowsStack request.window stack ∧
        (doc.FirstTwice → ∃ image others, stack = image :: image :: others) := by
  have hsource : doc.source = source := by
    obtain ⟨info, cursor, t, -, -, rfl⟩ := decode_eq_ok h
    rfl
  have htwice : doc.FirstTwice → ∃ first rest,
      doc.picture.jpegOffsets.toList = first :: first :: rest ∧
        (first :: rest).Pairwise (· < ·) := by
    intro hfirst
    rcases decode_offsets h with hnone | ⟨p, hsome⟩
    · obtain ⟨first, hmem, -⟩ := hfirst
      rw [hnone] at hmem
      cases hmem
    · obtain ⟨rest, hoffsets, hsorted⟩ :=
        Spans.offsets_twice ((firstTwice_iff hsource hsome).mp hfirst)
      exact ⟨p + 2, rest, hsome.trans hoffsets, hsorted⟩
  refine ⟨⟨fun hsorted hfirst => ?_, fun hfirst => ?_⟩, htwice, ?_⟩
  · obtain ⟨first, rest, hoffsets, -⟩ := htwice hfirst
    rw [hoffsets] at hsorted
    exact Nat.lt_irrefl first (List.rel_of_pairwise_cons hsorted List.mem_cons_self)
  · rcases decode_offsets h with hnone | ⟨p, hsome⟩
    · rw [hnone]
      exact List.Pairwise.nil
    · rw [hsome]
      exact Spans.offsets_increasing fun hfinds => hfirst ((firstTwice_iff hsource hsome).mpr hfinds)
  · intro codec request later plane hjpeg hread
    obtain ⟨stack, hspans, hshows⟩ := Document.exists_stack hjpeg hread
    rw [spans_decoded h, List.map_map] at hspans
    refine ⟨stack, hspans, hshows, fun hfirst => ?_⟩
    obtain ⟨first, rest, hoffsets, -⟩ := htwice hfirst
    rw [hoffsets] at hspans
    obtain ⟨image, tail, rfl, himage, hrest⟩ := List.map_eq_cons_iff.mp hspans.symm
    obtain ⟨again, others, rfl, hagain, -⟩ := List.map_eq_cons_iff.mp hrest
    obtain rfl := Option.some.inj (himage.trans hagain.symm)
    exact ⟨image, others, rfl⟩

/-- A picture of one row of two pixels with two end markers around a start marker. -/
def markedPicture : Source :=
  (sampleHeader.bytes ++ [0x00, 0x18, 0xFF, 0xD9, 0xFF, 0xD8, 0xFF, 0xD9]).toArray

theorem decode_markedPicture :
    ∃ doc, (decode markedPicture .unlimited .never).result = .ok doc ∧
      (doc.limits, doc.fullWindow, doc.picture.jpegOffsets) =
        (.unlimited, ⟨0, 0, 2, 1⟩, #[556, 556]) :=
  exists_ok_of_map (by decide +kernel)

/-- Its one JPEG is recorded twice, and shown twice wherever it decodes. -/
theorem markedPicture_twice :
    ∃ doc, (decode markedPicture .unlimited .never).result = .ok doc ∧ doc.FirstTwice ∧
      ∀ image : RgbImage, ∃ plane,
        (doc.readWith (fun _ => some image) (.ofWindow ⟨0, 0, 2, 1⟩) .never).report.result =
          .ok plane ∧
        plane.ShowsStack ⟨0, 0, 2, 1⟩ [image, image] := by
  obtain ⟨doc, hdoc, hparts⟩ := decode_markedPicture
  simp only [Prod.mk.injEq] at hparts
  obtain ⟨hlimits, hcanvas, hjpeg⟩ := hparts
  obtain ⟨hincreasing, -, hreads⟩ := decode_jpegOffsets hdoc
  have hfirst : doc.FirstTwice := by
    by_contra hnot
    have hsorted := hincreasing.mpr hnot
    rw [hjpeg] at hsorted
    exact absurd hsorted (by decide)
  have hsome : doc.picture.jpegOffsets ≠ #[] := by
    rw [hjpeg]
    decide
  refine ⟨doc, hdoc, hfirst, fun image => ?_⟩
  let request : Request := .ofWindow ⟨0, 0, 2, 1⟩
  have hfits : request.window.fits doc.picture.width doc.picture.height = true := by
    have hwidth : doc.picture.width = 2 := congrArg Window.width hcanvas
    have hheight : doc.picture.height = 1 := congrArg Window.height hcanvas
    rw [hwidth, hheight]
    rfl
  have hmemory : Limits.allows doc.limits.memory
      (3 * request.window.width * request.window.height) := by
    rw [hlimits]
    exact nofun
  have hspans : Mosaic.images (fun _ => some image) doc.spans = .ok [image, image] := by
    rw [Document.spans, hjpeg]
    rfl
  have hread : (doc.readWith (fun _ => some image) request .never).report.result =
      .ok (doc.planeOf request (Mosaic.window [image, image] request.window)) := by
    rw [Document.readWith_jpeg hsome hfits hmemory, hspans]
    rfl
  obtain ⟨stack, himages, hshows, -⟩ := hreads _ request .never _ hsome hread
  rw [hjpeg] at himages
  obtain rfl : [image, image] = stack :=
    (List.map_inj_right fun _ _ => Option.some.inj).mp himages
  exact ⟨_, hread, hshows⟩

/-- The offsets of a decoded picture are not always increasing. -/
theorem offsets_not_increasing :
    ¬ ∀ (source : Source) (limits : Limits) (stop : Stop) (doc : Document),
      (decode source limits stop).result = .ok doc →
      doc.picture.jpegOffsets.toList.Pairwise (· < ·) := by
  intro hall
  obtain ⟨doc, hdoc, hparts⟩ := decode_markedPicture
  simp only [Prod.mk.injEq] at hparts
  have hsorted := hall _ _ _ doc hdoc
  rw [hparts.2.2] at hsorted
  exact absurd hsorted (by decide)

end Decode
end Pict
