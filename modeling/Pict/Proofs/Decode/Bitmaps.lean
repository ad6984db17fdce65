import Pict.Proofs.Decode.Canvas
import Pict.Proofs.Decode.Changes
import Pict.Proofs.Decode.Footprint
import Pict.Proofs.Decode.Growth
import Pict.Proofs.Samples.PixelRow

/-!
# Version 1 pictures

Version 1 has no pixmaps: the flag of the row bytes that stands for one is not looked at. Its rasters
are bitmaps, which bring no palette and whose strips are bits. One opcode carries a pixmap without that
flag, the one of direct bits, and nothing keeps it out of version 1.

Results:
* `Opcode.raster_one`: which rasters are read in version 1.
* `turn_bitmaps`: a turn stores bits, unless it reads a direct pixmap.
* `decode_bitmaps`: so does a whole picture, which has no palette.
* `decode_no_bitmap`: a picture of version 1 that is no bitmap.
-/
namespace Pict

open Job

namespace Strip

def IsBitmap : Strip → Prop
  | bytes samples => ∀ x ∈ samples, x = 0 ∨ x = 1
  | words _ => False

end Strip

theorem Format.isBitmap_of_mem {width rowBytes : Nat} {row : List UInt8} {strip : Strip}
    (h : strip ∈ Format.bitmap.rowStrips width rowBytes row) : strip.IsBitmap := by
  rcases Format.mem_rowStrips h with ⟨hsize, -⟩ | ⟨-, samples, rfl, hexpanded⟩
  · cases hsize
  · obtain ⟨input, hinput⟩ := hexpanded (by decide)
    intro x hx
    have hlt : x.toNat < 2 ^ 1 := Depth.lt_of_mem_expandRow hinput hx
    have hbit : x.toNat = 0 ∨ x.toNat = 1 := by omega
    exact hbit.imp (fun h => UInt8.toNat_inj.mp h) (fun h => UInt8.toNat_inj.mp h)

/-! ## Rasters of version 1 -/

/-- The raster brings no palette: it is a bitmap or a direct pixmap. -/
def RasterOp.IsPlain (op : RasterOp) : Prop := op.pixmap = false ∨ op.kind = .directBits

namespace Opcode

/-- Version 1 has no flag for pixmaps. -/
theorem raster_one {c d : Cursor} {op : RasterOp}
    (h : Opcode.read .one c = (some (.raster op), d)) : op.IsPlain := by
  rcases read_raster h with ⟨-, hbitmap⟩ | ⟨rfl, -⟩
  · exact Or.inl (hbitmap rfl)
  · exact Or.inr rfl

end Opcode

namespace Raster

variable {stop : Stop} {s t : Session Walk} {opened : Option Format}

abbrev KeepsPalette {α : Type} (job : Job Walk α) : Prop := Within (Frame.same Picture.palette) job

theorem keepsPalette_takeRowBytes (rowBytes : Option Nat) : KeepsPalette (takeRowBytes rowBytes) := by
  cases rowBytes with
  | none => exact Frame.same_moves.skip 6
  | some n => exact fun _ _ => rfl

theorem keepsPalette_openPixmap : KeepsPalette (openPixmap .directBits) := by
  have h : JobProperty.Moves fun _ job => KeepsPalette job := Frame.same_moves
  have hcolors (f : Format) : KeepsPalette (readColors .directBits f) := by
    refine h.bind h.getPicture fun p => ?_
    split
    · exact h.bind (fun _ _ => rfl) fun _ => h.pure true
    · exact Within.fail _
  have hpixmap : KeepsPalette (readPixmap .directBits) := by
    rw [readPixmap_eq]
    refine h.bind (h.read Format.advances_read) fun f => ?_
    cases f with
    | none => exact h.pure none
    | some f => exact h.bind (hcolors f) fun settled => h.passColors _ f settled
  refine h.bind hpixmap fun f => ?_
  cases f with
  | none => exact h.bind h.getCursor fun _ => h.bind (h.warn _) fun _ => h.pure none
  | some f => exact h.pure (some f)

theorem isDirect_of_directRowBytes {f : Format} {width n : Nat}
    (h : f.directRowBytes? width = some n) : f.isDirect = true := by
  unfold Format.directRowBytes? at h
  unfold Format.isDirect
  split at h
  · rename_i hsize
    simp [hsize]
  · split at h
    · rename_i hsize
      simp [hsize]
    · cases h

theorem openPixmap_direct {f : Format} (h : openPixmap .directBits stop s = .ok (some f) t) :
    f.isDirect = true := by
  obtain ⟨u, v, -, hcolors⟩ := openPixmap_some h
  obtain ⟨p, _, -, hcolors⟩ := bind_eq_ok.mp hcolors
  cases hbytes : f.directRowBytes? p.width with
  | none =>
    rw [hbytes] at hcolors
    cases hcolors
  | some n => exact isDirect_of_directRowBytes hbytes

/-- A plain raster leaves the palette as it is, and has the pixels of a bitmap or direct ones. -/
theorem readOpening_plain {op : RasterOp} (hop : op.IsPlain)
    (h : readOpening op stop s = .ok opened t) :
    t.work.picture.palette = s.work.picture.palette ∧
      ∀ f, opened = some f → f = .bitmap ∨ f.isDirect = true := by
  obtain ⟨u, v, bounds, hrowBytes, hbounds, hrest⟩ := readOpening_eq_ok h
  have hu : u.work.picture.palette = s.work.picture.palette :=
    (keepsPalette_takeRowBytes op.rowBytes).ok hrowBytes
  have hv : v.work.picture.palette = u.work.picture.palette :=
    Within.ok (Frame.same_moves.read advances_readBounds) hbounds
  cases bounds with
  | none =>
    obtain ⟨rfl, hwork⟩ := hrest
    refine ⟨?_, nofun⟩
    rw [hwork, hv, hu]
  | some bounds =>
    dsimp only at hrest
    cases hpixmap : op.pixmap with
    | false =>
      rw [hpixmap, if_neg Bool.false_ne_true] at hrest
      obtain ⟨rfl, rfl⟩ := pure_eq_ok.mp hrest
      refine ⟨hv.trans hu, ?_⟩
      rintro f ⟨⟩
      exact Or.inl rfl
    | true =>
      have hdirect : op.kind = .directBits := hop.resolve_left (by rw [hpixmap]; exact nofun)
      rw [hpixmap, if_pos rfl, hdirect] at hrest
      refine ⟨(keepsPalette_openPixmap.ok hrest).trans (hv.trans hu), ?_⟩
      rintro f rfl
      exact Or.inr (openPixmap_direct hrest)

end Raster

/-! ## Turns of version 1 -/

namespace Decode

variable {limits : Limits} {stop : Stop} {s t u : Session Walk} {f : Format} {more : Bool}

/-- The rasters of version 1 are plain, and what they are read from is the picture so far. -/
theorem dispatches_one {op : RasterOp} (hs : s.work.picture.version = .one)
    (h : Dispatches stop s (.raster op) t) :
    op.IsPlain ∧ t.work.picture = s.work.picture := by
  obtain ⟨s₁, hread, hcheck⟩ := h
  rw [hs] at hread
  obtain ⟨hsome, rfl⟩ := Walk.read_eq_ok.mp hread
  refine ⟨Opcode.raster_one (Prod.ext hsome rfl), ?_⟩
  rw [check_work hcheck]

/-- In version 1 the rows that are read are those of a bitmap or of a direct pixmap, and there is
no new palette in front of them. -/
theorem readsRows_one (hs : s.work.picture.version = .one) (h : ReadsRows limits stop s f u t) :
    u.work.picture.palette = s.work.picture.palette ∧ (f = .bitmap ∨ f.isDirect = true) := by
  obtain ⟨op, s₁, s₂, hread, hcheck, hallow, -⟩ := h
  obtain ⟨hplain, hsame⟩ := dispatches_one hs ⟨s₁, hread, hcheck⟩
  obtain ⟨hpalette, hformat⟩ := Raster.readOpening_plain hplain (allow_opening hallow)
  rw [hsame] at hpalette
  exact ⟨hpalette, hformat f rfl⟩

theorem palette_turn (hs : s.work.picture.version = .one) (h : turn limits stop s = .ok more t) :
    t.work.picture.palette = s.work.picture.palette := by
  have hmoves : JobProperty.Moves fun _ job => Raster.KeepsPalette job := Frame.same_moves
  rcases turn_eq_ok h with ⟨-, hread⟩ | ⟨opcode, s₁, s₂, goesOn, hread, hcheck, hdispatch, -⟩
  · exact Within.ok (hmoves.read (Opcode.advances_read _)) hread
  by_cases hraster : ∃ op, opcode = .raster op
  · obtain ⟨op, rfl⟩ := hraster
    rcases dispatch_raster_eq_ok hdispatch with hnone | ⟨f, u, hallow, hrows⟩
    · obtain ⟨hplain, hsame⟩ := dispatches_one hs ⟨s₁, hread, hcheck⟩
      rw [← hsame]
      exact (Raster.readOpening_plain hplain (allow_opening hnone)).1
    · have hopened := (readsRows_one hs ⟨op, s₁, s₂, hread, hcheck, hallow, hrows⟩).1
      have hrow : JobProperty.Rows fun _ job => Raster.KeepsPalette job :=
        Frame.same_rows (fun _ _ => rfl) fun _ => rfl
      exact (Within.ok (hrow.readRows f) hrows).trans hopened
  · have htakes : JobProperty.Takes fun _ job => Raster.KeepsPalette job :=
      { hmoves with setJpeg := fun _ _ _ => rfl, finish := fun _ _ => rfl }
    have hkept := Within.ok
      (htakes.dispatch_of_ne limits fun op hop => hraster ⟨op, hop⟩) hdispatch
    have hcode := Within.ok (hmoves.read (Opcode.advances_read _)) hread
    exact hkept.trans ((Within.ok hmoves.check hcheck).trans hcode)

/-- The strip is one of a direct pixmap whose rows are read from `u` to `t`. -/
def IsDirectStrip (f : Format) (u t : Session Walk) (i : Nat) : Prop :=
  f.isDirect = true ∧ u.work.picture.strips.size ≤ i ∧ i < t.work.picture.strips.size

/-- A turn of version 1 stores bits, unless it reads the rows of a direct pixmap. -/
theorem turn_bitmaps (hs : s.work.picture.version = .one) (h : turn limits stop s = .ok more t)
    {i : Nat} {strip : Strip} (hstrip : t.work.picture.strips[i]? = some strip)
    (hi : s.work.picture.strips.size ≤ i) :
    strip.IsBitmap ∨ ∃ f u, ReadsRows limits stop s f u t ∧ IsDirectStrip f u t i := by
  obtain ⟨hlt, -⟩ := Array.getElem?_eq_some_iff.mp hstrip
  cases turn_changes h with
  | reopened hopened =>
    rw [hopened.strips] at hlt
    omega
  | jpeg offsets _ hpicture =>
    rw [hpicture] at hlt
    exact absurd hlt (Nat.not_lt.mpr hi)
  | rows f u rows hreads hopened _ _ hpicture =>
    rcases (readsRows_one hs hreads).2 with rfl | hdirect
    · -- the strip is one of the rows of a bitmap
      rw [hpicture] at hstrip
      have happended : (u.work.picture.strips ++ (rows.flatMap (Format.bitmap.rowStrips
          u.work.picture.width u.work.picture.rowBytes)).toArray)[i]? = some strip := hstrip
      rw [Array.getElem?_append_right (by rw [hopened.strips]; exact hi)] at happended
      have hmem := List.mem_toArray.mp (Array.mem_of_getElem? happended)
      obtain ⟨row, -, hrow⟩ := List.mem_flatMap.mp hmem
      exact Or.inl (Format.isBitmap_of_mem hrow)
    · refine Or.inr ⟨f, u, hreads, hdirect, ?_, hlt⟩
      rw [hopened.strips]
      exact hi

/-! ## Runs of version 1 -/

theorem getElem?_of_grows {n : Nat} {p q : Picture} (h : p.GrowsBy n q) {i : Nat}
    (hi : i < p.strips.size) : q.strips[i]? = p.strips[i]? := by
  obtain ⟨strips, happended, -⟩ := h
  have hstrips : q.strips = p.strips ++ strips.toArray := by
    rw [← Array.toList_inj, happended, Array.toList_append]
  rw [hstrips, Array.getElem?_append_left hi]

theorem palette_turns (n : Nat) (hs : s.work.picture.version = .one)
    (h : turns limits n stop s = .ok () t) :
    t.work.picture.palette = s.work.picture.palette :=
  (turns_keep (P := fun u => u.work.picture.version = .one ∧
      u.work.picture.palette = s.work.picture.palette)
    (fun hturn hu => ⟨((version_turn limits).ok hturn).trans hu.1,
      (palette_turn hu.1 hturn).trans hu.2⟩) n h ⟨hs, rfl⟩).2

theorem turns_bitmaps (n : Nat) : ∀ {s : Session Walk}, s.work.picture.version = .one →
    turns limits n stop s = .ok () t →
    ∀ i strip, t.work.picture.strips[i]? = some strip → s.work.picture.strips.size ≤ i →
      strip.IsBitmap ∨
        ∃ f u v, ReadsRowsWithin limits stop n s f u v ∧ IsDirectStrip f u v i := by
  induction n with
  | zero =>
    intro s hs h i strip hstrip hi
    obtain ⟨-, rfl⟩ := pure_eq_ok.mp h
    obtain ⟨hlt, -⟩ := Array.getElem?_eq_some_iff.mp hstrip
    omega
  | succ n ih =>
    intro s hs h i strip hstrip hi
    rcases turns_succ_eq_ok h with hlast | ⟨v, hfirst, hrest⟩
    · refine (turn_bitmaps hs hlast hstrip hi).imp_right ?_
      rintro ⟨f, u, hreads, hdirect⟩
      exact ⟨f, u, t, Or.inl hreads, hdirect⟩
    · have hv : v.work.picture.version = .one := ((version_turn limits).ok hfirst).trans hs
      by_cases hlater : v.work.picture.strips.size ≤ i
      · refine (ih hv hrest i strip hstrip hlater).imp_right ?_
        rintro ⟨f, u, w, hwithin, hdirect⟩
        exact ⟨f, u, w, Or.inr ⟨v, hfirst, hwithin⟩, hdirect⟩
      · -- the strip was there before the other turns
        obtain ⟨k, hgrows⟩ := turns_grow n hrest
        rw [getElem?_of_grows hgrows (Nat.lt_of_not_le hlater)] at hstrip
        refine (turn_bitmaps hs hfirst hstrip hi).imp_right ?_
        rintro ⟨f, u, hreads, hdirect⟩
        exact ⟨f, u, v, Or.inl hreads, hdirect⟩

theorem ReadsRows.words (h : ReadsRows limits stop s f u t) (hsize : f.pixelSize = 16) {i : Nat}
    (hi : u.work.picture.strips.size ≤ i) (hlt : i < t.work.picture.strips.size) :
    ∃ samples, t.work.picture.strips[i]? = some (.words samples) := by
  obtain ⟨op, s₁, s₂, -, -, -, hrows⟩ := h
  obtain ⟨rows, -, -, hpicture⟩ := Raster.readRows_extends f stop u
  rw [hrows] at hpicture
  have happended : t.work.picture.strips = u.work.picture.strips ++
      (rows.flatMap (f.rowStrips u.work.picture.width u.work.picture.rowBytes)).toArray :=
    congrArg Picture.strips hpicture
  have hstrip := Array.getElem?_eq_getElem hlt
  generalize t.work.picture.strips[i] = strip at hstrip
  have hnew := hstrip
  rw [happended, Array.getElem?_append_right hi] at hnew
  obtain ⟨row, -, hrow⟩ := List.mem_flatMap.mp (List.mem_toArray.mp (Array.mem_of_getElem? hnew))
  rcases Format.mem_rowStrips hrow with ⟨-, samples, rfl⟩ | ⟨hother, -⟩
  · exact ⟨samples, hstrip⟩
  · exact absurd hsize hother

/-! ## Whole pictures -/

variable {source : Source} {info : Info} {cursor : Cursor} {doc : Document}

/-- A decoded picture of version 1 has no palette, and its strips are bits except those of direct
pixmaps. Those of 16 bits are words. -/
theorem decode_bitmaps (hparse : Header.parse source = .ok (info, cursor))
    (hversion : info.version = .one) (h : (decode source limits stop).result = .ok doc) :
    doc.picture.palette = none ∧
    (∀ i strip, doc.picture.strips[i]? = some strip →
      strip.IsBitmap ∨ ∃ f u t, ReadsRowsIn source limits stop f u t ∧ IsDirectStrip f u t i) ∧
    ∀ f u t i, ReadsRowsIn source limits stop f u t → IsDirectStrip f u t i → f.pixelSize = 16 →
      ∃ samples, doc.picture.strips[i]? = some (.words samples) := by
  obtain ⟨v, hturns, rfl⟩ := turns_of_decode hparse h
  have hone : (entered info cursor).work.picture.version = .one := hversion
  refine ⟨palette_turns _ hone hturns, fun i strip hstrip => ?_, ?_⟩
  · refine (turns_bitmaps _ hone hturns i strip hstrip (Nat.zero_le i)).imp_right ?_
    rintro ⟨f, u, t, hwithin, hdirect⟩
    exact ⟨f, u, t, ⟨info, cursor, hparse, hwithin⟩, hdirect⟩
  · rintro f u t i hin ⟨-, hi, hlt⟩ hsize
    have hwithin := hin.within hparse
    obtain ⟨w, hreads⟩ := hwithin.exists_turn
    obtain ⟨k, hgrows⟩ := hwithin.grows_behind _ hturns
    obtain ⟨samples, hwords⟩ := hreads.words hsize hi hlt
    exact ⟨samples, (getElem?_of_grows hgrows hlt).trans hwords⟩

/-- A picture of version 1 with a direct pixmap of one pixel of 16 bits. -/
def directPicture : Source :=
  (writePicture (.one (Vector.replicate 518 0) 1 1) [⟨0, .raster
    { opening := .direct (Vector.replicate 6 0) ⟨0, 0, 1, 1⟩ (Vector.replicate 18 0)
        ⟨16, 3, Vector.replicate 14 0⟩ (Vector.replicate 18 0)
      rows := [[0x7F, 0xFF]] }⟩] 0 []).toArray

theorem decode_directPicture :
    ∃ info cursor doc, Header.parse directPicture = .ok (info, cursor) ∧ info.version = .one ∧
      (decode directPicture .unlimited .never).result = .ok doc ∧
      doc.picture.strips[0]? = some (.words [0x7FFF]) := by
  have hparsed : (Header.parse directPicture).toOption.map (fun header => header.1.version) =
      some .one := by decide +kernel
  have hmap : (decode directPicture .unlimited .never).result.toOption.map (fun doc =>
      doc.picture.strips[0]?) = some (some (.words [0x7FFF])) := by decide +kernel
  obtain ⟨⟨info, cursor⟩, hparse, hversion⟩ := exists_ok_of_map hparsed
  obtain ⟨doc, hdoc, hstrip⟩ := exists_ok_of_map hmap
  exact ⟨info, cursor, doc, hparse, hversion, hdoc, hstrip⟩

/-- The strip of this picture comes from a direct pixmap. -/
theorem bitmaps_directPicture :
    ∃ doc, (decode directPicture .unlimited .never).result = .ok doc ∧
      doc.picture.palette = none ∧
      ∃ f u t, ReadsRowsIn directPicture .unlimited .never f u t ∧ IsDirectStrip f u t 0 := by
  obtain ⟨info, cursor, doc, hparse, hversion, hdoc, hstrip⟩ := decode_directPicture
  obtain ⟨hpalette, hstrips, -⟩ := decode_bitmaps hparse hversion hdoc
  exact ⟨doc, hdoc, hpalette, (hstrips 0 _ hstrip).resolve_left id⟩

/-- Not every picture of version 1 is a bitmap. -/
theorem decode_no_bitmap :
    ¬ ∀ (source : Source) (limits : Limits) (stop : Stop) (info : Info) (cursor : Cursor)
        (doc : Document), Header.parse source = .ok (info, cursor) → info.version = .one →
      (decode source limits stop).result = .ok doc →
      doc.picture.palette = none ∧ ∀ strip ∈ doc.picture.strips, strip.IsBitmap := by
  intro hall
  obtain ⟨info, cursor, doc, hparse, hversion, hdoc, hstrip⟩ := decode_directPicture
  exact (hall _ _ _ info cursor doc hparse hversion hdoc).2 _ (Array.mem_of_getElem? hstrip)

end Decode
end Pict
