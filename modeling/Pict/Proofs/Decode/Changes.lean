import Pict.Proofs.Decode.LastByte
import Pict.Proofs.Raster.Appended

/-!
# What a turn does to the picture

The header of a raster sets the canvas, the row bytes and the palette (`Picture.Reopened`), its rows
add strips, and embedded JPEG data adds the offsets at which it starts. No turn does anything
else to a picture, and none does two of the last.

Results:
* `reopened_opens`: whatever stands in front of the rows of a raster only reopens the picture.
* `turn_changes`: the three things that a turn can do.
* `turns_keep`: what every turn keeps, all of them keep.
-/
namespace Pict

open Job

/-- The canvas, the row bytes and the palette may be new; all else is as it was. -/
structure Picture.Reopened (p q : Picture) : Prop where
  version : q.version = p.version
  resolution : q.resolution = p.resolution
  strips : q.strips = p.strips
  stripBytes : q.stripBytes = p.stripBytes
  jpegOffsets : q.jpegOffsets = p.jpegOffsets
  channels : q.channels = p.channels
  interleaved : q.interleaved = p.interleaved

namespace Picture.Reopened

variable {p q r : Picture}

theorem refl (p : Picture) : p.Reopened p := ⟨rfl, rfl, rfl, rfl, rfl, rfl, rfl⟩

theorem trans (h : p.Reopened q) (h' : q.Reopened r) : p.Reopened r where
  version := h'.version.trans h.version
  resolution := h'.resolution.trans h.resolution
  strips := h'.strips.trans h.strips
  stripBytes := h'.stripBytes.trans h.stripBytes
  jpegOffsets := h'.jpegOffsets.trans h.jpegOffsets
  channels := h'.channels.trans h.channels
  interleaved := h'.interleaved.trans h.interleaved

end Picture.Reopened

def Frame.reopened : Frame where
  allows u v := u.picture.Reopened v.picture
  refl w := .refl w.picture
  trans h h' := h.trans h'

theorem reopened_opens : JobProperty.Opens fun _ job => Within .reopened job where
  toMoves := Within.moves fun w _ _ => .refl w.picture
  setRowBytes _ _ _ := ⟨rfl, rfl, rfl, rfl, rfl, rfl, rfl⟩
  setPalette _ _ _ := ⟨rfl, rfl, rfl, rfl, rfl, rfl, rfl⟩
  unsupported _ := .fail _

namespace Raster

theorem reopened_readOpening (op : RasterOp) : Within .reopened (readOpening op) :=
  reopened_opens.readOpening (fun _ _ _ _ => ⟨rfl, rfl, rfl, rfl, rfl, rfl, rfl⟩) op

end Raster

namespace Decode

variable {limits : Limits} {stop : Stop} {s t : Session Walk} {more : Bool}

/-! ## Turns -/

/-- What a turn from `s` to `t` does to the picture. -/
inductive Changes (limits : Limits) (stop : Stop) (s t : Session Walk) : Prop where
  | reopened (h : s.work.picture.Reopened t.work.picture) : Changes limits stop s t
  | jpeg (offsets : List Nat) (hsome : offsets ≠ [])
    (h : t.work.picture = s.work.picture.withJpeg offsets) : Changes limits stop s t
  /-- The rows of a raster are read from `u` on. -/
  | rows (f : Format) (u : Session Walk) (rows : List (List UInt8))
    (hreads : ReadsRows limits stop s f u t)
    (hopened : s.work.picture.Reopened u.work.picture)
    (hcount : rows.length ≤ u.work.picture.declaredHeight)
    (hdecodes : ∀ row ∈ rows, f.Decodes u.work.picture.width u.work.picture.rowBytes row)
    (h : t.work.picture =
      u.work.picture.withRows f u.work.picture.width u.work.picture.rowBytes rows) :
    Changes limits stop s t

/-- Rows that are read are those of a raster that was opened in the same turn. -/
theorem changes_rows {f : Format} {u : Session Walk} (h : ReadsRows limits stop s f u t) :
    Changes limits stop s t := by
  obtain ⟨op, s₁, s₂, hread, hcheck, hallow, hrows⟩ := h
  have hcode := (reopened_opens.read (Opcode.advances_read _)).ok hread
  have hchecked := reopened_opens.check.ok hcheck
  have hopened := (Raster.reopened_readOpening op).ok (allow_opening hallow)
  obtain ⟨rows, hcount, hdecodes, hpicture⟩ := Raster.readRows_extends f stop u
  rw [hrows] at hpicture
  exact .rows f u rows ⟨op, s₁, s₂, hread, hcheck, hallow, hrows⟩
    ((hcode.trans hchecked).trans hopened) hcount hdecodes hpicture

/-- A turn reopens the picture, takes embedded JPEG data, or reads the rows of a raster. -/
theorem turn_changes (h : turn limits stop s = .ok more t) : Changes limits stop s t := by
  rcases turn_eq_ok h with ⟨-, hread⟩ | ⟨opcode, s₁, s₂, goesOn, hread, hcheck, hdispatch, -⟩
  · exact .reopened ((reopened_opens.read (Opcode.advances_read _)).ok hread)
  have hcode : s.work.picture.Reopened s₁.work.picture :=
    (reopened_opens.read (Opcode.advances_read _)).ok hread
  have hbehind : s₂.work.picture = s.work.picture := by
    rw [check_work hcheck]
    obtain ⟨-, rfl⟩ := Walk.read_eq_ok.mp hread
    rfl
  by_cases hraster : ∃ op, opcode = .raster op
  · obtain ⟨op, rfl⟩ := hraster
    rcases dispatch_raster_eq_ok hdispatch with hnone | ⟨f, u, hallow, hrows⟩
    · refine .reopened ?_
      rw [← hbehind]
      exact (Raster.reopened_readOpening op).ok (allow_opening hnone)
    · exact changes_rows ⟨op, s₁, s₂, hread, hcheck, hallow, hrows⟩
  by_cases hjpeg : opcode = .jpeg
  · subst hjpeg
    obtain ⟨-, rfl⟩ := EStateM.Result.ok.inj hdispatch
    refine .jpeg (Spans.offsets s₂.work.cursor.source s₂.work.cursor.pos) (List.cons_ne_nil _ _) ?_
    rw [← hbehind]
    rfl
  · have hsame : t.work.picture = s₂.work.picture :=
      (within_same (fun op hop => hraster ⟨op, hop⟩) hjpeg).ok hdispatch
    refine .reopened ?_
    rw [hsame, hbehind]
    exact .refl _

/-! ## Runs -/

/-- What every turn keeps, a whole walk keeps. -/
theorem turns_keep {P : Session Walk → Prop}
    (hturn : ∀ {s t : Session Walk} {more : Bool}, turn limits stop s = .ok more t → P s → P t)
    (n : Nat) : ∀ {s : Session Walk}, turns limits n stop s = .ok () t → P s → P t := by
  induction n with
  | zero =>
    intro s h hs
    obtain ⟨-, rfl⟩ := pure_eq_ok.mp h
    exact hs
  | succ n ih =>
    intro s h hs
    rcases turns_succ_eq_ok h with hlast | ⟨u, hfirst, hrest⟩
    · exact hturn hlast hs
    · exact ih hrest (hturn hfirst hs)

end Decode
end Pict
