import Mathlib.Data.List.Forall2
import Pict.Proofs.Decode.Composition
import Pict.Proofs.Plane.Painted

/-!
# Pictures with a single raster

The smallest complete picture: a header, one raster with bounds of its own, and
the terminator. Its canvas is that of the raster, and each row of the raster
gives the same number of strips.

Results:
* `decode_single`: such a picture decodes to the strips of its rows.
* `height_rows`: its planes are as high as its raster.
* `strip_of_row`: where the strips of a row are found.
-/
namespace Pict

def writeSingle (h : HeaderBlock) (o : Opening) (rows : List (List UInt8))
    (padding ending : UInt8) (tail : List UInt8) : List UInt8 :=
  Decode.writePicture h [⟨padding, .raster ⟨o, rows⟩⟩] ending tail

/-- What the raster of a picture has to be like: bounds of `width` by `height` pixels, and
all its rows of so many bytes. -/
structure Opening.Spans (o : Opening) (version : Version) (width height rowBytes : Nat) : Prop where
  valid : o.Valid version
  width_pos : 0 < width
  height_pos : 0 < height
  width_eq : o.bounds.width = width
  height_eq : o.bounds.height = height
  rowBytes_eq : o.rowBytes width = rowBytes

namespace Opening.Spans

variable {o : Opening} {h : HeaderBlock} {width height rowBytes : Nat}

theorem override_width (ho : o.Spans h.version width height rowBytes) (before : Nat) :
    Header.override before o.bounds.width = width := by
  rw [ho.width_eq, Header.override, if_pos (by exact_mod_cast ho.width_pos), Int.toNat_natCast]

theorem override_height (ho : o.Spans h.version width height rowBytes) (before : Nat) :
    Header.override before o.bounds.height = height := by
  rw [ho.height_eq, Header.override, if_pos (by exact_mod_cast ho.height_pos), Int.toNat_natCast]

/-- A picture of a single raster decodes to the strips of its rows. -/
theorem decode_single (ho : o.Spans h.version width height rowBytes) {rows : List (List UInt8)}
    (hcount : rows.length = height) (hrows : ∀ row ∈ rows, o.format.Complete rowBytes row)
    (hf : o.format.Decodable rowBytes) (padding ending : UInt8) (tail : List UInt8) :
    ∃ p, (decode (writeSingle h o rows padding ending tail).toArray .unlimited .never).result =
        .ok ⟨(writeSingle h o rows padding ending tail).toArray, .unlimited, p⟩ ∧
      p.width = width ∧ p.declaredHeight = height ∧ p.palette = o.palette? ∧
      p.jpegOffsets = #[] ∧
      p.strips = (rows.flatMap (o.format.rowStrips width rowBytes)).toArray := by
  have hwidth := ho.override_width h.info.width
  have hheight := ho.override_height h.info.height
  let r : RasterBlock := ⟨o, rows⟩
  have hbytes : r.rowBytes h.info = rowBytes := by
    show o.rowBytes (Header.override h.info.width o.bounds.width) = rowBytes
    rw [hwidth, ho.rowBytes_eq]
  have hr : r.Valid h.info :=
    { opening := ho.valid
      count := hcount.trans hheight.symm
      rows := by
        rw [hbytes]
        exact hrows
      decodable := by
        rw [hbytes]
        exact fun _ => hf }
  have hstrips : r.strips h.info = rows.flatMap (o.format.rowStrips width rowBytes) := by
    show rows.flatMap (o.format.rowStrips (Header.override h.info.width o.bounds.width)
      (r.rowBytes h.info)) = _
    rw [hwidth, hbytes]
  have hdecode := Decode.decode_written h [⟨padding, .raster r⟩] ending tail ⟨hr, trivial⟩
  refine ⟨_, hdecode, hwidth, hheight, ?_, rfl, ?_⟩
  · show ([r].filterMap (·.opening.palette?)).getLast?.or none = o.palette?
    have hpalette : r.opening.palette? = o.palette? := rfl
    rw [Option.or_none, List.filterMap_cons, hpalette]
    cases o.palette? <;> rfl
  · show #[] ++ (r.strips h.info ++ []).toArray = _
    rw [hstrips, List.append_nil, Array.empty_append]

end Opening.Spans

/-! ## The strips of some rows -/

theorem getElem?_of_forall₂ {α β : Type} {R : α → β → Prop} {xs : List α} {ys : List β}
    (h : List.Forall₂ R xs ys) {k : Nat} {y : β} (hy : ys[k]? = some y) :
    ∃ x, xs[k]? = some x ∧ R x y := by
  induction h generalizing k with
  | nil => cases hy
  | cons hxy _ ih =>
    cases k with
    | zero =>
      obtain rfl := Option.some.inj hy
      exact ⟨_, rfl, hxy⟩
    | succ k => exact ih hy

theorem forall_of_forall₂ {α β : Type} {R : α → β → Prop} {P : α → Prop} {xs : List α}
    {ys : List β} (h : List.Forall₂ R xs ys) (hP : ∀ x, ∀ y ∈ ys, R x y → P x) :
    ∀ x ∈ xs, P x := by
  intro x hx
  obtain ⟨k, hk⟩ := List.mem_iff_getElem?.mp hx
  have hflip : List.Forall₂ (fun y x => R x y) ys xs := h.flip
  obtain ⟨y, hy, hxy⟩ := getElem?_of_forall₂ hflip hk
  exact hP x y (List.mem_of_getElem? hy) hxy

section
variable {β : Type} {R : List UInt8 → β → Prop} {g : List UInt8 → List Strip} {n : Nat}
  {p : Picture} {rows : List (List UInt8)} {image : List β} (hrows : List.Forall₂ R rows image)
  (hg : ∀ row, ∀ y ∈ image, R row y → (g row).length = n)
  (hstrips : p.strips = (rows.flatMap g).toArray)
include hrows hg hstrips

theorem size_strips : p.strips.size = image.length * n := by
  rw [hstrips, List.size_toArray, length_blocks (forall_of_forall₂ hrows hg), hrows.length_eq]

/-- Up to four strips per row the declared height is that of the planes. -/
theorem height_rows (hheight : image.length = p.declaredHeight) (hn : n ≤ 4) :
    p.height = p.declaredHeight := by
  have hsize : p.strips.size ≤ p.declaredHeight * 4 := by
    rw [size_strips hrows hg hstrips, hheight]
    exact Nat.mul_le_mul_left _ hn
  unfold Picture.height
  rw [if_neg]
  rintro ⟨hlt, -⟩
  omega

/-- The strips of a row of an image are those of the row that is written for it. -/
theorem strip_of_row {k : Nat} {y : β} (hk : image[k]? = some y) :
    ∃ row, R row y ∧ ∀ j < n, p.strips[k * n + j]? = (g row)[j]? := by
  obtain ⟨row, hrow, hR⟩ := getElem?_of_forall₂ hrows hk
  refine ⟨row, hR, fun j hj => ?_⟩
  rw [hstrips, List.getElem?_toArray, getElem?_blocks (forall_of_forall₂ hrows hg) hj, hrow,
    Option.bind_some]

end

/-- A window onto a strip that starts with the pixels of a row is one onto these pixels. -/
theorem crop_front {α : Type} [OfNat α 0] {pixels strip : List α} (h : pixels <+: strip)
    {x n : Nat} (hx : x + n ≤ pixels.length) : crop x n strip = (pixels.drop x).take n := by
  obtain ⟨more, rfl⟩ := h
  have hlen : n ≤ (pixels.drop x).length := by
    rw [List.length_drop]
    omega
  rw [crop, List.drop_append_of_le_length (by omega), fit, List.length_append,
    Nat.sub_eq_zero_of_le (by omega), List.replicate_zero, List.append_nil,
    List.take_append_of_le_length hlen]

end Pict
