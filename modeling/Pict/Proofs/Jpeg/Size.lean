import Mathlib.Data.List.Basic
import Pict.Jpeg.Baseline

/-!
# The size of a decoded image

An image that is decoded from a baseline JPEG has all the samples that its frame announces:
every component of a unit gives eight rows of eight samples, units stand side by side in
bands, and there are as many bands as the frame needs.

Results:
* `Setup.parse_sized`: what is known of a scan once the segments in front of it are parsed.
* `readIntervals_units`: a scan that is read has all of its units, each with one block of each
  component.
* `baseline_size`: a decoded image has three samples for each of its pixels.
-/
namespace Pict.Jpeg

variable {α β γ : Type}

/-! ## Rows of one length -/

structure Grid (width height : Nat) (rows : List (List α)) : Prop where
  tall : rows.length = height
  wide : ∀ row ∈ rows, row.length = width

theorem forall_mem_zipWith {f : α → β → γ} {P : α → Prop} {Q : β → Prop} {R : γ → Prop}
    (h : ∀ a b, P a → Q b → R (f a b)) : ∀ {xs : List α} {ys : List β},
      (∀ a ∈ xs, P a) → (∀ b ∈ ys, Q b) → ∀ c ∈ List.zipWith f xs ys, R c
  | [], _, _, _, c, hc => by
    rw [List.zipWith_nil_left] at hc
    cases hc
  | _ :: _, [], _, _, c, hc => by
    rw [List.zipWith_nil_right] at hc
    cases hc
  | a :: xs, b :: ys, hxs, hys, c, hc => by
    rw [List.zipWith_cons_cons, List.mem_cons] at hc
    rcases hc with rfl | hc
    · exact h a b (hxs a List.mem_cons_self) (hys b List.mem_cons_self)
    · exact forall_mem_zipWith h (fun a ha => hxs a (List.mem_cons_of_mem _ ha))
        (fun b hb => hys b (List.mem_cons_of_mem _ hb)) c hc

theorem Grid.getD {width height i : Nat} {rows : List (List α)} (h : Grid width height rows)
    (hi : i < height) : (rows.getD i []).length = width := by
  rw [List.getD_eq_getElem?_getD, List.getElem?_eq_getElem (by rw [h.tall]; exact hi)]
  exact h.wide _ (List.getElem_mem _)

theorem grid_transpose {rows : List (List α)} (h : ∀ row ∈ rows, row.length = 8) :
    Grid rows.length 8 (transpose rows) := by
  induction rows with
  | nil => exact ⟨List.length_replicate, fun row hrow => by rw [List.eq_of_mem_replicate hrow]; rfl⟩
  | cons row rows ih =>
    have hrest := ih fun row hrow => h row (List.mem_cons_of_mem _ hrow)
    refine ⟨?_, forall_mem_zipWith (P := fun _ => True) (fun a column _ hcolumn => ?_)
      (fun _ _ => trivial) hrest.wide⟩
    · show (List.zipWith _ row (transpose rows)).length = 8
      rw [List.length_zipWith, hrest.tall, h row List.mem_cons_self, Nat.min_self]
    · rw [List.length_cons, hcolumn, List.length_cons]

/-! ## Samples of a unit -/

theorem length_transformLine (bias : Int) (shift : Nat) : ∀ {line : List Int}, line.length = 8 →
    (transformLine bias shift line).length = 8
  | [_, _, _, _, _, _, _, _], _ => rfl

theorem grid_transform {rows : List (List Int)} (h : Grid 8 8 rows) :
    Grid 8 8 (transform rows) := by
  have hfirst := grid_transpose h.wide
  rw [h.tall] at hfirst
  have hcolumns : ∀ column ∈ (transpose rows).map (transformLine 512 10), column.length = 8 := by
    intro column hmem
    obtain ⟨line, hline, rfl⟩ := List.mem_map.mp hmem
    exact length_transformLine _ _ (hfirst.wide line hline)
  have hsecond := grid_transpose hcolumns
  rw [List.length_map, hfirst.tall] at hsecond
  refine ⟨?_, fun row hmem => ?_⟩
  · rw [transform, List.length_map]
    exact hsecond.tall
  · obtain ⟨line, hline, rfl⟩ := List.mem_map.mp hmem
    rw [List.length_map]
    exact length_transformLine _ _ (hsecond.wide line hline)

theorem grid_blockSamples (quantisation : List Nat) (coefficients : List Int) :
    Grid 8 8 (blockSamples quantisation coefficients) := by
  have hzigzag : Grid 8 8 zigzag := ⟨by decide, by decide⟩
  refine grid_transform ⟨by rw [List.length_map]; exact hzigzag.tall, fun row hrow => ?_⟩
  obtain ⟨places, hplaces, rfl⟩ := List.mem_map.mp hrow
  rw [List.length_map]
  exact hzigzag.wide places hplaces

theorem length_rowPixels {n : Nat} {samples : List (List UInt8)}
    (hcount : samples.length = 1 ∨ samples.length = 3) (h : ∀ row ∈ samples, row.length = n) :
    (rowPixels samples).length = n := by
  rcases hcount with hone | hthree
  · obtain ⟨ys, rfl⟩ := List.length_eq_one_iff.mp hone
    rw [rowPixels, List.length_map, h ys List.mem_cons_self]
  · obtain ⟨ys, cbs, crs, rfl⟩ := List.length_eq_three.mp hthree
    rw [rowPixels, List.length_zipWith, List.length_zip, h ys (by simp), h cbs (by simp),
      h crs (by simp), Nat.min_self, Nat.min_self]

def Full (channels : List Channel) (unit : List Coefficients) : Prop :=
  (channels.length = 1 ∨ channels.length = 3) ∧ unit.length = channels.length

theorem grid_unitRows {channels : List Channel} {unit : List Coefficients}
    (h : Full channels unit) : Grid 8 8 (unitRows channels unit) := by
  obtain ⟨hcount, hunit⟩ := h
  refine ⟨by rw [unitRows, List.length_map, List.length_range], fun row hrow => ?_⟩
  obtain ⟨i, hi, rfl⟩ := List.mem_map.mp hrow
  have hblocks : ∀ rows ∈ List.zipWith (fun channel => blockSamples channel.quantisation)
      channels unit, Grid 8 8 rows :=
    forall_mem_zipWith (P := fun _ => True) (Q := fun _ => True)
      (fun channel block _ _ => grid_blockSamples channel.quantisation block)
      (fun _ _ => trivial) fun _ _ => trivial
  refine length_rowPixels ?_ fun samples hsamples => ?_
  · rw [List.length_map, List.length_zipWith, hunit, Nat.min_self]
    exact hcount
  · obtain ⟨rows, hmem, rfl⟩ := List.mem_map.mp hsamples
    exact (hblocks rows hmem).getD (List.mem_range.mp hi)

theorem grid_bandRows {channels : List Channel} {units : List (List Coefficients)}
    (h : ∀ unit ∈ units, Full channels unit) :
    Grid (units.length * 8) 8 (bandRows channels units) := by
  induction units with
  | nil =>
    exact ⟨List.length_replicate, fun row hrow => by rw [List.eq_of_mem_replicate hrow]; rfl⟩
  | cons unit units ih =>
    have hfirst := grid_unitRows (h unit List.mem_cons_self)
    have hrest := ih fun unit hunit => h unit (List.mem_cons_of_mem _ hunit)
    refine ⟨?_, forall_mem_zipWith (fun row others hrow hothers => ?_) hfirst.wide
      hrest.wide⟩
    · show (List.zipWith _ (unitRows channels unit) (bandRows channels units)).length = 8
      rw [List.length_zipWith, hfirst.tall, hrest.tall, Nat.min_self]
    · rw [List.length_append, hrow, hothers, List.length_cons, Nat.succ_mul, Nat.add_comm]

theorem grid_imageRows {channels : List Channel} {across down : Nat}
    {units : List (List Coefficients)} (h : ∀ unit ∈ units, Full channels unit)
    (hcount : units.length = across * down) :
    Grid (across * 8) (down * 8) (imageRows channels across down units) := by
  have hband : ∀ i < down,
      Grid (across * 8) 8 (bandRows channels ((units.drop (i * across)).take across)) := by
    intro i hi
    have hroom : i * across + across ≤ units.length := by
      calc i * across + across = (i + 1) * across := (Nat.succ_mul i across).symm
        _ ≤ down * across := Nat.mul_le_mul_right across hi
        _ = units.length := by rw [hcount, Nat.mul_comm]
    have hlength : ((units.drop (i * across)).take across).length = across := by
      rw [List.length_take, List.length_drop]
      omega
    have hfull : ∀ unit ∈ (units.drop (i * across)).take across, Full channels unit :=
      fun unit hunit => h unit (List.mem_of_mem_drop (List.mem_of_mem_take hunit))
    have hgrid := grid_bandRows hfull
    rwa [hlength] at hgrid
  refine ⟨?_, fun row hrow => ?_⟩
  · have htall := List.map_congr_left fun i hi => (hband i (List.mem_range.mp hi)).tall
    rw [imageRows, List.length_flatMap, htall, List.map_const', List.sum_replicate_nat,
      List.length_range]
  · obtain ⟨i, hi, hmem⟩ := List.mem_flatMap.mp hrow
    exact (hband i (List.mem_range.mp hi)).wide row hmem

/-! ## Units of a scan -/

theorem length_readUnit : ∀ {channels : List Channel} {lasts : List Int} {bits rest : List Bool}
    {unit : List Coefficients}, (readUnit channels lasts).run bits = some (unit, rest) →
      unit.length = channels.length
  | [], _, _, _, _, h => by
    obtain ⟨rfl, -⟩ := Prod.mk.inj (Option.some.inj h)
    rfl
  | channel :: channels, lasts, bits, _, _, h => by
    simp only [readUnit, StateT.run_bind, Option.bind_eq_bind, Option.bind_eq_some_iff] at h
    obtain ⟨⟨block, bits'⟩, -, ⟨others, bits''⟩, hothers, hunit⟩ := h
    obtain ⟨rfl, -⟩ := Prod.mk.inj (Option.some.inj hunit)
    rw [List.length_cons, List.length_cons, length_readUnit hothers]

theorem readUnits_units {channels : List Channel} : ∀ {n : Nat} {lasts : List Int}
    {bits rest : List Bool} {units : List (List Coefficients)},
    (readUnits channels n lasts).run bits = some (units, rest) →
      units.length = n ∧ ∀ unit ∈ units, unit.length = channels.length
  | 0, _, _, _, _, h => by
    obtain ⟨rfl, -⟩ := Prod.mk.inj (Option.some.inj h)
    exact ⟨rfl, fun unit hunit => by cases hunit⟩
  | n + 1, lasts, bits, _, _, h => by
    simp only [readUnits, StateT.run_bind, Option.bind_eq_bind, Option.bind_eq_some_iff] at h
    obtain ⟨⟨unit, bits'⟩, hunit, ⟨others, bits''⟩, hothers, hunits⟩ := h
    obtain ⟨rfl, -⟩ := Prod.mk.inj (Option.some.inj hunits)
    obtain ⟨hcount, hall⟩ := readUnits_units hothers
    refine ⟨by rw [List.length_cons, hcount], fun unit' hmem => ?_⟩
    rcases List.mem_cons.mp hmem with rfl | hmem
    · exact length_readUnit hunit
    · exact hall unit' hmem

/-- A scan that is read has all of its units. -/
theorem readIntervals_units {channels : List Channel} {restart : Nat} :
    ∀ {intervals : List (List UInt8)} {n : Nat} {units : List (List Coefficients)},
      readIntervals channels restart intervals n = some units →
        units.length = n ∧ ∀ unit ∈ units, unit.length = channels.length
  | intervals, 0, _, h => by
    rw [readIntervals] at h
    obtain rfl := Option.some.inj h
    exact ⟨rfl, fun unit hunit => by cases hunit⟩
  | [], n + 1, _, h => by
    rw [readIntervals] at h
    cases h
  | interval :: intervals, n + 1, _, h => by
    simp only [readIntervals, Option.bind_eq_bind, Option.bind_eq_some_iff] at h
    obtain ⟨⟨units, rest⟩, hunits, others, hothers, hall⟩ := h
    obtain rfl := Option.some.inj hall
    obtain ⟨hcount, hfull⟩ := readUnits_units hunits
    obtain ⟨hcount', hfull'⟩ := readIntervals_units hothers
    refine ⟨?_, fun unit hmem => ?_⟩
    · rw [List.length_append, hcount, hcount']
      split <;> omega
    · rcases List.mem_append.mp hmem with hmem | hmem
      · exact hfull unit hmem
      · exact hfull' unit hmem

/-! ## Segments -/

/-- The size of a frame is told by words, and there are one or three components. -/
def Frame.Sized (frame : Frame) : Prop :=
  frame.width ≤ 65535 ∧ frame.height ≤ 65535 ∧
    (frame.components.length = 1 ∨ frame.components.length = 3)

namespace Setup

theorem addQuantisation_frame {s t : Setup} {payload : List UInt8}
    (h : s.addQuantisation payload = some t) : t.frame = s.frame := by
  fun_induction addQuantisation s payload with
  | case1 s =>
    obtain rfl := Option.some.inj h
    rfl
  | case2 s selector rest hroom ih => exact ih h
  | case3 => cases h

theorem addCodes_frame {s t : Setup} {payload : List UInt8} (h : s.addCodes payload = some t) :
    t.frame = s.frame := by
  fun_induction addCodes s payload with
  | case1 s =>
    obtain rfl := Option.some.inj h
    rfl
  | case2 s selector rest counts symbols size hroom table hdc ih => exact ih h
  | case3 s selector rest counts symbols size hroom table hdc hac ih => exact ih h
  | case4 => cases h
  | case5 => cases h

theorem parseFrame_sized {payload : List UInt8} {frame : Frame}
    (h : parseFrame payload = some frame) : frame.Sized := by
  unfold parseFrame at h
  split at h
  case h_1 precision h1 h0 w1 w0 count rest =>
    simp only [Option.bind_eq_bind, Option.bind_eq_some_iff] at h
    obtain ⟨components, -, hframe⟩ := h
    split at hframe
    case isTrue hgood =>
      obtain ⟨-, hcount, hmany, -, -⟩ := hgood
      obtain rfl := Option.some.inj hframe
      refine ⟨Nat.le_of_lt_succ (word w1 w0).toNat_lt, Nat.le_of_lt_succ (word h1 h0).toNat_lt, ?_⟩
      rw [hcount]
      rcases hmany with rfl | rfl
      · exact Or.inl rfl
      · exact Or.inr rfl
    case isFalse => cases hframe
  case h_2 => cases h

def Sized (s : Setup) : Prop := ∀ frame, s.frame = some frame → frame.Sized

theorem Sized.addSegment {s t : Setup} {marker : UInt8} {payload : List UInt8} (hs : s.Sized)
    (h : s.addSegment marker payload = some t) : t.Sized := by
  intro frame hframe
  unfold Setup.addSegment at h
  split at h
  · rw [addQuantisation_frame h] at hframe
    exact hs frame hframe
  split at h
  · rw [addCodes_frame h] at hframe
    exact hs frame hframe
  split at h
  · obtain ⟨parsed, hparse, rfl⟩ := Option.map_eq_some_iff.mp h
    obtain rfl := Option.some.inj hframe
    exact parseFrame_sized hparse
  split at h
  · split at h
    · obtain rfl := Option.some.inj h
      exact hs frame hframe
    · cases h
  split at h
  · obtain rfl := Option.some.inj h
    exact hs frame hframe
  · cases h

theorem length_channels (s : Setup) : ∀ {components : List Component} {payload : List UInt8}
    {channels : List Channel}, s.channels components payload = some channels →
      channels.length = components.length
  | [], [_, _, _], _, h => by
    obtain rfl := Option.some.inj h
    rfl
  | c :: rest, id :: tables :: payload, _, h => by
    simp only [channels, Option.bind_eq_bind, Option.bind_eq_some_iff] at h
    obtain ⟨channel, -, others, hothers, hall⟩ := h
    split at hall
    case isTrue =>
      obtain rfl := Option.some.inj hall
      rw [List.length_cons, List.length_cons, length_channels s hothers]
    case isFalse => cases hall

end Setup

/-- The size of a scan is told by words, and there are one or three components. -/
def Scan.Sized (scan : Scan) : Prop :=
  scan.width ≤ 65535 ∧ scan.height ≤ 65535 ∧
    (scan.channels.length = 1 ∨ scan.channels.length = 3)

namespace Setup

theorem Sized.scan {s : Setup} {payload data : List UInt8} {scan : Scan} (hs : s.Sized)
    (h : s.scan payload data = some scan) : scan.Sized := by
  unfold Setup.scan at h
  simp only [Option.bind_eq_bind, Option.bind_eq_some_iff] at h
  obtain ⟨frame, hframe, h⟩ := h
  obtain ⟨hwidth, hheight, hcount⟩ := hs frame hframe
  split at h
  · cases h
  obtain ⟨channels, hchannels, h⟩ := Option.bind_eq_some_iff.mp h
  split at h
  case isTrue =>
    obtain rfl := Option.some.inj h
    refine ⟨hwidth, hheight, ?_⟩
    rw [length_channels s hchannels]
    exact hcount
  case isFalse => cases h

theorem Sized.parseSegments {s : Setup} {data : List UInt8} {scan : Scan} (hs : s.Sized)
    (h : s.parseSegments data = some scan) : scan.Sized := by
  fun_induction Setup.parseSegments s data with
  | case1 => exact hs.scan h
  | case2 s lead marker hi lo rest size hroom hscan t hadd ih => exact ih (hs.addSegment hadd) h
  | case3 => cases h
  | case4 => cases h
  | case5 => cases h

/-- A scan is sized. -/
theorem parse_sized {data : List UInt8} {scan : Scan} (h : parse data = some scan) :
    scan.Sized := by
  unfold parse at h
  split at h
  · refine Sized.parseSegments (fun frame hframe => ?_) h
    cases hframe
  · cases h

end Setup

/-! ## Images -/

theorem length_pixels {row : List Rgb} :
    (row.flatMap fun p => [p.red, p.green, p.blue]).length = row.length * 3 := by
  simp only [List.length_flatMap, List.length_cons, List.length_nil, List.map_const',
    List.sum_replicate_nat]

/-- The units of a frame cover its pixels. -/
theorem le_unitsFor (pixels : Nat) : pixels ≤ unitsFor pixels * 8 := by
  unfold unitsFor
  omega

/-- An image has three samples for each of its pixels, and as many columns and rows as a word can
tell. -/
theorem baseline_size {data : List UInt8} {image : RgbImage} (h : baseline data = some image) :
    image.width ≤ 65535 ∧ image.height ≤ 65535 ∧
      image.pixels.length = 3 * image.width * image.height := by
  obtain ⟨scan, hscan, himage⟩ := Option.bind_eq_some_iff.mp h
  obtain ⟨hwidth, hheight, hcount⟩ := Setup.parse_sized hscan
  obtain ⟨units, hunits, himage⟩ := Option.bind_eq_some_iff.mp himage
  obtain rfl := Option.some.inj himage
  obtain ⟨hall, hfull⟩ := readIntervals_units hunits
  obtain ⟨htall, hwide⟩ := grid_imageRows (fun unit hunit => ⟨hcount, hfull unit hunit⟩) hall
  have hrows := List.map_congr_left (f := fun row : List Rgb =>
      ((row.take scan.width).flatMap fun p => [p.red, p.green, p.blue]).length)
    (g := fun _ => scan.width * 3) (l := (imageRows scan.channels (unitsFor scan.width)
      (unitsFor scan.height) units).take scan.height) fun row hrow => by
    have hcovers := le_unitsFor scan.width
    rw [length_pixels, List.length_take, hwide row (List.mem_of_mem_take hrow),
      Nat.min_eq_left hcovers]
  have hcovers := le_unitsFor scan.height
  refine ⟨hwidth, hheight, ?_⟩
  dsimp only
  rw [List.length_flatMap, hrows, List.map_const', List.sum_replicate_nat, List.length_take, htall,
    Nat.min_eq_left hcovers, Nat.mul_comm scan.width, Nat.mul_comm]

end Pict.Jpeg
