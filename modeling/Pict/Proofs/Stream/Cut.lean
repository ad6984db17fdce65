import Pict.Proofs.Stream.Forward

/-!
# Reading data that is cut short

`c.extend more` is the cursor `c` in data that goes on with `more`. A reader
that answers from cut data answers the same from the whole, unless a skip has
come to the end of what is left.

* `Exact`: what is answered from the cut data is answered from the whole, and the
  cursors stay together.
* `Clipped`: the same answer, but the cursor may have come to the end of the cut data.
* `Runs short` (`Starves`): a reader that fails leaves one byte at most.
* `Hungry`: a reader that fails at the end of the data.
* `Whole n`: a reader that takes `n` bytes when they are there.

Results:
* `Opcode.exact_read`, `Palette.exact_readDeclared`, `Raster.exact_readLength`,
  `Raster.clipped_readBounds`, `Format.clipped_read`: which of these the readers of the walk are.
* `Header.parse_extend`: a header that is read from cut data is read from the whole.
-/
namespace Pict

/-! ## Fields -/

namespace Source

variable {src : Source} {p n : Nat} (more : Source)

theorem u8?_extend (h : p < src.size) : u8? (src ++ more) p = u8? src p :=
  Array.getElem?_append_left h

theorem u16?_extend (h : p + 2 ≤ src.size) : u16? (src ++ more) p = u16? src p := by
  have hhi : (src ++ more)[p]? = src[p]? := Array.getElem?_append_left (by omega)
  have hlo : (src ++ more)[p + 1]? = src[p + 1]? := Array.getElem?_append_left (by omega)
  simp only [u16?, hhi, hlo]

theorem i16?_extend (h : p + 2 ≤ src.size) : i16? (src ++ more) p = i16? src p := by
  simp only [i16?, u16?_extend more h]

theorem u32?_extend (h : p + 4 ≤ src.size) : u32? (src ++ more) p = u32? src p := by
  simp only [u32?, u16?_extend more (show p + 2 ≤ src.size by omega),
    u16?_extend more (show p + 2 + 2 ≤ src.size by omega)]

theorem slice_extend (h : p + n ≤ src.size) : slice (src ++ more) p n = slice src p n := by
  have hsub : p - src.size = 0 ∧ p + n - src.size = 0 := by omega
  simp [slice, Array.extract_append, hsub]

end Source

/-! ## Cursors -/

namespace Cursor

def extend (c : Cursor) (more : Source) : Cursor := { source := c.source ++ more, pos := c.pos }

variable {c d : Cursor} {n : Nat} (more : Source)

@[simp] theorem extend_pos : (c.extend more).pos = c.pos := rfl

@[simp] theorem extend_source : (c.extend more).source = c.source ++ more := rfl

theorem extend_empty (c : Cursor) : c.extend #[] = c := by
  rw [extend, Array.append_empty]

theorem Inside.extend (h : c.Inside) : (c.extend more).Inside := by
  unfold Inside at *
  simp only [extend_pos, extend_source, Array.size_append]
  omega

theorem remaining_extend (h : c.Inside) :
    (c.extend more).remaining = c.remaining + more.size := by
  unfold Inside at h
  simp only [remaining, extend_pos, extend_source, Array.size_append]
  omega

theorem skip_extend (h : c.pos + n ≤ c.source.size) :
    (c.extend more).skip n = (c.skip n).extend more := by
  simp only [skip, seek, extend, Array.size_append, Cursor.mk.injEq, true_and]
  omega

/-- Passing over some bytes leads to the same place, or to the end of the cut data. -/
theorem skip_extend_or (c : Cursor) (n : Nat) (more : Source) :
    (c.extend more).skip n = (c.skip n).extend more ∨ (c.skip n).remaining = 0 := by
  by_cases h : c.pos + n ≤ c.source.size
  · exact Or.inl (skip_extend more h)
  · right
    simp only [skip, seek, remaining]
    omega

theorem skip_of_le {c : Cursor} {n : Nat} (h : c.pos + n ≤ c.source.size) :
    c.skip n = { c with pos := c.pos + n } := by
  simp only [skip, seek, Nat.min_eq_left h]

theorem remaining_skip (c : Cursor) (n : Nat) : (c.skip n).remaining = c.remaining - n := by
  simp only [skip, seek, remaining]
  omega

end Cursor

/-! ## Readers -/

namespace Reader

variable {α β : Type} {n m : Nat}

/-- What the reader answers from cut data it answers from the whole, and stays at the same place. -/
structure Exact (r : Reader α) : Prop where
  forward : r.Advances 0
  same : ∀ {c : Cursor} {a : α} (more : Source), c.Inside → (r c).1 = some a →
    r (c.extend more) = (some a, (r c).2.extend more)

/-- What the reader answers from cut data it answers from the whole; it stays at the same place or
comes to the end of the cut data. -/
structure Clipped (r : Reader α) : Prop where
  forward : r.Advances 0
  same : ∀ {c : Cursor} {a : α} (more : Source), c.Inside → (r c).1 = some a →
    (r (c.extend more)).1 = some a ∧
      ((r (c.extend more)).2 = (r c).2.extend more ∨ (r c).2.remaining = 0)

/-- A reader that fails leaves one byte at most. -/
def Starves (r : Reader α) : Prop :=
  ∀ c : Cursor, c.Inside → (r c).1 = none → (r c).2.remaining ≤ 1

/-- The reader fails at the end of the data. -/
def Hungry (r : Reader α) : Prop := ∀ c : Cursor, c.remaining = 0 → (r c).1 = none

/-- The reader takes `n` bytes when there are as many, whatever follows them. -/
def Whole (n : Nat) (r : Reader α) : Prop :=
  ∀ c : Cursor, c.pos + n ≤ c.source.size →
    ∃ a, ∀ more, r (c.extend more) = (some a, { c with pos := c.pos + n }.extend more)

theorem bind_some {r : Reader α} {f : α → Reader β} {c : Cursor} {b : β}
    (h : ((r >>= f) c).1 = some b) :
    ∃ a, (r c).1 = some a ∧ (f a (r c).2).1 = some b ∧ ((r >>= f) c).2 = (f a (r c).2).2 := by
  rw [bind_apply] at h ⊢
  rcases hr : r c with ⟨a, d⟩
  rw [hr] at h
  cases a with
  | none => cases h
  | some a => exact ⟨a, rfl, h, rfl⟩

theorem bind_field {field? : Source → Nat → Option α} {f : α → Reader β} {c : Cursor} {a : α}
    (h : field? c.source c.pos = some a) :
    (Reader.field n field? >>= f) c = f a { c with pos := c.pos + n } := by
  rw [bind_apply, field_some h]

theorem bind_skip {f : Unit → Reader β} {c : Cursor} (h : c.pos + n ≤ c.source.size) :
    (Reader.skip n >>= f) c = f () { c with pos := c.pos + n } := by
  rw [bind_apply, Reader.skip, Reader.move, Cursor.skip_of_le h]

namespace Exact

theorem pure (a : α) : Exact (Pure.pure a : Reader α) where
  forward := .pure a
  same _ _ h := by
    obtain rfl := Option.some.inj h
    rfl

theorem bind {r : Reader α} {f : α → Reader β} (h : Exact r) (h' : ∀ a, Exact (f a)) :
    Exact (r >>= f) where
  forward := h.forward.bind_zero fun a => (h' a).forward
  same {c b} more hc hb := by
    obtain ⟨a, ha, hfb, hcursor⟩ := bind_some hb
    have hinside := ((h.forward c).1.moved hc).2
    rw [hcursor, bind_apply, h.same more hc ha]
    exact (h' a).same more hinside hfb

theorem field {field? : Source → Nat → Option α}
    (hin : ∀ {src p}, (field? src p).isSome → p + n ≤ src.size)
    (hextend : ∀ {src p} more, p + n ≤ src.size → field? (src ++ more) p = field? src p) :
    Exact (Reader.field n field?) where
  forward := (Advances.field (n := n) fun _ _ => hin).mono (Nat.zero_le _)
  same {c a} more _ ha := by
    cases hfield : field? c.source c.pos with
    | none =>
      rw [field_none hfield] at ha
      cases ha
    | some b =>
      have hthere : (field? c.source c.pos).isSome := by rw [hfield]; rfl
      have hwhole : field? (c.extend more).source (c.extend more).pos = some b :=
        (hextend more (hin hthere)).trans hfield
      rw [field_some hfield] at ha ⊢
      rw [field_some hwhole]
      obtain rfl := Option.some.inj ha
      rfl

theorem u8 : Exact Reader.u8 :=
  field (fun {src p} => (src.isSome_u8?_iff p).mp) fun more h => Source.u8?_extend more h

theorem u16 : Exact Reader.u16 :=
  field (fun {src p} => (src.isSome_u16?_iff p).mp) fun more h => Source.u16?_extend more h

theorem i16 : Exact Reader.i16 := by
  refine field (fun {src p} h => (src.isSome_u16?_iff p).mp ?_)
    fun more h => Source.i16?_extend more h
  rwa [Source.i16?, Option.isSome_map] at h

theorem u32 : Exact Reader.u32 :=
  field (fun {src p} => (src.isSome_u32?_iff p).mp) fun more h => Source.u32?_extend more h

theorem moreThan (n : Nat) : Exact (Reader.moreThan n) where
  forward := .moreThan n
  same {c a} more _ ha := by
    have hmore : c.pos + n < c.source.size := by
      simp only [Reader.moreThan] at ha
      split at ha
      · assumption
      · cases ha
    have hwhole : (c.extend more).pos + n < (c.extend more).source.size := by
      simp only [Cursor.extend_pos, Cursor.extend_source, Array.size_append]
      omega
    simp only [Reader.moreThan, if_pos hmore, if_pos hwhole]

theorem clipped {r : Reader α} (h : Exact r) : Clipped r where
  forward := h.forward
  same more hc ha := by
    rw [h.same more hc ha]
    exact ⟨rfl, Or.inl rfl⟩

end Exact

namespace Clipped

theorem skip (n : Nat) : Clipped (Reader.skip n) where
  forward := .skip n
  same {c _} more _ _ := ⟨rfl, c.skip_extend_or n more⟩

theorem align : Clipped Reader.align where
  forward := .align
  same {c _} more _ _ := by
    refine ⟨rfl, ?_⟩
    by_cases hodd : c.pos % 2 = 1
    · have hwhole : (c.extend more).pos % 2 = 1 := hodd
      simp only [Reader.align, Reader.move, if_pos hodd, if_pos hwhole]
      exact c.skip_extend_or 1 more
    · have hwhole : ¬(c.extend more).pos % 2 = 1 := hodd
      simp only [Reader.align, Reader.move, if_neg hodd, if_neg hwhole]
      exact Or.inl trivial

theorem bind {r : Reader α} {f : α → Reader β} (h : Exact r) (h' : ∀ a, Clipped (f a)) :
    Clipped (r >>= f) where
  forward := h.forward.bind_zero fun a => (h' a).forward
  same {c b} more hc hb := by
    obtain ⟨a, ha, hfb, hcursor⟩ := bind_some hb
    have hinside := ((h.forward c).1.moved hc).2
    rw [hcursor, bind_apply, h.same more hc ha]
    exact (h' a).same more hinside hfb

theorem map {r : Reader α} (h : Clipped r) (f : α → β) :
    Clipped (r >>= fun a => Pure.pure (f a)) where
  forward := h.forward.bind_zero fun a => .pure _
  same {c b} more hc hb := by
    obtain ⟨a, ha, hfb, hcursor⟩ := bind_some hb
    obtain ⟨hwhole, hplace⟩ := h.same more hc ha
    have hmap : ((r >>= fun a => Pure.pure (f a)) (c.extend more)) =
        (some (f a), (r (c.extend more)).2) := by
      rw [bind_apply]
      rcases hr : r (c.extend more) with ⟨a', d⟩
      rw [hr] at hwhole
      obtain rfl : a' = some a := hwhole
      rfl
    obtain rfl : f a = b := Option.some.inj hfb
    rw [hcursor, hmap]
    exact ⟨rfl, hplace⟩

/-- What fails at the end of the data does not answer where a skip has been clipped. -/
theorem bind_same {r : Reader α} {f : α → Reader β} (h : Clipped r) (hf : ∀ a, Hungry (f a))
    {c : Cursor} {b : β} (more : Source) (hc : c.Inside) (hb : ((r >>= f) c).1 = some b) :
    ∃ a d, d.Inside ∧ (f a d).1 = some b ∧ ((r >>= f) c).2 = (f a d).2 ∧
      (r >>= f) (c.extend more) = f a (d.extend more) := by
  obtain ⟨a, ha, hfb, hcursor⟩ := bind_some hb
  obtain ⟨hwhole, hplace | hend⟩ := h.same more hc ha
  · refine ⟨a, (r c).2, ((h.forward c).1.moved hc).2, hfb, hcursor, ?_⟩
    rw [bind_apply]
    rcases hr : r (c.extend more) with ⟨a', d⟩
    rw [hr] at hwhole hplace
    obtain rfl : a' = some a := hwhole
    obtain rfl : d = _ := hplace
    rfl
  · rw [hf a _ hend] at hfb
    cases hfb

theorem bind_hungry {r : Reader α} {f : α → Reader β} (h : Clipped r) (h' : ∀ a, Clipped (f a))
    (hf : ∀ a, Hungry (f a)) : Clipped (r >>= f) where
  forward := h.forward.bind_zero fun a => (h' a).forward
  same {c b} more hc hb := by
    obtain ⟨a, d, hd, hfb, hcursor, hwhole⟩ := h.bind_same hf more hc hb
    rw [hcursor, hwhole]
    exact (h' a).same more hd hfb

theorem bind_exact {r : Reader α} {f : α → Reader β} (h : Clipped r) (h' : ∀ a, Exact (f a))
    (hf : ∀ a, Hungry (f a)) : Exact (r >>= f) where
  forward := h.forward.bind_zero fun a => (h' a).forward
  same {c b} more hc hb := by
    obtain ⟨a, d, hd, hfb, hcursor, hwhole⟩ := h.bind_same hf more hc hb
    rw [hcursor, hwhole]
    exact (h' a).same more hd hfb

end Clipped

namespace Hungry

theorem field {field? : Source → Nat → Option α} (hn : 0 < n)
    (h : ∀ src p, (field? src p).isSome → p + n ≤ src.size) :
    Hungry (Reader.field n field?) := by
  intro c hc
  cases hfield : field? c.source c.pos with
  | none => rw [field_none hfield]
  | some a =>
    have := h c.source c.pos (by rw [hfield]; rfl)
    unfold Cursor.remaining at hc
    omega

theorem u8 : Hungry Reader.u8 := field (by decide) fun src p => (src.isSome_u8?_iff p).mp

theorem u16 : Hungry Reader.u16 := field (by decide) fun src p => (src.isSome_u16?_iff p).mp

theorem i16 : Hungry Reader.i16 := by
  refine field (n := 2) (by decide) fun src p h => (src.isSome_u16?_iff p).mp ?_
  rwa [Source.i16?, Option.isSome_map] at h

theorem u32 : Hungry Reader.u32 := field (by decide) fun src p => (src.isSome_u32?_iff p).mp

theorem moreThan (n : Nat) : Hungry (Reader.moreThan n) := by
  intro c hc
  unfold Cursor.remaining at hc
  rw [Reader.moreThan, if_neg (by omega)]

theorem bind {r : Reader α} (h : Hungry r) (f : α → Reader β) : Hungry (r >>= f) := by
  intro c hc
  have hr := h c hc
  rw [bind_apply]
  rcases hrc : r c with ⟨a, d⟩
  rw [hrc] at hr
  obtain rfl : a = none := hr
  rfl

end Hungry

namespace Starves

theorem pure (a : α) : Starves (Pure.pure a : Reader α) := fun _ _ h => by cases h

theorem skip (n : Nat) : Starves (Reader.skip n) := fun _ _ h => by cases h

theorem bind {r : Reader α} {f : α → Reader β} (hr : r.Advances 0) (h : Starves r)
    (h' : ∀ a, Starves (f a)) : Starves (r >>= f) := by
  intro c hc hnone
  have hinside := ((hr c).1.moved hc).2
  have hleft := h c hc
  rw [bind_apply] at hnone ⊢
  rcases hrc : r c with ⟨a, d⟩
  rw [hrc] at hnone hinside hleft
  cases a with
  | none => exact hleft rfl
  | some a => exact h' a _ hinside hnone

theorem field {field? : Source → Nat → Option α} (hn : n ≤ 2)
    (h : ∀ src p, p + n ≤ src.size → (field? src p).isSome) :
    Starves (Reader.field n field?) := by
  intro c hc hnone
  cases hfield : field? c.source c.pos with
  | none =>
    rw [field_none hfield]
    have hshort : ¬c.pos + n ≤ c.source.size := fun hle => by
      have := h _ _ hle
      rw [hfield] at this
      cases this
    show c.remaining ≤ 1
    unfold Cursor.remaining
    omega
  | some a =>
    rw [field_some hfield] at hnone
    cases hnone

theorem u8 : Starves Reader.u8 := field (by decide) fun src p => (src.isSome_u8?_iff p).mpr

theorem u16 : Starves Reader.u16 := field (by decide) fun src p => (src.isSome_u16?_iff p).mpr

theorem i16 : Starves Reader.i16 := by
  refine field (by decide) fun src p h => ?_
  rw [Source.i16?, Option.isSome_map]
  exact (src.isSome_u16?_iff p).mpr h

end Starves

namespace Whole

theorem pure (a : α) : Whole 0 (Pure.pure a : Reader α) := fun _ _ => ⟨a, fun _ => rfl⟩

theorem bind {r : Reader α} {f : α → Reader β} (h : Whole n r) (h' : ∀ a, Whole m (f a)) :
    Whole (n + m) (r >>= f) := by
  intro c hc
  obtain ⟨a, ha⟩ := h c (by omega)
  obtain ⟨b, hb⟩ := h' a { c with pos := c.pos + n } (by dsimp only; omega)
  refine ⟨b, fun more => ?_⟩
  rw [bind_apply, ha more]
  dsimp only
  rw [hb more, Nat.add_assoc]

theorem u8 : Whole 1 Reader.u8 := by
  intro c hc
  obtain ⟨b, hb⟩ := Option.isSome_iff_exists.mp ((c.source.isSome_u8?_iff c.pos).mpr hc)
  refine ⟨b, fun more => ?_⟩
  have hwhole : (c.extend more).source.u8? (c.extend more).pos = some b :=
    (Source.u8?_extend more hc).trans hb
  exact field_some hwhole

theorem skip (n : Nat) : Whole n (Reader.skip n) := by
  intro c hc
  refine ⟨(), fun more => ?_⟩
  rw [← Cursor.skip_of_le hc, ← Cursor.skip_extend more hc]
  rfl

end Whole
end Reader

open Reader

/-! ## Opcodes, openings, lengths -/

namespace Opcode

theorem exact_ofCode (version : Version) (code : UInt16) : Exact (ofCode version code) := by
  have hraster : ∀ kind, Exact (readRaster kind version) := fun kind =>
    Exact.u16.bind fun _ => Exact.pure _
  unfold ofCode
  split <;> first | exact hraster _ | exact Exact.pure _

theorem exact_readCode (version : Version) : Exact (readCode version) := by
  cases version with
  | one => exact Exact.u8.bind fun _ => Exact.pure _
  | two =>
    refine Clipped.align.bind_exact (fun _ => ?_) fun _ => Hungry.bind (Hungry.moreThan 2) _
    exact (Exact.moreThan 2).bind fun _ => Exact.u16

/-- An opcode that is read from cut data is the one of the whole. -/
theorem exact_read (version : Version) : Exact (read version) :=
  (exact_readCode version).bind fun code => exact_ofCode version code

end Opcode

theorem Raster.clipped_readBounds : Clipped readBounds := by
  refine Clipped.bind Exact.i16 fun _ => ?_
  refine Clipped.bind Exact.i16 fun _ => ?_
  refine Clipped.bind Exact.i16 fun _ => ?_
  refine Clipped.bind Exact.i16 fun _ => ?_
  exact (Clipped.skip 18).map _

theorem Raster.starves_readBounds : Starves readBounds := by
  have hi16 : Advances 0 Reader.i16 := Exact.i16.forward
  refine Starves.bind hi16 Starves.i16 fun _ => ?_
  refine Starves.bind hi16 Starves.i16 fun _ => ?_
  refine Starves.bind hi16 Starves.i16 fun _ => ?_
  refine Starves.bind hi16 Starves.i16 fun _ => ?_
  exact Starves.bind (.skip 18) (Starves.skip 18) fun _ => Starves.pure _

theorem Raster.hungry_readBounds : Hungry readBounds := Hungry.i16.bind _

theorem Format.clipped_read : Clipped Format.read := by
  refine Clipped.bind Exact.i16 fun _ => ?_
  refine Clipped.bind Exact.i16 fun _ => ?_
  exact (Clipped.skip 14).map _

theorem Format.starves_read : Starves Format.read := by
  have hi16 : Advances 0 Reader.i16 := Exact.i16.forward
  refine Starves.bind hi16 Starves.i16 fun _ => ?_
  refine Starves.bind hi16 Starves.i16 fun _ => ?_
  exact Starves.bind (.skip 14) (Starves.skip 14) fun _ => Starves.pure _

theorem Format.hungry_read : Hungry Format.read := Hungry.i16.bind _

namespace Palette

theorem exact_readDeclared : Exact readDeclared := by
  refine (Clipped.skip 4).bind_exact (fun _ => ?_) fun _ => Hungry.u16.bind _
  exact Exact.u16.bind fun _ => Exact.i16.bind fun _ => Exact.pure _

theorem starves_readDeclared : Starves readDeclared := by
  refine Starves.bind (.skip 4) (Starves.skip 4) fun _ => ?_
  refine Starves.bind Exact.u16.forward Starves.u16 fun _ => ?_
  exact Starves.bind Exact.i16.forward Starves.i16 fun _ => Starves.pure _


theorem whole_readEntry : Whole 8 readEntry := by
  refine Whole.bind (n := 2) (m := 6) (Whole.skip 2) fun _ => ?_
  refine Whole.bind (n := 1) (m := 5) Whole.u8 fun _ => ?_
  refine Whole.bind (n := 1) (m := 4) (Whole.skip 1) fun _ => ?_
  refine Whole.bind (n := 1) (m := 3) Whole.u8 fun _ => ?_
  refine Whole.bind (n := 1) (m := 2) (Whole.skip 1) fun _ => ?_
  refine Whole.bind (n := 1) (m := 1) Whole.u8 fun _ => ?_
  exact Whole.bind (n := 1) (m := 0) (Whole.skip 1) fun _ => Whole.pure _

theorem whole_readEntries (n : Nat) : Whole (n * entrySize) (readEntries n) := by
  induction n with
  | zero => exact Whole.pure []
  | succ n ih =>
    rw [Nat.succ_mul, Nat.add_comm]
    exact Whole.bind whole_readEntry fun _ => Whole.bind (m := 0) ih fun _ => Whole.pure _

end Palette

theorem Raster.exact_readLength (rowBytes : Nat) : Exact (readLength rowBytes) := by
  unfold readLength
  split
  · exact Exact.i16
  · exact Exact.u8.bind fun _ => Exact.pure _

theorem Raster.starves_readLength (rowBytes : Nat) : Starves (readLength rowBytes) := by
  unfold readLength
  split
  · exact Starves.i16
  · exact Starves.bind Exact.u8.forward Starves.u8 fun _ => Starves.pure _

theorem Raster.hungry_readLength (rowBytes : Nat) : Hungry (readLength rowBytes) := by
  unfold readLength
  split
  · exact Hungry.i16
  · exact Hungry.u8.bind _

/-! ## The header -/

namespace Header

theorem clipped_readExtended (width height : Nat) : Clipped (readExtended width height) := by
  refine (Clipped.skip 6).bind_hungry (fun _ => ?_) fun _ => Hungry.u32.bind _
  refine Clipped.bind Exact.u32 fun _ => Clipped.bind Exact.u32 fun _ => ?_
  refine (Clipped.skip 4).bind_hungry (fun _ => ?_) fun _ => Hungry.i16.bind _
  refine Clipped.bind Exact.i16 fun _ => Clipped.bind Exact.i16 fun _ => ?_
  exact (Clipped.skip 4).map _

theorem clipped_readFrame : Clipped readFrame := by
  refine Clipped.bind Exact.i16 fun height => Clipped.bind Exact.i16 fun width => ?_
  refine Clipped.bind Exact.u8 fun code => Clipped.bind Exact.u8 fun number => ?_
  split
  · exact (Exact.pure _).clipped
  · refine Clipped.bind Exact.u16 fun marker => ?_
    split
    · exact (clipped_readExtended _ _).map _
    · exact (Exact.pure _).clipped
  · exact (Exact.pure _).clipped

/-- A header that is read from cut data is read from the whole. The cursor behind it is at the same
place, or at the end of the cut data. -/
theorem parse_extend {source : Source} {info : Info} {cursor : Cursor}
    (h : parse source = .ok (info, cursor)) (more : Source) :
    ∃ whole, parse (source ++ more) = .ok (info, whole) ∧
      (whole = cursor.extend more ∨ cursor.remaining = 0) := by
  obtain ⟨-, hpos, hsize⟩ := parse_pos h
  let front : Cursor := ⟨source, frameOffset⟩
  have hinside : front.Inside := by
    show frameOffset ≤ source.size
    unfold frameOffset
    omega
  have hcut : read ⟨source, 0⟩ = readFrame front := by
    rw [read_start, Nat.min_eq_left hinside]
  have hwhole : read ⟨source ++ more, 0⟩ = readFrame (front.extend more) := by
    have hle : frameOffset ≤ (source ++ more).size := hinside.extend more
    rw [read_start, Nat.min_eq_left hle]
    rfl
  unfold parse at h ⊢
  rw [hcut] at h
  rw [hwhole]
  have hsame : ∀ answer, (readFrame front).1 = some answer →
      (readFrame (front.extend more)).1 = some answer ∧
        ((readFrame (front.extend more)).2 = (readFrame front).2.extend more ∨
          (readFrame front).2.remaining = 0) :=
    fun _ => clipped_readFrame.same more hinside
  rcases hframe : readFrame front with ⟨answer, d⟩
  rw [hframe] at h hsame
  rcases answer with _ | e | info'
  · cases h
  · cases h
  · obtain ⟨rfl, rfl⟩ := Prod.mk.inj (Except.ok.inj h)
    obtain ⟨hanswer, hplace⟩ := hsame _ rfl
    rcases hwholeFrame : readFrame (front.extend more) with ⟨answer', d'⟩
    rw [hwholeFrame] at hanswer hplace
    obtain rfl : answer' = some (.ok info') := hanswer
    exact ⟨d', rfl, hplace⟩

end Header
end Pict
