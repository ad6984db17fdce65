import Pict.Proofs.Decode.Frame
import Pict.Proofs.Decode.Passes
import Pict.Proofs.Stream.Cut

/-!
# A walk with one byte left

When at most one byte is left the walk is as good as over. Rows may still be
stored, empty or black, but always with at most one byte left, so that their marks tell
them from rows that were read in time. A turn from there is the last one.

Results:
* `Frame.still`, `Frame.appends`, `Frame.marked`, `Frame.late`: what opcodes leave alone and what
  rows may do to the strips and to their marks.
* `Succeeds`: jobs that do not fail under a stop that never fires.
* `readOpening_atEnd`, `readRows_atEnd`: at the end of the data no rows are read.
* `turn_late`, `turns_late`: with one byte left a turn is the last one and stores nothing.
-/
namespace Pict

namespace Frame

/-- No strip is stored. -/
def still : Frame where
  allows u v := v.marks = u.marks ∧ v.picture.strips = u.picture.strips
  refl _ := ⟨rfl, rfl⟩
  trans h h' := ⟨h'.1.trans h.1, h'.2.trans h.2⟩

/-- Strips that are there stay there. -/
def appends : Frame where
  allows u v := ∀ (i : Nat) (strip : Strip),
    u.picture.strips[i]? = some strip → v.picture.strips[i]? = some strip
  refl _ _ _ h := h
  trans h h' i strip hi := h' i strip (h i strip hi)

/-- Every strip has its mark. -/
def marked : Frame where
  allows u v := u.marks.size = u.picture.strips.size → v.marks.size = v.picture.strips.size
  refl _ h := h
  trans h h' hu := h' (h hu)

/-- With one byte left there is never more left again, and what is stored has its mark there. -/
def late : Frame where
  allows u v := u.cursor.Inside → u.cursor.remaining ≤ 1 →
    v.cursor.Inside ∧ v.cursor.remaining ≤ 1 ∧ v.cursor.source = u.cursor.source ∧
      ∀ i m : Nat, v.marks[i]? = some m → m + 2 ≤ u.cursor.source.size → u.marks[i]? = some m
  refl _ hin hleft := ⟨hin, hleft, rfl, fun _ _ h _ => h⟩
  trans h h' hin hleft := by
    obtain ⟨hin₁, hleft₁, hsource₁, hmarks₁⟩ := h hin hleft
    obtain ⟨hin₂, hleft₂, hsource₂, hmarks₂⟩ := h' hin₁ hleft₁
    refine ⟨hin₂, hleft₂, hsource₂.trans hsource₁, fun i m hm hsize => ?_⟩
    rw [hsource₁] at hmarks₂
    exact hmarks₁ i m (hmarks₂ i m hm hsize) hsize

theorem still_opens : still.Opens where
  forward _ _ _ := ⟨rfl, rfl⟩
  repaint _ _ hs _ := ⟨rfl, hs⟩

theorem appends_rows : appends.Rows where
  forward _ _ _ _ _ h := h
  repaint _ _ hs _ i strip h := by
    rw [← hs] at h
    exact h
  park _ _ _ h := h
  store w more i strip h := by
    have hi : i < w.picture.strips.size := (Array.getElem?_eq_some_iff.mp h).1
    exact (Array.getElem?_push_lt hi).trans ((Array.getElem?_eq_getElem hi).symm.trans h)

theorem marked_rows : marked.Rows where
  forward _ _ _ h := h
  repaint _ _ hs _ h := by
    rw [← hs] at h
    exact h
  park _ h := h
  store w strip h := by
    simp only [Picture.store, Array.size_push, h]

theorem late_rows : late.Rows where
  forward w d h hin hleft :=
    ⟨(h.moved hin).2, Nat.le_trans (h.remaining_le hin) hleft, h.source, fun _ _ hm _ => hm⟩
  repaint _ _ _ _ hin hleft := ⟨hin, hleft, rfl, fun _ _ hm _ => hm⟩
  park w hin hleft := by
    refine ⟨w.cursor.seek_pos_le _, ?_, rfl, fun _ _ hm _ => hm⟩
    simp only [Cursor.remaining, Cursor.seek]
    omega
  store w strip hin hleft := by
    refine ⟨hin, hleft, rfl, fun i m hm hsize => ?_⟩
    rcases Nat.lt_trichotomy i w.marks.size with hlt | rfl | hgt
    · rwa [Array.getElem?_push_lt hlt, ← Array.getElem?_eq_getElem hlt] at hm
    · -- the new mark is where the cursor stands, with one byte left
      rw [Array.getElem?_push_size] at hm
      obtain rfl := Option.some.inj hm
      unfold Cursor.remaining at hleft
      omega
    · rw [Array.getElem?_eq_none (by rw [Array.size_push]; omega)] at hm
      cases hm

theorem still.appends {u v : Walk} (h : still.allows u v) : appends.allows u v := by
  intro i strip hi
  rwa [h.2]

theorem still.marked {u v : Walk} (h : still.allows u v) : marked.allows u v := by
  intro hu
  rw [h.1, h.2, hu]

end Frame

/-! ## Jobs that do not fail -/

/-- Under a stop that never fires the job succeeds, wherever it starts. -/
def Job.Succeeds {α : Type} (job : Job Walk α) : Prop := ∀ s, ∃ a t, job .never s = .ok a t

namespace Job.Succeeds

variable {α β : Type}

theorem bind {job : Job Walk α} {f : α → Job Walk β} (h : Succeeds job)
    (h' : ∀ a, Succeeds (f a)) : Succeeds (job >>= f) := by
  intro s
  obtain ⟨a, t, ha⟩ := h s
  obtain ⟨b, u, hb⟩ := h' a t
  exact ⟨b, u, bind_eq_ok.mpr ⟨a, t, ha, hb⟩⟩

theorem pure (a : α) : Succeeds (Pure.pure a : Job Walk α) := fun s => ⟨a, s, rfl⟩

theorem ofExcept {r : Except Error α} (h : ∃ a, r = .ok a) : Succeeds (Job.ofExcept r) := by
  obtain ⟨a, rfl⟩ := h
  exact pure a

theorem move (f : Cursor → Cursor) : Succeeds (Walk.move f) := fun _ => ⟨_, _, rfl⟩

theorem modify (f : Picture → Picture) : Succeeds (Walk.modify f) := fun _ => ⟨_, _, rfl⟩

theorem moves : JobProperty.Moves fun _ job => Succeeds job where
  pure := pure
  bind := bind
  check s := ⟨(), _, check_passes .never s rfl⟩
  getPicture _ := ⟨_, _, rfl⟩
  getCursor _ := ⟨_, _, rfl⟩
  warn _ _ := ⟨_, _, rfl⟩
  read _ _ := ⟨_, _, rfl⟩
  skip _ := move _

theorem stores : JobProperty.Stores fun _ job => Succeeds job where
  toMoves := moves
  park := move _
  store _ _ := ⟨_, _, rfl⟩
  markColor := modify _

theorem takes : JobProperty.Takes fun _ job => Succeeds job where
  toMoves := moves
  setJpeg _ := modify _
  finish := move _

end Job.Succeeds

open Job

/-! ## Rows -/

namespace Depth

/-- Whether pixels expand depends on their depth alone. -/
theorem expandRow_ok_of_ok {depth width : Nat} {row out : List UInt8}
    (h : expandRow depth width row = .ok out) (row' : List UInt8) :
    ∃ out', expandRow depth width row' = .ok out' := by
  unfold expandRow expandInto at h ⊢
  split
  · exact ⟨_, rfl⟩
  · rename_i hone
    rw [if_neg hone] at h
    split at h
    · rename_i hdepth
      rw [if_pos hdepth]
      exact ⟨_, rfl⟩
    · cases h

end Depth

namespace Format

variable {f : Format} {width : Nat} {row : List UInt8}

/-- Whether rows are decoded depends on the format alone. -/
theorem rawStrip_ok_of_ok {strip : Strip} (h : f.rawStrip width row = .ok strip)
    (row' : List UInt8) : ∃ strip', f.rawStrip width row' = .ok strip' := by
  unfold rawStrip at h ⊢
  split
  · exact ⟨_, rfl⟩
  · rename_i h16
    rw [if_neg h16] at h
    split
    · exact ⟨_, rfl⟩
    · rename_i h8
      rw [if_neg h8] at h
      cases hout : Depth.expandRow f.pixelSize width row with
      | error e =>
        rw [hout] at h
        cases h
      | ok out =>
        obtain ⟨out', hout'⟩ := Depth.expandRow_ok_of_ok hout row'
        rw [hout']
        exact ⟨_, rfl⟩

theorem directRowBytes?_of_some {n : Nat} (h : f.directRowBytes? width = some n) (width' : Nat) :
    ∃ m, f.directRowBytes? width' = some m := by
  unfold directRowBytes? at h ⊢
  split
  · exact ⟨_, rfl⟩
  · rename_i h32
    rw [if_neg h32] at h
    split
    · exact ⟨_, rfl⟩
    · rename_i h16
      rw [if_neg h16] at h
      cases h

theorem packedStrips_ok_of_ok {strips : List Strip} (h : f.packedStrips width row = .ok strips)
    (row' : List UInt8) : ∃ strips', f.packedStrips width row' = .ok strips' := by
  unfold packedStrips at h ⊢
  split
  · exact ⟨_, rfl⟩
  · rename_i h16
    rw [if_neg h16] at h
    dsimp only at h ⊢
    split
    · rename_i hlt
      rw [if_pos hlt] at h
      cases hout : Depth.expandRow f.pixelSize width (PackBits.decodeBytes (width * 4) row) with
      | error e =>
        rw [hout] at h
        cases h
      | ok out =>
        obtain ⟨out', hout'⟩ :=
          Depth.expandRow_ok_of_ok hout (PackBits.decodeBytes (width * 4) row')
        rw [hout']
        exact ⟨_, rfl⟩
    · split
      · exact ⟨_, rfl⟩
      · split <;> exact ⟨_, rfl⟩

end Format

namespace Raster

variable {f : Format} {width height rowBytes : Nat} {s t : Session Walk}

theorem succeeds_keepRaw (h : ∀ row, ∃ strip, f.rawStrip width row = .ok strip) (row : Nat)
    (bytes : List UInt8) : Succeeds (keepRaw f width rowBytes row bytes) :=
  Succeeds.stores.keepRaw (fun _ => .ofExcept (h _)) rowBytes row bytes

theorem succeeds_readRawRow (h : ∀ row, ∃ strip, f.rawStrip width row = .ok strip) (row : Nat) :
    Succeeds (readRawRow f width height rowBytes row) :=
  Succeeds.stores.readRawRow (fun _ => .ofExcept (h _)) height rowBytes row

theorem succeeds_keepPacked (h : ∀ row, ∃ strips, f.packedStrips width row = .ok strips)
    (packed : List UInt8) : Succeeds (keepPacked f width packed) :=
  Succeeds.stores.keepPacked (fun _ => .ofExcept (h _)) packed

theorem succeeds_readPackedRow (h : ∀ row, ∃ strips, f.packedStrips width row = .ok strips)
    (row : Nat) : Succeeds (readPackedRow f width height rowBytes row) :=
  Succeeds.stores.readPackedRow (fun _ => .ofExcept (h _)) height rowBytes row

/-! ## At the end of the data -/

/-- At the end of the data no opening is read to its end. -/
theorem readOpening_atEnd (op : RasterOp) (hs : s.work.cursor.remaining = 0) :
    ∃ t, readOpening op .never s = .ok none t := by
  obtain ⟨u, htake, hu⟩ : ∃ u, takeRowBytes op.rowBytes .never s = .ok () u ∧
      u.work.cursor.remaining = 0 := by
    cases op.rowBytes with
    | none =>
      refine ⟨_, rfl, ?_⟩
      have := s.work.cursor.remaining_skip 6
      dsimp only
      omega
    | some n => exact ⟨_, rfl, hs⟩
  have hread := Walk.read_eq .never u (hungry_readBounds _ hu)
  exact ⟨_, bind_eq_ok.mpr ⟨(), u, htake, bind_eq_ok.mpr ⟨none, _, hread, rfl⟩⟩⟩

theorem readRow_atEnd (f : Format) (p : Picture) (row : Nat) (hs : s.work.cursor.remaining = 0) :
    ∃ t, readRow f p row .never s = .ok false t ∧ Frame.still.allows s.work t.work := by
  unfold readRow
  cases f.isPacked p.rowBytes with
  | true =>
    have hread := Walk.read_eq .never s (hungry_readLength p.rowBytes _ hs)
    exact ⟨_, bind_eq_ok.mpr ⟨none, _, hread, rfl⟩, ⟨rfl, rfl⟩⟩
  | false =>
    have hend : s.work.cursor.atEnd = true := (Cursor.atEnd_iff _).mpr hs
    refine ⟨{ s with warnings := s.warnings.push (.rawRowsEnded row p.declaredHeight) }, ?_,
      ⟨rfl, rfl⟩⟩
    refine bind_eq_ok.mpr ⟨s.work.cursor, s, rfl, ?_⟩
    rw [if_pos hend]
    rfl

/-- At the end of the data a row loop is over. -/
theorem readRows_atEnd (f : Format) (hs : s.work.cursor.remaining = 0) :
    ∃ t, readRows f .never s = .ok () t ∧ Frame.still.allows s.work t.work := by
  rw [readRows_eq]
  generalize hp : s.work.picture = p
  cases hheight : p.declaredHeight with
  | zero =>
    refine ⟨s, bind_eq_ok.mpr ⟨p, s, by rw [← hp]; rfl, ?_⟩, rfl, rfl⟩
    rw [hheight]
    rfl
  | succ left =>
    obtain ⟨u, hu, huwork, -⟩ := checkRow_never 0 s
    obtain ⟨t, ht, hstill⟩ := readRow_atEnd f p 0 (s := u) (by rw [huwork]; exact hs)
    refine ⟨t, bind_eq_ok.mpr ⟨p, s, by rw [← hp]; rfl, ?_⟩, by rwa [huwork] at hstill⟩
    rw [hheight]
    exact bind_eq_ok.mpr ⟨(), u, hu, bind_eq_ok.mpr ⟨false, t, ht, rfl⟩⟩

end Raster

/-! ## The last turn -/

namespace Decode

variable (limits : Limits) {s t : Session Walk}

theorem succeeds_skipPayload (payload : Payload) (length : Int) :
    Succeeds (skipPayload payload length) :=
  Succeeds.moves.skipPayload payload length

theorem succeeds_dispatch {opcode : Opcode} (h : ∀ op, opcode ≠ .raster op) :
    Succeeds (dispatch limits opcode) :=
  Succeeds.takes.dispatch_of_ne limits h

/-- At the end of the data an opcode does nothing to the strips. -/
theorem dispatch_atEnd (opcode : Opcode) (hin : s.work.cursor.Inside)
    (hs : s.work.cursor.remaining = 0) :
    ∃ goesOn t, dispatch limits opcode .never s = .ok goesOn t ∧
      t.work.cursor.remaining = 0 ∧ Frame.still.allows s.work t.work := by
  by_cases hraster : ∃ op, opcode = .raster op
  · obtain ⟨op, rfl⟩ := hraster
    obtain ⟨t, ht⟩ := Raster.readOpening_atEnd op hs
    have hforward := (Raster.within_readOpening Frame.forward_opens op).ok ht
    have hleft := Cursor.Forward.remaining_le hforward hin
    refine ⟨true, t, ?_, by omega, (Raster.within_readOpening Frame.still_opens op).ok ht⟩
    exact bind_eq_ok.mpr ⟨(), t, bind_eq_ok.mpr ⟨none, t, ht, rfl⟩, rfl⟩
  · have hne : ∀ op, opcode ≠ .raster op := fun op hop => hraster ⟨op, hop⟩
    obtain ⟨goesOn, t, ht⟩ := succeeds_dispatch limits hne s
    have hforward := (within_dispatch_of_ne Frame.forward_opens hne).ok ht
    have hleft := Cursor.Forward.remaining_le hforward hin
    exact ⟨goesOn, t, ht, by omega, (within_dispatch_of_ne Frame.still_opens hne).ok ht⟩

/-- With one byte left a turn is the last one, and nothing is stored in it. -/
theorem turn_late (hin : s.work.cursor.Inside) (hs : s.work.cursor.remaining ≤ 1) :
    ∃ t, turn limits .never s = .ok false t ∧ Frame.still.allows s.work t.work := by
  obtain ⟨hforward, hcount⟩ := Opcode.advances_read s.work.picture.version s.work.cursor
  cases hopcode : (Opcode.read s.work.picture.version s.work.cursor).1 with
  | none =>
    have hread := Walk.read_eq .never s hopcode
    exact ⟨_, bind_eq_ok.mpr ⟨_, s, rfl, bind_eq_ok.mpr ⟨none, _, hread, rfl⟩⟩, rfl, rfl⟩
  | some opcode =>
    -- the opcode took the byte that was left
    have hpos := hcount hin (by rw [hopcode]; rfl)
    obtain ⟨-, hin'⟩ := hforward.moved hin
    have hread := Walk.read_eq .never s hopcode
    generalize hd : (Opcode.read s.work.picture.version s.work.cursor).2 = d at *
    have hsource : d.source = s.work.cursor.source := hforward.source
    have hend : d.remaining = 0 := by
      unfold Cursor.Inside at hin'
      unfold Cursor.remaining at hs ⊢
      rw [hsource] at hin' ⊢
      omega
    let u : Session Walk :=
      { s with checks := s.checks + 1, work := { s.work with cursor := d } }
    have hcheck := check_passes .never { s with work := { s.work with cursor := d } } rfl
    obtain ⟨goesOn, t, hdispatch, hleft, hstill⟩ :=
      dispatch_atEnd limits (s := u) opcode hin' hend
    have hover : (goesOn && !t.work.cursor.atEnd) = false := by
      rw [(Cursor.atEnd_iff _).mpr hleft, Bool.not_true, Bool.and_false]
    refine ⟨t, ?_, hstill⟩
    refine bind_eq_ok.mpr ⟨_, s, rfl, bind_eq_ok.mpr ⟨some opcode, _, hread, ?_⟩⟩
    refine bind_eq_ok.mpr ⟨(), u, hcheck, bind_eq_ok.mpr ⟨goesOn, t, hdispatch, ?_⟩⟩
    exact bind_eq_ok.mpr ⟨_, t, rfl, pure_eq_ok.mpr ⟨hover, rfl⟩⟩

/-- With one byte left all turns that may follow store nothing. -/
theorem turns_late (n : Nat) (hin : s.work.cursor.Inside) (hs : s.work.cursor.remaining ≤ 1) :
    ∃ t, turns limits n .never s = .ok () t ∧ Frame.still.allows s.work t.work := by
  cases n with
  | zero => exact ⟨s, rfl, rfl, rfl⟩
  | succ n =>
    obtain ⟨t, ht, hstill⟩ := turn_late limits hin hs
    exact ⟨t, bind_eq_ok.mpr ⟨false, t, ht, rfl⟩, hstill⟩

end Decode
end Pict
