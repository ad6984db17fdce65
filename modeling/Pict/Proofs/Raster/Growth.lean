import Mathlib.Algebra.Ring.Nat
import Pict.Decode.Dispatch
import Pict.Proofs.Samples.PixelRow

/-!
# How many bytes the rows of a raster add

Decoding only ever appends strips, and counts their bytes. `Picture.GrowsBy n`
says that a picture got some strips more, of at most `n` bytes together, and
`Job.Adds n` that a job does no more than that to its picture, whether it
succeeds or fails.

Results:
* `Adds.bind`, `Adds.eachRow`: what jobs in a row add, adds up.
* `rawStrip_byteSize_le`, `packedStrips_byteSize_le`: what one row adds.
* `adds_readRows`: what all rows of a raster add.
-/
namespace Pict

namespace Picture

/-- `q` is `p` with some strips more, of at most `n` bytes together. -/
def GrowsBy (n : Nat) (p q : Picture) : Prop :=
  ∃ more : List Strip, q.strips.toList = p.strips.toList ++ more ∧
    q.stripBytes = p.stripBytes + (more.map Strip.byteSize).sum ∧
    (more.map Strip.byteSize).sum ≤ n

namespace GrowsBy

variable {n m : Nat} {p q r : Picture}

theorem same (hs : q.strips = p.strips) (hb : q.stripBytes = p.stripBytes) : GrowsBy n p q :=
  ⟨[], by rw [hs, List.append_nil], hb, Nat.zero_le n⟩

theorem refl (p : Picture) : GrowsBy n p p := same rfl rfl

theorem mono (h : GrowsBy n p q) (hle : n ≤ m) : GrowsBy m p q := by
  obtain ⟨more, hs, hb, hn⟩ := h
  exact ⟨more, hs, hb, Nat.le_trans hn hle⟩

theorem trans (h : GrowsBy n p q) (h' : GrowsBy m q r) : GrowsBy (n + m) p r := by
  obtain ⟨more, hs, hb, hn⟩ := h
  obtain ⟨more', hs', hb', hm⟩ := h'
  refine ⟨more ++ more', by rw [hs', hs, List.append_assoc], ?_, ?_⟩
  · rw [hb', hb, List.map_append, List.sum_append, Nat.add_assoc]
  · rw [List.map_append, List.sum_append]
    omega

theorem stripBytes_le (h : GrowsBy n p q) : q.stripBytes ≤ p.stripBytes + n := by
  obtain ⟨_, _, hb, hn⟩ := h
  omega

theorem le_stripBytes (h : GrowsBy n p q) : p.stripBytes ≤ q.stripBytes := by
  obtain ⟨_, _, hb, _⟩ := h
  omega

theorem store (p : Picture) (strip : Strip) : GrowsBy strip.byteSize p (p.store strip) := by
  refine ⟨[strip], ?_, ?_, ?_⟩
  · exact Array.toList_push
  · rw [List.map_singleton, List.sum_singleton]
    rfl
  · exact Nat.le_of_eq List.sum_singleton

end GrowsBy
end Picture

/-- However it ends, the job adds strips of at most `n` bytes to its picture. -/
def Job.Adds {α : Type} (n : Nat) (job : Job Walk α) : Prop :=
  ∀ (stop : Stop) (s : Session Walk), s.work.picture.GrowsBy n (sessionOf (job stop s)).work.picture

namespace Job.Adds

variable {α β : Type} {n m : Nat}

theorem ok {job : Job Walk α} (h : Adds n job) {stop : Stop} {s t : Session Walk} {a : α}
    (hjob : job stop s = .ok a t) : s.work.picture.GrowsBy n t.work.picture := by
  have := h stop s
  rwa [hjob] at this

theorem mono {job : Job Walk α} (h : Adds n job) (hle : n ≤ m) : Adds m job :=
  fun stop s => (h stop s).mono hle

theorem bind {job : Job Walk α} {f : α → Job Walk β} (h : Adds n job) (h' : ∀ a, Adds m (f a)) :
    Adds (n + m) (job >>= f) := by
  intro stop s
  have hs := h stop s
  rw [bind_apply]
  cases hjob : job stop s with
  | ok a t =>
    rw [hjob] at hs
    exact hs.trans (h' a stop t)
  | error e t =>
    rw [hjob] at hs
    exact hs.mono (Nat.le_add_right n m)

theorem bind_zero {job : Job Walk α} {f : α → Job Walk β} (h : Adds 0 job)
    (h' : ∀ a, Adds m (f a)) : Adds m (job >>= f) := by
  have := bind h h'
  rwa [Nat.zero_add] at this

theorem pure (a : α) : Adds n (Pure.pure a : Job Walk α) := fun _ s => .refl s.work.picture

theorem fail (e : Error) : Adds n (Job.fail e : Job Walk α) := fun _ s => .refl s.work.picture

theorem warn (w : Warning) : Adds n (Job.warn w) := fun _ s => .refl s.work.picture

theorem check : Adds n Job.check := by
  intro stop s
  unfold Job.check
  cases stop.refusal? s.checks <;> exact .refl s.work.picture

theorem enforce (limit : Except Breach Unit) : Adds n (Job.enforce limit) := by
  cases limit
  · exact fail _
  · exact pure ()

theorem ofExcept_bind {r : Except Error α} {f : α → Job Walk β}
    (h : ∀ a, r = .ok a → Adds n (f a)) : Adds n (Job.ofExcept r >>= f) := by
  intro stop s
  rw [bind_apply]
  cases r with
  | error e => exact .refl s.work.picture
  | ok a => exact h a rfl stop s

theorem move (f : Cursor → Cursor) : Adds n (Walk.move f) := fun _ s => .refl s.work.picture

theorem modify {f : Picture → Picture} (hs : ∀ p, (f p).strips = p.strips)
    (hb : ∀ p, (f p).stripBytes = p.stripBytes) : Adds n (Walk.modify f) :=
  fun _ s => .same (hs s.work.picture) (hb s.work.picture)

theorem getPicture : Adds n Walk.getPicture := fun _ s => .refl s.work.picture

theorem getCursor : Adds n Walk.getCursor := fun _ s => .refl s.work.picture

theorem read (r : Reader α) : Adds n (Walk.read r) := fun _ s => .refl s.work.picture

theorem next (k : Nat) : Adds n (Walk.next k) := fun _ s => .refl s.work.picture

theorem store (strip : Strip) : Adds strip.byteSize (Walk.store strip) :=
  fun _ s => .store s.work.picture strip

theorem storeAll : ∀ strips : List Strip,
    Adds (strips.map Strip.byteSize).sum (Walk.storeAll strips)
  | [] => pure ()
  | strip :: strips => by
    rw [List.map_cons, List.sum_cons]
    exact bind (store strip) fun _ => storeAll strips

theorem checkRow (row : Nat) : Adds n (Job.checkRow row) := by
  unfold Job.checkRow
  split
  · exact check
  · exact pure ()

/-- A loop adds what its rows add. -/
theorem eachRow {body : Nat → Job Walk Bool} (h : ∀ row, Adds n (body row)) (left : Nat) :
    ∀ row, Adds (left * n) (Job.eachRow body row left) := by
  induction left with
  | zero =>
    intro row
    exact pure ()
  | succ left ih =>
    intro row
    have hrest : ∀ more : Bool,
        Adds (left * n) (if more = true then Job.eachRow body (row + 1) left else Pure.pure ()) := by
      intro more
      split
      · exact ih (row + 1)
      · exact pure ()
    rw [Nat.succ_mul, Nat.add_comm]
    exact bind_zero (checkRow row) fun _ => bind (h row) hrest

end Job.Adds

/-! ## Rows -/

namespace Format

/-- The most bytes that the strips of one row take. Eight-bit rows are kept as they come, all
others have a strip of the width of the canvas for each component. -/
def rowLimit (f : Format) (width rowBytes : Nat) : Nat :=
  if f.pixelSize = 8 then if f.isPacked rowBytes then width * 4 else rowBytes
  else width * (max f.components 1 * if f.pixelSize = 16 then 2 else 1)

variable {f : Format} {width rowBytes : Nat} {row : List UInt8}

theorem width_le_rowLimit (h : f.pixelSize ≠ 8) {k : Nat} (hk : k ≤ max f.components 1) :
    k * width ≤ f.rowLimit width rowBytes := by
  have hone : 1 ≤ if f.pixelSize = 16 then 2 else 1 := by split <;> omega
  rw [rowLimit, if_neg h, Nat.mul_comm]
  exact Nat.mul_le_mul_left width (Nat.le_trans hk (Nat.le_mul_of_pos_right _ hone))

/-- An expanded row is one strip of the width of the canvas. -/
theorem length_expanded_le (h : f.pixelSize ≠ 8) {input out : List UInt8}
    (hout : Depth.expandRow f.pixelSize width input = .ok out) :
    out.length ≤ f.rowLimit width rowBytes := by
  have hwidth : 1 * width ≤ f.rowLimit width rowBytes :=
    width_le_rowLimit h (Nat.le_max_right _ _)
  rw [Nat.one_mul] at hwidth
  exact Nat.le_trans (Nat.le_of_eq (Depth.length_expandRow hout)) hwidth

theorem words_le_rowLimit (h : f.pixelSize = 16) : 2 * width ≤ f.rowLimit width rowBytes := by
  have hone : 1 * 2 ≤ max f.components 1 * 2 := Nat.mul_le_mul_right 2 (Nat.le_max_right _ _)
  rw [rowLimit, if_neg (by omega), if_pos h, Nat.mul_comm]
  exact Nat.mul_le_mul_left width hone

theorem rawStrip_byteSize_le (hp : f.isPacked rowBytes = false) (hrow : row.length = rowBytes)
    {strip : Strip} (h : f.rawStrip width row = .ok strip) :
    strip.byteSize ≤ f.rowLimit width rowBytes := by
  unfold rawStrip at h
  by_cases h16 : f.pixelSize = 16
  · rw [if_pos h16] at h
    obtain rfl := Except.ok.inj h
    rw [Strip.byteSize, length_fit]
    exact words_le_rowLimit h16
  · rw [if_neg h16] at h
    by_cases h8 : f.pixelSize = 8
    · rw [if_pos h8] at h
      obtain rfl := Except.ok.inj h
      rw [rowLimit, if_pos h8, hp, if_neg (by decide)]
      exact Nat.le_of_eq hrow
    · rw [if_neg h8] at h
      cases hout : Depth.expandRow f.pixelSize width row with
      | error e =>
        rw [hout] at h
        cases h
      | ok out =>
        rw [hout] at h
        obtain rfl := Except.ok.inj h
        exact length_expanded_le h8 hout

theorem packedStrips_byteSize_le (hp : f.isPacked rowBytes = true) {strips : List Strip}
    (h : f.packedStrips width row = .ok strips) :
    (strips.map Strip.byteSize).sum ≤ f.rowLimit width rowBytes := by
  unfold packedStrips at h
  by_cases h16 : f.pixelSize = 16
  · rw [if_pos h16] at h
    obtain rfl := Except.ok.inj h
    show 2 * (PackBits.decodeWords width row).length + 0 ≤ _
    rw [PackBits.length_decodeWords]
    exact words_le_rowLimit h16
  · rw [if_neg h16] at h
    dsimp only at h
    by_cases hlt : f.pixelSize < 8
    · rw [if_pos hlt] at h
      cases hout : Depth.expandRow f.pixelSize width (PackBits.decodeBytes (width * 4) row) with
      | error e =>
        rw [hout] at h
        cases h
      | ok out =>
        rw [hout] at h
        obtain rfl := Except.ok.inj h
        exact length_expanded_le (by omega) hout
    · rw [if_neg hlt] at h
      by_cases h8 : f.pixelSize = 8
      · rw [if_pos h8] at h
        obtain rfl := Except.ok.inj h
        rw [rowLimit, if_pos h8, if_pos hp]
        exact PackBits.length_decodeBytes_le _ _
      · rw [if_neg h8] at h
        split at h
        · obtain rfl := Except.ok.inj h
          have hwidth : f.components * width ≤ f.rowLimit width rowBytes :=
            width_le_rowLimit h8 (Nat.le_max_left _ _)
          have hsum : ((List.range f.components).map fun c =>
              (crop (c * width) width (PackBits.decodeBytes (width * 4) row)).length).sum =
                f.components * width := by
            simp only [length_crop, List.map_const', List.length_range, List.sum_replicate_nat]
          rw [List.map_map]
          exact Nat.le_trans (Nat.le_of_eq hsum) hwidth
        · obtain rfl := Except.ok.inj h
          exact Nat.zero_le _

/-- All rows of a raster stay below what it is expected to take, unless its pixels have
eight bits. -/
theorem rowLimit_eq (h : f.pixelSize ≠ 8) (height : Nat) :
    height * f.rowLimit width rowBytes = f.expectedBytes width height := by
  rw [rowLimit, if_neg h, expectedBytes, Nat.mul_comm width height, Nat.mul_assoc]

end Format

namespace Raster

open Job

variable {f : Format} {width height rowBytes : Nat}

theorem adds_markDirect (n : Nat) (f : Format) : Adds n (markDirect f) := by
  unfold markDirect
  split
  · exact Adds.modify (fun _ => rfl) fun _ => rfl
  · exact Adds.pure ()

theorem adds_stored {store : Job Walk Unit} {n m : Nat} (h : Adds n store) (hle : n ≤ m)
    (f : Format) : Adds m (do store; markDirect f; Pure.pure true) := by
  have hmark : Adds 0 (do markDirect f; Pure.pure true) :=
    Adds.bind_zero (adds_markDirect 0 f) fun _ => Adds.pure true
  exact (Adds.bind h fun _ => hmark).mono hle

theorem adds_readRawRow (hp : f.isPacked rowBytes = false) (row : Nat) :
    Adds (f.rowLimit width rowBytes) (readRawRow f width height rowBytes row) := by
  refine Adds.bind_zero Adds.getCursor fun c => ?_
  split
  · exact Adds.bind_zero (Adds.warn _) fun _ => Adds.pure false
  · refine Adds.bind_zero (Adds.next rowBytes) fun bytes => ?_
    have hrow : Adds (f.rowLimit width rowBytes) (do
        let strip ← Job.ofExcept (f.rawStrip width (fit rowBytes bytes))
        Walk.store strip
        markDirect f
        Pure.pure true) := by
      refine Adds.ofExcept_bind fun strip hstrip => ?_
      exact adds_stored (Adds.store strip)
        (Format.rawStrip_byteSize_le hp (length_fit _ _) hstrip) f
    split
    · exact Adds.bind_zero (Adds.warn _) fun _ => hrow
    · exact hrow

theorem adds_settleLength (n : Nat) (declared : Int) (capacity : Nat) :
    Adds n (settleLength declared capacity) := by
  have hsettled : Adds n (do
      let c ← Walk.getCursor
      if fitLength declared capacity c.remaining < 0 then
        Job.warn (.packedRowOutOfRange declared c.pos)
        Walk.move fun c => c.seek (c.source.size - 1)
        Pure.pure 0
      else Pure.pure (fitLength declared capacity c.remaining).toNat) := by
    refine Adds.bind_zero Adds.getCursor fun c => ?_
    split
    · exact Adds.bind_zero (Adds.warn _) fun _ => Adds.bind_zero (Adds.move _) fun _ => Adds.pure 0
    · exact Adds.pure _
  unfold settleLength
  split
  · exact Adds.bind_zero (Adds.warn _) fun _ => hsettled
  · exact hsettled

theorem adds_readPackedRow (hp : f.isPacked rowBytes = true) (row : Nat) :
    Adds (f.rowLimit width rowBytes) (readPackedRow f width height rowBytes row) := by
  refine Adds.bind_zero (Adds.read _) fun declared => ?_
  cases declared with
  | none => exact Adds.bind_zero (Adds.warn _) fun _ => Adds.pure false
  | some declared =>
    refine Adds.bind_zero (adds_settleLength 0 declared _) fun length => ?_
    refine Adds.bind_zero (Adds.next length) fun packed => ?_
    refine Adds.ofExcept_bind fun strips hstrips => ?_
    exact adds_stored (Adds.storeAll strips) (Format.packedStrips_byteSize_le hp hstrips) f

/-- The rows of a raster add no more than the limit of a row for each row of the canvas. -/
theorem adds_readRows (f : Format) (stop : Stop) (s : Session Walk) :
    s.work.picture.GrowsBy
      (s.work.picture.declaredHeight * f.rowLimit s.work.picture.width s.work.picture.rowBytes)
      (sessionOf (readRows f stop s)).work.picture := by
  have hbody : ∀ p : Picture, Adds (p.declaredHeight * f.rowLimit p.width p.rowBytes)
      (Job.eachRow ((if f.isPacked p.rowBytes then readPackedRow else readRawRow) f p.width
        p.declaredHeight p.rowBytes) 0 p.declaredHeight) := by
    intro p
    refine Adds.eachRow (fun row => ?_) p.declaredHeight 0
    cases hp : f.isPacked p.rowBytes with
    | true => exact adds_readPackedRow hp row
    | false => exact adds_readRawRow hp row
  exact hbody s.work.picture stop s

end Raster
end Pict
