import Pict.Proofs.Decode.Parts

/-!
# What the jobs of a walk keep to

A `Frame` is a relation between a walk and a later state of it that holds of
doing nothing and of one thing after the other. A job is `Within` a frame when
the walk it leaves, whether it succeeds or fails, is related to the one it
started from.

Results:
* `Within.threads`, `Within.eachRow`: jobs in a row, and loops.
* `Within.opens`, `within_readOpening`: a frame that allows the cursor to move forward and
  the picture to change but for its strips (`Frame.Opens`) allows everything in front of
  the rows of a raster.
* `Within.walks`, `within_readRows`, `within_turn`: one that allows as well to go
  to the last byte and to store strips (`Frame.Rows`) allows everything.
* `Frame.same_moves`, `Frame.same_opens`, `Frame.same_rows`: what leaves a part of the picture
  alone.
-/
namespace Pict

/-- What may become of a walk. -/
structure Frame where
  allows : Walk → Walk → Prop
  refl : ∀ w, allows w w
  trans : ∀ {u v w}, allows u v → allows v w → allows u w

namespace Frame

/-- The frame allows what happens in front of the rows of a raster. -/
structure Opens (R : Frame) : Prop where
  forward : ∀ (w : Walk) {d : Cursor}, w.cursor.Forward d → R.allows w { w with cursor := d }
  repaint : ∀ (w : Walk) {q : Picture}, q.strips = w.picture.strips →
    q.stripBytes = w.picture.stripBytes → R.allows w { w with picture := q }

/-- The frame allows what happens while the rows of a raster are read as well. -/
structure Rows (R : Frame) : Prop extends Opens R where
  park : ∀ w : Walk,
    R.allows w { w with cursor := w.cursor.seek (w.cursor.source.size - 1) }
  store : ∀ (w : Walk) (strip : Strip),
    R.allows w { w with picture := w.picture.store strip, marks := w.marks.push w.cursor.pos }

end Frame

/-- However it ends, the job keeps to the frame. -/
def Job.Within {α : Type} (R : Frame) (job : Job Walk α) : Prop :=
  ∀ (stop : Stop) (s : Session Walk), R.allows s.work (sessionOf (job stop s)).work

namespace Job.Within

variable {α β : Type} {R : Frame}

theorem ok {job : Job Walk α} (h : Within R job) {stop : Stop} {s t : Session Walk} {a : α}
    (hjob : job stop s = .ok a t) : R.allows s.work t.work := by
  have := h stop s
  rwa [hjob] at this

theorem bind {job : Job Walk α} {f : α → Job Walk β} (h : Within R job)
    (h' : ∀ a, Within R (f a)) : Within R (job >>= f) := by
  intro stop s
  have hs := h stop s
  rw [bind_apply]
  cases hjob : job stop s with
  | ok a t =>
    rw [hjob] at hs
    exact R.trans hs (h' a stop t)
  | error e t =>
    rw [hjob] at hs
    exact hs

theorem pure (a : α) : Within R (Pure.pure a : Job Walk α) := fun _ s => R.refl s.work

theorem fail (e : Error) : Within R (Job.fail e : Job Walk α) := fun _ s => R.refl s.work

theorem warn (w : Warning) : Within R (Job.warn w) := fun _ s => R.refl s.work

theorem check : Within R Job.check := by
  intro stop s
  unfold Job.check
  cases stop.refusal? s.checks <;> exact R.refl s.work

theorem enforce (limit : Except Breach Unit) : Within R (Job.enforce limit) := by
  cases limit
  · exact fail _
  · exact pure ()

theorem ofExcept (r : Except Error α) : Within R (Job.ofExcept r) := by
  cases r
  · exact fail _
  · exact pure _

theorem getPicture : Within R Walk.getPicture := fun _ s => R.refl s.work

theorem getCursor : Within R Walk.getCursor := fun _ s => R.refl s.work

/-- Keeping to a frame passes on to jobs in a row. -/
theorem threads : JobProperty.Threads fun _ job => Within R job where
  pure := .pure
  bind := .bind
  check := .check

/-- A loop keeps to the frame when its rows do. -/
theorem eachRow {body : Nat → Job Walk Bool} (h : ∀ row, Within R (body row)) (left : Nat) :
    ∀ row, Within R (Job.eachRow body row left) :=
  threads.eachRow h left

/-- A frame that allows the cursor to move forward allows to read on. -/
theorem moves (hR : ∀ (w : Walk) {d : Cursor}, w.cursor.Forward d →
    R.allows w { w with cursor := d }) : JobProperty.Moves fun _ job => Within R job where
  toThreads := threads
  getPicture := .getPicture
  getCursor := .getCursor
  warn := .warn
  read h _ s := hR s.work (h s.work.cursor).1
  skip n _ s := hR s.work (.skip s.work.cursor n)

section
variable (hR : R.Opens)
include hR

theorem modify {f : Picture → Picture} (hs : ∀ p, (f p).strips = p.strips)
    (hb : ∀ p, (f p).stripBytes = p.stripBytes) : Within R (Walk.modify f) :=
  fun _ s => hR.repaint s.work (hs s.work.picture) (hb s.work.picture)

theorem opens : JobProperty.Opens fun _ job => Within R job where
  toMoves := moves hR.forward
  setRowBytes _ := modify hR (fun _ => rfl) fun _ => rfl
  setPalette _ := modify hR (fun _ => rfl) fun _ => rfl
  unsupported _ := .fail _

theorem takes : JobProperty.Takes fun _ job => Within R job where
  toMoves := moves hR.forward
  setJpeg _ := modify hR (fun _ => rfl) fun _ => rfl
  finish _ s := hR.forward s.work (.seek fun h => h)

theorem read {n : Nat} {r : Reader α} (h : r.Advances n) : Within R (Walk.read r) :=
  (opens hR).read h

theorem next (n : Nat) : Within R (Walk.next n) := (opens hR).next n

end

section
variable (hR : R.Rows)
include hR

theorem rows : JobProperty.Rows fun _ job => Within R job where
  toMoves := moves hR.forward
  park _ s := hR.park s.work
  store strip _ s := hR.store s.work strip
  markColor := modify hR.toOpens (fun _ => rfl) fun _ => rfl
  undecodable _ := .fail _

/-- A frame for rows allows all steps of a walk. -/
theorem walks (limits : Limits) : JobProperty.Walks (fun _ job => Within R job) limits :=
  { opens hR.toOpens, rows hR, takes hR.toOpens with
    resize := fun _ _ => modify hR.toOpens (fun _ => rfl) fun _ => rfl
    limitCanvas := fun _ _ => .enforce _
    limitMemory := fun _ => .enforce _ }

end
end Job.Within

open Job

/-! ## Openings -/

namespace Raster

section
variable {R : Frame} (hR : R.Opens)
include hR

theorem within_takeRowBytes (rowBytes : Option Nat) : Within R (takeRowBytes rowBytes) :=
  (Within.opens hR).takeRowBytes rowBytes

theorem within_readColors (kind : RasterKind) (f : Format) : Within R (readColors kind f) :=
  (Within.opens hR).readColors kind f

theorem within_passColors (kind : RasterKind) (f : Format) (settled : Bool) :
    Within R (passColors kind f settled) :=
  (Within.opens hR).passColors kind f settled

theorem within_readPixmap (kind : RasterKind) : Within R (readPixmap kind) :=
  (Within.opens hR).readPixmap kind

theorem within_readOpening (op : RasterOp) : Within R (readOpening op) :=
  (Within.opens hR).readOpening (fun _ _ => Within.modify hR (fun _ => rfl) fun _ => rfl) op

end

/-! ## Rows -/

section
variable {R : Frame} (hR : R.Rows) {f : Format} {width height rowBytes : Nat}
include hR

theorem within_keepRaw (row : Nat) (bytes : List UInt8) :
    Within R (keepRaw f width rowBytes row bytes) :=
  (Within.rows hR).keepRaw (fun _ => .ofExcept _) rowBytes row bytes

theorem within_readRawRow (row : Nat) : Within R (readRawRow f width height rowBytes row) :=
  (Within.rows hR).readRawRow (fun _ => .ofExcept _) height rowBytes row

theorem within_takePacked (declared : Int) (capacity : Nat) :
    Within R (takePacked declared capacity) :=
  (Within.rows hR).takePacked declared capacity

theorem within_keepPacked (packed : List UInt8) : Within R (keepPacked f width packed) :=
  (Within.rows hR).keepPacked (fun _ => .ofExcept _) packed

theorem within_readRow (f : Format) (p : Picture) (row : Nat) : Within R (readRow f p row) :=
  (Within.rows hR).readRow f p row

theorem within_readRows (f : Format) : Within R (readRows f) := (Within.rows hR).readRows f

end
end Raster

/-! ## Opcodes and turns -/

namespace Decode

section
variable {R : Frame} (hR : R.Opens)
include hR

theorem within_skipPayload (payload : Payload) (length : Int) :
    Within R (skipPayload payload length) :=
  (Within.opens hR).skipPayload payload length

theorem within_dispatch_of_ne {limits : Limits} {opcode : Opcode}
    (h : ∀ op, opcode ≠ .raster op) : Within R (dispatch limits opcode) :=
  (Within.takes hR).dispatch_of_ne limits h

end

section
variable {R : Frame} (hR : R.Rows) {limits : Limits}
include hR

theorem within_limitedRows (opened : Option Format) : Within R (limitedRows limits opened) :=
  (Within.walks hR limits).limitedRows opened

theorem within_obey (opcode : Option Opcode) : Within R (obey limits opcode) :=
  (Within.walks hR limits).obey opcode

theorem within_turn : Within R (turn limits) := (Within.walks hR limits).turn

theorem within_turns (n : Nat) : Within R (turns limits n) := (Within.walks hR limits).turns n

end
end Decode

/-! ## Frames for the cursor and for the strips -/

namespace Frame

/-- The cursor moves forward. -/
def forward : Frame where
  allows u v := u.cursor.Forward v.cursor
  refl w := .refl w.cursor
  trans h h' := h.trans h'

/-- The cursor moves forward, or from the end of the data back to the last byte. -/
def onward : Frame where
  allows u v := u.cursor.Onward v.cursor
  refl w := .refl w.cursor
  trans h h' := h.trans h'

theorem forward_opens : forward.Opens where
  forward _ _ h := h
  repaint w _ _ _ := .refl w.cursor

def sameStrips : Frame where
  allows u v := v.picture.strips = u.picture.strips ∧ v.picture.stripBytes = u.picture.stripBytes
  refl _ := ⟨rfl, rfl⟩
  trans h h' := ⟨h'.1.trans h.1, h'.2.trans h.2⟩

theorem sameStrips_opens : sameStrips.Opens where
  forward _ _ _ := ⟨rfl, rfl⟩
  repaint _ _ hs hb := ⟨hs, hb⟩

/-- A part of the picture stays as it is. -/
def same {β : Type} (part : Picture → β) : Frame where
  allows u v := part v.picture = part u.picture
  refl _ := rfl
  trans h h' := h'.trans h

section
variable {β : Type} {part : Picture → β}

theorem same_moves : JobProperty.Moves fun _ job => Within (same part) job :=
  Within.moves fun _ _ _ => rfl

theorem same_opens (hrowBytes : ∀ p n, part { p with rowBytes := n } = part p)
    (hpalette : ∀ p palette, part { p with palette := some palette } = part p) :
    JobProperty.Opens fun _ job => Within (same part) job where
  toMoves := same_moves
  setRowBytes n _ s := hrowBytes s.work.picture n
  setPalette palette _ s := hpalette s.work.picture palette
  unsupported _ := .fail _

theorem same_rows (hstore : ∀ p strip, part (Picture.store p strip) = part p)
    (hcolor : ∀ p, part (Picture.markColor p) = part p) :
    JobProperty.Rows fun _ job => Within (same part) job where
  toMoves := same_moves
  park _ _ := rfl
  store strip _ s := hstore s.work.picture strip
  markColor _ s := hcolor s.work.picture
  undecodable _ := .fail _

end

theorem onward_rows : onward.Rows where
  forward _ _ h := h.onward
  repaint w _ _ _ := .refl w.cursor
  park w := .park w.cursor
  store w _ := .refl w.cursor

end Frame
end Pict
