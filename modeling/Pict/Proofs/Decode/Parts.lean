import Pict.Decode.Dispatch
import Pict.Proofs.Run.Steps
import Pict.Proofs.Stream.Forward

/-!
# What holds of the parts of a walk

The jobs of a walk are jobs in a row, whose second parts get names here. A property of
jobs that passes from jobs in a row to the whole holds of the walk when it holds of the single
steps that the walk is made of. The structures below list these steps: those of any job
(`Threads`), of reading on (`Moves`), of the header of a pixmap (`Opens`), of rows (`Rows`), of
embedded JPEG data (`Takes`), and of a whole walk under some limits (`Walks`). Rows of pixels that
are decoded are stored (`Stores`); others end the walk.

Results:
* `readOpening_eq`, `readPackedRow_eq`, `turn_eq_obey` and the like: jobs as their parts in a row.
* `Opens.openPixmap`, `Rows.readRows`, `Takes.dispatch_of_ne`: the parts of a turn.
* `Walks.turn`, `Walks.turns`, `Walks.opcodes`: the walk.
-/
namespace Pict

/-! ## Jobs as their parts in a row -/

open Job

namespace Raster

/-- What is done with the number of entries that a palette declares. -/
def takeEntries (flags : UInt16) (declared : Nat) : Job Walk (Option Palette) := do
  let c ← Walk.getCursor
  let available := c.remaining / Palette.entrySize
  if available < declared then Job.warn (.paletteTruncated declared available)
  let entries ← Walk.read (Palette.readEntries (min declared available))
  pure (entries.map fun entries => ⟨flags, entries⟩)

/-- What comes behind the colors of a pixmap. -/
def passColors (kind : RasterKind) (f : Format) (settled : Bool) : Job Walk (Option Format) := do
  if settled then
    Walk.move (·.skip 18)
    if kind.hasRegion then Walk.move (·.skip 2)
    pure (some f)
  else pure none

/-- What comes behind the bounds of a pixmap. -/
def openPixmap (kind : RasterKind) : Job Walk (Option Format) := do
  match ← readPixmap kind with
  | some f => pure (some f)
  | none =>
    let c ← Walk.getCursor
    Job.warn (.pixmapTruncated c.pos)
    pure none

theorem readPalette_eq :
    readPalette = Walk.read Palette.readDeclared >>= fun declared =>
      match declared with
      | none => pure none
      | some (flags, declared) => takeEntries flags declared := rfl

theorem readPixmap_eq (kind : RasterKind) :
    readPixmap kind = Walk.read Format.read >>= fun f =>
      match f with
      | none => pure none
      | some f => readColors kind f >>= passColors kind f := rfl

theorem readOpening_eq (op : RasterOp) :
    readOpening op = takeRowBytes op.rowBytes >>= fun _ => Walk.read readBounds >>= fun bounds =>
      match bounds with
      | none => Job.warn (.boundsTruncated op.kind) >>= fun _ => pure none
      | some (width, height) => Walk.modify (·.resize width height) >>= fun _ =>
        if op.pixmap then openPixmap op.kind else pure (some Format.bitmap) := rfl

/-- What is done with the bytes of a row that stands as it is. -/
def keepRaw (f : Format) (width rowBytes row : Nat) (bytes : List UInt8) : Job Walk Bool := do
  if bytes.length < rowBytes then Job.warn (.rawRowTruncated row bytes.length rowBytes)
  let strip ← Job.ofExcept (f.rawStrip width (fit rowBytes bytes))
  Walk.store strip
  markDirect f
  pure true

/-- The bytes of a packed row whose length is declared. -/
def takePacked (declared : Int) (capacity : Nat) : Job Walk (List UInt8) := do
  let length ← settleLength declared capacity
  Walk.next length

/-- What is done with the bytes of a packed row. -/
def keepPacked (f : Format) (width : Nat) (packed : List UInt8) : Job Walk Bool := do
  let strips ← Job.ofExcept (f.packedStrips width packed)
  Walk.storeAll strips
  markDirect f
  pure true

/-- One row of a raster of the canvas of `p`. -/
def readRow (f : Format) (p : Picture) : Nat → Job Walk Bool :=
  (if f.isPacked p.rowBytes then readPackedRow else readRawRow) f p.width p.declaredHeight
    p.rowBytes

theorem readRawRow_eq (f : Format) (width height rowBytes row : Nat) :
    readRawRow f width height rowBytes row = Walk.getCursor >>= fun c =>
      if c.atEnd then Job.warn (.rawRowsEnded row height) >>= fun _ => pure false
      else Walk.next rowBytes >>= keepRaw f width rowBytes row := rfl

theorem readPackedRow_eq (f : Format) (width height rowBytes row : Nat) :
    readPackedRow f width height rowBytes row =
      Walk.read (readLength rowBytes) >>= fun declared =>
        match declared with
        | none => Job.warn (.packedRowsEnded row height) >>= fun _ => pure false
        | some declared =>
          takePacked declared (packedCapacity rowBytes) >>= keepPacked f width := by
  unfold readPackedRow takePacked
  congr 1
  funext declared
  cases declared with
  | none => rfl
  | some declared => exact (bind_assoc _ _ _).symm

theorem readRows_eq (f : Format) :
    readRows f = Walk.getPicture >>= fun p =>
      Job.eachRow (readRow f p) 0 p.declaredHeight := rfl

end Raster

namespace Decode

/-- The rows of a raster that the limits allow. -/
def limitedRows (limits : Limits) : (opened : Option Format) → Job Walk Unit
  | none => pure ()
  | some f => do
    let p ← Walk.getPicture
    Job.enforce (limits.check p.width p.declaredHeight)
    Job.enforce (limits.checkMemory (p.stripBytes + f.expectedBytes p.width p.declaredHeight))
    Raster.readRows f

theorem raster_eq_limitedRows (limits : Limits) (op : RasterOp) :
    raster limits op = Raster.readOpening op >>= limitedRows limits := rfl

/-- What is done with the opcode of a turn. -/
def obey (limits : Limits) : (opcode : Option Opcode) → Job Walk Bool
  | none => pure false
  | some opcode => do
    Job.check
    let goesOn ← dispatch limits opcode
    let c ← Walk.getCursor
    pure (goesOn && !c.atEnd)

theorem turn_eq_obey (limits : Limits) :
    turn limits = Walk.getPicture >>= fun p =>
      Walk.read (Opcode.read p.version) >>= obey limits := rfl

end Decode

/-! ## Properties of jobs -/

/-- A property of the jobs on some work. -/
abbrev JobProperty (σ : Type) := (α : Type) → Job σ α → Prop

namespace JobProperty

/-- The property passes on to jobs in a row, and holds of checks. -/
structure Threads {σ : Type} (P : JobProperty σ) : Prop where
  pure : ∀ {α : Type} (a : α), P α (Pure.pure a)
  bind : ∀ {α β : Type} {job : Job σ α} {f : α → Job σ β},
    P α job → (∀ a, P β (f a)) → P β (job >>= f)
  check : P Unit Job.check

variable (P : JobProperty Walk)

/-- The property holds of looking, of telling and of reading on. -/
structure Moves : Prop extends Threads P where
  getPicture : P Picture Walk.getPicture
  getCursor : P Cursor Walk.getCursor
  warn : ∀ w, P Unit (Job.warn w)
  read : ∀ {α : Type} {n : Nat} {r : Reader α}, r.Advances n → P (Option α) (Walk.read r)
  skip : ∀ n, P Unit (Walk.move (·.skip n))

/-- The property holds of the steps that read the header of a pixmap. -/
structure Opens : Prop extends Moves P where
  setRowBytes : ∀ n, P Unit (Walk.modify fun p => { p with rowBytes := n })
  setPalette : ∀ palette, P Unit (Walk.modify fun p => { p with palette := some palette })
  unsupported : ∀ {α : Type} (size : Nat), P α (Job.fail (.unsupportedVectorData size))

/-- The property holds of the steps that read rows and store what is decoded. -/
structure Stores : Prop extends Moves P where
  park : P Unit (Walk.move fun c => c.seek (c.source.size - 1))
  store : ∀ strip, P Unit (Walk.store strip)
  markColor : P Unit (Walk.modify Picture.markColor)

/-- The property holds of the steps that read rows, decoded or not. -/
structure Rows : Prop extends Stores P where
  undecodable : ∀ {α : Type} (depth : Nat), P α (Job.fail (.unsupportedBitDepth depth))

/-- The property holds of the steps that take the rest of the data as embedded JPEG. -/
structure Takes : Prop extends Moves P where
  setJpeg : ∀ offsets : List Nat, P Unit (Walk.modify fun p =>
    { p with jpegOffsets := p.jpegOffsets ++ offsets, channels := 3, interleaved := true })
  finish : P Unit (Walk.move fun c => c.seek c.source.size)

/-- The property holds of all steps of a walk under these limits. -/
structure Walks (limits : Limits) : Prop extends Opens P, Rows P, Takes P where
  resize : ∀ width height, P Unit (Walk.modify (·.resize width height))
  limitCanvas : ∀ width height, P Unit (Job.enforce (limits.check width height))
  limitMemory : ∀ bytes, P Unit (Job.enforce (limits.checkMemory bytes))

end JobProperty

/-! ## Errors of rows -/

theorem Depth.expandRow_error {depth width : Nat} {input : List UInt8} {e : Error}
    (h : expandRow depth width input = .error e) : e = .unsupportedBitDepth depth := by
  unfold expandRow expandInto at h
  split at h
  · cases h
  · split at h
    · cases h
    · exact (Except.error.inj h).symm

namespace Format

variable {f : Format} {width : Nat} {row : List UInt8} {e : Error}

theorem expanded_error {β : Type} {g : List UInt8 → β}
    (h : (g <$> Depth.expandRow f.pixelSize width row : Except Error β) = .error e) :
    e = .unsupportedBitDepth f.pixelSize :=
  Depth.expandRow_error (map_eq_error.mp h)

theorem rawStrip_error (h : f.rawStrip width row = .error e) :
    e = .unsupportedBitDepth f.pixelSize := by
  unfold rawStrip at h
  split at h
  · cases h
  · split at h
    · cases h
    · exact expanded_error h

theorem packedStrips_error (h : f.packedStrips width row = .error e) :
    e = .unsupportedBitDepth f.pixelSize := by
  unfold packedStrips at h
  split at h
  · cases h
  · dsimp only at h
    split at h
    · exact expanded_error h
    · split at h
      · cases h
      · split at h <;> cases h

end Format

open Raster Decode

namespace JobProperty

/-! ## Loops -/

namespace Threads

variable {σ : Type} {P : JobProperty σ} (h : P.Threads)
include h

theorem checkRow (row : Nat) : P _ (Job.checkRow row) := by
  unfold Job.checkRow
  split
  · exact h.check
  · exact h.pure ()

theorem eachRow {body : Nat → Job σ Bool} (hbody : ∀ row, P _ (body row)) (left : Nat) :
    ∀ row, P _ (Job.eachRow body row left) := by
  induction left with
  | zero => exact fun row => h.pure ()
  | succ left ih =>
    intro row
    refine h.bind (h.checkRow row) fun _ => h.bind (hbody row) fun more => ?_
    cases more with
    | true => exact ih (row + 1)
    | false => exact h.pure ()

end Threads

variable {P : JobProperty Walk}

/-! ## Reading on -/

namespace Moves

variable (h : P.Moves)
include h

theorem storeAll (hstore : ∀ strip, P _ (Walk.store strip)) :
    ∀ strips : List Strip, P _ (Walk.storeAll strips)
  | [] => h.pure ()
  | strip :: strips => h.bind (hstore strip) fun _ => storeAll hstore strips

theorem next (n : Nat) : P _ (Walk.next n) :=
  h.bind h.getCursor fun _ => h.bind (h.skip n) fun _ => h.pure _

theorem takeEntries (flags : UInt16) (declared : Nat) : P _ (takeEntries flags declared) := by
  refine h.bind h.getCursor fun c => ?_
  have hentries : P _ (do
      let entries ← Walk.read (Palette.readEntries
        (min declared (c.remaining / Palette.entrySize)))
      Pure.pure (entries.map fun entries => (⟨flags, entries⟩ : Palette))) :=
    h.bind (h.read (Palette.advances_readEntries _)) fun _ => h.pure _
  dsimp only
  split
  · exact h.bind (h.warn _) fun _ => hentries
  · exact hentries

theorem readPalette : P _ readPalette := by
  rw [readPalette_eq]
  refine h.bind (h.read Palette.advances_readDeclared) fun declared => ?_
  cases declared with
  | none => exact h.pure none
  | some declared => exact h.takeEntries declared.1 declared.2

theorem passRegion (kind : RasterKind) (f : Format) : P _ (do
    if kind.hasRegion = true then Walk.move (·.skip 2)
    Pure.pure (some f)) := by
  split
  · exact h.bind (h.skip 2) fun _ => h.pure (some f)
  · exact h.pure (some f)

theorem passColors (kind : RasterKind) (f : Format) (settled : Bool) :
    P _ (passColors kind f settled) := by
  cases settled with
  | false => exact h.pure none
  | true => exact h.bind (h.skip 18) fun _ => h.passRegion kind f

theorem skipPayload (payload : Payload) (length : Int) : P _ (skipPayload payload length) := by
  refine h.bind h.getCursor fun c => ?_
  split
  · exact h.bind (h.warn _) fun _ => h.skip _
  · exact h.skip _

end Moves

/-! ## Headers of pixmaps -/

namespace Opens

variable (h : P.Opens)
include h

theorem readColors (kind : RasterKind) (f : Format) : P _ (readColors kind f) := by
  have htable : P _ (Raster.readColors .bitsRect f) := by
    refine h.bind h.readPalette fun palette => ?_
    cases palette with
    | none => exact h.pure false
    | some palette => exact h.bind (h.setPalette palette) fun _ => h.pure true
  cases kind with
  | bitsRect | bitsRegion | packBitsRect | packBitsRegion => exact htable
  | directBits =>
    refine h.bind h.getPicture fun p => ?_
    split
    · exact h.bind (h.setRowBytes _) fun _ => h.pure true
    · exact h.unsupported _

theorem readPixmap (kind : RasterKind) : P _ (readPixmap kind) := by
  rw [readPixmap_eq]
  refine h.bind (h.read Format.advances_read) fun f => ?_
  cases f with
  | none => exact h.pure none
  | some f => exact h.bind (h.readColors kind f) fun settled => h.passColors kind f settled

theorem openPixmap (kind : RasterKind) : P _ (openPixmap kind) := by
  refine h.bind (h.readPixmap kind) fun f => ?_
  cases f with
  | none => exact h.bind h.getCursor fun c => h.bind (h.warn _) fun _ => h.pure none
  | some f => exact h.pure (some f)

theorem takeRowBytes (rowBytes : Option Nat) : P _ (takeRowBytes rowBytes) := by
  cases rowBytes with
  | none => exact h.skip 6
  | some n => exact h.setRowBytes n

theorem readOpening (hresize : ∀ width height, P _ (Walk.modify (·.resize width height)))
    (op : RasterOp) : P _ (readOpening op) := by
  rw [readOpening_eq]
  refine h.bind (h.takeRowBytes op.rowBytes) fun _ => ?_
  refine h.bind (h.read advances_readBounds) fun bounds => ?_
  cases bounds with
  | none => exact h.bind (h.warn _) fun _ => h.pure none
  | some bounds =>
    refine h.bind (hresize _ _) fun _ => ?_
    split
    · exact h.openPixmap op.kind
    · exact h.pure _

end Opens

/-! ## Rows -/

namespace Stores

variable (h : P.Stores)
include h

theorem markDirect (f : Format) : P _ (markDirect f) := by
  unfold Raster.markDirect
  split
  · exact h.markColor
  · exact h.pure ()

section
variable {f : Format} {width : Nat} (hrow : ∀ bytes, P _ (Job.ofExcept (f.rawStrip width bytes)))
include hrow

theorem keepRaw (rowBytes row : Nat) (bytes : List UInt8) :
    P _ (keepRaw f width rowBytes row bytes) := by
  have hkeep : P _ (do
      let strip ← Job.ofExcept (f.rawStrip width (fit rowBytes bytes))
      Walk.store strip
      Raster.markDirect f
      Pure.pure true) :=
    h.bind (hrow _) fun strip => h.bind (h.store strip) fun _ => h.bind (h.markDirect f) fun _ =>
      h.pure true
  unfold Raster.keepRaw
  split
  · exact h.bind (h.warn _) fun _ => hkeep
  · exact hkeep

theorem readRawRow (height rowBytes row : Nat) : P _ (readRawRow f width height rowBytes row) := by
  rw [readRawRow_eq]
  refine h.bind h.getCursor fun c => ?_
  split
  · exact h.bind (h.warn _) fun _ => h.pure false
  · exact h.bind (h.next rowBytes) fun bytes => h.keepRaw hrow rowBytes row bytes

end

theorem settleLength (declared : Int) (capacity : Nat) : P _ (settleLength declared capacity) := by
  have hsettled : P _ (do
      let c ← Walk.getCursor
      if fitLength declared capacity c.remaining < 0 then
        Job.warn (.packedRowOutOfRange declared c.pos)
        Walk.move fun c => c.seek (c.source.size - 1)
        Pure.pure 0
      else Pure.pure (fitLength declared capacity c.remaining).toNat) := by
    refine h.bind h.getCursor fun c => ?_
    split
    · exact h.bind (h.warn _) fun _ => h.bind h.park fun _ => h.pure 0
    · exact h.pure _
  unfold Raster.settleLength
  split
  · exact h.bind (h.warn _) fun _ => hsettled
  · exact hsettled

theorem takePacked (declared : Int) (capacity : Nat) : P _ (takePacked declared capacity) :=
  h.bind (h.settleLength declared capacity) fun length => h.next length

section
variable {f : Format} {width : Nat}
  (hrow : ∀ bytes, P _ (Job.ofExcept (f.packedStrips width bytes)))
include hrow

theorem keepPacked (packed : List UInt8) : P _ (keepPacked f width packed) :=
  h.bind (hrow packed) fun strips => h.bind (h.storeAll h.store strips) fun _ =>
    h.bind (h.markDirect f) fun _ => h.pure true

theorem readPackedRow (height rowBytes row : Nat) :
    P _ (readPackedRow f width height rowBytes row) := by
  rw [readPackedRow_eq]
  refine h.bind (h.read (advances_readLength rowBytes)) fun declared => ?_
  cases declared with
  | none => exact h.bind (h.warn _) fun _ => h.pure false
  | some declared =>
    exact h.bind (h.takePacked declared _) fun packed => h.keepPacked hrow packed

end
end Stores

namespace Rows

variable (h : P.Rows)
include h

/-- A result that is there, or that fails for its depth. -/
theorem ofDecoded {α : Type} {r : Except Error α} {depth : Nat}
    (hr : ∀ e, r = .error e → e = .unsupportedBitDepth depth) : P _ (Job.ofExcept r) := by
  cases r with
  | ok a => exact h.pure a
  | error e =>
    obtain rfl := hr e rfl
    exact h.undecodable depth

theorem rawStrip (f : Format) (width : Nat) (bytes : List UInt8) :
    P _ (Job.ofExcept (f.rawStrip width bytes)) :=
  h.ofDecoded fun _ => Format.rawStrip_error

theorem packedStrips (f : Format) (width : Nat) (bytes : List UInt8) :
    P _ (Job.ofExcept (f.packedStrips width bytes)) :=
  h.ofDecoded fun _ => Format.packedStrips_error

theorem readRow (f : Format) (p : Picture) (row : Nat) : P _ (readRow f p row) := by
  unfold Raster.readRow
  split
  · exact h.readPackedRow (h.packedStrips f p.width) _ _ row
  · exact h.readRawRow (h.rawStrip f p.width) _ _ row

theorem readRows (f : Format) : P _ (readRows f) := by
  rw [readRows_eq]
  exact h.bind h.getPicture fun p => h.eachRow (h.readRow f p) p.declaredHeight 0

end Rows

/-! ## Other opcodes -/

namespace Takes

variable (h : P.Takes)
include h

theorem jpeg : P _ jpeg :=
  h.bind h.getCursor fun _ => h.bind (h.setJpeg _) fun _ => h.finish

/-- Opcodes that are not rasters. -/
theorem dispatch_of_ne (limits : Limits) {opcode : Opcode} (hne : ∀ op, opcode ≠ .raster op) :
    P _ (dispatch limits opcode) := by
  cases opcode with
  | raster op => exact absurd rfl (hne op)
  | clipRegion =>
    refine h.bind ?_ fun _ => h.pure true
    exact h.bind (h.read Reader.Advances.i16) fun _ => h.skipPayload _ _
  | longComment =>
    refine h.bind ?_ fun _ => h.pure true
    exact h.bind (h.skip 2) fun _ => h.bind (h.read Reader.Advances.i16) fun _ =>
      h.skipPayload _ _
  | shortSkip =>
    refine h.bind ?_ fun _ => h.pure true
    exact h.bind (h.read Reader.Advances.u8) fun _ => h.skipPayload _ _
  | jpeg => exact h.bind h.jpeg fun _ => h.pure true
  | terminator => exact h.pure false
  | unknown code => exact h.bind h.getCursor fun _ => h.bind (h.warn _) fun _ => h.pure true

end Takes

/-! ## The walk -/

namespace Walks

variable {limits : Limits} (h : P.Walks limits)
include h

theorem limitedRows (opened : Option Format) : P _ (limitedRows limits opened) := by
  cases opened with
  | none => exact h.pure ()
  | some f =>
    refine h.bind h.getPicture fun p => ?_
    exact h.bind (h.limitCanvas _ _) fun _ => h.bind (h.limitMemory _) fun _ => h.readRows f

theorem raster (op : RasterOp) : P _ (raster limits op) := by
  rw [raster_eq_limitedRows]
  exact h.bind (h.readOpening h.resize op) h.limitedRows

theorem dispatch (opcode : Opcode) : P _ (dispatch limits opcode) := by
  by_cases hraster : ∃ op, opcode = .raster op
  · obtain ⟨op, rfl⟩ := hraster
    exact h.bind (h.raster op) fun _ => h.pure true
  · exact h.dispatch_of_ne limits fun op hop => hraster ⟨op, hop⟩

theorem obey (opcode : Option Opcode) : P _ (obey limits opcode) := by
  cases opcode with
  | none => exact h.pure false
  | some opcode =>
    exact h.bind h.check fun _ => h.bind (h.dispatch opcode) fun _ =>
      h.bind h.getCursor fun _ => h.pure _

theorem turn : P _ (turn limits) := by
  rw [turn_eq_obey]
  exact h.bind h.getPicture fun p => h.bind (h.read (Opcode.advances_read p.version)) h.obey

theorem turns (n : Nat) : P _ (turns limits n) := by
  induction n with
  | zero => exact h.pure ()
  | succ n ih =>
    refine h.bind h.turn fun goesOn => ?_
    cases goesOn with
    | true => exact ih
    | false => exact h.pure ()

theorem opcodes (info : Info) : P _ (opcodes limits info) :=
  h.bind (h.limitCanvas _ _) fun _ => h.bind h.check fun _ =>
    h.bind h.getCursor fun c => h.turns c.source.size

end Walks
end JobProperty
end Pict
