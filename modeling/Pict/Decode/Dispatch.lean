import Pict.Decode.Spans
import Pict.Raster.Opening
import Pict.Raster.Rows

/-!
# Walking through the opcodes

Each turn of the walk reads one opcode, asks the stop, and does what the
opcode asks for. The walk ends at the terminator, at the end of the data, or
where no further opcode can be read. Every turn moves the cursor on, so that
there are no more turns than bytes.
-/
namespace Pict.Decode

/-- Decodes a raster. Its canvas and the memory its strips are expected to take are checked against
the limits before any row is read. Mirrors `decode_raster`, raster 32-66. -/
def raster (limits : Limits) (op : RasterOp) : Job Walk Unit := do
  match ← Raster.readOpening op with
  | none => pure ()
  | some f =>
    let p ← Walk.getPicture
    Job.enforce (limits.check p.width p.declaredHeight)
    Job.enforce (limits.checkMemory (p.stripBytes + f.expectedBytes p.width p.declaredHeight))
    Raster.readRows f

/-- Passes over content of a given length; a negative one counts as nothing. Mirrors
`skip_payload`, pict 105-117. -/
def skipPayload (payload : Payload) (length : Int) : Job Walk Unit := do
  let c ← Walk.getCursor
  if c.remaining < length then Job.warn (.payloadPastEnd payload length.toNat c.pos)
  Walk.move (·.skip length.toNat)

/-- Passes over a clip region, whose length counts its own two bytes. Mirrors `decode`, pict 69-73.
-/
def clipRegion : Job Walk Unit := do
  let length ← Walk.read Reader.i16
  skipPayload .clipRegion (length.elim 0 (· - 2))

/-- Passes over a comment with its kind and its length. Mirrors `decode`, pict 74-78. -/
def longComment : Job Walk Unit := do
  Walk.move (·.skip 2)
  let length ← Walk.read Reader.i16
  skipPayload .longComment (length.getD 0)

/-- Passes over content behind a byte count. Mirrors `decode`, pict 79-83. -/
def shortSkip : Job Walk Unit := do
  let length ← Walk.read Reader.u8
  skipPayload .shortSkip (length.elim 0 fun n => n.toNat)

/-- Takes the rest of the data as embedded JPEG. Mirrors `scan_jpeg`, pict 122-150. -/
def jpeg : Job Walk Unit := do
  let c ← Walk.getCursor
  Walk.modify fun p =>
    { p with
      jpegOffsets := p.jpegOffsets ++ Spans.offsets c.source c.pos
      channels := 3
      interleaved := true }
  Walk.move fun c => c.seek c.source.size

/-- Does what an opcode asks for. The answer tells whether the picture goes on. Mirrors `decode`,
pict 67-89. -/
def dispatch (limits : Limits) : Opcode → Job Walk Bool
  | .raster op => do
    raster limits op
    pure true
  | .clipRegion => do
    clipRegion
    pure true
  | .longComment => do
    longComment
    pure true
  | .shortSkip => do
    shortSkip
    pure true
  | .jpeg => do
    jpeg
    pure true
  | .terminator => pure false
  | .unknown code => do
    let c ← Walk.getCursor
    Job.warn (.unrecognizedOpcode code c.pos)
    pure true

/-- One turn of the walk. The answer tells whether another one follows. Mirrors `decode`, pict
63-94. -/
def turn (limits : Limits) : Job Walk Bool := do
  let p ← Walk.getPicture
  match ← Walk.read (Opcode.read p.version) with
  | none => pure false
  | some opcode =>
    Job.check
    let goesOn ← dispatch limits opcode
    let c ← Walk.getCursor
    pure (goesOn && !c.atEnd)

/-- At most `turns` turns. -/
def turns (limits : Limits) : (turns : Nat) → Job Walk Unit
  | 0 => pure ()
  | n + 1 => do
    if ← turn limits then turns limits n

/-- Walks through all opcodes behind the header of a picture. Mirrors `decode`, pict 56-102. -/
def opcodes (limits : Limits) (info : Info) : Job Walk Unit := do
  Job.enforce (limits.check info.width info.height)
  Job.check
  let c ← Walk.getCursor
  turns limits c.source.size

def start (info : Info) (cursor : Cursor) : Walk := ⟨cursor, Picture.start info, #[]⟩

end Pict.Decode
