import Pict.Decode.Document
import Pict.Jpeg.Baseline
import Pict.Plane.Fallback
import Pict.Plane.Mosaic

/-!
# Reading planes

A window onto a decoded picture is read as a new plane (`Document.read`) or
into the front of a buffer of the caller's (`Document.readInto`). A request is
refused before anything is written when the window is not on the canvas, when
the plane exceeds the memory limit, or when the buffer is too small. What was
painted before a stop or a failure stays in the buffer, the rest of the
plane's part being black. `readWith` and `readIntoWith` take the JPEG codec as
an argument, so that what is said of them holds for every codec.
-/
namespace Pict

/-- A window to read, and how. Mirrors `PlaneRequest`, assemble 26-33. -/
structure Request where
  window : Window
  /-- Whether to pass over the strips and ask the caller's decoder. -/
  legacy : Bool
  fallback : Option FallbackDecoder

/-- The request for a window with no further wishes. -/
def Request.ofWindow (win : Window) : Request :=
  { window := win, legacy := false, fallback := none }

/-- An assembled plane. Mirrors `DecodeOutput`, decode 49-57. -/
structure Plane where
  pixels : List UInt8
  width : Nat
  height : Nat
  layout : Layout
  /-- Whether the pixels are from the caller's decoder. -/
  bestEffort : Bool
  deriving DecidableEq, Repr

/-- How a request is met, and how many bytes that takes. -/
structure Plan where
  assembly : Assembly
  layout : Layout
  size : Nat
  deriving DecidableEq, Repr

/-- The outcome of reading a plane. -/
structure Reading where
  report : Report Plane
  /-- The bytes that the caller's decoder was handed, if it was called. -/
  handed : Option (List UInt8)

/-- The outcome of reading into a buffer. -/
structure Writing where
  report : Report Layout
  /-- The whole buffer afterwards. -/
  buffer : List UInt8
  /-- The bytes that the caller's decoder was handed, if it was called. -/
  handed : Option (List UInt8)

namespace Document

def fullWindow (doc : Document) : Window := ⟨0, 0, doc.picture.width, doc.picture.height⟩

/-- Checks a request against the canvas and the memory limit. Mirrors `plan`, assemble 173-204. -/
def plan (doc : Document) (request : Request) : Except Error Plan :=
  let p := doc.picture
  let win := request.window
  let assembly := p.assembly request.legacy
  let layout := p.layoutOf assembly
  let size := win.pixels * layout.bytesPerPixel
  if win.fits p.width p.height then
    match doc.limits.checkMemory size with
    | .ok () => .ok ⟨assembly, layout, size⟩
    | .error breach => .error (.limitExceeded breach)
  else .error (.outsideCanvas win p.width p.height)

/-- Paints what a plan asks for. Mirrors `fill`, assemble 206-229. -/
def paint (codec : Codec) (doc : Document) (request : Request) (plan : Plan) :
    Job Canvas (List UInt8) := do
  match plan.assembly with
  | .jpeg =>
    Job.ofExcept (Mosaic.paint codec doc.source doc.picture.jpegOffsets.toList request.window)
  | .fallback => Fallback.paint doc.source request.fallback plan.size
  | .indexed | .gray | .planar _ | .packed555 =>
    doc.picture.paintStrips plan.assembly request.window
    let canvas ← Job.work
    pure (canvas.samples plan.layout request.window.pixels)

/-- Reads a window with a given JPEG codec. Mirrors `read`, assemble 138-149. -/
def readWith (codec : Codec) (doc : Document) (request : Request) (stop : Stop) : Reading :=
  match doc.plan request with
  | .error e => { report := Report.refused e, handed := none }
  | .ok plan =>
    let r := (doc.paint codec request plan).run stop Canvas.empty
    let plane (pixels : List UInt8) : Plane :=
      { pixels
        width := request.window.width
        height := request.window.height
        layout := plan.layout
        bestEffort := plan.assembly = .fallback }
    { report := (reportOf r).map plane, handed := (sessionOf r).work.handed }

/-- The part of the buffer that a run has written. -/
def written (plan : Plan) (win : Window) :
    EStateM.Result Error (Session Canvas) (List UInt8) → List UInt8
  | .ok pixels _ => pixels
  | .error _ session => session.work.samples plan.layout win.pixels

/-- Reads a window into the front of a buffer with a given JPEG codec. Mirrors `read_into`,
assemble 155-170. -/
def readIntoWith (codec : Codec) (doc : Document) (request : Request) (buffer : List UInt8)
    (stop : Stop) : Writing :=
  match doc.plan request with
  | .error e => { report := Report.refused e, buffer, handed := none }
  | .ok plan =>
    if buffer.length < plan.size then
      { report := Report.refused (.bufferTooSmall plan.size buffer.length), buffer, handed := none }
    else
      let r := (doc.paint codec request plan).run stop Canvas.empty
      { report := (reportOf r).map fun _ => plan.layout
        buffer := written plan request.window r ++ buffer.drop plan.size
        handed := (sessionOf r).work.handed }

/-- Reads a window as a new plane. -/
def read (doc : Document) (request : Request) (stop : Stop) : Reading :=
  doc.readWith Jpeg.baseline request stop

/-- Reads a window into the front of a buffer. -/
def readInto (doc : Document) (request : Request) (buffer : List UInt8) (stop : Stop) : Writing :=
  doc.readIntoWith Jpeg.baseline request buffer stop

def readPlane (doc : Document) (win : Window) (stop : Stop) : Reading :=
  doc.read (Request.ofWindow win) stop

end Document
end Pict
