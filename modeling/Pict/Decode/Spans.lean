import Pict.Stream.Cursor

/-!
# Where embedded JPEG data starts

The first JPEG stands two bytes behind its opcode. Later ones are found by
their start markers, among the words behind the first end marker. Words are
taken at even distances from the opcode only.
-/
namespace Pict.Spans

def startMarker : UInt16 := 0xFFD8

def endMarker : UInt16 := 0xFFD9

/-- The offsets of the words from `p` to the end of the data. -/
def wordOffsets (source : Source) (p : Nat) : List Nat :=
  (List.range ((source.size - p) / 2)).map fun i => p + 2 * i

/-- The offsets of the words behind the first end marker. Mirrors `scan_jpeg`, pict 126-130. -/
def behindEnd (source : Source) (p : Nat) : List Nat :=
  ((wordOffsets source p).dropWhile fun q => source.u16? q != some endMarker).tail

/-- Whether a start marker with something behind it stands at `q`. Mirrors `scan_jpeg`, pict
134-145. -/
def isStart (source : Source) (q : Nat) : Bool :=
  source.u16? q = some startMarker && q + 2 < source.size

/-- Where the JPEGs of an opcode that ends at `p` start. Mirrors `scan_jpeg`, pict 123-146. -/
def offsets (source : Source) (p : Nat) : List Nat :=
  (p + 2) :: (behindEnd source p).filter (isStart source)

end Pict.Spans
