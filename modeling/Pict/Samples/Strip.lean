/-!
# Strips

A strip is one decoded row, or one channel of a row where the channels of a
row follow each other.
-/
namespace Pict

/-- One decoded row, or one channel of it. Mirrors `Strip`, state 11-16. -/
inductive Strip where
  /-- One byte per pixel: a sample or a palette index. -/
  | bytes (samples : List UInt8)
  /-- One word per pixel: five bits each of red, green and blue. -/
  | words (samples : List UInt16)
  deriving DecidableEq, Repr

namespace Strip

def length : Strip → Nat
  | bytes samples => samples.length
  | words samples => samples.length

def isEmpty (s : Strip) : Bool := s.length = 0

/-- How many bytes the samples of a strip take. Mirrors `heap_bytes`, state 31-36. -/
def byteSize : Strip → Nat
  | bytes samples => samples.length
  | words samples => 2 * samples.length

def bytes? : Strip → Option (List UInt8)
  | bytes samples => some samples
  | words _ => none

def words? : Strip → Option (List UInt16)
  | words samples => some samples
  | bytes _ => none

def isWords : Strip → Bool
  | words _ => true
  | bytes _ => false

end Strip

/-- The top five of the fifteen colour bits of a word. Mirrors `assemble_packed555`, assemble 292.
-/
def red5 (w : UInt16) : UInt8 := ((w &&& 0x7C00) >>> 10).toUInt8

/-- The middle five of the fifteen colour bits of a word. Mirrors `assemble_packed555`, assemble
293. -/
def green5 (w : UInt16) : UInt8 := ((w &&& 0x03E0) >>> 5).toUInt8

/-- The low five of the fifteen colour bits of a word. Mirrors `assemble_packed555`, assemble 294.
-/
def blue5 (w : UInt16) : UInt8 := (w &&& 0x001F).toUInt8

end Pict
