import Pict.Stream.Cursor

/-!
# Palettes

The color table of an indexed pixmap. In a picture it is a seed, flags, the
number of the last entry, and eight bytes per entry: a value, then three
16-bit components of which the high byte counts.
-/
namespace Pict

structure Rgb where
  red : UInt8
  green : UInt8
  blue : UInt8
  deriving DecidableEq, Repr

/-- The color table of an indexed pixmap. Mirrors `ColorTable`, state 42-45. -/
structure Palette where
  flags : UInt16
  entries : List Rgb
  deriving DecidableEq, Repr

namespace Palette

def length (p : Palette) : Nat := p.entries.length

def isEmpty (p : Palette) : Bool := p.length = 0

def color? (p : Palette) (index : UInt8) : Option Rgb := p.entries[index.toNat]?

def bytes (p : Palette) : List UInt8 := p.entries.flatMap fun e => [e.red, e.green, e.blue]

/-- Bytes of one entry in a picture. -/
def entrySize : Nat := 8

/-- Reads the flags and how many entries are declared: one more than the number of the last, none
if that is negative. Mirrors `read_color_table`, raster 145-148. -/
def readDeclared : Reader (UInt16 × Nat) := do
  Reader.skip 4
  let flags ← Reader.u16
  let last ← Reader.i16
  pure (flags, (last + 1).toNat)

/-- Reads one entry. Mirrors `read_color_table`, raster 158-166. -/
def readEntry : Reader Rgb := do
  Reader.skip 2
  let red ← Reader.u8
  Reader.skip 1
  let green ← Reader.u8
  Reader.skip 1
  let blue ← Reader.u8
  Reader.skip 1
  pure ⟨red, green, blue⟩

def readEntries : (n : Nat) → Reader (List Rgb)
  | 0 => pure []
  | n + 1 => do
    let entry ← readEntry
    let rest ← readEntries n
    pure (entry :: rest)

end Palette
end Pict
