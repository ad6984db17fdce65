import Pict.Stream.Cursor

/-!
# Opcodes

A picture is a sequence of opcodes, one byte each in version 1 and one word
at an even offset each in version 2. Raster opcodes are read together with
their row bytes, whose top bit tells a pixmap from a bitmap in version 2.
-/
namespace Pict

/-- The version of a picture, fixed by its header. -/
inductive Version where
  | one
  | two
  deriving DecidableEq, Repr

def Version.label : Version → String
  | one => "V1"
  | two => "V2"

/-- The opcodes that carry rows. Mirrors `RasterKind`, opcode 21-28. -/
inductive RasterKind where
  | bitsRect
  | bitsRegion
  | packBitsRect
  | packBitsRegion
  /-- A direct-color pixmap, without row bytes and without a palette. -/
  | directBits
  deriving DecidableEq, Repr

namespace RasterKind

def label : RasterKind → String
  | bitsRect => "BitsRect"
  | bitsRegion => "BitsRegion"
  | packBitsRect => "PackBitsRect"
  | packBitsRegion => "PackBitsRegion"
  | directBits => "DirectBits"

/-- Whether a mask region follows the destination rectangle. -/
def hasRegion : RasterKind → Bool
  | bitsRegion | packBitsRegion => true
  | bitsRect | packBitsRect | directBits => false

end RasterKind

/-- A raster opcode with the fields that select how it is read. Mirrors `RasterOp`, opcode 38-46.
-/
structure RasterOp where
  kind : RasterKind
  /-- The declared row bytes without their two flag bits; `none` for direct bits. -/
  rowBytes : Option Nat
  /-- Whether it has a pixel size and a component count, not just one bit per pixel. -/
  pixmap : Bool
  deriving DecidableEq, Repr

/-- What a code in the stream stands for. Mirrors `Opcode`, opcode 49-58. -/
inductive Opcode where
  | clipRegion
  | raster (op : RasterOp)
  | longComment
  /-- A byte count and that many bytes. -/
  | shortSkip
  /-- Embedded JPEG data up to the end of the picture. -/
  | jpeg
  /-- The end of the picture. -/
  | terminator
  | unknown (code : UInt16)
  deriving DecidableEq, Repr

namespace Opcode

/-- The next code. Version 2 has one only if more than a word is left behind the pad byte. Mirrors
`read`, opcode 63-75. -/
def readCode : Version → Reader UInt16
  | .one => do
    let code ← Reader.u8
    pure code.toUInt16
  | .two => do
    Reader.align
    Reader.moreThan 2
    Reader.u16

/-- A raster opcode with its row bytes. Version 1 has no pixmaps. Mirrors `raster`, opcode 98-106.
-/
def readRaster (kind : RasterKind) (version : Version) : Reader Opcode := do
  let field ← Reader.u16
  pure <| .raster
    { kind
      rowBytes := some (field.toNat % 0x4000)
      pixmap := version = .two && 0x8000 ≤ field.toNat }

/-- What a code stands for. Mirrors `read`, opcode 77-93. -/
def ofCode (version : Version) (code : UInt16) : Reader Opcode :=
  match code with
  | 0x0001 => pure .clipRegion
  | 0x0018 => pure .jpeg
  | 0x0090 => readRaster .bitsRect version
  | 0x0091 => readRaster .bitsRegion version
  | 0x0098 => readRaster .packBitsRect version
  | 0x0099 => readRaster .packBitsRegion version
  | 0x009A => pure (.raster { kind := .directBits, rowBytes := none, pixmap := true })
  | 0x00A1 => pure .longComment
  | 0x00FF => pure .terminator
  | 0x0A9F => pure .shortSkip
  | 0x9190 => pure .shortSkip
  | _ => pure (.unknown code)

/-- The next opcode; fails when the stream is exhausted. Mirrors `read`, opcode 62-94. -/
def read (version : Version) : Reader Opcode := do
  let code ← readCode version
  ofCode version code

end Opcode
end Pict
