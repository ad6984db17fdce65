import Pict.Jpeg.Huffman
import Pict.Stream.Source

/-!
# Segments in front of a scan

A baseline JPEG is a start marker, segments that define tables and the frame,
and a scan. `Setup.parse` collects the segments up to the scan header and
answers with the entropy-coded data behind it, cut into intervals.
-/
namespace Pict.Jpeg

/-- One component of a frame. -/
structure Component where
  id : UInt8
  /-- The quantisation table it uses. -/
  quantisation : Nat
  deriving DecidableEq, Repr

/-- The size of an image and its components. -/
structure Frame where
  width : Nat
  height : Nat
  components : List Component
  deriving DecidableEq, Repr

/-- What the segments in front of a scan define, the latest table of each
number first. -/
structure Setup where
  /-- Table entries in zigzag order. -/
  quantisation : List (Nat × List Nat)
  dc : List (Nat × CodeTable)
  ac : List (Nat × CodeTable)
  frame : Option Frame
  /-- Units between restart markers; zero for none. -/
  restart : Nat
  deriving DecidableEq, Repr

/-- What decodes the blocks of one component. -/
structure Channel where
  /-- Table entries in zigzag order. -/
  quantisation : List Nat
  dc : CodeTable
  ac : CodeTable
  deriving DecidableEq, Repr

/-- A scan: the image's size, what decodes each component, how many units an
interval has (zero for no bound), and the data of the intervals. -/
structure Scan where
  width : Nat
  height : Nat
  channels : List Channel
  restart : Nat
  intervals : List (List UInt8)
  deriving DecidableEq, Repr

/-- Adds a byte in front of the first interval. -/
def consByte (b : UInt8) : List (List UInt8) → List (List UInt8)
  | [] => [[b]]
  | interval :: rest => (b :: interval) :: rest

/-- The intervals of entropy-coded data up to the first marker that ends it:
`FF 00` stands for the byte `FF`, restart markers stand between intervals. -/
def intervals : List UInt8 → List (List UInt8)
  | [] => [[]]
  | [b] => if b = 0xFF then [[]] else [[b]]
  | b :: c :: rest =>
    if b = 0xFF then
      if c = 0x00 then consByte 0xFF (intervals rest)
      else if 0xD0 ≤ c ∧ c ≤ 0xD7 then [] :: intervals rest
      else [[]]
    else consByte b (intervals (c :: rest))

namespace Setup

def empty : Setup := ⟨[], [], [], none, 0⟩

/-- Takes the quantisation tables of a segment over, with one byte per entry. -/
def addQuantisation (s : Setup) (payload : List UInt8) : Option Setup :=
  match payload with
  | [] => some s
  | selector :: rest =>
    if selector.toNat < 4 ∧ 64 ≤ rest.length then
      addQuantisation
        { s with
          quantisation := (selector.toNat, (rest.take 64).map UInt8.toNat) :: s.quantisation }
        (rest.drop 64)
    else none
termination_by payload.length
decreasing_by
  simp only [List.length_drop, List.length_cons]
  omega

/-- Takes the code tables of a segment over. -/
def addCodes (s : Setup) (payload : List UInt8) : Option Setup :=
  match payload with
  | [] => some s
  | selector :: rest =>
    let counts := rest.take 16
    let symbols := rest.drop 16
    let size := counts.foldl (fun n c => n + c.toNat) 0
    if counts.length = 16 ∧ size ≤ symbols.length then
      let table : CodeTable := ⟨CodeTable.splitLevels counts (symbols.take size)⟩
      if selector.toNat < 4 then
        addCodes { s with dc := (selector.toNat, table) :: s.dc } (symbols.drop size)
      else if 16 ≤ selector.toNat ∧ selector.toNat < 20 then
        addCodes { s with ac := (selector.toNat - 16, table) :: s.ac } (symbols.drop size)
      else none
    else none
termination_by payload.length
decreasing_by
  all_goals
    simp only [List.length_drop, List.length_cons]
    omega

/-- The components of a frame header; all must be sampled alike. -/
def parseComponents : List UInt8 → Option (List Component)
  | [] => some []
  | id :: sampling :: table :: rest =>
    if sampling = 0x11 then (⟨id, table.toNat⟩ :: ·) <$> parseComponents rest else none
  | _ => none

/-- The frame of a baseline frame header. -/
def parseFrame (payload : List UInt8) : Option Frame :=
  match payload with
  | precision :: h1 :: h0 :: w1 :: w0 :: count :: rest => do
    let components ← parseComponents rest
    let frame : Frame := ⟨(word w1 w0).toNat, (word h1 h0).toNat, components⟩
    if precision = 8 ∧ components.length = count.toNat ∧ (count = 1 ∨ count = 3) ∧
        0 < frame.width ∧ 0 < frame.height then
      some frame
    else none
  | _ => none

/-- What the segment of a marker adds; application data and comments add
nothing, all else has no place in a baseline JPEG. -/
def addSegment (s : Setup) (marker : UInt8) (payload : List UInt8) : Option Setup :=
  if marker = 0xDB then s.addQuantisation payload
  else if marker = 0xC4 then s.addCodes payload
  else if marker = 0xC0 then
    (fun frame => { s with frame := some frame }) <$> parseFrame payload
  else if marker = 0xDD then
    match payload with
    | [hi, lo] => some { s with restart := (word hi lo).toNat }
    | _ => none
  else if marker = 0xFE ∨ (0xE0 ≤ marker ∧ marker ≤ 0xEF) then some s
  else none

/-- What decodes a component whose code tables are chosen by `tables`. -/
def channel (s : Setup) (c : Component) (tables : UInt8) : Option Channel := do
  let quantisation ← s.quantisation.lookup c.quantisation
  let dc ← s.dc.lookup (tables.toNat / 16)
  let ac ← s.ac.lookup (tables.toNat % 16)
  pure ⟨quantisation, dc, ac⟩

/-- What decodes each component of a scan header's list. -/
def channels (s : Setup) : List Component → List UInt8 → Option (List Channel)
  | [], [_, _, _] => some []
  | c :: rest, id :: tables :: payload => do
    let channel ← s.channel c tables
    let others ← s.channels rest payload
    if id = c.id then some (channel :: others) else none
  | _, _ => none

/-- The scan whose header is given, with the data behind it. -/
def scan (s : Setup) (payload data : List UInt8) : Option Scan := do
  let frame ← s.frame
  match payload with
  | [] => none
  | count :: payload =>
    let channels ← s.channels frame.components payload
    if count.toNat = channels.length then
      some ⟨frame.width, frame.height, channels, s.restart, intervals data⟩
    else none

/-- Collects segments up to the scan. -/
def parseSegments (s : Setup) (data : List UInt8) : Option Scan :=
  match data with
  | lead :: marker :: hi :: lo :: rest =>
    let size := (word hi lo).toNat - 2
    if lead = 0xFF ∧ size ≤ rest.length then
      if marker = 0xDA then s.scan (rest.take size) (rest.drop size)
      else
        match s.addSegment marker (rest.take size) with
        | some s => s.parseSegments (rest.drop size)
        | none => none
    else none
  | _ => none
termination_by data.length
decreasing_by
  simp only [List.length_drop, List.length_cons]
  omega

/-- The scan of a JPEG. -/
def parse : List UInt8 → Option Scan
  | 0xFF :: 0xD8 :: rest => empty.parseSegments rest
  | _ => none

end Setup
end Pict.Jpeg
