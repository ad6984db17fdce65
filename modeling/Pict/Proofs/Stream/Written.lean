import Pict.Proofs.Stream.Between
import Pict.Stream.Header

/-!
# Headers and opcodes as they are written

`HeaderBlock` is a complete header of either version, together with the bytes
in it that no one looks at. An opcode is written as its pad byte where the
version wants one (`Opcode.pad`) and its code (`Opcode.codeBytes`).

Results:
* `parse_header`: a written header is read back, whatever follows it.
* `read_opcode`: so is an opcode, at any offset, when something follows it.
-/
namespace Pict

open PackBits (writeWord)

/-! ## Headers -/

/-- A complete header. -/
inductive HeaderBlock where
  | one (preamble : Vector UInt8 518) (height width : UInt16)
  /-- The marker of version 2 is followed by the resolution and a frame. -/
  | two (preamble : Vector UInt8 518) (height width : UInt16) (kind : Vector UInt8 6)
      (horizontal vertical : UInt32) (origin : Vector UInt8 4) (bottom right : UInt16)
      (reserved : Vector UInt8 4)

namespace HeaderBlock

def fields : HeaderBlock → List UInt8
  | one _ height width => writeWord height ++ (writeWord width ++ [0x11, 0x01])
  | two _ height width kind horizontal vertical origin bottom right reserved =>
    writeWord height ++ (writeWord width ++ (0x00 :: 0x11 :: (writeWord Header.versionTwoMarker ++
      (kind.toList ++ (writeLong horizontal ++ (writeLong vertical ++ (origin.toList ++
        (writeWord bottom ++ (writeWord right ++ reserved.toList)))))))))

def preamble : HeaderBlock → Vector UInt8 518
  | one preamble _ _ | two preamble _ _ _ _ _ _ _ _ _ => preamble

def bytes (h : HeaderBlock) : List UInt8 := h.preamble.toList ++ h.fields

def info : HeaderBlock → Info
  | one _ height width =>
    { width := (signed width).toNat
      height := (signed height).toNat
      version := .one
      resolution := none }
  | two _ height width _ horizontal vertical _ bottom right _ =>
    { width := Header.override (signed width).toNat (signed right)
      height := Header.override (signed height).toNat (signed bottom)
      version := .two
      resolution := some ⟨Binary32.ofFixed horizontal, Binary32.ofFixed vertical⟩ }

def version (h : HeaderBlock) : Version := h.info.version

/-- A header of version 1 has 524 bytes, one of version 2 has 552. -/
theorem length_bytes (h : HeaderBlock) :
    h.bytes.length = match h.version with | .one => 524 | .two => 552 := by
  cases h <;> simp [bytes, preamble, fields, version, info]

end HeaderBlock

namespace Header

open Reader

theorem takes_readExtended (width height : Nat) (kind : Vector UInt8 6) (hor ver : UInt32)
    (origin : Vector UInt8 4) (bottom right : UInt16) (reserved : Vector UInt8 4) :
    Takes (readExtended width height)
      (kind.toList ++ (writeLong hor ++ (writeLong ver ++ (origin.toList ++
        (writeWord bottom ++ (writeWord right ++ reserved.toList))))))
      { width := override width (signed right)
        height := override height (signed bottom)
        version := .two
        resolution := some ⟨Binary32.ofFixed hor, Binary32.ofFixed ver⟩ } :=
  (Takes.skip Vector.length_toList).bind <| (Takes.u32 hor).bind <| (Takes.u32 ver).bind <|
    (Takes.skip Vector.length_toList).bind <| (Takes.i16 bottom).bind <|
      (Takes.i16 right).bind (Takes.skip Vector.length_toList).map

theorem seek_frame (preamble : Vector UInt8 518) (rest : List UInt8) :
    Reader.seek frameOffset ⟨(preamble.toList ++ rest).toArray, 0⟩ =
      (some (), .between preamble.toList rest) := by
  simp [Reader.seek, Reader.move, Cursor.seek, Cursor.between, frameOffset]

theorem read_header (h : HeaderBlock) (rest : List UInt8) :
    read ⟨(h.bytes ++ rest).toArray, 0⟩ = (some (.ok h.info), .between h.bytes rest) := by
  rw [HeaderBlock.bytes, List.append_assoc, read, bind_apply, seek_frame]
  cases h with
  | one preamble height width =>
    refine Takes.bind (Takes.i16 height) (Takes.bind (Takes.i16 width) ?_) preamble.toList rest
    exact Takes.byte (Takes.byte (Takes.pure _))
  | two preamble height width kind hor ver origin bottom right reserved =>
    refine Takes.bind (Takes.i16 height) (Takes.bind (Takes.i16 width) ?_) preamble.toList rest
    refine Takes.byte (Takes.byte (Takes.bind (Takes.u16 versionTwoMarker) ?_))
    exact (takes_readExtended _ _ kind hor ver origin bottom right reserved).map

/-- A header is read back, and the cursor stands right behind it. -/
theorem parse_header (h : HeaderBlock) (rest : List UInt8) :
    parse (h.bytes ++ rest).toArray = .ok (h.info, .between h.bytes rest) := by
  rw [parse, read_header]

end Header

/-! ## Opcodes -/

namespace Opcode

open Reader

/-- The byte in front of an opcode: version 2 puts opcodes at even offsets. -/
def pad (version : Version) (offset : Nat) (b : UInt8) : List UInt8 :=
  if version = .two ∧ offset % 2 = 1 then [b] else []

/-- The bytes of a code. -/
def codeBytes (version : Version) (code : UInt16) : List UInt8 :=
  match version with
  | .one => [UInt8.ofNat code.toNat]
  | .two => writeWord code

def InVersion (version : Version) (code : UInt16) : Prop := version = .one → code.toNat < 256

instance (version : Version) (code : UInt16) : Decidable (InVersion version code) :=
  inferInstanceAs (Decidable (_ → _))

theorem codeBytes_ne_nil (version : Version) (code : UInt16) : codeBytes version code ≠ [] := by
  cases version <;> simp [codeBytes, writeWord]

theorem align_between (front rest : List UInt8) (b : UInt8) :
    Reader.align (.between front (pad .two front.length b ++ rest)) =
      (some (), .between (front ++ pad .two front.length b) rest) := by
  simp only [Reader.align, Reader.move, Cursor.between_pos, pad]
  by_cases h : front.length % 2 = 1
  · simp only [h, and_self, if_true]
    exact congrArg _ (Cursor.skip_between front [b] rest rfl)
  · simp [h]

theorem moreThan_between {front rest : List UInt8} {n : Nat} (h : n < rest.length) :
    Reader.moreThan n (.between front rest) = (some (), .between front rest) := by
  simp [Reader.moreThan, Cursor.between, h]

/-- A code is read back. Version 2 wants something behind it. -/
theorem readCode_between {version : Version} {code : UInt16} (hc : InVersion version code)
    (front : List UInt8) (b : UInt8) {rest : List UInt8} (hrest : version = .two → rest ≠ []) :
    readCode version
        (.between front (pad version front.length b ++ (codeBytes version code ++ rest))) =
      (some code, .between (front ++ (pad version front.length b ++ codeBytes version code)) rest)
    := by
  cases version with
  | one =>
    have hcode : (UInt8.ofNat code.toNat).toUInt16 = code := by
      apply UInt16.toNat_inj.mp
      have := hc rfl
      rw [UInt8.toNat_toUInt16, UInt8.toNat_ofNat']
      omega
    have h := (Takes.u8 (UInt8.ofNat code.toNat)).map (f := UInt8.toUInt16) front rest
    rw [hcode] at h
    simp only [pad, codeBytes, reduceCtorEq, false_and, if_false, List.nil_append]
    exact h
  | two =>
    have hlen : 2 < (writeWord code ++ rest).length := by
      have := List.length_pos_iff.mpr (hrest rfl)
      rw [List.length_append, length_writeWord]
      omega
    rw [readCode, bind_apply, align_between]
    simp only [bind_apply, codeBytes, moreThan_between hlen]
    rw [← List.append_assoc front]
    exact Takes.u16 code _ rest

/-- An opcode is read back together with the fields that belong to it. -/
theorem read_opcode {version : Version} {code : UInt16} (hc : InVersion version code)
    (front : List UInt8) (b : UInt8) {fields rest : List UInt8} {op : Opcode}
    (hop : Takes (ofCode version code) fields op) (hrest : version = .two → fields ++ rest ≠ []) :
    read version (.between front
        (pad version front.length b ++ (codeBytes version code ++ fields) ++ rest)) =
      (some op, .between
        (front ++ (pad version front.length b ++ (codeBytes version code ++ fields))) rest) := by
  have h := readCode_between hc front b hrest
  simp only [List.append_assoc] at h ⊢
  rw [read, bind_apply, h]
  simpa only [List.append_assoc] using
    hop (front ++ (pad version front.length b ++ codeBytes version code)) rest

/-- In version 2 nothing is read of a code that ends the data. -/
theorem read_last (front : List UInt8) (b : UInt8) (code : UInt16) :
    read .two (.between front (pad .two front.length b ++ codeBytes .two code)) =
      (none, .between (front ++ pad .two front.length b) (codeBytes .two code)) := by
  have hlast : Reader.moreThan 2 (.between (front ++ pad .two front.length b) (writeWord code)) =
      (none, .between (front ++ pad .two front.length b) (writeWord code)) := by
    simp [Reader.moreThan, Cursor.between, Nat.add_assoc]
  rw [read, bind_apply, readCode, bind_apply, align_between]
  simp only [bind_apply, codeBytes, hlast]

end Opcode
end Pict
