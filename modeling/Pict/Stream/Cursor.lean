import Pict.Stream.Source

/-!
# A cursor over picture data

`Cursor` is a position in a `Source`. Moving it never passes the end
(`seek_pos_le`, `skip_pos_le`); a `Reader` reads fields one after the other
and fails when one is not there. The fields before the missing one stay
consumed, the missing one does not.
-/
namespace Pict

/-- A position in picture data. Mirrors `Cursor`, cursor 6-9. -/
structure Cursor where
  source : Source
  pos : Nat
  deriving DecidableEq, Repr

namespace Cursor

/-- How many bytes are unread. -/
def remaining (c : Cursor) : Nat := c.source.size - c.pos

def atEnd (c : Cursor) : Bool := c.source.size ≤ c.pos

/-- Moves to offset `p`, or to the end if that comes first. Mirrors `seek`, cursor 33-35. -/
def seek (c : Cursor) (p : Nat) : Cursor := { c with pos := min p c.source.size }

/-- Moves on by `n` bytes, or to the end if that comes first. Mirrors `skip`, cursor 38-40. -/
def skip (c : Cursor) (n : Nat) : Cursor := c.seek (c.pos + n)

/-- The next `n` bytes, or those that are left. Mirrors `read_into`, cursor 72-78. -/
def next (c : Cursor) (n : Nat) : List UInt8 := c.source.slice c.pos n

theorem seek_pos_le (c : Cursor) (p : Nat) : (c.seek p).pos ≤ c.source.size :=
  Nat.min_le_right _ _

theorem skip_pos_le (c : Cursor) (n : Nat) : (c.skip n).pos ≤ c.source.size :=
  c.seek_pos_le _

theorem length_next (c : Cursor) (n : Nat) : (c.next n).length = min n c.remaining :=
  Source.length_slice _ _ _

theorem atEnd_iff (c : Cursor) : c.atEnd = true ↔ c.remaining = 0 := by
  simp only [atEnd, remaining, decide_eq_true_eq]
  omega

end Cursor

/-- Reads from a cursor; `none` when a field is missing, with the cursor left
in front of that field. -/
abbrev Reader := OptionT (StateM Cursor)

namespace Reader

/-- The field of `n` bytes that `field?` finds at the cursor. -/
def field {α : Type} (n : Nat) (field? : Source → Nat → Option α) : Reader α := fun c =>
  match field? c.source c.pos with
  | some a => (some a, { c with pos := c.pos + n })
  | none => (none, c)

def u8 : Reader UInt8 := field 1 Source.u8?

def u16 : Reader UInt16 := field 2 Source.u16?

def i16 : Reader Int := field 2 Source.i16?

def u32 : Reader UInt32 := field 4 Source.u32?

def move (f : Cursor → Cursor) : Reader Unit := fun c => (some (), f c)

/-- Passes over `n` bytes. -/
def skip (n : Nat) : Reader Unit := move (·.skip n)

def seek (p : Nat) : Reader Unit := move (·.seek p)

/-- Passes over the pad byte in front of an even offset. -/
def align : Reader Unit := move fun c => if c.pos % 2 = 1 then c.skip 1 else c

/-- Fails unless more than `n` bytes are unread. -/
def moreThan (n : Nat) : Reader Unit := fun c =>
  (if c.pos + n < c.source.size then some () else none, c)

theorem field_none {α : Type} {n : Nat} {field? : Source → Nat → Option α} {c : Cursor}
    (h : field? c.source c.pos = none) : field n field? c = (none, c) := by
  simp [field, h]

theorem field_some {α : Type} {n : Nat} {field? : Source → Nat → Option α} {c : Cursor} {a : α}
    (h : field? c.source c.pos = some a) :
    field n field? c = (some a, { c with pos := c.pos + n }) := by
  simp [field, h]

end Reader
end Pict
