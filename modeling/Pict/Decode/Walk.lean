import Pict.Decode.Picture
import Pict.Run.Job

/-!
# The walk through a picture

The work of decoding: a cursor, the picture so far, and for every strip the
offset at which the cursor stood when it was stored.
-/
namespace Pict

/-- How far decoding has come. -/
structure Walk where
  cursor : Cursor
  picture : Picture
  /-- Where the cursor stood when each strip was stored. -/
  marks : Array Nat
  deriving DecidableEq, Repr

namespace Walk

def getPicture : Job Walk Picture := do
  let w ← Job.work
  pure w.picture

def getCursor : Job Walk Cursor := do
  let w ← Job.work
  pure w.cursor

def move (f : Cursor → Cursor) : Job Walk Unit :=
  Job.modifyWork fun w => { w with cursor := f w.cursor }

def modify (f : Picture → Picture) : Job Walk Unit :=
  Job.modifyWork fun w => { w with picture := f w.picture }

/-- Reads from the cursor; `none` when a field is missing. -/
def read {α : Type} (r : Reader α) : Job Walk (Option α) := do
  let c ← getCursor
  let (a, c) := r c
  move fun _ => c
  pure a

def next (n : Nat) : Job Walk (List UInt8) := do
  let c ← getCursor
  move (·.skip n)
  pure (c.next n)

def store (strip : Strip) : Job Walk Unit :=
  Job.modifyWork fun w =>
    { w with picture := w.picture.store strip, marks := w.marks.push w.cursor.pos }

def storeAll : List Strip → Job Walk Unit
  | [] => pure ()
  | strip :: rest => do
    store strip
    storeAll rest

end Walk
end Pict
