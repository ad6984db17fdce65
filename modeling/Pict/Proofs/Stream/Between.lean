import Pict.PackBits.Words
import Pict.Stream.Cursor

/-!
# Reading the bytes behind a cursor

`Cursor.between front rest` stands behind the bytes `front`, with the bytes
`rest` unread. A reader takes some bytes (`Reader.Takes`) when it answers from
exactly these, whatever stands in front of them and whatever follows.

Results:
* `Takes.bind`: what one reader takes and what the next one takes stand one
  behind the other.
* `Takes.u8`, `Takes.u16`, `Takes.i16`, `Takes.u32`, `Takes.skip`: the fields of
  a picture are read back as they are written.
-/
namespace Pict

open PackBits (writeWord)

/-! ## Words and longs as bytes -/

theorem toNat_word (hi lo : UInt8) : (word hi lo).toNat = hi.toNat * 256 + lo.toNat := by
  have h1 := hi.toNat_lt
  have h2 := lo.toNat_lt
  rw [word, UInt16.toNat_ofNat']
  omega

theorem word_bytes (w : UInt16) :
    word (UInt8.ofNat (w.toNat / 256)) (UInt8.ofNat (w.toNat % 256)) = w := by
  have h := w.toNat_lt
  apply UInt16.toNat_inj.mp
  rw [toNat_word, UInt8.toNat_ofNat', UInt8.toNat_ofNat']
  omega

theorem writeWord_word (hi lo : UInt8) : writeWord (word hi lo) = [hi, lo] := by
  have hbound := lo.toNat_lt
  have hhi : (hi.toNat * 256 + lo.toNat) / 256 = hi.toNat := by omega
  have hlo : (hi.toNat * 256 + lo.toNat) % 256 = lo.toNat := by omega
  rw [writeWord, toNat_word, hhi, hlo, UInt8.ofNat_toNat, UInt8.ofNat_toNat]

@[simp] theorem length_writeWord (w : UInt16) : (writeWord w).length = 2 := rfl

def writeLong (x : UInt32) : List UInt8 :=
  writeWord (UInt16.ofNat (x.toNat / 0x10000)) ++ writeWord (UInt16.ofNat (x.toNat % 0x10000))

@[simp] theorem length_writeLong (x : UInt32) : (writeLong x).length = 4 := rfl

/-! ## Fields at an offset -/

namespace Source

theorem u8?_append (front rest : List UInt8) (b : UInt8) :
    u8? (front ++ b :: rest).toArray front.length = some b := by
  simp [u8?]

theorem u16?_append (front rest : List UInt8) (w : UInt16) :
    u16? (front ++ (writeWord w ++ rest)).toArray front.length = some w := by
  have h0 : (front ++ (writeWord w ++ rest)).toArray[front.length]? =
      some (UInt8.ofNat (w.toNat / 256)) := by simp [writeWord]
  have h1 : (front ++ (writeWord w ++ rest)).toArray[front.length + 1]? =
      some (UInt8.ofNat (w.toNat % 256)) := by simp [writeWord]
  rw [u16?, h0, h1]
  simp only [word_bytes]

theorem i16?_append (front rest : List UInt8) (w : UInt16) :
    i16? (front ++ (writeWord w ++ rest)).toArray front.length = some (signed w) := by
  rw [i16?, u16?_append, Option.map_some]

theorem u32?_append (front rest : List UInt8) (x : UInt32) :
    u32? (front ++ (writeLong x ++ rest)).toArray front.length = some x := by
  generalize hh : UInt16.ofNat (x.toNat / 0x10000) = hi
  generalize hl : UInt16.ofNat (x.toNat % 0x10000) = lo
  have hbytes : writeLong x = writeWord hi ++ writeWord lo := by rw [writeLong, hh, hl]
  have h0 : u16? (front ++ (writeLong x ++ rest)).toArray front.length = some hi := by
    rw [hbytes, List.append_assoc]
    exact u16?_append _ _ _
  have h1 : u16? (front ++ (writeLong x ++ rest)).toArray (front.length + 2) = some lo := by
    have := u16?_append (front ++ writeWord hi) rest lo
    rw [List.length_append, length_writeWord] at this
    rw [hbytes, ← this]
    simp only [List.append_assoc]
  have hx := x.toNat_lt
  rw [u32?, h0, h1]
  simp only [Option.some.injEq]
  apply UInt32.toNat_inj.mp
  rw [UInt32.toNat_ofNat', ← hh, ← hl, UInt16.toNat_ofNat', UInt16.toNat_ofNat']
  omega

theorem slice_append (front xs rest : List UInt8) :
    slice (front ++ (xs ++ rest)).toArray front.length xs.length = xs := by
  simp [slice, List.extract_eq_take_drop]

end Source

/-! ## Cursors between bytes -/

namespace Cursor

/-- The cursor behind the bytes `front`, with the bytes `rest` unread. -/
def between (front rest : List UInt8) : Cursor := ⟨(front ++ rest).toArray, front.length⟩

variable (front xs rest : List UInt8)

@[simp] theorem between_pos : (between front rest).pos = front.length := rfl

@[simp] theorem between_source : (between front rest).source = (front ++ rest).toArray := rfl

@[simp] theorem remaining_between : (between front rest).remaining = rest.length := by
  simp [remaining]

theorem atEnd_between : (between front rest).atEnd = true ↔ rest = [] := by
  rw [atEnd_iff, remaining_between, List.length_eq_zero_iff]

theorem between_moved :
    { between front (xs ++ rest) with pos := front.length + xs.length } =
      between (front ++ xs) rest := by
  simp [between]

theorem skip_between {n : Nat} (h : xs.length = n) :
    (between front (xs ++ rest)).skip n = between (front ++ xs) rest := by
  subst h
  rw [← between_moved, skip, seek]
  simp

theorem next_between {n : Nat} (h : xs.length = n) :
    (between front (xs ++ rest)).next n = xs := by
  subst h
  exact Source.slice_append front xs rest

end Cursor

/-! ## Readers -/

namespace Reader

variable {α β : Type}

theorem bind_apply (r : Reader α) (f : α → Reader β) (c : Cursor) :
    (r >>= f) c =
      match r c with
      | (some a, d) => f a d
      | (none, d) => (none, d) := by
  show OptionT.bind r f c = _
  unfold OptionT.bind OptionT.mk
  show (StateT.bind r _ c : Id _) = _
  unfold StateT.bind
  rcases h : r c with ⟨a, d⟩
  cases a <;> rfl

/-- The reader answers `a` from exactly these bytes, wherever they stand and
whatever follows them. -/
def Takes (r : Reader α) (bytes : List UInt8) (a : α) : Prop :=
  ∀ front rest, r (.between front (bytes ++ rest)) = (some a, .between (front ++ bytes) rest)

namespace Takes

theorem pure (a : α) : Takes (Pure.pure a : Reader α) [] a := by
  intro front rest
  rw [List.append_nil]
  rfl

theorem bind {r : Reader α} {f : α → Reader β} {xs ys : List UInt8} {a : α} {b : β}
    (h : Takes r xs a) (h' : Takes (f a) ys b) : Takes (r >>= f) (xs ++ ys) b := by
  intro front rest
  rw [bind_apply, List.append_assoc, h, ← List.append_assoc]
  exact h' (front ++ xs) rest

theorem byte {f : UInt8 → Reader β} {bytes : List UInt8} {c : UInt8} {b : β}
    (h : Takes (f c) bytes b) : Takes (Reader.u8 >>= f) (c :: bytes) b := by
  intro front rest
  have hread : Reader.u8 (.between front (c :: (bytes ++ rest))) =
      (some c, .between (front ++ [c]) (bytes ++ rest)) := by
    rw [Reader.u8, field_some (Source.u8?_append front _ c)]
    exact congrArg _ (Cursor.between_moved front [c] _)
  rw [bind_apply, List.cons_append, hread]
  simpa only [List.append_assoc, List.singleton_append] using h (front ++ [c]) rest

theorem map {r : Reader α} {f : α → β} {xs : List UInt8} {a : α} (h : Takes r xs a) :
    Takes (r >>= fun x => Pure.pure (f x)) xs (f a) := by
  have := Takes.bind (f := fun x => Pure.pure (f x)) h (Takes.pure (f a))
  rwa [List.append_nil] at this

theorem field {n : Nat} {field? : Source → Nat → Option α} {bytes : List UInt8} {a : α}
    (hn : bytes.length = n)
    (h : ∀ front rest, field? (front ++ (bytes ++ rest)).toArray front.length = some a) :
    Takes (Reader.field n field?) bytes a := by
  intro front rest
  rw [field_some (h front rest), ← hn]
  exact congrArg _ (Cursor.between_moved front bytes rest)

theorem u8 (b : UInt8) : Takes Reader.u8 [b] b :=
  field rfl fun front rest => Source.u8?_append front rest b

theorem u16 (w : UInt16) : Takes Reader.u16 (writeWord w) w :=
  field rfl fun front rest => Source.u16?_append front rest w

theorem i16 (w : UInt16) : Takes Reader.i16 (writeWord w) (signed w) :=
  field rfl fun front rest => Source.i16?_append front rest w

theorem u32 (x : UInt32) : Takes Reader.u32 (writeLong x) x :=
  field rfl fun front rest => Source.u32?_append front rest x

theorem skip {n : Nat} {bytes : List UInt8} (h : bytes.length = n) :
    Takes (Reader.skip n) bytes () := by
  intro front rest
  exact congrArg _ (Cursor.skip_between front bytes rest h)

end Takes
end Reader
end Pict
