import Mathlib.Algebra.Ring.Nat
import Pict.Proofs.Machine.Checked
import Pict.Proofs.Stream.Between
import Pict.Raster.Format

/-!
# What a packed row stands for

A packed row is read packet by packet, whatever its bytes are and without a bound on what they
expand to. A header is a signed byte `n`. From 0 on a literal of `n + 1` units is behind it, or of
as many as there are; below, one unit that stands `1 - n` times, and where there is none the row
ends; -128 stands for nothing. A unit is a byte or a word (`Units`).

Bytes and words are unpacked by two functions of the same shape. `Unpacks` says what they share:
how each mode takes the next unit. `UnpacksRows` adds what they do where there is no room or no
whole unit.

Results:
* `Units.packets_bytesOf`: packets that are written are read back, with any literals and runs.
* `UnpacksRows.expansion`: a row is unpacked to the front of its expansion that there is room for.
-/
namespace Pict.PackBits

open Machine (signedByte)

section
variable {α : Type} (write : α → List UInt8) (p : Packet α) (ps : List (Packet α))

theorem bytesOf_cons : bytesOf write (p :: ps) = p.bytes write ++ bytesOf write ps := rfl

theorem expandAll_cons : expandAll (p :: ps) = p.expand ++ expandAll ps := rfl

end

/-! ## Headers -/

theorem signedByte_literal {n : Nat} (h : n < 128) : signedByte (UInt8.ofNat n) = n := by
  have hn : (UInt8.ofNat n).toNat = n := UInt8.toNat_ofNat_of_lt' (Nat.lt_trans h (by decide))
  simp [signedByte, hn, h]

theorem signedByte_run {count : Nat} (h : 2 ≤ count) (h' : count ≤ 128) :
    signedByte (UInt8.ofNat (257 - count)) = 1 - count := by
  have hn : (UInt8.ofNat (257 - count)).toNat = 257 - count :=
    UInt8.toNat_ofNat_of_lt' (show 257 - count < 256 by omega)
  rw [signedByte, hn, if_neg (by omega)]
  omega

theorem Mode.ofHeader_signed (h : UInt8) :
    Mode.ofHeader h =
      if signedByte h = -128 then .header
      else if 0 ≤ signedByte h then .literal (signedByte h).toNat
      else .run (1 - signedByte h).toNat := by
  have hbound := h.toNat_lt
  by_cases hliteral : h.toNat < 128
  · simp [Mode.ofHeader, signedByte, hliteral]
  · simp only [Mode.ofHeader, signedByte, hliteral, if_false]
    by_cases hskip : h.toNat = 128
    · rw [if_pos hskip, if_pos (by omega)]
    · rw [if_neg hskip, if_neg (by omega), if_neg (by omega)]
      congr 1
      omega

/-! ## Units of a row -/

/-- How units stand in a row. -/
structure Units (α : Type) where
  /-- How many bytes a unit takes. -/
  size : Nat
  /-- The whole units of a row, without what is left behind them. -/
  read : List UInt8 → List α
  /-- The bytes of a unit. -/
  write : α → List UInt8
  size_pos : 0 < size
  length_write : ∀ a, (write a).length = size
  read_short : ∀ row, row.length < size → read row = []
  read_write : ∀ a row, read (write a ++ row) = a :: read row
  exists_write : ∀ row, size ≤ row.length → ∃ a rest, row = write a ++ rest

def byteUnits : Units UInt8 where
  size := 1
  read row := row
  write b := [b]
  size_pos := Nat.one_pos
  length_write _ := rfl
  read_short _ h := List.eq_nil_of_length_eq_zero (Nat.lt_one_iff.mp h)
  read_write _ _ := rfl
  exists_write
    | b :: rest, _ => ⟨b, rest, rfl⟩

/-- Every two bytes are a big-endian unit, and an odd last one is none. -/
def wordUnits : Units UInt16 where
  size := 2
  read := Format.wordsOf
  write := writeWord
  size_pos := Nat.two_pos
  length_write _ := rfl
  read_short
    | [], _ => rfl
    | [_], _ => rfl
  read_write w row := by
    show word _ _ :: Format.wordsOf row = _
    rw [word_bytes]
  exists_write
    | hi :: lo :: rest, _ => ⟨word hi lo, rest, by rw [writeWord_word]; rfl⟩

namespace Units

variable {α : Type} (u : Units α)

theorem read_nil : u.read [] = [] := u.read_short [] u.size_pos

theorem length_read (row : List UInt8) : (u.read row).length = row.length / u.size := by
  induction hn : row.length using Nat.strongRecOn generalizing row with
  | ind n ih =>
    subst hn
    by_cases hshort : row.length < u.size
    · rw [u.read_short row hshort, Nat.div_eq_of_lt hshort, List.length_nil]
    · obtain ⟨a, rest, rfl⟩ := u.exists_write row (by omega)
      have hpos := u.size_pos
      have hlength : (u.write a ++ rest).length = rest.length + u.size := by
        rw [List.length_append, u.length_write, Nat.add_comm]
      rw [u.read_write, List.length_cons, ih rest.length (by omega) rest rfl, hlength,
        Nat.add_div_right _ hpos]

theorem length_flatMap_write (units : List α) :
    (units.flatMap u.write).length = units.length * u.size :=
  length_blocks fun a _ => u.length_write a

theorem read_flatMap_write (units : List α) : u.read (units.flatMap u.write) = units := by
  induction units with
  | nil => exact u.read_nil
  | cons a units ih => rw [List.flatMap_cons, u.read_write, ih]

theorem take_write (a : α) (count : Nat) (rest : List UInt8) :
    (u.write a ++ rest).take ((count + 1) * u.size) = u.write a ++ rest.take (count * u.size) := by
  rw [Nat.succ_mul, Nat.add_comm, ← u.length_write a, List.take_length_add_append]

theorem drop_write (a : α) (count : Nat) (rest : List UInt8) :
    (u.write a ++ rest).drop ((count + 1) * u.size) = rest.drop (count * u.size) := by
  rw [Nat.succ_mul, Nat.add_comm, ← u.length_write a, List.drop_length_add_append]

end Units

/-! ## The packets of a row -/

namespace Units

variable {α : Type}

/-- The packets that a row is read as. A literal has the units that are there of it, and the first
run whose unit is missing ends the row. -/
def packets (u : Units α) : List UInt8 → List (Packet α)
  | [] => []
  | h :: rest =>
    if signedByte h = -128 then .skip :: u.packets rest
    else if 0 ≤ signedByte h then
      .literal (u.read (rest.take (((signedByte h).toNat + 1) * u.size))) ::
        u.packets (rest.drop (((signedByte h).toNat + 1) * u.size))
    else
      match u.read (rest.take u.size) with
      | [] => []
      | unit :: _ => .run (1 - signedByte h).toNat unit :: u.packets (rest.drop u.size)
termination_by row => row.length
decreasing_by
  all_goals
    simp only [List.length_drop, List.length_cons]
    omega

/-- All units that a row stands for. -/
def expansion (u : Units α) (row : List UInt8) : List α := expandAll (u.packets row)

variable (u : Units α)

theorem length_read_take_le (count : Nat) (row : List UInt8) :
    (u.read (row.take (count * u.size))).length ≤ count := by
  rw [length_read, List.length_take]
  apply Nat.div_le_of_le_mul
  rw [Nat.mul_comm]
  exact Nat.min_le_left _ _

/-- A literal that has not all of its units is the last packet. -/
theorem drop_eq_nil_of_short {count : Nat} {row : List UInt8}
    (h : (u.read (row.take (count * u.size))).length < count) :
    row.drop (count * u.size) = [] := by
  rw [length_read, List.length_take, Nat.div_lt_iff_lt_mul u.size_pos] at h
  apply List.drop_of_length_le
  omega

theorem first_unit (row : List UInt8) :
    (row.length < u.size ∧ u.read (row.take u.size) = []) ∨
      ∃ a rest, row = u.write a ++ rest ∧ u.read (row.take u.size) = [a] := by
  by_cases hshort : row.length < u.size
  · left
    refine ⟨hshort, u.read_short _ ?_⟩
    rw [List.length_take]
    omega
  · right
    obtain ⟨a, rest, rfl⟩ := u.exists_write row (Nat.le_of_not_lt hshort)
    refine ⟨a, rest, rfl, ?_⟩
    have htake := u.take_write a 0 rest
    rw [Nat.zero_add, Nat.one_mul, Nat.zero_mul, List.take_zero] at htake
    rw [htake, u.read_write, u.read_nil]

/-! ## Packets that are written -/

theorem packets_literal {n : Nat} (h : n < 128) (rest : List UInt8) :
    u.packets (UInt8.ofNat n :: rest) =
      .literal (u.read (rest.take ((n + 1) * u.size))) ::
        u.packets (rest.drop ((n + 1) * u.size)) := by
  rw [packets, signedByte_literal h, if_neg (by omega), if_pos (by omega), Int.toNat_natCast]

theorem packets_run {count : Nat} (h : 2 ≤ count) (h' : count ≤ 128) (rest : List UInt8) :
    u.packets (UInt8.ofNat (257 - count) :: rest) =
      match u.read (rest.take u.size) with
      | [] => []
      | unit :: _ => .run count unit :: u.packets (rest.drop u.size) := by
  have hcount : (1 - (1 - (count : Int))).toNat = count := by omega
  rw [packets, signedByte_run h h', if_neg (by omega), if_neg (by omega), hcount]

/-- A packet that is written is read back, whatever stands behind it. -/
theorem packets_bytes {p : Packet α} (hv : p.Valid) (rest : List UInt8) :
    u.packets (p.bytes u.write ++ rest) = p :: u.packets rest := by
  cases p with
  | literal units =>
    obtain ⟨hpos, hle⟩ := hv
    have hcount : (units.length - 1 + 1) * u.size = (units.flatMap u.write).length := by
      rw [length_flatMap_write, Nat.sub_add_cancel hpos]
    rw [Packet.bytes, Packet.header, List.cons_append, packets_literal u (by omega), hcount,
      List.take_left, List.drop_left, read_flatMap_write]
  | run count a =>
    have hunit : u.read (u.write a) = [a] := by
      rw [← List.append_nil (u.write a), u.read_write, u.read_nil]
    rw [Packet.bytes, Packet.header, List.cons_append, packets_run u hv.1 hv.2,
      ← u.length_write a, List.take_left, List.drop_left, hunit]
  | skip =>
    rw [Packet.bytes, Packet.header, List.cons_append, List.nil_append, packets, if_pos (by decide)]

theorem expansion_nil : u.expansion [] = [] := by
  rw [expansion, packets]
  rfl

theorem expansion_bytes {p : Packet α} (hv : p.Valid) (rest : List UInt8) :
    u.expansion (p.bytes u.write ++ rest) = p.expand ++ u.expansion rest := by
  rw [expansion, packets_bytes u hv, expandAll_cons, expansion]

/-- Packets that are written are read back. -/
theorem packets_bytesOf {ps : List (Packet α)} (hv : ∀ p ∈ ps, p.Valid) :
    u.packets (bytesOf u.write ps) = ps := by
  induction ps with
  | nil => rw [bytesOf, List.flatMap_nil, packets]
  | cons p ps ih =>
    rw [bytesOf_cons, packets_bytes u (hv p List.mem_cons_self),
      ih fun q hq => hv q (List.mem_cons_of_mem p hq)]

theorem expansion_bytesOf {ps : List (Packet α)} (hv : ∀ p ∈ ps, p.Valid) :
    u.expansion (bytesOf u.write ps) = expandAll ps := by
  rw [expansion, packets_bytesOf u hv]

end Units

/-! ## Unpacking a row -/

/-- `unpack` takes units that are written by `write`. -/
structure Unpacks {α : Type} (unpack : Mode → (room : Nat) → List UInt8 → List α)
    (write : α → List UInt8) : Prop where
  nil : ∀ m room, unpack m room [] = []
  header : ∀ room h rest, unpack .header room (h :: rest) = unpack (Mode.ofHeader h) room rest
  full : ∀ more a rest, unpack (.literal more) 0 (write a ++ rest) = []
  literal : ∀ more room a rest, unpack (.literal more) (room + 1) (write a ++ rest) =
    a :: unpack (Mode.afterUnit more) room rest
  run : ∀ count room a rest, unpack (.run count) room (write a ++ rest) =
    List.replicate (min count room) a ++ unpack .header (room - count) rest

/-- `unpack` takes whole units only, and no more than there is room for. -/
structure UnpacksRows {α : Type} (u : Units α)
    (unpack : Mode → (room : Nat) → List UInt8 → List α) : Prop
    extends Unpacks unpack u.write where
  zero : ∀ m row, unpack m 0 row = []
  short : ∀ m room row, row.length < u.size → unpack m room row = []

namespace UnpacksRows

variable {α : Type} {u : Units α} {unpack : Mode → (room : Nat) → List UInt8 → List α}

/-- The units that are left of a literal are read as far as they are there, and behind them is a
header. -/
theorem units_row (h : UnpacksRows u unpack) (count : Nat) : ∀ (room : Nat) (row : List UInt8),
    unpack (Mode.afterUnit count) room row =
      (u.read (row.take (count * u.size))).take room ++
        unpack .header (room - count) (row.drop (count * u.size)) := by
  induction count with
  | zero =>
    intro room row
    rw [Nat.zero_mul, List.take_zero, List.drop_zero, u.read_nil, List.take_nil, List.nil_append]
    rfl
  | succ count ih =>
    intro room row
    by_cases hshort : row.length < u.size
    · have hall : row.length ≤ (count + 1) * u.size :=
        Nat.le_trans (Nat.le_of_lt hshort) (Nat.le_mul_of_pos_left _ (Nat.succ_pos count))
      rw [h.short _ _ _ hshort, List.take_of_length_le hall, List.drop_of_length_le hall,
        u.read_short row hshort, List.take_nil, h.nil, List.append_nil]
    · obtain ⟨a, rest, rfl⟩ := u.exists_write row (Nat.le_of_not_lt hshort)
      rw [u.take_write, u.drop_write, u.read_write]
      cases room with
      | zero => rw [h.zero, Nat.zero_sub, h.zero, List.take_zero, List.append_nil]
      | succ room =>
        rw [Mode.afterUnit, h.literal, ih, Nat.add_sub_add_right, List.take_succ_cons,
          List.cons_append]

theorem literal_row (h : UnpacksRows u unpack) (more room : Nat) (row : List UInt8) :
    unpack (.literal more) room row =
      (u.read (row.take ((more + 1) * u.size))).take room ++
        unpack .header (room - (more + 1)) (row.drop ((more + 1) * u.size)) :=
  h.units_row (more + 1) room row

/-- A row is unpacked to the front of its expansion that there is room for. -/
theorem expansion (h : UnpacksRows u unpack) (row : List UInt8) :
    ∀ room, unpack .header room row = (u.expansion row).take room := by
  unfold Units.expansion
  fun_induction u.packets row with
  | case1 =>
    intro room
    exact (h.nil _ _).trans List.take_nil.symm
  | case2 header rest hskip ih =>
    intro room
    rw [h.header, Mode.ofHeader_signed, if_pos hskip]
    exact ih room
  | case3 header rest hskip hliteral ih =>
    intro room
    rw [h.header, Mode.ofHeader_signed, if_neg hskip, if_pos hliteral, h.literal_row, ih,
      expandAll_cons, Packet.expand, List.take_append]
    congr 1
    -- where the literal lacks units nothing is behind it, and the room for it does not matter
    by_cases hshort : (u.read (rest.take (((signedByte header).toNat + 1) * u.size))).length <
        (signedByte header).toNat + 1
    · rw [u.drop_eq_nil_of_short hshort, Units.packets]
      exact List.take_nil.trans List.take_nil.symm
    · rw [Nat.le_antisymm (u.length_read_take_le _ rest) (Nat.le_of_not_lt hshort)]
  | case4 header rest hskip hliteral hmissing =>
    intro room
    rw [h.header, Mode.ofHeader_signed, if_neg hskip, if_neg hliteral]
    obtain ⟨hshort, -⟩ | ⟨a, more, -, hunit⟩ := u.first_unit rest
    · rw [h.short _ _ _ hshort]
      exact List.take_nil.symm
    · cases hmissing.symm.trans hunit
  | case5 header rest hskip hliteral unit more hunit ih =>
    intro room
    rw [h.header, Mode.ofHeader_signed, if_neg hskip, if_neg hliteral]
    obtain ⟨-, hmissing⟩ | ⟨a, behind, rfl, hfirst⟩ := u.first_unit rest
    · cases hmissing.symm.trans hunit
    · obtain ⟨rfl, -⟩ := List.cons.inj (hunit.symm.trans hfirst)
      rw [← u.length_write unit, List.drop_left] at ih ⊢
      rw [h.run, ih, expandAll_cons, Packet.expand, List.take_append, List.take_replicate,
        List.length_replicate, Nat.min_comm]

end UnpacksRows

theorem unpackBytes_zero (m : Mode) (packed : List UInt8) : unpackBytes m 0 packed = [] :=
  List.eq_nil_of_length_eq_zero (Nat.le_zero.mp (length_unpackBytes_le m 0 packed))

theorem length_unpackWords_le (m : Mode) (room : Nat) (packed : List UInt8) :
    (unpackWords m room packed).length ≤ room := by
  fun_induction unpackWords m room packed with
  | case1 room h rest ih => exact ih
  | case2 more room hi lo rest ih => simpa using ih
  | case3 count room hi lo rest ih =>
    simp only [List.length_append, List.length_replicate]
    omega
  | case4 => exact Nat.zero_le _

theorem unpackWords_zero (m : Mode) (packed : List UInt8) : unpackWords m 0 packed = [] :=
  List.eq_nil_of_length_eq_zero (Nat.le_zero.mp (length_unpackWords_le m 0 packed))

theorem unpackWords_short (m : Mode) (room : Nat) {packed : List UInt8} (h : packed.length ≤ 1) :
    unpackWords m room packed = [] := by
  have hnil : ∀ m, unpackWords m room [] = [] := fun m => by cases m <;> rw [unpackWords] <;> simp
  cases packed with
  | nil => exact hnil m
  | cons b rest =>
    obtain rfl : rest = [] := List.eq_nil_of_length_eq_zero (by simpa using h)
    cases m with
    | header => rw [unpackWords, hnil]
    | literal more => rw [unpackWords] <;> simp
    | run count => rw [unpackWords] <;> simp

theorem unpacks_bytes : Unpacks unpackBytes fun b => [b] where
  nil m room := by cases m <;> cases room <;> rfl
  header _ _ _ := rfl
  full _ _ _ := rfl
  literal _ _ _ _ := rfl
  run _ _ _ _ := rfl

theorem unpacks_words : Unpacks unpackWords writeWord where
  nil m room := by cases m <;> cases room <;> rfl
  header _ _ _ := rfl
  full _ _ _ := rfl
  literal more room w rest := by
    show word _ _ :: unpackWords _ room rest = _
    rw [word_bytes]
  run count room w rest := by
    show List.replicate _ (word _ _) ++ unpackWords _ _ rest = _
    rw [word_bytes]

theorem unpacksRows_bytes : UnpacksRows byteUnits unpackBytes where
  toUnpacks := unpacks_bytes
  zero := unpackBytes_zero
  short m room row h := by
    obtain rfl : row = [] := byteUnits.read_short row h
    exact unpacks_bytes.nil m room

theorem unpacksRows_words : UnpacksRows wordUnits unpackWords where
  toUnpacks := unpacks_words
  zero := unpackWords_zero
  short m room _ h := unpackWords_short m room (Nat.le_of_lt_succ h)

theorem unpackBytes_literal (more room : Nat) (packed : List UInt8) :
    unpackBytes (.literal more) room packed =
      (packed.take (more + 1)).take room ++
        unpackBytes .header (room - (more + 1)) (packed.drop (more + 1)) := by
  have hrow := unpacksRows_bytes.literal_row more room packed
  rwa [show byteUnits.size = 1 from rfl, Nat.mul_one] at hrow

end Pict.PackBits
