import Mathlib.Data.List.Chain
import Pict.PackBits.Encoder
import Pict.Proofs.PackBits.Packets

/-!
# Rows as the encoder packs them

The encoder takes every run, also one of two bytes that breaks up a literal. Such a run saves
nothing, and the literal behind it needs a header of its own: three bytes may take four.

Results:
* `valid_encode`, `expandAll_encode`: a row comes back from its packets.
* `length_encodeBytes_le`: no row takes more than four bytes for three, and two thirds of one.
* `length_encodeBytes_distinct`: a row without equal neighbours takes one header for 128 bytes.
* `expansion_cut`: packets that are cut short lose the end of what they stand for.
-/
namespace Pict.PackBits

/-! ## Runs and literals -/

theorem runLength_le (b : UInt8) (most : Nat) (row : List UInt8) : runLength b most row ≤ most := by
  fun_induction runLength b most row <;> omega

theorem take_runLength (b : UInt8) (most : Nat) (row : List UInt8) :
    row.take (runLength b most row) = List.replicate (runLength b most row) b := by
  fun_induction runLength b most row with
  | case1 most rest ih => rw [List.take_succ_cons, List.replicate_succ, ih]
  | case2 => rfl
  | case3 => rfl

theorem runLength_eq_zero_iff {b : UInt8} {most : Nat} {row : List UInt8} (hm : 0 < most) :
    runLength b most row = 0 ↔ row.head? ≠ some b := by
  obtain ⟨most, rfl⟩ : ∃ n, most = n + 1 := ⟨most - 1, by omega⟩
  cases row <;> simp [runLength]

theorem runLength_le_length (b : UInt8) (most : Nat) (row : List UInt8) :
    runLength b most row ≤ row.length := by
  fun_induction runLength b most row <;> simp_all

theorem literalLength_le_length (most : Nat) (row : List UInt8) :
    literalLength most row ≤ row.length := by
  fun_induction literalLength most row <;> simp_all

theorem literalLength_le (most : Nat) (row : List UInt8) : literalLength most row ≤ most := by
  fun_induction literalLength most row <;> omega

theorem literalLength_bounds {b : UInt8} {rest : List UInt8} (h : runLength b 127 rest = 0) :
    0 < literalLength 128 (b :: rest) ∧ literalLength 128 (b :: rest) ≤ (b :: rest).length := by
  have hrun : runLength b 128 rest = 0 :=
    (runLength_eq_zero_iff (by decide)).mpr ((runLength_eq_zero_iff (by decide)).mp h)
  exact ⟨literalLength_pos hrun (by decide), literalLength_le_length 128 (b :: rest)⟩

/-- A literal ends when it is full, behind the last byte, or in front of two equal ones. -/
theorem behind_literal (most : Nat) (row : List UInt8) :
    literalLength most row = most ∨ row.drop (literalLength most row) = [] ∨
      ∃ b rest, row.drop (literalLength most row) = b :: b :: rest := by
  fun_induction literalLength most row with
  | case1 most b rest => exact Or.inr (Or.inr ⟨b, rest, rfl⟩)
  | case2 most b c rest hb ih =>
    rw [List.drop_succ_cons]
    exact ih.imp_left (congrArg (· + 1))
  | case3 => exact Or.inr (Or.inl rfl)
  | case4 most row h1 h2 =>
    cases most with
    | zero => exact Or.inl rfl
    | succ most =>
      match row with
      | [] => exact Or.inr (Or.inl rfl)
      | [b] => exact (h2 _ _ rfl rfl).elim
      | b :: c :: rest => exact (h1 _ _ _ _ rfl rfl).elim

theorem literalLength_distinct {row : List UInt8} (h : row.IsChain (· ≠ ·)) :
    ∀ most, literalLength most row = min most row.length := by
  induction row with
  | nil => intro most; cases most <;> simp [literalLength]
  | cons b row ih =>
    intro most
    cases most with
    | zero => simp [literalLength]
    | succ most =>
      cases row with
      | nil => simp [literalLength]
      | cons c rest =>
        obtain ⟨hne, hrest⟩ := List.isChain_cons_cons.mp h
        rw [literalLength, if_neg hne, ih hrest, List.length_cons, List.length_cons,
          List.length_cons]
        omega

/-! ## The packets of a row -/

theorem valid_encode (row : List UInt8) :
    ∀ packet ∈ encode row, packet.Valid ∧ packet ≠ .skip := by
  fun_induction encode row with
  | case1 => exact nofun
  | case2 b rest h ih =>
    obtain ⟨hpos, hlength⟩ := literalLength_bounds h
    have hle := literalLength_le 128 (b :: rest)
    intro packet hp
    rcases List.mem_cons.mp hp with rfl | hp
    · rw [← List.length_take_of_le hlength] at hpos hle
      exact ⟨⟨hpos, hle⟩, nofun⟩
    · exact ih packet hp
  | case3 b rest h ih =>
    have hle := runLength_le b 127 rest
    intro packet hp
    rcases List.mem_cons.mp hp with rfl | hp
    · exact ⟨⟨by omega, by omega⟩, nofun⟩
    · exact ih packet hp

/-- A row comes back from its packets. -/
theorem expandAll_encode (row : List UInt8) : expandAll (encode row) = row := by
  fun_induction encode row with
  | case1 => rfl
  | case2 b rest h ih =>
    rw [expandAll, List.flatMap_cons, ← expandAll, ih]
    exact List.take_append_drop _ _
  | case3 b rest h ih =>
    rw [expandAll, List.flatMap_cons, ← expandAll, ih, Packet.expand, List.replicate_succ,
      ← take_runLength, List.cons_append, List.take_append_drop]

theorem decodeBytes_encode {room : Nat} {row : List UInt8} (h : row.length ≤ room) :
    decodeBytes room (encodeBytes row) = row := by
  rw [encodeBytes, decodeBytes_packets (fun p hp => (valid_encode row p hp).1), expandAll_encode,
    List.take_of_length_le h]

/-! ## How long a packed row is -/

/-- A row takes four bytes for three, and two thirds of one for a literal that it starts with. -/
theorem length_encode_le (row : List UInt8) :
    3 * (bytesOf (fun b => [b]) (encode row)).length ≤ 4 * row.length + 2 ∧
      ∀ b rest, row = b :: b :: rest →
        3 * (bytesOf (fun b => [b]) (encode row)).length ≤ 4 * row.length := by
  fun_induction encode row with
  | case1 => exact ⟨Nat.zero_le 2, nofun⟩
  | case2 b rest h ih =>
    obtain ⟨hany, hrun⟩ := ih
    have hdistinct : ∀ c more, b :: rest ≠ c :: c :: more := by
      rintro c more ⟨⟩
      exact (runLength_eq_zero_iff (by decide)).mp h rfl
    refine ⟨?_, fun c more hrow => absurd hrow (hdistinct c more)⟩
    obtain ⟨hpos, hle⟩ := literalLength_bounds h
    have hrest := List.length_drop (l := b :: rest) (i := literalLength 128 (b :: rest))
    rw [bytesOf_cons, List.length_append, Packet.length_bytes_literal, List.length_take_of_le hle]
    -- the header of a literal is paid by its bytes if it is full, or by the run behind it
    rcases behind_literal 128 (b :: rest) with hfull | hend | ⟨c, more, hmore⟩
    · omega
    · have hnone : (bytesOf (fun b => [b]) (encode
          ((b :: rest).drop (literalLength 128 (b :: rest))))).length = 0 := by
        rw [hend, encode]
        rfl
      omega
    · have hpaid := hrun c more hmore
      omega
  | case3 b rest h ih =>
    have hrest := List.length_drop (l := rest) (i := runLength b 127 rest)
    have hle := runLength_le_length b 127 rest
    rw [bytesOf_cons, List.length_append, Packet.length_bytes_run]
    have hboth : 3 * (2 + (bytesOf (fun b => [b]) (encode
        (rest.drop (runLength b 127 rest)))).length) ≤ 4 * (b :: rest).length := by
      rw [List.length_cons]
      omega
    exact ⟨by omega, fun _ _ _ => hboth⟩

/-- No row takes more than four bytes for three, and two thirds of one. -/
theorem length_encodeBytes_le (row : List UInt8) :
    3 * (encodeBytes row).length ≤ 4 * row.length + 2 :=
  (length_encode_le row).1

/-- Bytes of which no two neighbours are equal take one header for 128 of them. -/
theorem length_encodeBytes_distinct (row : List UInt8) (h : row.IsChain (· ≠ ·)) :
    (encodeBytes row).length = row.length + (row.length + 127) / 128 := by
  unfold encodeBytes
  fun_induction encode row with
  | case1 => rfl
  | case2 b rest hrun ih =>
    have hlen := literalLength_distinct h 128
    have hrest := List.length_drop (l := b :: rest) (i := literalLength 128 (b :: rest))
    have hpos : 0 < (b :: rest).length := Nat.zero_lt_succ _
    rw [bytesOf_cons, List.length_append, Packet.length_bytes_literal, ih (h.drop _),
      List.length_take_of_le (literalLength_le_length 128 (b :: rest))]
    omega
  | case3 b rest hrun =>
    refine absurd ((runLength_eq_zero_iff (by decide)).mpr fun hsame => ?_) hrun
    obtain ⟨more, rfl⟩ := List.head?_eq_some_iff.mp hsame
    exact (List.isChain_cons_cons.mp h).1 rfl

/-- A single byte in front of two equal ones takes two bytes, as they do. -/
theorem encode_triple {a b : UInt8} (h : a ≠ b) {rest : List UInt8} (hrest : rest.head? ≠ some b) :
    encode (a :: b :: b :: rest) = .literal [a] :: .run 2 b :: encode rest := by
  have hsingle : runLength a 127 (b :: b :: rest) = 0 :=
    (runLength_eq_zero_iff (by decide)).mpr fun hb => h (Option.some.inj hb).symm
  have hliteral : literalLength 128 (a :: b :: b :: rest) = 1 := by
    simp [literalLength, h]
  have hzero : runLength b 126 rest = 0 := (runLength_eq_zero_iff (by decide)).mpr hrest
  have hpair : runLength b 127 (b :: rest) = 1 := by
    simp [runLength, hzero]
  rw [encode, if_pos hsingle, hliteral, List.take_one, List.drop_one, List.tail_cons, encode, hpair]
  rfl

def alternating (a b : UInt8) : Nat → List UInt8
  | 0 => []
  | n + 1 => a :: alternating b a n

theorem length_alternating (a b : UInt8) (n : Nat) : (alternating a b n).length = n := by
  induction n generalizing a b with
  | zero => rfl
  | succ n ih => rw [alternating, List.length_cons, ih]

theorem mem_alternating {a b x : UInt8} {n : Nat} (h : x ∈ alternating a b n) : x = a ∨ x = b := by
  induction n generalizing a b with
  | zero => cases h
  | succ n ih =>
    rcases List.mem_cons.mp h with rfl | h
    · exact Or.inl rfl
    · exact (ih h).symm

theorem isChain_alternating {a b : UInt8} (h : a ≠ b) (n : Nat) :
    (alternating a b n).IsChain (· ≠ ·) := by
  induction n generalizing a b with
  | zero => exact List.isChain_nil
  | succ n ih =>
    cases n with
    | zero => exact List.isChain_singleton a
    | succ n => exact List.isChain_cons_cons.mpr ⟨h, ih h.symm⟩

/-! ## Packets that are cut short -/

/-- A packet loses the end of what it stands for when it is cut short. -/
theorem expansion_packet_cut {p : Packet UInt8} (hv : p.Valid) (hskip : p ≠ .skip) {n : Nat}
    (hn : n < (p.bytes fun b => [b]).length) :
    ∃ front rest, p.expand = front ++ rest ∧ rest ≠ [] ∧
      byteUnits.expansion ((p.bytes fun b => [b]).take n) = front := by
  cases p with
  | literal units =>
    rw [Packet.length_bytes_literal] at hn
    obtain ⟨hpos, hle⟩ := hv
    refine ⟨units.take (n - 1), units.drop (n - 1), (List.take_append_drop _ _).symm, ?_, ?_⟩
    · exact mt List.drop_eq_nil_iff.mp (by omega)
    cases n with
    | zero => exact byteUnits.expansion_nil
    | succ n =>
      have hunits : (units.take n).length ≤ (units.length - 1 + 1) * byteUnits.size := by
        show (units.take n).length ≤ (units.length - 1 + 1) * 1
        rw [List.length_take]
        omega
      rw [Packet.bytes, List.flatMap_singleton', List.take_succ_cons, Packet.header,
        Units.expansion, byteUnits.packets_literal (by omega), List.take_of_length_le hunits,
        List.drop_of_length_le hunits, Units.packets]
      exact List.append_nil _
  | run count b =>
    -- the byte that is repeated is the last one
    have hn : n = 0 ∨ n = 1 := by
      rw [Packet.length_bytes_run] at hn
      omega
    refine ⟨[], List.replicate count b, rfl, ?_, ?_⟩
    · exact List.ne_nil_of_length_pos (by rw [List.length_replicate]; have := hv.1; omega)
    · rcases hn with rfl | rfl
      · exact byteUnits.expansion_nil
      · show byteUnits.expansion [UInt8.ofNat (257 - count)] = []
        rw [Units.expansion, byteUnits.packets_run hv.1 hv.2]
        rfl
  | skip => exact absurd rfl hskip

/-- So do packets in a row. -/
theorem expansion_cut (ps : List (Packet UInt8)) (hv : ∀ p ∈ ps, p.Valid ∧ p ≠ .skip) :
    ∀ n, n < (bytesOf (fun b => [b]) ps).length →
      ∃ front rest, expandAll ps = front ++ rest ∧ rest ≠ [] ∧
        byteUnits.expansion ((bytesOf (fun b => [b]) ps).take n) = front := by
  induction ps with
  | nil => exact fun n hn => absurd hn (Nat.not_lt_zero n)
  | cons p ps ih =>
    intro n hn
    obtain ⟨hp, hskip⟩ := hv p List.mem_cons_self
    rw [bytesOf_cons, expandAll_cons, List.take_append]
    rw [bytesOf_cons, List.length_append] at hn
    by_cases hcut : n < (p.bytes fun b => [b]).length
    · obtain ⟨front, rest, hunits, hrest, hfront⟩ := expansion_packet_cut hp hskip hcut
      refine ⟨front, rest ++ expandAll ps, ?_, List.append_ne_nil_of_left_ne_nil hrest _, ?_⟩
      · rw [hunits, List.append_assoc]
      · rwa [Nat.sub_eq_zero_of_le (Nat.le_of_lt hcut), List.take_zero, List.append_nil]
    · obtain ⟨front, rest, hunits, hrest, hfront⟩ :=
        ih (fun q hq => hv q (List.mem_cons_of_mem p hq)) (n - (p.bytes fun b => [b]).length)
          (by omega)
      refine ⟨p.expand ++ front, rest, by rw [hunits, List.append_assoc], hrest, ?_⟩
      rw [List.take_of_length_le (by omega), ← hfront]
      exact byteUnits.expansion_bytes hp _

theorem decodeBytes_encode_cut (row : List UInt8) {n : Nat} (hn : n < (encodeBytes row).length) :
    ∃ front rest, row = front ++ rest ∧ rest ≠ [] ∧
      ∀ room, decodeBytes room ((encodeBytes row).take n) = front.take room := by
  obtain ⟨front, rest, hrow, hrest, hfront⟩ := expansion_cut (encode row) (valid_encode row) n hn
  rw [expandAll_encode] at hrow
  refine ⟨front, rest, hrow, hrest, fun room => ?_⟩
  rw [decodeBytes, unpacksRows_bytes.expansion, encodeBytes, hfront]

end Pict.PackBits
