import Pict.Proofs.PackBits.Encoding

/-!
# Packing a row on a machine

The loop that packs a row, with an index into the row and the bytes that are packed so far. Each
turn counts how often the byte at the index follows. If it is a run it is packed; otherwise a
second loop looks for the end of a literal, which must not be empty, for the length of a literal
less one is its header.

Results:
* `pack_ok`: the loops end, do not fault and pack the row to `encodeBytes`.
* `decodeBytes_pack`: what they pack are literals and runs of lengths that have a header, and is
  unpacked to the row.
-/
namespace Pict.Machine

open PackBits

/-! ## The loops -/

/-- One turn of the loop from the start of a literal to its end, with the index it has come to. -/
def literalTurn (row : List UInt8) (start pos : Nat) : Checked (Nat ⊕ Nat) :=
  if pos < row.length then do
    let units ← minus pos start
    if units < 128 then
      let behind ← usize (pos + 1)
      if behind < row.length then
        let here ← get row pos
        let next ← get row behind
        if here = next then pure (.inr pos) else pure (.inl behind)
      else pure (.inl behind)
    else pure (.inr pos)
  else pure (.inr pos)

/-- The literal from an index on, packed behind `out`, and the index behind it. -/
def packLiteral (row : List UInt8) (pos : Nat) (out : List UInt8) :
    Checked (Nat × List UInt8) := do
  let behind ← loop (literalTurn row pos) (row.length + 1) pos
  let units ← minus behind pos
  let header ← minus units 1
  let literal ← slice row pos behind
  pure (behind, out ++ UInt8.ofNat header :: literal)

/-- The run of the byte at an index, packed behind `out`, and the index behind it. -/
def packRun (byte : UInt8) (run pos : Nat) (out : List UInt8) : Checked (Nat × List UInt8) := do
  let header ← isize (1 - run)
  let behind ← usize (pos + run)
  pure (behind, out ++ [UInt8.ofInt header, byte])

/-- The packet from an index on, packed behind `out`, and the index behind it. -/
def packPacket (row : List UInt8) (pos : Nat) (out : List UInt8) :
    Checked (Nat × List UInt8) := do
  let byte ← get row pos
  let ahead ← slice row pos row.length
  let run := ((ahead.take 128).takeWhile (· == byte)).length
  if 2 ≤ run then packRun byte run pos out else packLiteral row pos out

/-- One turn of the loop over a row, with the index of the next byte and what is packed so far. -/
def packTurn (row : List UInt8) :
    Nat × List UInt8 → Checked (Nat × List UInt8 ⊕ List UInt8)
  | (pos, out) =>
    if pos < row.length then do
      let next ← packPacket row pos out
      pure (.inl next)
    else pure (.inr out)

/-- The packed bytes of a row. -/
def pack (row : List UInt8) : Checked (List UInt8) := loop (packTurn row) (row.length + 1) (0, [])

/-! ## What they pack -/

theorem length_takeWhile_take (b : UInt8) (most : Nat) (row : List UInt8) :
    ((row.take most).takeWhile (· == b)).length = runLength b most row := by
  fun_induction runLength b most row with
  | case1 most rest ih => simp [ih]
  | case2 most c rest hc => simp [hc]
  | case3 most row h =>
    cases most with
    | zero => simp
    | succ most =>
      cases row with
      | nil => simp
      | cons c rest => exact absurd rfl (h most c rest rfl)

theorem encodeBytes_run {b : UInt8} {rest : List UInt8} (h : runLength b 127 rest ≠ 0) :
    encodeBytes (b :: rest) =
      UInt8.ofNat (256 - runLength b 127 rest) :: b ::
        encodeBytes (rest.drop (runLength b 127 rest)) := by
  rw [encodeBytes, encode, if_neg h, bytesOf_cons, ← encodeBytes]
  simp [Packet.bytes, Packet.header]

theorem encodeBytes_literal {b : UInt8} {rest : List UInt8} (h : runLength b 127 rest = 0) :
    encodeBytes (b :: rest) =
      UInt8.ofNat (literalLength 128 (b :: rest) - 1) ::
        ((b :: rest).take (literalLength 128 (b :: rest)) ++
          encodeBytes ((b :: rest).drop (literalLength 128 (b :: rest)))) := by
  have hlength := List.length_take_of_le (literalLength_le_length 128 (b :: rest))
  rw [encodeBytes, encode, if_pos h, bytesOf_cons, ← encodeBytes, Packet.bytes, Packet.header,
    hlength, List.flatMap_singleton', List.cons_append]

def packed (row : List UInt8) (s : Nat × List UInt8) : List UInt8 :=
  s.2 ++ encodeBytes (row.drop s.1)

section
variable {row : List UInt8} {pos : Nat} {out : List UInt8}

/-- The loop over a literal ends in front of two equal bytes, or where it is full. -/
theorem answers_literalTurn (hrow : row.length < 2 ^ 64) (start : Nat) :
    Answers (literalTurn row start)
      (fun pos => start ≤ pos ∧ pos ≤ row.length ∧ pos - start ≤ 128)
      (fun pos => row.length - pos)
      fun pos behind => behind = pos + literalLength (128 - (pos - start)) (row.drop pos) := by
  intro pos ⟨hstart, hend, hcount⟩
  unfold literalTurn
  by_cases hpos : pos < row.length
  · have hhere := List.drop_eq_getElem_cons hpos
    rw [if_pos hpos, minus_ok hstart, ok_bind]
    by_cases hroom : pos - start < 128
    · obtain ⟨most, hmost⟩ : ∃ most, 128 - (pos - start) = most + 1 :=
        ⟨127 - (pos - start), by omega⟩
      have hmost' : 128 - (pos + 1 - start) = most := by omega
      rw [if_pos hroom, usize_ok (by omega), ok_bind]
      by_cases hmore : pos + 1 < row.length
      · have hnext := List.drop_eq_getElem_cons hmore
        rw [if_pos hmore, get_ok (List.getElem?_eq_getElem hpos), ok_bind,
          get_ok (List.getElem?_eq_getElem hmore), ok_bind]
        by_cases hpair : row[pos] = row[pos + 1]
        · left
          refine ⟨pos, if_pos hpair, ?_⟩
          dsimp only
          rw [hmost, hhere, hnext, literalLength, if_pos hpair, Nat.add_zero]
        · right
          refine ⟨pos + 1, if_neg hpair, ⟨by omega, hmore.le, by omega⟩, by dsimp only; omega, ?_⟩
          dsimp only
          intro behind hbehind
          rw [hbehind, hmost', hmost, hhere, hnext, literalLength, if_neg hpair]
          omega
      · right
        have hnone : row.drop (pos + 1) = [] := List.drop_of_length_le (by omega)
        rw [if_neg hmore]
        refine ⟨pos + 1, rfl, ⟨by omega, hpos, by omega⟩, by dsimp only; omega, ?_⟩
        dsimp only
        intro behind hbehind
        rw [hbehind, hmost', hmost, hhere, hnone]
        simp [literalLength]
    · left
      have hfull : 128 - (pos - start) = 0 := by omega
      refine ⟨pos, if_neg hroom, ?_⟩
      dsimp only
      rw [hfull]
      simp [literalLength]
  · left
    refine ⟨pos, if_neg hpos, ?_⟩
    dsimp only
    rw [List.drop_of_length_le (Nat.le_of_not_lt hpos)]
    simp [literalLength]

/-- A literal has a byte at least, so its header is no less than zero. -/
theorem packLiteral_ok (hrow : row.length < 2 ^ 64) (hpos : pos < row.length)
    (hrun : runLength row[pos] 127 (row.drop (pos + 1)) = 0) :
    ∃ next, packLiteral row pos out = .ok next ∧ pos < next.1 ∧ next.1 ≤ row.length ∧
      packed row next = packed row (pos, out) := by
  have hdrop := List.drop_eq_getElem_cons hpos
  obtain ⟨hunits, hle⟩ := literalLength_bounds hrun
  have hbytes := encodeBytes_literal hrun
  rw [← hdrop] at hunits hle hbytes
  rw [List.length_drop] at hle
  generalize hcount : literalLength 128 (row.drop pos) = count at *
  obtain ⟨behind, hloop, hbehind⟩ := (answers_literalTurn hrow pos).loop_ok (row.length + 1)
    (a := pos) ⟨Nat.le_refl pos, Nat.le_of_lt hpos, by omega⟩ (by omega)
  rw [Nat.sub_self, Nat.sub_zero, hcount] at hbehind
  subst hbehind
  unfold packLiteral
  rw [hloop, ok_bind, minus_ok (by omega), ok_bind, minus_ok (by omega), ok_bind,
    slice_ok (by omega) (by omega), ok_bind, Nat.add_sub_cancel_left]
  refine ⟨_, rfl, by dsimp only; omega, by dsimp only; omega, ?_⟩
  simp only [packed, hbytes, List.drop_take, List.drop_drop, Nat.add_sub_cancel_left]
  simp

/-- The header of a run is negative, and not that of a packet which stands for nothing. -/
theorem packRun_ok (hrow : row.length < 2 ^ 64) (hpos : pos < row.length)
    (hrun : runLength row[pos] 127 (row.drop (pos + 1)) ≠ 0) :
    ∃ next,
      packRun row[pos] (runLength row[pos] 127 (row.drop (pos + 1)) + 1) pos out = .ok next ∧
        pos < next.1 ∧ next.1 ≤ row.length ∧ packed row next = packed row (pos, out) := by
  have hdrop := List.drop_eq_getElem_cons hpos
  have hmost := runLength_le row[pos] 127 (row.drop (pos + 1))
  have hle := runLength_le_length row[pos] 127 (row.drop (pos + 1))
  have hbytes := encodeBytes_run hrun
  rw [← hdrop] at hbytes
  rw [List.length_drop] at hle
  generalize runLength row[pos] 127 (row.drop (pos + 1)) = run at *
  have hheader : UInt8.ofInt (1 - (run + 1 : Nat)) = UInt8.ofNat (256 - run) := by
    rw [UInt8.ofInt]
    congr 1
    omega
  unfold packRun
  rw [isize_ok (by omega) (by omega), ok_bind, usize_ok (by omega), ok_bind, hheader]
  refine ⟨_, rfl, by dsimp only; omega, by dsimp only; omega, ?_⟩
  simp only [packed, hbytes, List.drop_drop, List.append_assoc]
  rw [Nat.add_right_comm pos 1 run]
  rfl

theorem packPacket_ok (hrow : row.length < 2 ^ 64) (hpos : pos < row.length)
    (out : List UInt8) :
    ∃ next, packPacket row pos out = .ok next ∧ pos < next.1 ∧ next.1 ≤ row.length ∧
      packed row next = packed row (pos, out) := by
  have hdrop := List.drop_eq_getElem_cons hpos
  have hcount : (((row.drop pos).take 128).takeWhile (· == row[pos])).length =
      runLength row[pos] 127 (row.drop (pos + 1)) + 1 := by
    rw [length_takeWhile_take, hdrop, runLength, if_pos rfl]
  unfold packPacket
  rw [get_ok (List.getElem?_eq_getElem hpos), ok_bind, slice_ok (by omega) (Nat.le_refl _), ok_bind,
    List.take_length]
  dsimp only
  rw [hcount]
  by_cases hrun : runLength row[pos] 127 (row.drop (pos + 1)) = 0
  · rw [if_neg (by omega)]
    exact packLiteral_ok hrow hpos hrun
  · rw [if_pos (by omega)]
    exact packRun_ok hrow hpos hrun

theorem answers_packTurn (hrow : row.length < 2 ^ 64) :
    Answers (packTurn row) (fun s => s.1 ≤ row.length) (fun s => row.length - s.1)
      fun s b => b = packed row s := by
  intro ⟨pos, out⟩ hle
  by_cases hpos : pos < row.length
  · right
    obtain ⟨next, hpacket, hmoves, hend, hsame⟩ := packPacket_ok hrow hpos out
    rw [packTurn, if_pos hpos, hpacket, ok_bind]
    exact ⟨next, rfl, hend, by dsimp only; omega, fun b hb => hb.trans hsame⟩
  · left
    refine ⟨out, if_neg hpos, ?_⟩
    dsimp only [packed]
    rw [List.drop_of_length_le (Nat.le_of_not_lt hpos), encodeBytes, encode]
    exact (List.append_nil out).symm

/-- A row is packed without a fault. -/
theorem pack_ok (hrow : row.length < 2 ^ 64) : pack row = .ok (encodeBytes row) := by
  obtain ⟨b, hloop, rfl⟩ := (answers_packTurn hrow).loop_ok (row.length + 1)
    (a := (0, [])) (Nat.zero_le _) (Nat.lt_succ_of_le (Nat.sub_le _ _))
  exact hloop

end

/-! ## Rows that come back -/

/-- Whatever a row is, its packets are literals of 1 to 128 bytes and runs of 2 to 128, the loops
end with their bytes, and they are unpacked to the row. -/
theorem decodeBytes_pack (row : List UInt8) :
    (∀ room, row.length ≤ room → decodeBytes room (encodeBytes row) = row) ∧
      (row.length < 2 ^ 64 → pack row = .ok (encodeBytes row)) ∧
      byteUnits.packets (encodeBytes row) = encode row ∧
      ∀ packet ∈ encode row,
        (∃ units, packet = .literal units ∧ 1 ≤ units.length ∧ units.length ≤ 128) ∨
          ∃ count b, packet = .run count b ∧ 2 ≤ count ∧ count ≤ 128 := by
  have hvalid := valid_encode row
  refine ⟨fun room hroom => decodeBytes_encode hroom, pack_ok, ?_, ?_⟩
  · exact byteUnits.packets_bytesOf fun packet hpacket => (hvalid packet hpacket).1
  · intro packet hpacket
    obtain ⟨hv, hskip⟩ := hvalid packet hpacket
    cases packet with
    | literal units => exact Or.inl ⟨units, rfl, hv⟩
    | run count b => exact Or.inr ⟨count, b, rfl, hv⟩
    | skip => exact absurd rfl hskip

/-- Two runs with a literal of one byte between them, and one of two bytes behind them. -/
theorem decodeBytes_pack_runs :
    decodeBytes 9 (encodeBytes [7, 7, 7, 8, 9, 9, 1, 2]) = [7, 7, 7, 8, 9, 9, 1, 2] ∧
      encodeBytes [7, 7, 7, 8, 9, 9, 1, 2] = [0xFE, 7, 0, 8, 0xFF, 9, 1, 1, 2] := by
  obtain ⟨hback, hloops, -⟩ := decodeBytes_pack [7, 7, 7, 8, 9, 9, 1, 2]
  have hbytes : pack [7, 7, 7, 8, 9, 9, 1, 2] = .ok [0xFE, 7, 0, 8, 0xFF, 9, 1, 1, 2] := by decide
  exact ⟨hback 9 (by decide), Except.ok.inj ((hloops (by decide)).symm.trans hbytes)⟩

end Pict.Machine
