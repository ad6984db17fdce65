import Pict.PackBits.Bytes
import Pict.PackBits.Words
import Pict.Proofs.Machine.Checked
import Pict.Proofs.PackBits.Packets

/-!
# Packed rows on a machine

The loops that expand packed rows, with an index into the row and a buffer of what it
expands to.

Results:
* `unpack_ok`, `wordsOf_ok`: the loops do not fault and expand the row to `decodeBytes` and
  to `decodeWords`.
* `decodeBytes_expansion`, `decodeWords_expansion`: whatever the bytes of a row are, this is what
  its packets stand for, cut where the room ends, or cut or padded to the width.
-/
namespace Pict.Machine

open PackBits

/-! ## Bytes -/

/-- The literal of `count` bytes and one more at an index, as far as there is a row and room. The
answer is the index behind it and what the row has expanded to. -/
def unpackLiteral (packed : List UInt8) (room count pos : Nat) (out : List UInt8) :
    Checked (Nat × List UInt8) := do
  let units ← usize (pos + count)
  let reach ← usize (units + 1)
  let there := min reach packed.length
  let here ← minus there pos
  let left ← minus room out.length
  let till ← usize (pos + min here left)
  let literal ← slice packed pos till
  pure (there, out ++ literal)

def unpackRun (room : Nat) (header byte : UInt8) (pos : Nat) (out : List UInt8) :
    Checked (Nat × List UInt8) := do
  let pos ← usize (pos + 1)
  let count ← isize (1 - signedByte header)
  let left ← minus room out.length
  let length ← usize (out.length + min (asSize count) left)
  pure (pos, out ++ List.replicate (length - out.length) byte)

/-- One turn of the loop over the packets of a row, with the index of the next header and the bytes
that the row has expanded to so far. -/
def unpackTurn (packed : List UInt8) (room : Nat) :
    Nat × List UInt8 → Checked (Nat × List UInt8 ⊕ List UInt8)
  | (pos, out) =>
    if pos < packed.length ∧ out.length < room then do
      let header ← get packed pos
      let pos ← usize (pos + 1)
      if header.toNat = 128 then pure (.inl (pos, out))
      else if header.toNat < 128 then
        let next ← unpackLiteral packed room header.toNat pos out
        pure (.inl next)
      else
        match packed[pos]? with
        | none => pure (.inr out)
        | some byte =>
          let next ← unpackRun room header byte pos out
          pure (.inl next)
    else pure (.inr out)

/-- At most `room` bytes that a packed row expands to. -/
def unpack (packed : List UInt8) (room : Nat) : Checked (List UInt8) :=
  loop (unpackTurn packed room) (packed.length + 1) (0, [])

/-- What the loop over packets will answer. -/
def unpacked (packed : List UInt8) (room : Nat) (s : Nat × List UInt8) : List UInt8 :=
  s.2 ++ unpackBytes .header (room - s.2.length) (packed.drop s.1)

section
variable {packed : List UInt8} {room pos : Nat} {out : List UInt8}

theorem unpackLiteral_ok {count : Nat} (hpacked : packed.length < 2 ^ 63) (hroom : room < 2 ^ 64)
    (hout : out.length ≤ room) (hpos : pos ≤ packed.length) (hcount : count < 128) :
    ∃ next, unpackLiteral packed room count pos out = .ok next ∧ pos ≤ next.1 ∧
      next.2.length ≤ room ∧ unpacked packed room next =
        out ++ unpackBytes (.literal count) (room - out.length) (packed.drop pos) := by
  unfold unpackLiteral
  rw [usize_ok (by omega), ok_bind, usize_ok (by omega), ok_bind]
  dsimp only
  rw [minus_ok (by omega), ok_bind, minus_ok (by omega), ok_bind, usize_ok (by omega), ok_bind,
    slice_ok (by omega) (by omega), ok_bind]
  refine ⟨_, rfl, by dsimp only; omega, ?_, ?_⟩
  · simp only [List.length_append, List.length_drop, List.length_take]
    omega
  generalize hrest : packed.drop pos = rest
  have hlength : rest.length = packed.length - pos := by rw [← hrest, List.length_drop]
  have hunits : (packed.take (pos + min (min (pos + count + 1) packed.length - pos)
      (room - out.length))).drop pos = (rest.take (count + 1)).take (room - out.length) := by
    rw [List.drop_take, hrest, List.take_take, List.take_eq_take_iff]
    omega
  have hbehind : packed.drop (min (pos + count + 1) packed.length) = rest.drop (count + 1) := by
    rw [← hrest, List.drop_drop, List.drop_eq_drop_iff]
    omega
  rw [unpackBytes_literal, unpacked, hunits, hbehind, List.append_assoc]
  congr 2
  -- a literal that the row cuts short is the end of it
  by_cases hshort : rest.length ≤ count + 1
  · rw [List.drop_of_length_le hshort, unpackBytes, unpackBytes]
  · congr 1
    simp only [List.length_append, List.length_take]
    omega

theorem unpackRun_ok {header byte : UInt8} (hpacked : packed.length < 2 ^ 63)
    (hroom : room < 2 ^ 64) (hout : out.length ≤ room) (hheader : ¬header.toNat < 128)
    (hbyte : packed[pos]? = some byte) :
    ∃ next, unpackRun room header byte pos out = .ok next ∧ pos ≤ next.1 ∧
      next.2.length ≤ room ∧ unpacked packed room next =
        out ++ unpackBytes (.run (257 - header.toNat)) (room - out.length) (packed.drop pos) := by
  obtain ⟨hpos, hget⟩ := List.getElem?_eq_some_iff.mp hbyte
  have hnext : packed.drop pos = byte :: packed.drop (pos + 1) := by
    rw [← hget]
    exact List.drop_eq_getElem_cons hpos
  have hbound := header.toNat_lt
  unfold unpackRun
  rw [usize_ok (by omega), ok_bind, one_sub_signedByte hheader, isize_ok (by omega) (by omega),
    ok_bind, minus_ok (by omega), ok_bind, asSize_of_nonneg (by omega) (by omega),
    Int.toNat_natCast, usize_ok (by omega), ok_bind]
  refine ⟨_, rfl, by dsimp only; omega, ?_, ?_⟩
  · simp only [List.length_append, List.length_replicate]
    omega
  · rw [hnext, unpackBytes, unpacked, List.append_assoc, Nat.add_sub_cancel_left]
    congr 3
    rw [List.length_append, List.length_replicate]
    omega

theorem answers_unpackTurn (hpacked : packed.length < 2 ^ 63) (hroom : room < 2 ^ 64) :
    Answers (unpackTurn packed room) (fun s => s.2.length ≤ room) (fun s => packed.length - s.1)
      fun s b => b = unpacked packed room s := by
  rintro ⟨pos, out⟩ hout
  dsimp only at hout
  by_cases hgo : pos < packed.length ∧ out.length < room
  · obtain ⟨hpos, hlt⟩ := hgo
    have hdrop := List.drop_eq_getElem_cons hpos
    have hheader : packed[pos]? = some packed[pos] := List.getElem?_eq_getElem hpos
    generalize packed[pos] = header at *
    have hexpected : unpacked packed room (pos, out) =
        out ++ unpackBytes (Mode.ofHeader header) (room - out.length) (packed.drop (pos + 1)) := by
      rw [unpacked, hdrop, unpackBytes]
    simp only [hexpected]
    rw [unpackTurn, if_pos ⟨hpos, hlt⟩, get_ok hheader, ok_bind, usize_ok (by omega),
      ok_bind, Mode.ofHeader]
    by_cases hskip : header.toNat = 128
    · refine Or.inr ⟨(pos + 1, out), by rw [if_pos hskip]; rfl, hout, by dsimp only; omega, ?_⟩
      rintro b rfl
      rw [if_neg (by omega), if_pos hskip, unpacked]
    · rw [if_neg hskip, if_neg hskip]
      by_cases hliteral : header.toNat < 128
      · obtain ⟨next, hturn, hmoves, hfits, hsame⟩ :=
          unpackLiteral_ok hpacked hroom hout (show pos + 1 ≤ packed.length from hpos) hliteral
        rw [if_pos hliteral, if_pos hliteral, hturn]
        exact Or.inr ⟨next, rfl, hfits, by omega, fun b hb => hb.trans hsame⟩
      · rw [if_neg hliteral, if_neg hliteral]
        cases hbyte : packed[pos + 1]? with
        | none =>
          left
          refine ⟨out, rfl, ?_⟩
          rw [List.drop_of_length_le (List.getElem?_eq_none_iff.mp hbyte), unpackBytes,
            List.append_nil]
        | some byte =>
          obtain ⟨next, hturn, hmoves, hfits, hsame⟩ :=
            unpackRun_ok hpacked hroom hout hliteral hbyte
          dsimp only
          rw [hturn]
          exact Or.inr ⟨next, rfl, hfits, by omega, fun b hb => hb.trans hsame⟩
  · left
    have hnone : unpackBytes .header (room - out.length) (packed.drop pos) = [] := by
      by_cases hpos : pos < packed.length
      · have hfull : room - out.length = 0 := by omega
        rw [hfull, unpackBytes_zero]
      · rw [List.drop_of_length_le (by omega), unpackBytes]
    refine ⟨out, by rw [unpackTurn, if_neg hgo]; rfl, ?_⟩
    show out = out ++ unpackBytes .header (room - out.length) (packed.drop pos)
    rw [hnone, List.append_nil]

/-- A packed row expands without a fault. -/
theorem unpack_ok (hpacked : packed.length < 2 ^ 63) (hroom : room < 2 ^ 64) :
    unpack packed room = .ok (decodeBytes room packed) := by
  obtain ⟨b, hloop, rfl⟩ := (answers_unpackTurn hpacked hroom).loop_ok (packed.length + 1)
    (a := (0, [])) (Nat.zero_le room) (Nat.lt_succ_of_le (Nat.sub_le _ _))
  exact hloop

end

/-! ## Words -/

def wordAt (packed : List UInt8) (pos : Nat) : Checked UInt16 := do
  let hi ← get packed pos
  let behind ← usize (pos + 1)
  let lo ← get packed behind
  pure (word hi lo)

/-- Where the loops over the packets of a row of words stand: how many pixels have got their words,
the index of the next byte, and the words of all pixels. -/
structure WordLoop where
  done : Nat
  pos : Nat
  out : List UInt16
  deriving DecidableEq, Repr

/-- One turn of the loop over a literal that goes on up to pixel `till`. -/
def wordLiteralTurn (packed : List UInt8) (width till : Nat) (s : WordLoop) :
    Checked (WordLoop ⊕ WordLoop) :=
  if s.done < till ∧ s.done < width then do
    let last ← usize (s.pos + 1)
    if last < packed.length then
      let unit ← wordAt packed s.pos
      let out ← put s.out s.done unit
      let done ← usize (s.done + 1)
      let pos ← usize (s.pos + 2)
      pure (.inl ⟨done, pos, out⟩)
    else pure (.inr s)
  else pure (.inr s)

def wordRun (packed : List UInt8) (width : Nat) (header : UInt8) (s : WordLoop) :
    Checked WordLoop := do
  let unit ← wordAt packed s.pos
  let pos ← usize (s.pos + 2)
  let count ← isize (1 - signedByte header)
  let reach ← usize (s.done + asSize count)
  let till := min reach width
  let place ← slice s.out s.done till
  let out ← copy s.out s.done till (List.replicate place.length unit)
  pure ⟨till, pos, out⟩

def wordTurn (packed : List UInt8) (width : Nat) (s : WordLoop) :
    Checked (WordLoop ⊕ List UInt16) :=
  if s.done < width then do
    let last ← usize (s.pos + 1)
    if last < packed.length then
      let header ← get packed s.pos
      let pos ← usize (s.pos + 1)
      if header.toNat = 128 then pure (.inl { s with pos })
      else if header.toNat < 128 then
        let units ← usize (s.done + header.toNat)
        let till ← usize (units + 1)
        let next ← loop (wordLiteralTurn packed width till) (packed.length + 1) { s with pos }
        pure (.inl next)
      else
        let last ← usize (pos + 1)
        if packed.length ≤ last then pure (.inr s.out)
        else
          let next ← wordRun packed width header { s with pos }
          pure (.inl next)
    else pure (.inr s.out)
  else pure (.inr s.out)

/-- The words of `width` pixels that a packed row expands to. -/
def wordsOf (packed : List UInt8) (width : Nat) : Checked (List UInt16) :=
  loop (wordTurn packed width) (packed.length + 1) ⟨0, 0, List.replicate width 0⟩

namespace WordLoop

/-- Pixels without a word are zero. -/
def Filled (width : Nat) (s : WordLoop) : Prop :=
  s.done ≤ width ∧ s.out = fit width (s.out.take s.done)

/-- What the row expands to if its next byte is what `m` says. -/
def expected (packed : List UInt8) (width : Nat) (m : Mode) (s : WordLoop) : List UInt16 :=
  fit width (s.out.take s.done ++ unpackWords m (width - s.done) (packed.drop s.pos))

variable {packed : List UInt8} {width : Nat} {s : WordLoop}

theorem Filled.length (h : s.Filled width) : s.out.length = width := by
  rw [h.2, length_fit]

theorem Filled.write (h : s.Filled width) (units : List UInt16)
    (hfits : s.done + units.length ≤ width) (pos : Nat) :
    Filled width ⟨s.done + units.length, pos, overwrite s.out s.done units⟩ ∧
      (overwrite s.out s.done units).take (s.done + units.length) =
        s.out.take s.done ++ units := by
  have hdone : (s.out.take s.done).length = s.done := by
    rw [List.length_take, h.length]
    exact Nat.min_eq_left h.1
  have hover : overwrite s.out s.done units = fit width (s.out.take s.done ++ units) := by
    have hfit : overwrite (fit width (s.out.take s.done)) (s.out.take s.done).length units =
        fit width (s.out.take s.done ++ units) := overwrite_fit (by omega)
    rwa [← h.2, hdone] at hfit
  have htake : (overwrite s.out s.done units).take (s.done + units.length) =
      s.out.take s.done ++ units := by
    have hlength : (s.out.take s.done ++ units).length = s.done + units.length := by
      rw [List.length_append, hdone]
    rw [hover, ← hlength]
    exact take_fit (by omega)
  refine ⟨⟨hfits, ?_⟩, htake⟩
  dsimp only
  rw [htake, hover]

/-- Where there is no room or no word any more, the row has expanded to what there is. -/
theorem expected_over (h : s.done = width ∨ packed.length ≤ s.pos + 1) (m : Mode) :
    expected packed width m s = fit width (s.out.take s.done) := by
  have hnone : unpackWords m (width - s.done) (packed.drop s.pos) = [] := by
    rcases h with hdone | hpos
    · rw [hdone, Nat.sub_self, unpackWords_zero]
    · exact unpackWords_short m _ (by rw [List.length_drop]; omega)
  rw [expected, hnone, List.append_nil]

end WordLoop

open WordLoop

section
variable {packed : List UInt8} {width : Nat}

theorem wordAt_ok {pos : Nat} (hpacked : packed.length < 2 ^ 63) (h : pos + 1 < packed.length) :
    ∃ hi lo, wordAt packed pos = .ok (word hi lo) ∧
      packed.drop pos = hi :: lo :: packed.drop (pos + 2) := by
  have hhi : packed[pos]? = some packed[pos] := List.getElem?_eq_getElem (by omega)
  have hlo : packed[pos + 1]? = some packed[pos + 1] := List.getElem?_eq_getElem h
  refine ⟨packed[pos], packed[pos + 1], ?_, ?_⟩
  · rw [wordAt, get_ok hhi, ok_bind, usize_ok (by omega), ok_bind, get_ok hlo, ok_bind]
    rfl
  · rw [List.drop_eq_getElem_cons (show pos < packed.length by omega),
      List.drop_eq_getElem_cons h]

theorem answers_wordLiteralTurn (hpacked : packed.length < 2 ^ 63) (hwidth : width < 2 ^ 62)
    (till : Nat) :
    Answers (wordLiteralTurn packed width till)
      (fun s => s.Filled width ∧ s.done ≤ till ∧ s.pos ≤ packed.length)
      (fun s => packed.length - s.pos)
      fun s t => t.Filled width ∧ s.pos ≤ t.pos ∧ t.pos ≤ packed.length ∧
        expected packed width .header t =
          expected packed width (Mode.afterUnit (till - s.done)) s := by
  rintro s ⟨hs, htill, hpos⟩
  by_cases hgo : s.done < till ∧ s.done < width
  · rw [wordLiteralTurn, if_pos hgo, usize_ok (by omega), ok_bind]
    by_cases hword : s.pos + 1 < packed.length
    · right
      obtain ⟨hi, lo, hunit, hdrop⟩ := wordAt_ok hpacked hword
      obtain ⟨hfilled, htake⟩ := hs.write [word hi lo] hgo.2 (s.pos + 2)
      rw [if_pos hword, hunit, ok_bind, put_ok (by rw [hs.length]; exact hgo.2), ok_bind,
        usize_ok (by omega), ok_bind, usize_ok (by omega), ok_bind]
      refine ⟨_, rfl, ⟨hfilled, by dsimp only; omega, by dsimp only; omega⟩, by dsimp only; omega,
        ?_⟩
      rintro t ⟨htf, hmoves, hend, hsame⟩
      refine ⟨htf, by dsimp only at hmoves; omega, hend, hsame.trans ?_⟩
      obtain ⟨more, hmore⟩ : ∃ more, till - s.done = more + 1 := ⟨till - s.done - 1, by omega⟩
      obtain ⟨room, hroom⟩ : ∃ room, width - s.done = room + 1 := ⟨width - s.done - 1, by omega⟩
      have hmore' : till - (s.done + 1) = more := by omega
      have hroom' : width - (s.done + 1) = room := by omega
      rw [List.length_singleton] at htake
      rw [expected, expected, hmore, hmore', hroom, hroom', hdrop, htake, Mode.afterUnit,
        unpackWords, List.append_assoc, List.singleton_append]
    · left
      rw [if_neg hword]
      refine ⟨s, rfl, hs, Nat.le_refl _, hpos, ?_⟩
      rw [expected_over (Or.inr (by omega)), expected_over (Or.inr (by omega))]
  · left
    refine ⟨s, by rw [wordLiteralTurn, if_neg hgo]; rfl, hs, Nat.le_refl _, hpos, ?_⟩
    by_cases hdone : s.done = till
    · rw [hdone, Nat.sub_self, Mode.afterUnit]
    · have hfull : s.done = width := Nat.le_antisymm hs.1 (by omega)
      rw [expected_over (Or.inl hfull), expected_over (Or.inl hfull)]

theorem wordRun_ok {header : UInt8} {s : WordLoop} (hpacked : packed.length < 2 ^ 63)
    (hwidth : width < 2 ^ 62) (hs : s.Filled width) (hheader : ¬header.toNat < 128)
    (hword : s.pos + 1 < packed.length) :
    ∃ t, wordRun packed width header s = .ok t ∧ t.Filled width ∧ t.pos = s.pos + 2 ∧
      expected packed width .header t = expected packed width (.run (257 - header.toNat)) s := by
  obtain ⟨hi, lo, hunit, hdrop⟩ := wordAt_ok hpacked hword
  have hdone := hs.1
  have hlength := hs.length
  have hbound := header.toNat_lt
  unfold wordRun
  rw [hunit, ok_bind, usize_ok (by omega), ok_bind, one_sub_signedByte hheader,
    isize_ok (by omega) (by omega), ok_bind,
    asSize_of_nonneg (by omega) (by omega), Int.toNat_natCast, usize_ok (by omega), ok_bind]
  dsimp only
  rw [slice_ok (by omega) (by omega), ok_bind,
    copy_ok (by omega) (by omega)
      (by simp only [List.length_replicate, List.length_drop, List.length_take]; omega), ok_bind]
  generalize hn : min (257 - header.toNat) (width - s.done) = n
  have hplace : ((s.out.take (min (s.done + (257 - header.toNat)) width)).drop s.done).length =
      n := by
    rw [List.length_drop, List.length_take]
    omega
  have htill : min (s.done + (257 - header.toNat)) width = s.done + n := by omega
  obtain ⟨hfilled, htake⟩ :=
    hs.write (List.replicate n (word hi lo)) (by rw [List.length_replicate]; omega)
      (s.pos + 2)
  rw [List.length_replicate] at hfilled htake
  rw [hplace, htill]
  refine ⟨_, rfl, hfilled, rfl, ?_⟩
  have hroom : width - (s.done + n) = width - s.done - (257 - header.toNat) := by omega
  rw [expected, expected, hdrop, htake, unpackWords, hn, hroom, List.append_assoc]

theorem answers_wordTurn (hpacked : packed.length < 2 ^ 63) (hwidth : width < 2 ^ 62) :
    Answers (wordTurn packed width) (fun s => s.Filled width ∧ s.pos ≤ packed.length)
      (fun s => packed.length - s.pos) fun s out => out = expected packed width .header s := by
  rintro s ⟨hs, hpos⟩
  by_cases hgo : s.done < width
  · rw [wordTurn, if_pos hgo, usize_ok (by omega), ok_bind]
    by_cases hmore : s.pos + 1 < packed.length
    · have hdrop := List.drop_eq_getElem_cons (show s.pos < packed.length by omega)
      have hheader : packed[s.pos]? = some packed[s.pos] := List.getElem?_eq_getElem (by omega)
      generalize packed[s.pos] = header at *
      have hexpected : expected packed width .header s =
          expected packed width (Mode.ofHeader header) { s with pos := s.pos + 1 } := by
        rw [expected, expected, hdrop, unpackWords]
      have hbehind : Filled width { s with pos := s.pos + 1 } := hs
      rw [if_pos hmore, get_ok hheader, ok_bind, ok_bind]
      simp only [hexpected]
      rw [Mode.ofHeader]
      by_cases hskip : header.toNat = 128
      · refine Or.inr ⟨{ s with pos := s.pos + 1 }, by rw [if_pos hskip]; rfl,
          ⟨hbehind, by dsimp only; omega⟩, by dsimp only; omega, ?_⟩
        rintro out rfl
        rw [if_neg (by omega), if_pos hskip]
      · rw [if_neg hskip, if_neg hskip]
        by_cases hliteral : header.toNat < 128
        · have hturns := answers_wordLiteralTurn hpacked hwidth (s.done + header.toNat + 1)
          obtain ⟨next, hloop, hfilled, hmoves, hend, hsame⟩ :=
            hturns.loop_ok (packed.length + 1) (a := { s with pos := s.pos + 1 })
              ⟨hbehind, by dsimp only; omega, by dsimp only; omega⟩ (by dsimp only; omega)
          rw [if_pos hliteral, if_pos hliteral, usize_ok (by omega), ok_bind,
            usize_ok (by omega), ok_bind, hloop]
          refine Or.inr ⟨next, rfl, ⟨hfilled, hend⟩, by dsimp only at hmoves; omega, ?_⟩
          rintro out rfl
          have hunits : s.done + header.toNat + 1 - s.done = header.toNat + 1 := by omega
          rw [hsame, hunits, Mode.afterUnit]
        · rw [if_neg hliteral, if_neg hliteral, usize_ok (by omega), ok_bind]
          by_cases hword : packed.length ≤ s.pos + 1 + 1
          · left
            rw [if_pos hword]
            refine ⟨s.out, rfl, ?_⟩
            rw [expected_over (Or.inr hword)]
            exact hs.2
          · obtain ⟨next, hrun, hfilled, hpos', hsame⟩ :=
              wordRun_ok hpacked hwidth hbehind hliteral (by dsimp only; omega)
            dsimp only at hpos'
            rw [if_neg hword, hrun]
            exact Or.inr ⟨next, rfl, ⟨hfilled, by omega⟩, by omega, fun out h => h.trans hsame⟩
    · left
      rw [if_neg hmore]
      exact ⟨s.out, rfl, hs.2.trans (expected_over (Or.inr (by omega)) .header).symm⟩
  · left
    have hfull : s.done = width := Nat.le_antisymm hs.1 (by omega)
    exact ⟨s.out, by rw [wordTurn, if_neg hgo]; rfl,
      hs.2.trans (expected_over (Or.inl hfull) .header).symm⟩

/-- A packed row of words expands without a fault. -/
theorem wordsOf_ok (hpacked : packed.length < 2 ^ 63) (hwidth : width < 2 ^ 62) :
    wordsOf packed width = .ok (decodeWords width packed) := by
  have hblank : fit width ([] : List UInt16) = List.replicate width 0 := fit_nil width
  obtain ⟨out, hloop, rfl⟩ := (answers_wordTurn hpacked hwidth).loop_ok
    (packed.length + 1) (a := ⟨0, 0, List.replicate width 0⟩)
    ⟨⟨Nat.zero_le _, hblank.symm⟩, Nat.zero_le _⟩ (by dsimp only; omega)
  rw [wordsOf, hloop, expected, List.take_zero, List.nil_append, decodeWords]
  rfl

end

/-! ## Rows of any bytes -/

/-- A row of bytes, whatever they are, is decoded to the front of its expansion that there is room
for, and so it is by the loop of a machine. -/
theorem decodeBytes_expansion (packed : List UInt8) (room : Nat) :
    decodeBytes room packed = (byteUnits.expansion packed).take room ∧
      (decodeBytes room packed).length ≤ room ∧
      (∀ less ≤ room, decodeBytes less packed <+: decodeBytes room packed) ∧
      (packed.length < 2 ^ 63 → room < 2 ^ 64 →
        unpack packed room = .ok ((byteUnits.expansion packed).take room)) := by
  have hrow : ∀ room, decodeBytes room packed = (byteUnits.expansion packed).take room :=
    unpacksRows_bytes.expansion packed
  refine ⟨hrow room, length_decodeBytes_le room packed, ?_, ?_⟩
  · intro less hless
    rw [hrow, hrow]
    exact List.take_prefix_take_left hless
  · intro hpacked hroom
    rw [unpack_ok hpacked hroom, hrow]

/-- A literal, a packet that stands for nothing, a run, and a literal that lacks four of its bytes,
of which the room cuts off another one. -/
theorem decodeBytes_cutLiteral :
    decodeBytes 3 [1, 0x41, 0x42, 0x80, 0xFD, 0xAA, 5, 1, 2] <+:
        decodeBytes 7 [1, 0x41, 0x42, 0x80, 0xFD, 0xAA, 5, 1, 2] ∧
      unpack [1, 0x41, 0x42, 0x80, 0xFD, 0xAA, 5, 1, 2] 7 =
        .ok [0x41, 0x42, 0xAA, 0xAA, 0xAA, 0xAA, 1] := by
  obtain ⟨hrow, -, hless, hloop⟩ :=
    decodeBytes_expansion [1, 0x41, 0x42, 0x80, 0xFD, 0xAA, 5, 1, 2] 7
  refine ⟨hless 3 (by decide), ?_⟩
  rw [hloop (by decide) (by decide), ← hrow]
  rfl

/-- A row of words, whatever its bytes are, is decoded to its expansion, cut or padded with zeros
to the width, and so it is by the loops of a machine. Words that are written as packets come back,
however the packets divide them. -/
theorem decodeWords_expansion (packed : List UInt8) (width : Nat) :
    (decodeWords width packed).length = width ∧
      decodeWords width packed = fit width (wordUnits.expansion packed) ∧
      (∀ ps : List (Packet UInt16), (∀ p ∈ ps, p.Valid) → (expandAll ps).length = width →
        decodeWords width (bytesOf writeWord ps) = expandAll ps) ∧
      (packed.length < 2 ^ 63 → width < 2 ^ 62 →
        wordsOf packed width = .ok (fit width (wordUnits.expansion packed))) := by
  have hrow : decodeWords width packed = fit width (wordUnits.expansion packed) := by
    rw [decodeWords, unpacksRows_words.expansion, fit_take]
  refine ⟨length_decodeWords width packed, hrow, ?_, ?_⟩
  · intro ps hv hlength
    rw [decodeWords_packets hv, fit_of_length hlength]
  · intro hpacked hwidth
    rw [wordsOf_ok hpacked hwidth, hrow]

/-- Five words divided between three packets, and a literal that is cut in the middle of a word. -/
theorem decodeWords_dividedWords :
    decodeWords 5 (bytesOf writeWord [.literal [0x1234, 0x5678], .skip, .run 3 0xABCD]) =
        [0x1234, 0x5678, 0xABCD, 0xABCD, 0xABCD] ∧
      wordsOf [2, 0x12, 0x34, 0x56] 5 = .ok [0x1234, 0, 0, 0, 0] := by
  obtain ⟨-, hrow, hwords, hloop⟩ := decodeWords_expansion [2, 0x12, 0x34, 0x56] 5
  refine ⟨hwords _ (by decide) rfl, ?_⟩
  rw [hloop (by decide) (by decide), ← hrow]
  rfl

end Pict.Machine
