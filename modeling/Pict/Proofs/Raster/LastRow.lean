import Mathlib.Data.List.Basic
import Pict.Proofs.Raster.RunOut

/-!
# Rows that end the data

Complete rows are read back when something follows them. At the end of the data the last packed
row is one byte short, since one byte is always left (`Format.leftOver`), and rows without any
bytes are not there at all. `Format.endStrips` is what such rows decode to.

Results:
* `readPackedRow_last`: a packed row at the end of the data.
* `readRows_last`: all rows of a raster at the end of the data.
-/
namespace Pict

namespace Format

/-- What rows decode to that end the data. -/
def endStrips (f : Format) (width rowBytes : Nat) (rows : List (List UInt8)) : List Strip :=
  if f.isPacked rowBytes then
    rows.dropLast.flatMap (f.rowStrips width rowBytes) ++
      rows.getLast?.toList.flatMap fun row => f.rowStrips width rowBytes row.dropLast
  else if rowBytes = 0 then []
  else rows.flatMap (f.rowStrips width rowBytes)

/-- Whether rows that end the data mark the picture as colored. -/
def endColored (f : Format) (rowBytes : Nat) (rows : List (List UInt8)) : Bool :=
  f.isDirect && !rows.isEmpty && (f.isPacked rowBytes || rowBytes ≠ 0)

/-- What is left of the data behind rows that end it: the last byte of a packed row, or of its
length. -/
def leftOver (f : Format) (rowBytes : Nat) (rows : List (List UInt8)) : List UInt8 :=
  if f.isPacked rowBytes then rows.getLast?.toList.map fun row => row.getLastD 0 else []

theorem writeLength_zero (rowBytes : Nat) : ∃ front, writeLength rowBytes 0 = front ++ [0] := by
  unfold writeLength
  split
  · exact ⟨[0], rfl⟩
  · exact ⟨[], rfl⟩

end Format

namespace Raster

open Job

variable {f : Format} {width height rowBytes : Nat} {front : List UInt8} {p : Picture}
  {s : Session Walk}

/-- A packed row that ends the data is taken without its last byte. -/
theorem takenRow_last {row : List UInt8} (hcap : row.length ≤ packedCapacity rowBytes)
    (hshort : row.length < 0x8000) (front : List UInt8) :
    ∃ before, takenRow rowBytes (.between front (Format.writeLength rowBytes row.length ++ row)) =
      some (row.dropLast, .between before [row.getLastD 0]) := by
  have hread := takes_readLength (fitsLength_of_le hcap hshort) front row
  unfold takenRow
  rw [hread]
  dsimp only
  rcases row.eq_nil_or_concat' with rfl | ⟨init, last, rfl⟩
  · -- the cursor goes back to the length
    obtain ⟨first, hlength⟩ := Format.writeLength_zero rowBytes
    refine ⟨front ++ first, ?_⟩
    have hneg : fitLength (0 : Nat) (packedCapacity rowBytes) 0 < 0 :=
      fitLength_lt_remaining _ _ _
    have hback : (Cursor.between (front ++ (first ++ [0])) []).seek
        ((Cursor.between (front ++ (first ++ [0])) []).source.size - 1) =
          .between (front ++ first) [0] := by
      simp [Cursor.between, Cursor.seek]
    rw [List.length_nil, hlength, settle, Cursor.remaining_between, List.length_nil, if_pos hneg,
      hback]
    have hnext := Cursor.next_between (front ++ first) [] [0] List.length_nil
    have hskip := Cursor.skip_between (front ++ first) [] [0] List.length_nil
    rw [List.append_nil] at hskip
    exact congrArg some (Prod.ext hnext hskip)
  · refine ⟨front ++ Format.writeLength rowBytes (init ++ [last]).length ++ init, ?_⟩
    have hfit : fitLength (init ++ [last]).length (packedCapacity rowBytes) (init.length + 1) =
        init.length := by
      unfold fitLength
      rw [List.length_append] at hcap ⊢
      simp only [List.length_singleton] at hcap ⊢
      omega
    have hremaining : (Cursor.between (front ++ Format.writeLength rowBytes (init ++ [last]).length)
        (init ++ [last])).remaining = init.length + 1 := by
      rw [Cursor.remaining_between, List.length_append, List.length_singleton]
    have hneg : ¬ (init.length : Int) < 0 := by omega
    rw [settle, hremaining, hfit, if_neg hneg, Int.toNat_natCast]
    rw [Cursor.next_between _ _ _ rfl, Cursor.skip_between _ _ _ rfl]
    simp

/-- A packed row at the end of the data. -/
theorem readPackedRow_last (hp : f.isPacked rowBytes = true) (hf : f.Decodable rowBytes)
    {bytes : List UInt8} (hb : f.Complete rowBytes bytes) (width height row : Nat)
    (hs : Stands s front (f.writeRow rowBytes bytes) p) :
    ∃ t before, readPackedRow f width height rowBytes row .never s = .ok true t ∧
      Stands t before [bytes.getLastD 0]
        (p.extend (f.rowStrips width rowBytes bytes.dropLast) f.isDirect) := by
  rw [Format.Complete, if_pos hp] at hb
  obtain ⟨before, htaken⟩ := takenRow_last hb.1 hb.2 front
  have hcursor := hs.cursor
  rw [Format.writeRow, if_pos hp] at hcursor
  rw [← hcursor] at htaken
  have hstrips := Format.rowStrips?_eq_ok hf width bytes.dropLast
  rw [Format.rowStrips?, if_pos hp] at hstrips
  have hrow := readPackedRow_some f width height row .never htaken
  rw [hstrips] at hrow
  obtain ⟨t, ht, htcursor, hpicture⟩ := hrow
  rw [hs.picture] at hpicture
  exact ⟨t, before, ht, htcursor, hpicture⟩

/-- A row that stands as it is needs nothing behind it if it has bytes. -/
theorem readRawRow_last (hp : f.isPacked rowBytes = false) (hf : f.Decodable rowBytes)
    {bytes : List UInt8} (hb : f.Complete rowBytes bytes) (hne : bytes ≠ []) (width height row : Nat)
    (hs : Stands s front (f.writeRow rowBytes bytes) p) :
    ∃ t before, readRawRow f width height rowBytes row .never s = .ok true t ∧
      Stands t before [] (p.extend (f.rowStrips width rowBytes bytes) f.isDirect) := by
  have hmore : bytes ++ [] ≠ [] := List.append_ne_nil_of_left_ne_nil hne _
  rw [← List.append_nil (f.writeRow rowBytes bytes)] at hs
  obtain ⟨t, ht, hst⟩ := passes_readRawRow hp hf hb width height row hmore p s hs
  exact ⟨t, _, ht, hst⟩

theorem readRawRow_end (f : Format) (width height rowBytes row : Nat) (hs : Stands s front [] p) :
    ∃ t, readRawRow f width height rowBytes row .never s = .ok false t ∧ t.work = s.work := by
  refine ⟨{ s with warnings := s.warnings.push (.rawRowsEnded row height) }, ?_, rfl⟩
  have hend : s.work.cursor.atEnd = true := by
    rw [hs.cursor]
    exact (Cursor.atEnd_between _ _).mpr rfl
  refine bind_eq_ok.mpr ⟨s.work.cursor, s, rfl, ?_⟩
  rw [if_pos hend]
  rfl

theorem eachRow_last {body : Nat → Job Walk Bool} {row : Nat} {bytes : List UInt8} {more : Bool}
    {Q : Session Walk → Prop} (left : Nat) (hs : Stands s front bytes p)
    (hbody : ∀ u, Stands u front bytes p → ∃ t, body row .never u = .ok more t ∧ Q t)
    (hlast : more = true → left = 0) :
    ∃ t, Job.eachRow body row (left + 1) .never s = .ok () t ∧ Q t := by
  obtain ⟨u, hu, hwork, -⟩ := checkRow_never row s
  have hsu : Stands u front bytes p := ⟨hwork ▸ hs.cursor, hwork ▸ hs.picture⟩
  obtain ⟨t, ht, hq⟩ := hbody u hsu
  refine ⟨t, bind_eq_ok.mpr ⟨(), u, hu, bind_eq_ok.mpr ⟨more, t, ht, ?_⟩⟩, hq⟩
  cases more with
  | true =>
    obtain rfl := hlast rfl
    rfl
  | false => rfl

theorem readRows_snoc {f : Format} {init : List (List UInt8)} {last : List UInt8}
    (left : List UInt8) (strips : List Strip) (hf : f.Decodable p.rowBytes)
    (hrows : ∀ row ∈ init, f.Complete p.rowBytes row)
    (hn : init.length + 1 = p.declaredHeight) (hne : f.writeRow p.rowBytes last ≠ [])
    (hlast : ∀ front q u, Stands u front (f.writeRow p.rowBytes last) q →
      ∃ t before, readRow f p init.length .never u = .ok true t ∧
        Stands t before left (q.extend strips f.isDirect))
    (hs : Stands s front ((init ++ [last]).flatMap (f.writeRow p.rowBytes)) p) :
    ∃ t before, readRows f .never s = .ok () t ∧
      Stands t before left
        (p.extend (init.flatMap (f.rowStrips p.width p.rowBytes) ++ strips) f.isDirect) := by
  rw [List.flatMap_append, List.flatMap_singleton] at hs
  have hinit : ∀ x ∈ init, ∀ row front more q, more ≠ [] →
      Passes (readRow f p row) front (f.writeRow p.rowBytes x) more q true
        (q.extend (f.rowStrips p.width p.rowBytes x) f.isDirect) := by
    intro x hx row front more q hmore
    unfold readRow
    cases hp : f.isPacked p.rowBytes with
    | true => exact passes_readPackedRow hp hf (hrows x hx) _ _ _ hmore q
    | false =>
      exact passes_readRawRow hp hf (hrows x hx) _ _ _ (List.append_ne_nil_of_right_ne_nil _ hmore) q
  obtain ⟨u, hu, hsu⟩ := Passes.eachRow_then _ _ _ hne 1 init hinit 0 front p s hs
  rw [Picture.foldl_extend] at hsu
  rw [Nat.zero_add] at hu
  obtain ⟨t, ht, before, hst⟩ := eachRow_last (Q := fun t => ∃ before, Stands t before left _) 0 hsu
    (fun v hv => by
      obtain ⟨t, before, ht, hst⟩ := hlast _ _ v hv
      exact ⟨t, ht, before, hst⟩) fun _ => rfl
  have hcolor : (f.isDirect && !init.isEmpty || f.isDirect) = f.isDirect := by
    cases f.isDirect <;> simp
  rw [Picture.extend_extend, hcolor] at hst
  refine ⟨t, before, ?_, hst⟩
  refine bind_eq_ok.mpr ⟨p, s, ?_, ?_⟩
  · rw [← hs.picture]
    rfl
  · show Job.eachRow (readRow f p) 0 p.declaredHeight .never s = _
    rw [← hn]
    exact hu.trans ht

/-- Rows without bytes are not there at the end of the data. -/
theorem readRows_blank {f : Format} (hp : f.isPacked p.rowBytes = false)
    (hs : Stands s front [] p) :
    ∃ t, readRows f .never s = .ok () t ∧ Stands t front [] p := by
  have hpicture : Walk.getPicture .never s = .ok p s := by
    rw [← hs.picture]
    rfl
  cases hn : p.declaredHeight with
  | zero =>
    refine ⟨s, bind_eq_ok.mpr ⟨p, s, hpicture, ?_⟩, hs⟩
    rw [hn]
    rfl
  | succ left =>
    have hrow : ∀ u, Stands u front [] p →
        ∃ t, readRow f p 0 .never u = .ok false t ∧ Stands t front [] p := by
      intro u hu
      obtain ⟨t, ht, hwork⟩ := readRawRow_end f p.width p.declaredHeight p.rowBytes 0 hu
      refine ⟨t, ?_, hwork ▸ hu.cursor, hwork ▸ hu.picture⟩
      rw [readRow, if_neg (by simp [hp])]
      exact ht
    obtain ⟨t, ht, hst⟩ := eachRow_last left hs hrow fun h => absurd h Bool.false_ne_true
    refine ⟨t, bind_eq_ok.mpr ⟨p, s, hpicture, ?_⟩, hst⟩
    show Job.eachRow (readRow f p) 0 p.declaredHeight .never s = _
    rw [hn]
    exact ht

/-- The rows of a raster at the end of the data. -/
theorem readRows_last (f : Format) {rows : List (List UInt8)}
    (hf : rows ≠ [] → f.Decodable p.rowBytes) (hrows : ∀ row ∈ rows, f.Complete p.rowBytes row)
    (hn : rows.length = p.declaredHeight)
    (hs : Stands s front (rows.flatMap (f.writeRow p.rowBytes)) p) :
    ∃ t before, readRows f .never s = .ok () t ∧
      Stands t before (f.leftOver p.rowBytes rows)
        (p.extend (f.endStrips p.width p.rowBytes rows) (f.endColored p.rowBytes rows)) := by
  unfold Format.endStrips Format.endColored Format.leftOver
  rcases rows.eq_nil_or_concat' with rfl | ⟨init, last, rfl⟩
  · refine ⟨s, front, bind_eq_ok.mpr ⟨p, s, by rw [← hs.picture]; rfl, ?_⟩, ?_⟩
    · rw [← hn]
      rfl
    · simpa [Picture.extend_nil] using hs
  have hf := hf (by simp)
  have hlast := hrows last (by simp)
  have hinit : ∀ row ∈ init, f.Complete p.rowBytes row := fun row hrow =>
    hrows row (List.mem_append_left _ hrow)
  have hsome : (init ++ [last]).isEmpty = false := by simp
  rw [List.length_append, List.length_singleton] at hn
  cases hp : f.isPacked p.rowBytes with
  | true =>
    have hne : f.writeRow p.rowBytes last ≠ [] := by
      rw [Format.writeRow, if_pos hp, Format.writeLength]
      split <;> simp [PackBits.writeWord]
    have hread := readRows_snoc [last.getLastD 0] (f.rowStrips p.width p.rowBytes last.dropLast) hf
      hinit hn hne (fun front q u hu => by
        rw [readRow, if_pos hp]
        exact readPackedRow_last hp hf hlast _ _ _ hu) hs
    simpa [hsome] using hread
  | false =>
    have hwrite : ∀ row, f.writeRow p.rowBytes row = row := fun row => by
      rw [Format.writeRow, if_neg (by simp [hp])]
    have hlength : ∀ row ∈ init ++ [last], row.length = p.rowBytes := by
      intro row hrow
      simpa [Format.Complete, hp] using hrows row hrow
    by_cases hbytes : p.rowBytes = 0
    · have hempty : (init ++ [last]).flatMap (f.writeRow p.rowBytes) = [] := by
        rw [List.flatMap_eq_nil_iff]
        intro row hrow
        rw [hwrite, List.eq_nil_of_length_eq_zero ((hlength row hrow).trans hbytes)]
      rw [hempty] at hs
      obtain ⟨t, ht, hst⟩ := readRows_blank hp hs
      exact ⟨t, front, ht, by simpa [hbytes, Picture.extend_nil] using hst⟩
    · have hne : last ≠ [] := by
        rintro rfl
        exact hbytes (hlength [] (by simp)).symm
      have hread := readRows_snoc [] (f.rowStrips p.width p.rowBytes last) hf hinit hn
        (by rwa [hwrite]) (fun front q u hu => by
          rw [readRow, if_neg (by simp [hp])]
          exact readRawRow_last hp hf hlast hne _ _ _ hu) hs
      simpa [hbytes, hsome] using hread

end Raster
end Pict
