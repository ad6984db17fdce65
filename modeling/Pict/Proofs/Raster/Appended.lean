import Pict.Proofs.Raster.RunOut

/-!
# What the rows of a raster leave of the picture

A row that is read adds its strips to the picture and, where pixels carry their color, marks it as
colored. A row that fails, or that there is no data for, does nothing. So rows change the picture
as their bytes say, row by row, and in no other way, however reading them ends.

Results:
* `readRow_cases`: what one row does to the picture.
* `readRows_extends`: what all rows of a raster do to it.
* `readRows_cut`: what they do when one of them is longer than the capacity.
-/
namespace Pict

namespace Format

/-- The pixels of a row can be decoded. One that stands as it is has all its bytes. -/
def Decodes (f : Format) (width rowBytes : Nat) (row : List UInt8) : Prop :=
  (f.isPacked rowBytes = false → row.length = rowBytes) ∧
    ∃ strips, f.rowStrips? width rowBytes row = .ok strips

/-- Strips are words where pixels have 16 bits, else bytes, which are expanded where pixels have less
than eight. -/
def StripOf (f : Format) (width : Nat) (strip : Strip) : Prop :=
  (f.pixelSize = 16 ∧ ∃ samples, strip = .words samples) ∨
    f.pixelSize ≠ 16 ∧ ∃ samples, strip = .bytes samples ∧
      (f.pixelSize < 8 → ∃ input, Depth.expandRow f.pixelSize width input = .ok samples)

variable {f : Format} {width rowBytes : Nat} {row : List UInt8} {strip : Strip}

theorem stripOf_raw (h : f.rawStrip width row = .ok strip) : f.StripOf width strip := by
  unfold rawStrip at h
  split at h
  · rename_i hsize
    exact Or.inl ⟨hsize, _, (Except.ok.inj h).symm⟩
  · rename_i hsize
    refine Or.inr ⟨hsize, ?_⟩
    split at h
    · exact ⟨row, (Except.ok.inj h).symm, fun hlt => by omega⟩
    · obtain ⟨samples, hrow, rfl⟩ := map_eq_ok.mp h
      exact ⟨samples, rfl, fun _ => ⟨row, hrow⟩⟩

theorem stripOf_packed {strips : List Strip} (h : f.packedStrips width row = .ok strips)
    (hmem : strip ∈ strips) : f.StripOf width strip := by
  unfold packedStrips at h
  split at h
  · rename_i hsize
    obtain rfl := Except.ok.inj h
    exact Or.inl ⟨hsize, _, List.mem_singleton.mp hmem⟩
  · rename_i hsize
    refine Or.inr ⟨hsize, ?_⟩
    dsimp only at h
    split at h
    · obtain ⟨samples, hrow, rfl⟩ := map_eq_ok.mp h
      exact ⟨samples, List.mem_singleton.mp hmem, fun _ => ⟨_, hrow⟩⟩
    · -- what has a byte or more is stored as it is, or not at all
      rename_i hlarge
      split at h
      · obtain rfl := Except.ok.inj h
        exact ⟨_, List.mem_singleton.mp hmem, fun hlt => absurd hlt hlarge⟩
      · split at h
        · obtain rfl := Except.ok.inj h
          obtain ⟨c, -, rfl⟩ := List.mem_map.mp hmem
          exact ⟨_, rfl, fun hlt => absurd hlt hlarge⟩
        · obtain rfl := Except.ok.inj h
          cases hmem

theorem mem_rowStrips (h : strip ∈ f.rowStrips width rowBytes row) : f.StripOf width strip := by
  unfold rowStrips at h
  cases hstrips : f.rowStrips? width rowBytes row with
  | error e =>
    rw [hstrips] at h
    cases h
  | ok strips =>
    rw [hstrips] at h
    unfold rowStrips? at hstrips
    split at hstrips
    · exact stripOf_packed hstrips h
    · obtain ⟨one, hone, rfl⟩ := map_eq_ok.mp hstrips
      obtain rfl := List.mem_singleton.mp h
      exact stripOf_raw hone

end Format

namespace Picture

/-- The picture with more rows of a raster, which were read for a canvas of this width. -/
def withRows (p : Picture) (f : Format) (width rowBytes : Nat) (rows : List (List UInt8)) :
    Picture :=
  p.extend (rows.flatMap (f.rowStrips width rowBytes)) (f.isDirect && !rows.isEmpty)

theorem withRows_nil (p : Picture) (f : Format) (width rowBytes : Nat) :
    p.withRows f width rowBytes [] = p := by
  rw [withRows, List.isEmpty_nil, Bool.not_true, Bool.and_false]
  exact p.extend_nil

theorem withRows_cons (p : Picture) (f : Format) (width rowBytes : Nat) (row : List UInt8)
    (rows : List (List UInt8)) :
    p.withRows f width rowBytes (row :: rows) =
      (p.extend (f.rowStrips width rowBytes row) f.isDirect).withRows f width rowBytes rows := by
  rw [withRows, withRows, extend_extend, List.flatMap_cons]
  cases f.isDirect <;> rfl

theorem withRows_append (p : Picture) (f : Format) (width rowBytes : Nat)
    (rows rows' : List (List UInt8)) :
    p.withRows f width rowBytes (rows ++ rows') =
      (p.withRows f width rowBytes rows).withRows f width rowBytes rows' := by
  induction rows generalizing p with
  | nil => rw [List.nil_append, withRows_nil]
  | cons row rows ih => rw [List.cons_append, withRows_cons, ih, ← withRows_cons]

end Picture

namespace Raster

open Job

variable {f : Format} {p : Picture} {row : Nat} {stop : Stop} {s t : Session Walk}

/-! ## One row -/

def AddsRow (f : Format) (p : Picture) (s t : Session Walk) : Prop :=
  ∃ bytes, f.Decodes p.width p.rowBytes bytes ∧
    t.work.picture = s.work.picture.extend (f.rowStrips p.width p.rowBytes bytes) f.isDirect

/-- A row ends a raster: the picture is as it was. -/
def EndsRows (s : Session Walk) (r : EStateM.Result Error (Session Walk) Bool) : Prop :=
  (sessionOf r).work.picture = s.work.picture ∧ ∀ t, r ≠ .ok true t

theorem endsRows_error {e : Error} (h : t.work.picture = s.work.picture) :
    EndsRows s (.error e t) :=
  ⟨h, fun _ => nofun⟩

theorem endsRows_false (h : t.work.picture = s.work.picture) : EndsRows s (.ok false t) :=
  ⟨h, fun _ => nofun⟩

theorem keepRaw_cases (f : Format) (hraw : f.isPacked p.rowBytes = false) (row : Nat)
    (bytes : List UInt8) (stop : Stop) (s : Session Walk) :
    (∃ t, keepRaw f p.width p.rowBytes row bytes stop s = .ok true t ∧ AddsRow f p s t) ∨
      EndsRows s (keepRaw f p.width p.rowBytes row bytes stop s) := by
  -- a warning about a short row comes first, if there is one
  obtain ⟨u, hu, hkeep⟩ : ∃ u, u.work = s.work ∧
      keepRaw f p.width p.rowBytes row bytes stop s = (do
        let strip ← Job.ofExcept (f.rawStrip p.width (fit p.rowBytes bytes))
        Walk.store strip
        markDirect f
        pure true : Job Walk Bool) stop u := by
    unfold keepRaw
    split
    · exact ⟨{ s with warnings := s.warnings.push _ }, rfl, rfl⟩
    · exact ⟨s, rfl, rfl⟩
  rw [hkeep]
  cases hstrip : f.rawStrip p.width (fit p.rowBytes bytes) with
  | error e =>
    refine Or.inr (endsRows_error (t := u) (e := e) ?_)
    rw [hu]
  | ok strip =>
    have hstrips : f.rowStrips? p.width p.rowBytes (fit p.rowBytes bytes) = .ok [strip] := by
      rw [Format.rowStrips?, hraw, if_neg Bool.false_ne_true, hstrip]
      rfl
    let v : Session Walk := { u with work := { u.work with
      picture := u.work.picture.store strip, marks := u.work.marks.push u.work.cursor.pos } }
    obtain ⟨t, ht, -, hpicture⟩ := markDirect_apply f stop v
    refine Or.inl ⟨t, ?_, fit p.rowBytes bytes, ⟨fun _ => length_fit _ _, _, hstrips⟩, ?_⟩
    · exact bind_eq_ok.mpr ⟨strip, u, rfl, bind_eq_ok.mpr ⟨(), v, rfl,
        bind_eq_ok.mpr ⟨(), t, ht, rfl⟩⟩⟩
    · rw [hpicture, Format.rowStrips, hstrips]
      show (u.work.picture.store strip).extend [] f.isDirect = _
      rw [Picture.store_eq_extend, Picture.extend_extend, hu]
      rfl

/-- A row is read and adds its strips, or it is the last one and does nothing. -/
theorem readRow_cases (f : Format) (p : Picture) (row : Nat) (stop : Stop) (s : Session Walk) :
    (∃ t, readRow f p row stop s = .ok true t ∧ AddsRow f p s t) ∨
      EndsRows s (readRow f p row stop s) := by
  unfold readRow
  cases hpacked : f.isPacked p.rowBytes with
  | true =>
    rw [if_pos rfl]
    cases htaken : takenRow p.rowBytes s.work.cursor with
    | none =>
      obtain ⟨t, ht, hsame⟩ := readPackedRow_none f p.width p.declaredHeight row stop htaken
      rw [ht]
      exact Or.inr (endsRows_false (congrArg Walk.picture hsame))
    | some taken =>
      have hrow := readPackedRow_some f p.width p.declaredHeight row stop htaken
      cases hstrips : f.packedStrips p.width taken.1 with
      | error e =>
        rw [hstrips] at hrow
        obtain ⟨t, ht, hsame⟩ := hrow
        rw [ht]
        exact Or.inr (endsRows_error hsame)
      | ok strips =>
        rw [hstrips] at hrow
        obtain ⟨t, ht, -, hpicture⟩ := hrow
        have hdecodes : f.rowStrips? p.width p.rowBytes taken.1 = .ok strips := by
          rw [Format.rowStrips?, hpacked, if_pos rfl, hstrips]
        have hbytes (hraw : f.isPacked p.rowBytes = false) : taken.1.length = p.rowBytes :=
          Bool.noConfusion (hpacked.symm.trans hraw)
        refine Or.inl ⟨t, ht, taken.1, ⟨hbytes, strips, hdecodes⟩, ?_⟩
        rw [hpicture, Format.rowStrips, hdecodes]
  | false =>
    rw [if_neg Bool.false_ne_true, readRawRow_eq, bind_apply, Walk.getCursor_apply]
    dsimp only
    cases hend : s.work.cursor.atEnd with
    | true => exact Or.inr (endsRows_false rfl)
    | false =>
      let u : Session Walk :=
        { s with work := { s.work with cursor := s.work.cursor.skip p.rowBytes } }
      have hnext : Walk.next p.rowBytes stop s = .ok (s.work.cursor.next p.rowBytes) u := rfl
      rw [if_neg Bool.false_ne_true, bind_apply, hnext]
      exact keepRaw_cases f hpacked row _ stop u

theorem checkedRow_cases (f : Format) (p : Picture) (row : Nat) (stop : Stop) (s : Session Walk) :
    (∃ t, (checkRow row >>= fun _ => readRow f p row) stop s = .ok true t ∧ AddsRow f p s t) ∨
      EndsRows s ((checkRow row >>= fun _ => readRow f p row) stop s) := by
  have hcheck := checkRow_work row stop s
  rw [bind_apply]
  cases hchecked : checkRow row stop s with
  | error e t =>
    rw [hchecked] at hcheck
    exact Or.inr (endsRows_error (congrArg Walk.picture hcheck))
  | ok _ u =>
    rw [hchecked] at hcheck
    have hsame : u.work.picture = s.work.picture := congrArg Walk.picture hcheck
    dsimp only
    rcases readRow_cases f p row stop u with ⟨t, ht, bytes, hdecodes, hpicture⟩ | ⟨hkept, hlast⟩
    · exact Or.inl ⟨t, ht, bytes, hdecodes, by rw [hpicture, hsame]⟩
    · exact Or.inr ⟨hkept.trans hsame, hlast⟩

/-! ## All rows -/

/-- Rows add their strips one after the other, up to the one that ends the raster. -/
theorem eachRow_extends (f : Format) (p : Picture) (stop : Stop) (left : Nat) :
    ∀ (row : Nat) (s : Session Walk), ∃ rows, rows.length ≤ left ∧
      (∀ bytes ∈ rows, f.Decodes p.width p.rowBytes bytes) ∧
      (sessionOf (eachRow (readRow f p) row left stop s)).work.picture =
        s.work.picture.withRows f p.width p.rowBytes rows := by
  induction left with
  | zero =>
    intro row s
    exact ⟨[], Nat.le_refl 0, nofun, (s.work.picture.withRows_nil f _ _).symm⟩
  | succ left ih =>
    intro row s
    rw [eachRow_succ, bind_apply]
    rcases checkedRow_cases f p row stop s with ⟨t, ht, bytes, hdecodes, hpicture⟩ | ⟨hkept, hlast⟩
    · obtain ⟨rows, hlength, hall, hrest⟩ := ih (row + 1) t
      refine ⟨bytes :: rows, Nat.succ_le_succ hlength, List.forall_mem_cons.mpr ⟨hdecodes, hall⟩, ?_⟩
      rw [ht, Picture.withRows_cons, ← hpicture]
      exact hrest
    · refine ⟨[], Nat.zero_le _, nofun, ?_⟩
      rw [Picture.withRows_nil]
      cases hstep : (checkRow row >>= fun _ => readRow f p row) stop s with
      | error e t =>
        rw [hstep] at hkept
        exact hkept
      | ok more t =>
        rw [hstep] at hkept hlast
        cases more with
        | false => exact hkept
        | true => exact absurd rfl (hlast t)

/-- However reading its rows ends, a raster has added those it could decode, no more than there are
on the canvas. -/
theorem readRows_extends (f : Format) (stop : Stop) (s : Session Walk) :
    ∃ rows, rows.length ≤ s.work.picture.declaredHeight ∧
      (∀ bytes ∈ rows, f.Decodes s.work.picture.width s.work.picture.rowBytes bytes) ∧
      (sessionOf (readRows f stop s)).work.picture =
        s.work.picture.withRows f s.work.picture.width s.work.picture.rowBytes rows :=
  eachRow_extends f s.work.picture stop s.work.picture.declaredHeight 0 s

/-! ## Rows that are too long -/

/-- Rows that are complete are read back, and one behind them that exceeds the capacity is cut to it.
What comes of other rows is open: their lengths are looked for where they do not stand. -/
theorem readRows_cut (hp : f.isPacked p.rowBytes = true) (hf : f.Decodable p.rowBytes)
    {init : List (List UInt8)} {long : List UInt8} {left : Nat} {front rest : List UInt8}
    (hinit : ∀ x ∈ init, f.Complete p.rowBytes x) (hlength : FitsLength p.rowBytes long.length)
    (hlong : packedCapacity p.rowBytes < long.length)
    (hn : p.declaredHeight = init.length + (1 + left))
    (hs : Stands s front
      (init.flatMap (f.writeRow p.rowBytes) ++ (f.writeRow p.rowBytes long ++ rest)) p) :
    ∃ rows, (sessionOf (readRows f .never s)).work.picture =
      p.withRows f p.width p.rowBytes
        (init ++ long.take (packedCapacity p.rowBytes) :: rows) := by
  have hpacked : readRow f p = readPackedRow f p.width p.declaredHeight p.rowBytes := by
    rw [readRow, if_pos hp]
  have hdrop : long.drop (packedCapacity p.rowBytes) ++ rest ≠ [] :=
    List.append_ne_nil_of_left_ne_nil (mt List.drop_eq_nil_iff.mp (by omega)) rest
  have hsplit : f.writeRow p.rowBytes long ++ rest =
      Format.writeLength p.rowBytes long.length ++ long.take (packedCapacity p.rowBytes) ++
        (long.drop (packedCapacity p.rowBytes) ++ rest) := by
    rw [Format.writeRow_packed hp, List.append_assoc, List.append_assoc,
      ← List.append_assoc (long.take _), List.take_append_drop]
  rw [hsplit] at hs
  have hbehind := List.append_ne_nil_of_right_ne_nil
    (Format.writeLength p.rowBytes long.length ++ long.take (packedCapacity p.rowBytes)) hdrop
  -- the rows in front, then the one that is cut
  obtain ⟨u, hu, hsu⟩ := Passes.eachRow_then (f.writeRow p.rowBytes)
    (fun q x => q.extend (f.rowStrips p.width p.rowBytes x) f.isDirect) (readRow f p) hbehind
    (1 + left) init (fun x hx row front more q hmore => by
      rw [hpacked]
      exact passes_readPackedRow hp hf (hinit x hx) _ _ _ hmore q) 0 front p s hs
  have hcut (front : List UInt8) (q : Picture) :
      Passes (readRow f p (0 + init.length)) front
        (Format.writeLength p.rowBytes long.length ++ long.take (packedCapacity p.rowBytes))
        (long.drop (packedCapacity p.rowBytes) ++ rest) q true
        (q.extend (f.rowStrips p.width p.rowBytes (long.take (packedCapacity p.rowBytes)))
          f.isDirect) := by
    rw [hpacked]
    exact passes_readPackedRow_cut hp hf hlength _ _ _ hdrop q
  obtain ⟨v, hv, hsv⟩ := Passes.bind_nil (f := fun _ => readRow f p (0 + init.length))
    (Passes.checkRow _ _ _ (0 + init.length)) (hcut _ _) u hsu
  obtain ⟨rows, -, -, hrows⟩ := eachRow_extends f p .never left (0 + init.length + 1) v
  refine ⟨rows, ?_⟩
  have hloop : sessionOf (readRows f .never s) =
      sessionOf (eachRow (readRow f p) (0 + init.length + 1) left .never v) := by
    have hall : readRows f .never s = eachRow (readRow f p) 0 p.declaredHeight .never s := by
      rw [← hs.picture]
      rfl
    rw [hall, hn, hu, Nat.add_comm 1 left, eachRow_succ, bind_apply, hv]
    rfl
  rw [hloop, hrows, hsv.picture, Picture.withRows_append, Picture.withRows_cons,
    Picture.foldl_extend]
  rfl

end Raster
end Pict
