import Pict.Proofs.Raster.Cut
import Pict.Proofs.Raster.Rows

/-!
# Packed rows where the data runs out

A packed row takes its length and as many bytes behind it as the length says and the data has to
spare; `takenRow` is what it takes. One byte is always left, so that a length of one byte can be
read again behind it: a raster whose lengths take one byte gets all its rows, however early
the data runs out. `rowsStored` counts the rows of a raster that strips are stored for.

Results:
* `readPackedRow_none`, `readPackedRow_some`: a packed row does what `takenRow` says.
* `takenRow_remaining`: what a packed row leaves of the data.
* `rowsStored_le_iff`: a raster stores no more rows than bytes are left exactly when its lengths
  are words, there are no more rows than bytes, no byte is left, or rows have no strips.
-/
namespace Pict

/-! ## The rows of a loop -/

namespace Job

variable {σ : Type}

/-- The sessions in front of the rows of a loop, and the one that it ends with. -/
def rowSessions (body : Nat → Job σ Bool) (stop : Stop) :
    (row left : Nat) → Session σ → List (Session σ)
  | _, 0, s => [s]
  | row, left + 1, s =>
    s :: match (checkRow row >>= fun _ => body row) stop s with
      | .ok true t => rowSessions body stop (row + 1) left t
      | .ok false t => [t]
      | .error _ t => [t]

variable {body : Nat → Job σ Bool} {stop : Stop}

theorem rowSessions_eq_cons (body : Nat → Job σ Bool) (stop : Stop) (row left : Nat)
    (s : Session σ) : ∃ rest, rowSessions body stop row left s = s :: rest := by
  cases left with
  | zero => exact ⟨[], rfl⟩
  | succ left => exact ⟨_, rfl⟩

theorem mem_rowSessions {row left : Nat} {s : Session σ} (h : 0 < left) :
    s ∈ (rowSessions body stop row left s).dropLast := by
  obtain ⟨left, rfl⟩ : ∃ n, left = n + 1 := ⟨left - 1, by omega⟩
  rw [rowSessions]
  split
  · obtain ⟨rest, hrest⟩ := rowSessions_eq_cons body stop (row + 1) left _
    rw [hrest, List.dropLast_cons_cons]
    exact List.mem_cons_self
  · exact List.mem_cons_self
  · exact List.mem_cons_self

theorem getLast?_rowSessions (left : Nat) : ∀ (row : Nat) (s : Session σ),
    (rowSessions body stop row left s).getLast? =
      some (sessionOf (eachRow body row left stop s)) := by
  induction left with
  | zero => exact fun _ _ => rfl
  | succ left ih =>
    intro row s
    rw [eachRow_succ, bind_apply, rowSessions]
    cases (checkRow row >>= fun _ => body row) stop s with
    | error e t => rfl
    | ok more t =>
      cases more with
      | false => rfl
      | true =>
        obtain ⟨rest, hrest⟩ := rowSessions_eq_cons body stop (row + 1) left t
        have hlast := ih (row + 1) t
        rw [hrest] at hlast
        show (s :: rowSessions body stop (row + 1) left t).getLast? = _
        rw [hrest, List.getLast?_cons_cons, hlast]
        rfl

end Job

/-- How many steps of a run store strips. -/
def storingSteps : List (Session Walk) → Nat
  | s :: t :: rest =>
    (if s.work.picture.strips.size < t.work.picture.strips.size then 1 else 0) +
      storingSteps (t :: rest)
  | _ => 0

namespace Format

def StoresPacked (f : Format) : Prop :=
  f.pixelSize ∈ [1, 2, 4, 8, 16] ∨ f.pixelSize ∈ [24, 32] ∧ 0 < f.components

instance (f : Format) : Decidable f.StoresPacked := inferInstanceAs (Decidable (_ ∨ _ ∧ _))

theorem packedStrips_of_stores {f : Format} (h : f.StoresPacked) (width : Nat)
    (packed : List UInt8) : ∃ strips, f.packedStrips width packed = .ok strips ∧ strips ≠ [] := by
  unfold StoresPacked at h
  simp only [List.mem_cons, List.not_mem_nil, or_false] at h
  rcases h with (h | h | h | h | h) | ⟨h | h, hpos⟩ <;>
    simp [packedStrips, h, Depth.expandRow, Depth.expandInto, Functor.map, Except.map] <;> omega

/-- Rows of other pixel sizes fail or are passed over. -/
theorem packedStrips_of_not_stores {f : Format} (h : ¬ f.StoresPacked) {width : Nat}
    {packed : List UInt8} {strips : List Strip}
    (hstrips : f.packedStrips width packed = .ok strips) : strips = [] := by
  unfold StoresPacked at h
  simp only [List.mem_cons, List.not_mem_nil, or_false, not_or, not_and, Nat.not_lt] at h
  obtain ⟨⟨h1, h2, h4, h8, h16⟩, hdirect⟩ := h
  unfold packedStrips at hstrips
  rw [if_neg h16] at hstrips
  dsimp only at hstrips
  split at hstrips
  · have herror : Depth.expandRow f.pixelSize width (PackBits.decodeBytes (width * 4) packed) =
        .error (.unsupportedBitDepth f.pixelSize) := by
      simp [Depth.expandRow, Depth.expandInto, h1, h2, h4]
    rw [herror] at hstrips
    cases hstrips
  · split at hstrips
    · rename_i hsize
      have hnone : f.components = 0 := Nat.le_zero.mp (hdirect hsize)
      rw [hnone] at hstrips
      exact (Except.ok.inj hstrips).symm
    · exact (Except.ok.inj hstrips).symm

end Format

namespace Raster

open Job

/-- How many rows of a raster strips are stored for. -/
def rowsStored (f : Format) (stop : Stop) (s : Session Walk) : Nat :=
  storingSteps (rowSessions (readRow f s.work.picture) stop 0 s.work.picture.declaredHeight s)

/-! ## One packed row -/

def lengthSize (rowBytes : Nat) : Nat := if 250 < rowBytes then 2 else 1

theorem lengthSize_bounds (rowBytes : Nat) : 0 < lengthSize rowBytes ∧ lengthSize rowBytes ≤ 2 := by
  unfold lengthSize
  split <;> decide

/-- The bytes of the packed row behind a cursor, and the cursor behind it. -/
def takenRow (rowBytes : Nat) (c : Cursor) : Option (List UInt8 × Cursor) :=
  match readLength rowBytes c with
  | (none, _) => none
  | (some declared, d) =>
    let settled := settle declared (packedCapacity rowBytes) d
    some (settled.1.next settled.2, settled.1.skip settled.2)

variable {f : Format} {width height rowBytes : Nat} {c d : Cursor} {packed : List UInt8}

theorem readLength_cases (rowBytes : Nat) (c : Cursor) :
    (readLength rowBytes c = (none, c) ∧ c.remaining < lengthSize rowBytes) ∨
      ∃ declared, readLength rowBytes c =
          (some declared, { c with pos := c.pos + lengthSize rowBytes }) ∧
        c.pos + lengthSize rowBytes ≤ c.source.size := by
  unfold readLength lengthSize Cursor.remaining
  by_cases hwide : 250 < rowBytes
  · have hsome := c.source.isSome_u16?_iff c.pos
    rw [if_pos hwide, if_pos hwide]
    cases hword : c.source.u16? c.pos with
    | none =>
      have hnone : c.source.i16? c.pos = none := by rw [Source.i16?, hword]; rfl
      rw [hword] at hsome
      refine Or.inl ⟨Reader.field_none hnone, ?_⟩
      simp only [Option.isSome_none, Bool.false_eq_true, false_iff] at hsome
      omega
    | some w =>
      have hw : c.source.i16? c.pos = some (signed w) := by rw [Source.i16?, hword]; rfl
      rw [hword] at hsome
      exact Or.inr ⟨signed w, Reader.field_some hw, hsome.mp rfl⟩
  · have hsome := c.source.isSome_u8?_iff c.pos
    rw [if_neg hwide, if_neg hwide, Reader.bind_apply]
    cases hbyte : c.source.u8? c.pos with
    | none =>
      rw [hbyte] at hsome
      refine Or.inl ⟨?_, ?_⟩
      · rw [Reader.u8, Reader.field_none hbyte]
      · simp only [Option.isSome_none, Bool.false_eq_true, false_iff] at hsome
        omega
    | some b =>
      rw [hbyte] at hsome
      refine Or.inr ⟨b.toNat, ?_, hsome.mp rfl⟩
      rw [Reader.u8, Reader.field_some hbyte]
      rfl

theorem takenRow_none (h : takenRow rowBytes c = none) : c.remaining < lengthSize rowBytes := by
  rcases readLength_cases rowBytes c with ⟨-, hlt⟩ | ⟨declared, hread, -⟩
  · exact hlt
  · rw [takenRow, hread] at h
    cases h

theorem takenRow_some (h : takenRow rowBytes c = some (packed, d)) :
    ∃ declared b e n, readLength rowBytes c = (some declared, b) ∧
      b = { c with pos := c.pos + lengthSize rowBytes } ∧
      c.pos + lengthSize rowBytes ≤ c.source.size ∧
      settle declared (packedCapacity rowBytes) b = (e, n) ∧ packed = e.next n ∧
      d = e.skip n := by
  rcases readLength_cases rowBytes c with ⟨hread, -⟩ | ⟨declared, hread, hroom⟩
  · rw [takenRow, hread] at h
    cases h
  · rw [takenRow, hread] at h
    obtain ⟨rfl, rfl⟩ := Prod.mk.inj (Option.some.inj h)
    exact ⟨declared, _, _, _, hread, rfl, hroom, rfl, rfl, rfl⟩

/-- A row is read where the cursor is, or from the last byte on if nothing of it can be read. -/
theorem settle_cases (declared : Int) (capacity : Nat) (c : Cursor) :
    settle declared capacity c = (c.seek (c.source.size - 1), 0) ∨
      ∃ n : Nat, settle declared capacity c = (c, n) ∧
        (n : Int) = fitLength declared capacity c.remaining := by
  unfold settle
  split
  · exact Or.inl rfl
  · exact Or.inr ⟨_, rfl, by omega⟩

/-- A packed row takes its length, and it leaves one byte. More than that is left only
if it has not gone beyond what follows its length. -/
theorem takenRow_remaining (h : takenRow rowBytes c = some (packed, d)) :
    lengthSize rowBytes ≤ c.remaining ∧ 1 ≤ d.remaining ∧
      (d.remaining + lengthSize rowBytes ≤ c.remaining ∨ d.remaining = 1) := by
  obtain ⟨declared, b, e, n, -, rfl, hroom, hsettle, -, rfl⟩ := takenRow_some h
  have hpos := (lengthSize_bounds rowBytes).1
  rcases settle_cases declared (packedCapacity rowBytes)
    { c with pos := c.pos + lengthSize rowBytes } with hlast | ⟨m, hhere, hfit⟩
  · obtain ⟨rfl, rfl⟩ := Prod.mk.inj (hsettle.symm.trans hlast)
    simp only [Cursor.remaining, Cursor.skip, Cursor.seek]
    omega
  · obtain ⟨rfl, rfl⟩ := Prod.mk.inj (hsettle.symm.trans hhere)
    have hlt := fitLength_lt_remaining declared (packedCapacity rowBytes)
      ({ c with pos := c.pos + lengthSize rowBytes } : Cursor).remaining
    rw [← hfit] at hlt
    simp only [Cursor.remaining, Cursor.skip, Cursor.seek] at hlt ⊢
    omega

theorem storeAll_apply (stop : Stop) : ∀ (strips : List Strip) (s : Session Walk),
    ∃ t, Walk.storeAll strips stop s = .ok () t ∧ t.work.cursor = s.work.cursor ∧
      t.work.picture = strips.foldl Picture.store s.work.picture
  | [], s => ⟨s, rfl, rfl, rfl⟩
  | strip :: strips, s => by
    obtain ⟨t, ht, hcursor, hpicture⟩ := storeAll_apply stop strips
      { s with work := { s.work with
        picture := s.work.picture.store strip
        marks := s.work.marks.push s.work.cursor.pos } }
    exact ⟨t, bind_eq_ok.mpr ⟨(), _, rfl, ht⟩, hcursor, hpicture⟩

theorem markDirect_apply (f : Format) (stop : Stop) (s : Session Walk) :
    ∃ t, markDirect f stop s = .ok () t ∧ t.work.cursor = s.work.cursor ∧
      t.work.picture = s.work.picture.extend [] f.isDirect := by
  unfold markDirect
  cases f.isDirect with
  | false => exact ⟨s, rfl, rfl, s.work.picture.extend_nil.symm⟩
  | true => exact ⟨_, rfl, rfl, by simp [Picture.extend, Picture.markColor]⟩

theorem keepPacked_apply {strips : List Strip} (h : f.packedStrips width packed = .ok strips)
    (stop : Stop) (s : Session Walk) :
    ∃ t, keepPacked f width packed stop s = .ok true t ∧ t.work.cursor = s.work.cursor ∧
      t.work.picture = s.work.picture.extend strips f.isDirect := by
  obtain ⟨t, ht, hcursor, hpicture⟩ := storeAll_apply stop strips s
  rw [Picture.foldl_store] at hpicture
  have hextend := s.work.picture.extend_extend strips [] false f.isDirect
  rw [List.append_nil, Bool.false_or, ← hpicture] at hextend
  obtain ⟨u, hu, hucursor, hupicture⟩ := markDirect_apply f stop t
  refine ⟨u, ?_, hucursor.trans hcursor, hupicture.trans hextend⟩
  rw [keepPacked, h]
  exact bind_eq_ok.mpr ⟨strips, s, rfl, bind_eq_ok.mpr ⟨(), t, ht,
    bind_eq_ok.mpr ⟨(), u, hu, rfl⟩⟩⟩

variable {s : Session Walk}

/-- Where there is no length the rows are over. -/
theorem readPackedRow_none (f : Format) (width height row : Nat) (stop : Stop)
    (h : takenRow rowBytes s.work.cursor = none) :
    ∃ t, readPackedRow f width height rowBytes row stop s = .ok false t ∧ t.work = s.work := by
  rcases readLength_cases rowBytes s.work.cursor with ⟨hread, -⟩ | ⟨declared, hread, -⟩
  · refine ⟨{ s with warnings := s.warnings.push (.packedRowsEnded row height) }, ?_, rfl⟩
    have hnone := Walk.read_apply stop s (readLength rowBytes)
    rw [hread] at hnone
    exact bind_eq_ok.mpr ⟨none, s, hnone, rfl⟩
  · rw [takenRow, hread] at h
    cases h

/-- What is decoded of the bytes that a packed row takes is stored; if nothing is, the row fails. -/
theorem readPackedRow_some (f : Format) (width height row : Nat) (stop : Stop)
    (h : takenRow rowBytes s.work.cursor = some (packed, d)) :
    match f.packedStrips width packed with
    | .error e => ∃ t, readPackedRow f width height rowBytes row stop s = .error e t ∧
        t.work.picture = s.work.picture
    | .ok strips => ∃ t, readPackedRow f width height rowBytes row stop s = .ok true t ∧
        t.work.cursor = d ∧ t.work.picture = s.work.picture.extend strips f.isDirect := by
  rcases readLength_cases rowBytes s.work.cursor with ⟨hread, -⟩ | ⟨declared, hread, -⟩
  · rw [takenRow, hread] at h
    cases h
  rw [takenRow, hread] at h
  simp only [Option.some.injEq, Prod.mk.injEq] at h
  obtain ⟨rfl, rfl⟩ := h
  -- the length is read, then the bytes behind it are taken
  have hlength := Walk.read_apply stop s (readLength rowBytes)
  rw [hread] at hlength
  dsimp only at hlength
  generalize hu : ({ s with work := { s.work with
    cursor := { s.work.cursor with pos := s.work.cursor.pos + lengthSize rowBytes } } } :
      Session Walk) = u at hlength
  have hucursor : ({ s.work.cursor with pos := s.work.cursor.pos + lengthSize rowBytes } :
      Cursor) = u.work.cursor := by rw [← hu]
  have hupicture : u.work.picture = s.work.picture := by rw [← hu]
  rw [hucursor]
  obtain ⟨v, hv, hwork⟩ := takePacked_apply declared (packedCapacity rowBytes) stop u
  generalize hpacked : (settle declared (packedCapacity rowBytes) u.work.cursor).1.next
    (settle declared (packedCapacity rowBytes) u.work.cursor).2 = bytes at hv ⊢
  have hvpicture : v.work.picture = s.work.picture := by rw [hwork, ← hupicture]
  rw [readPackedRow_eq, bind_apply, hlength]
  dsimp only
  rw [bind_apply, hv]
  dsimp only
  cases hstrips : f.packedStrips width bytes with
  | error e =>
    refine ⟨v, ?_, hvpicture⟩
    rw [keepPacked, hstrips]
    rfl
  | ok strips =>
    obtain ⟨t, ht, hcursor, hpicture⟩ := keepPacked_apply hstrips stop v
    refine ⟨t, ht, ?_, by rw [hpicture, hvpicture]⟩
    rw [hcursor, hwork]

/-! ## Rows that are stored -/

theorem checkRow_work (row : Nat) (stop : Stop) (s : Session Walk) :
    (sessionOf (checkRow row stop s)).work = s.work := by
  unfold checkRow
  split
  · unfold Job.check
    cases stop.refusal? s.checks <;> rfl
  · rfl

/-- A packed row fails or is the last one, and stores nothing, or it stores what it takes. -/
theorem packedStep_cases (f : Format) (width height rowBytes row : Nat) (stop : Stop)
    (s : Session Walk) :
    (∃ t, t.work.picture.strips = s.work.picture.strips ∧
        ((∃ e, (checkRow row >>= fun _ => readPackedRow f width height rowBytes row) stop s =
            .error e t) ∨
          (checkRow row >>= fun _ => readPackedRow f width height rowBytes row) stop s =
            .ok false t)) ∨
      ∃ packed d strips t, takenRow rowBytes s.work.cursor = some (packed, d) ∧
        f.packedStrips width packed = .ok strips ∧
        (checkRow row >>= fun _ => readPackedRow f width height rowBytes row) stop s = .ok true t ∧
        t.work.cursor = d ∧ t.work.picture = s.work.picture.extend strips f.isDirect := by
  have hcheck := checkRow_work row stop s
  rw [bind_apply]
  cases hchecked : checkRow row stop s with
  | error e t =>
    rw [hchecked] at hcheck
    have hwork : t.work = s.work := hcheck
    exact Or.inl ⟨t, by rw [hwork], Or.inl ⟨e, rfl⟩⟩
  | ok _ u =>
    rw [hchecked] at hcheck
    have hwork : u.work = s.work := hcheck
    dsimp only
    rw [← hwork]
    cases htaken : takenRow rowBytes u.work.cursor with
    | none =>
      obtain ⟨t, ht, hsame⟩ := readPackedRow_none f width height row stop htaken
      exact Or.inl ⟨t, by rw [hsame], Or.inr ht⟩
    | some taken =>
      obtain ⟨packed, d⟩ := taken
      have hrow := readPackedRow_some f width height row stop htaken
      cases hstrips : f.packedStrips width packed with
      | error e =>
        rw [hstrips] at hrow
        obtain ⟨t, ht, hsame⟩ := hrow
        exact Or.inl ⟨t, by rw [hsame], Or.inl ⟨e, ht⟩⟩
      | ok strips =>
        rw [hstrips] at hrow
        obtain ⟨t, ht, hcursor, hpicture⟩ := hrow
        exact Or.inr ⟨packed, d, strips, t, rfl, hstrips, ht, hcursor, hpicture⟩

end Raster

/-! ## Counting -/

theorem storingSteps_single (s : Session Walk) : storingSteps [s] = 0 := rfl

theorem storingSteps_pair {s t : Session Walk}
    (h : t.work.picture.strips = s.work.picture.strips) : storingSteps [s, t] = 0 := by
  rw [storingSteps, h, if_neg (Nat.lt_irrefl _), storingSteps_single]

namespace Raster

open Job

variable {f : Format} {width height rowBytes : Nat} {stop : Stop}

/-- The rows of a loop that strips are stored for. -/
def packedStored (f : Format) (width height rowBytes : Nat) (stop : Stop) (row left : Nat)
    (s : Session Walk) : Nat :=
  storingSteps (rowSessions (readPackedRow f width height rowBytes) stop row left s)

theorem rowsStored_eq {s : Session Walk} (h : f.isPacked s.work.picture.rowBytes = true) :
    rowsStored f stop s = packedStored f s.work.picture.width s.work.picture.declaredHeight
      s.work.picture.rowBytes stop 0 s.work.picture.declaredHeight s := by
  have hrow : readRow f s.work.picture = readPackedRow f s.work.picture.width
      s.work.picture.declaredHeight s.work.picture.rowBytes := by
    rw [readRow, if_pos h]
  rw [rowsStored, hrow, packedStored]

theorem packedStored_of_step {row left : Nat} {s t : Session Walk}
    (h : (checkRow row >>= fun _ => readPackedRow f width height rowBytes row) stop s =
      .ok true t) :
    packedStored f width height rowBytes stop row (left + 1) s =
      (if s.work.picture.strips.size < t.work.picture.strips.size then 1 else 0) +
        packedStored f width height rowBytes stop (row + 1) left t := by
  obtain ⟨rest, hrest⟩ := rowSessions_eq_cons (readPackedRow f width height rowBytes) stop (row + 1)
    left t
  rw [packedStored, packedStored, rowSessions, h]
  dsimp only
  rw [hrest, storingSteps]

/-- The first row of a loop counts if it stores strips, and the others follow if there was a length
for it. -/
theorem packedStored_succ (f : Format) (width height rowBytes : Nat) (stop : Stop) (row left : Nat)
    (s : Session Walk) :
    packedStored f width height rowBytes stop row (left + 1) s = 0 ∨
      ∃ packed d strips t, takenRow rowBytes s.work.cursor = some (packed, d) ∧
        f.packedStrips width packed = .ok strips ∧
        (checkRow row >>= fun _ => readPackedRow f width height rowBytes row) stop s = .ok true t ∧
        t.work.cursor = d ∧
        packedStored f width height rowBytes stop row (left + 1) s =
          (if strips = [] then 0 else 1) +
            packedStored f width height rowBytes stop (row + 1) left t := by
  rcases packedStep_cases f width height rowBytes row stop s with
    ⟨t, hsame, ⟨e, hstep⟩ | hstep⟩ |
    ⟨packed, d, strips, t, htaken, hstrips, hstep, hcursor, hpicture⟩
  · refine Or.inl ?_
    rw [packedStored, rowSessions, hstep]
    exact storingSteps_pair hsame
  · refine Or.inl ?_
    rw [packedStored, rowSessions, hstep]
    exact storingSteps_pair hsame
  · refine Or.inr ⟨packed, d, strips, t, htaken, hstrips, hstep, hcursor, ?_⟩
    rw [packedStored_of_step hstep, hpicture]
    cases strips <;> simp [Picture.extend]

theorem packedStored_le_left (left : Nat) : ∀ (row : Nat) (s : Session Walk),
    packedStored f width height rowBytes stop row left s ≤ left := by
  induction left with
  | zero => exact fun _ _ => Nat.le_refl 0
  | succ left ih =>
    intro row s
    rcases packedStored_succ f width height rowBytes stop row left s with
      hzero | ⟨_, _, strips, t, -, -, -, -, hcount⟩
    · omega
    · have := ih (row + 1) t
      rw [hcount]
      split <;> omega

theorem packedStored_eq_zero (row left : Nat) {s : Session Walk}
    (h : s.work.cursor.remaining < lengthSize rowBytes) :
    packedStored f width height rowBytes stop row left s = 0 := by
  cases left with
  | zero => rfl
  | succ left =>
    rcases packedStored_succ f width height rowBytes stop row left s with
      hzero | ⟨_, _, _, _, htaken, -⟩
    · exact hzero
    · have := (takenRow_remaining htaken).1
      omega

/-- With words for lengths every row that is stored takes two bytes of its own: the byte that
is left behind the last one is not enough for another. -/
theorem packedStored_le_half (hwide : 250 < rowBytes) (left : Nat) : ∀ (row : Nat)
    (s : Session Walk),
    packedStored f width height rowBytes stop row left s ≤ s.work.cursor.remaining / 2 := by
  have hsize : lengthSize rowBytes = 2 := if_pos hwide
  induction left with
  | zero => exact fun _ _ => Nat.zero_le _
  | succ left ih =>
    intro row s
    rcases packedStored_succ f width height rowBytes stop row left s with
      hzero | ⟨packed, d, strips, t, htaken, -, -, rfl, hcount⟩
    · omega
    · obtain ⟨hroom, -, hleft⟩ := takenRow_remaining htaken
      have hrest := ih (row + 1) t
      rw [hsize] at hroom hleft
      rw [hcount]
      split <;> omega

/-- Under a stop that never fires a row of pixels that are stored, with room for its length, is
stored, and a byte is left behind it. -/
theorem packedStep_stores (hf : f.StoresPacked) (width height row : Nat) {s : Session Walk}
    (hroom : lengthSize rowBytes ≤ s.work.cursor.remaining) :
    ∃ t, (checkRow row >>= fun _ => readPackedRow f width height rowBytes row) .never s =
        .ok true t ∧ 1 ≤ t.work.cursor.remaining ∧
      s.work.picture.strips.size < t.work.picture.strips.size := by
  obtain ⟨u, hu, hwork, -⟩ := checkRow_never row s
  rw [← hwork] at hroom ⊢
  cases htaken : takenRow rowBytes u.work.cursor with
  | none =>
    have := takenRow_none htaken
    omega
  | some taken =>
    obtain ⟨packed, d⟩ := taken
    obtain ⟨strips, hstrips, hne⟩ := Format.packedStrips_of_stores hf width packed
    have hrow := readPackedRow_some f width height row .never htaken
    rw [hstrips] at hrow
    obtain ⟨t, ht, rfl, hpicture⟩ := hrow
    refine ⟨t, bind_eq_ok.mpr ⟨(), u, hu, ht⟩, (takenRow_remaining htaken).2.1, ?_⟩
    have hpos := List.length_pos_iff.mpr hne
    rw [hpicture]
    simp only [Picture.extend, Array.size_append, List.size_toArray]
    omega

/-- With bytes for lengths all rows are stored once a byte is left: it is there for every row. -/
theorem packedStored_eq_left (hf : f.StoresPacked) (hnarrow : rowBytes ≤ 250) (left : Nat) :
    ∀ (row : Nat) (s : Session Walk), 1 ≤ s.work.cursor.remaining →
      packedStored f width height rowBytes .never row left s = left := by
  have hsize : lengthSize rowBytes = 1 := if_neg (Nat.not_lt_of_le hnarrow)
  induction left with
  | zero => exact fun _ _ _ => rfl
  | succ left ih =>
    intro row s hs
    obtain ⟨t, hstep, ht, hgrown⟩ := packedStep_stores hf width height row (hsize.symm ▸ hs)
    rw [packedStored_of_step hstep, if_pos hgrown, ih (row + 1) t ht, Nat.add_comm]

theorem packedStored_of_not_stores (hf : ¬ f.StoresPacked) (left : Nat) : ∀ (row : Nat)
    (s : Session Walk), packedStored f width height rowBytes stop row left s = 0 := by
  induction left with
  | zero => exact fun _ _ => rfl
  | succ left ih =>
    intro row s
    rcases packedStored_succ f width height rowBytes stop row left s with
      hzero | ⟨packed, _, strips, t, -, hstrips, -, -, hcount⟩
    · exact hzero
    · rw [hcount, if_pos (Format.packedStrips_of_not_stores hf hstrips), ih (row + 1) t]

/-! ## Whole rasters -/

/-- Lengths of two bytes allow half as many rows as bytes, and lengths of one byte allow all rows of
the raster if a byte is left. -/
theorem rowsStored_le {s : Session Walk} (hpacked : f.isPacked s.work.picture.rowBytes = true)
    (stop : Stop) :
    rowsStored f stop s ≤
      if 250 < s.work.picture.rowBytes then s.work.cursor.remaining / 2
      else if s.work.cursor.remaining = 0 then 0 else s.work.picture.declaredHeight := by
  rw [rowsStored_eq hpacked]
  by_cases hwide : 250 < s.work.picture.rowBytes
  · rw [if_pos hwide]
    exact packedStored_le_half hwide _ 0 s
  · rw [if_neg hwide]
    by_cases hend : s.work.cursor.remaining = 0
    · have hroom : s.work.cursor.remaining < lengthSize s.work.picture.rowBytes := by
        rw [hend]
        exact (lengthSize_bounds _).1
      rw [if_pos hend, packedStored_eq_zero 0 _ hroom]
    · rw [if_neg hend]
      exact packedStored_le_left _ 0 s

/-- The packed rows of a raster that strips are stored for are no more than the bytes that are
left in front of them exactly when their lengths are words, no byte is left, there are no more rows
than bytes, or the pixels are of a size that packed rows have no strips for. Whatever the
stop, lengths of two bytes allow half as many rows as bytes, and lengths of one byte allow all
rows of the raster. -/
theorem rowsStored_le_iff {s : Session Walk}
    (hpacked : f.isPacked s.work.picture.rowBytes = true) :
    (∀ stop,
        (rowSessions (readRow f s.work.picture) stop 0 s.work.picture.declaredHeight s).getLast? =
          some (sessionOf (readRows f stop s)) ∧
        rowsStored f stop s ≤
          if 250 < s.work.picture.rowBytes then s.work.cursor.remaining / 2
          else if s.work.cursor.remaining = 0 then 0 else s.work.picture.declaredHeight) ∧
      (rowsStored f .never s ≤ s.work.cursor.remaining ↔
        250 < s.work.picture.rowBytes ∨ s.work.cursor.remaining = 0 ∨
          s.work.picture.declaredHeight ≤ s.work.cursor.remaining ∨ ¬ f.StoresPacked) := by
  refine ⟨fun stop => ⟨?_, rowsStored_le hpacked stop⟩, ?_, ?_⟩
  · rw [getLast?_rowSessions]
    rfl
  · -- rows that are all stored are no more than the bytes
    intro hle
    by_cases hwide : 250 < s.work.picture.rowBytes
    · exact Or.inl hwide
    by_cases hend : s.work.cursor.remaining = 0
    · exact Or.inr (Or.inl hend)
    by_cases hf : f.StoresPacked
    · rw [rowsStored_eq hpacked, packedStored_eq_left hf (by omega) _ 0 s (by omega)] at hle
      exact Or.inr (Or.inr (Or.inl hle))
    · exact Or.inr (Or.inr (Or.inr hf))
  · have hnever := rowsStored_le hpacked .never
    rintro (hwide | hend | hfew | hf)
    · rw [if_pos hwide] at hnever
      omega
    · rw [if_pos hend] at hnever
      split at hnever <;> omega
    · split at hnever
      · omega
      · split at hnever <;> omega
    · rw [rowsStored_eq hpacked, packedStored_of_not_stores hf]
      exact Nat.zero_le _

/-- A canvas of three packed rows of bits in front of the last byte of the data. -/
def lastByte : Session Walk :=
  { checks := 0
    warnings := #[]
    work :=
      { cursor := ⟨#[0], 0⟩
        picture := { Picture.start ⟨64, 3, .one, none⟩ with rowBytes := 8 }
        marks := #[] } }

/-- That byte is the length of every row. -/
theorem rowsStored_lastByte :
    Format.bitmap.isPacked lastByte.work.picture.rowBytes = true ∧
      rowsStored .bitmap .never lastByte ≤ 3 ∧
      ¬ rowsStored .bitmap .never lastByte ≤ lastByte.work.cursor.remaining := by
  obtain ⟨hbounds, hiff⟩ := rowsStored_le_iff (f := .bitmap) (s := lastByte) (by decide)
  exact ⟨by decide, (hbounds .never).2, fun hle => absurd (hiff.mp hle) (by decide)⟩

/-- More rows may be stored than bytes are left. -/
theorem rowsStored_beyond_remaining :
    ¬ ∀ (f : Format) (s : Session Walk), f.isPacked s.work.picture.rowBytes = true →
      rowsStored f .never s ≤ s.work.cursor.remaining := by
  intro h
  have hstored : rowsStored .bitmap .never lastByte = 3 := by decide +kernel
  have hle := h .bitmap lastByte (by decide)
  rw [hstored] at hle
  exact absurd hle (by decide)

end Raster
end Pict
