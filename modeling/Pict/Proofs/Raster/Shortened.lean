import Pict.Proofs.Decode.Stopped
import Pict.Proofs.Decode.Unterminated
import Pict.Proofs.Raster.RunOut

/-!
# Packed rows that are shortened

A packed row is cut to what it may take, and to one byte less than what is left. The first cut is
told, and so is a length that leaves nothing to be read; the second cut is not. A row that is
shortened in silence takes all that is left but one byte, so that a row behind it finds no length,
or nothing behind its length, and tells that.

Results:
* `settleWarnings_eq_nil`: the lengths of which nothing is told.
* `readPackedRow_warnings`: all that is told while a packed row is read.
* `takePacked_shortened`: the rows that are shortened in silence.
* `rows_shortened`: of two rows the first of which is shortened, one is told of.
* `readRows_silent`: where nothing is told no row but the last is shortened.
* `decoded_silently_shortened`: a picture whose only row is.
-/
namespace Pict

open Job

/-! ## Jobs that tell nothing -/

/-- The job tells nothing. -/
def Job.Mute {σ α : Type} (job : Job σ α) : Prop :=
  ∀ stop s, (sessionOf (job stop s)).warnings = s.warnings

namespace Job.Mute

variable {σ α β : Type}

theorem pure (a : α) : Mute (Pure.pure a : Job σ α) := fun _ _ => rfl

theorem modifyWork (f : σ → σ) : Mute (Job.modifyWork f) := fun _ _ => rfl

theorem ofExcept (a : Except Error α) : Mute (Job.ofExcept a : Job σ α) := by
  cases a <;> exact fun _ _ => rfl

theorem bind {job : Job σ α} {f : α → Job σ β} (h : Mute job) (h' : ∀ a, Mute (f a)) :
    Mute (job >>= f) := by
  intro stop s
  have hs := h stop s
  rw [bind_apply]
  cases hjob : job stop s with
  | error e t =>
    rw [hjob] at hs
    exact hs
  | ok a t =>
    rw [hjob] at hs
    exact (h' a stop t).trans hs

end Job.Mute

namespace Raster

theorem mute_storeAll : ∀ strips : List Strip, Mute (Walk.storeAll strips)
  | [] => .pure ()
  | _ :: strips => (Mute.modifyWork _).bind fun _ => mute_storeAll strips

theorem mute_markDirect (f : Format) : Mute (markDirect f) := by
  unfold markDirect
  cases f.isDirect with
  | true => exact .modifyWork fun w => { w with picture := w.picture.markColor }
  | false => exact .pure ()

/-- What is taken of a row is decoded and stored, or fails, without a word. -/
theorem mute_keepPacked (f : Format) (width : Nat) (packed : List UInt8) :
    Mute (keepPacked f width packed) :=
  (Mute.ofExcept _).bind fun strips => (mute_storeAll strips).bind fun _ =>
    (mute_markDirect f).bind fun _ => .pure true

/-! ## What is told of a row -/

/-- What is told while a length is settled. -/
def settleWarnings (declared : Int) (capacity : Nat) (c : Cursor) : List Warning :=
  (if capacity < declared then [.packedRowTooLong declared capacity] else []) ++
    if fitLength declared capacity c.remaining < 0 then [.packedRowOutOfRange declared c.pos]
    else []

/-- What is told while a packed row is read. -/
def rowWarnings (rowBytes height row : Nat) (c : Cursor) : List Warning :=
  match readLength rowBytes c with
  | (none, _) => [.packedRowsEnded row height]
  | (some declared, d) => settleWarnings declared (packedCapacity rowBytes) d

/-- Fewer bytes are taken than the length declares, or the length is negative. -/
def Shortens (declared : Int) (capacity : Nat) (c : Cursor) : Prop :=
  ((settle declared capacity c).2 : Int) < declared ∨ declared < 0

/-- The row at the cursor has a length, and is shortened. -/
def ShortensRow (rowBytes : Nat) (c : Cursor) : Prop :=
  ∃ declared d, readLength rowBytes c = (some declared, d) ∧
    Shortens declared (packedCapacity rowBytes) d

variable {declared : Int} {capacity : Nat} {c d : Cursor}

/-- Nothing is told of a length that is in range, and that leaves something to be read. -/
theorem settleWarnings_eq_nil : settleWarnings declared capacity c = [] ↔
    0 ≤ declared ∧ declared ≤ capacity ∧ 0 < c.remaining := by
  unfold settleWarnings fitLength
  rw [List.append_eq_nil_iff]
  split <;> split <;> simp <;> omega

theorem settle_snd (declared : Int) (capacity : Nat) (c : Cursor) :
    ((settle declared capacity c).2 : Int) = max 0 (fitLength declared capacity c.remaining) := by
  unfold settle
  split
  · dsimp only
    omega
  · dsimp only
    omega

/-- A row is shortened in silence where its length reaches as far as the data, but not the
capacity. -/
theorem shortens_silent_iff :
    Shortens declared capacity c ∧ settleWarnings declared capacity c = [] ↔
      0 < c.remaining ∧ (c.remaining : Int) ≤ declared ∧ declared ≤ capacity := by
  unfold Shortens
  rw [settleWarnings_eq_nil, settle_snd, fitLength]
  omega

theorem settleLength_warnings (declared : Int) (capacity : Nat) (stop : Stop) (s : Session Walk) :
    (sessionOf (settleLength declared capacity stop s)).warnings.toList =
      s.warnings.toList ++ settleWarnings declared capacity s.work.cursor := by
  have hsettled : ∀ u : Session Walk, u.work = s.work → (sessionOf ((do
      let c ← Walk.getCursor
      if fitLength declared capacity c.remaining < 0 then
        Job.warn (.packedRowOutOfRange declared c.pos)
        Walk.move fun c => c.seek (c.source.size - 1)
        Pure.pure 0
      else Pure.pure (fitLength declared capacity c.remaining).toNat : Job Walk Nat) stop u)
      ).warnings.toList =
        u.warnings.toList ++ if fitLength declared capacity s.work.cursor.remaining < 0 then
          [.packedRowOutOfRange declared s.work.cursor.pos] else [] := by
    intro u hu
    rw [bind_apply, Walk.getCursor_apply, ← hu]
    dsimp only
    split
    · exact Array.toList_push
    · exact (List.append_nil _).symm
  unfold settleLength settleWarnings
  split
  · rw [← List.append_assoc, ← Array.toList_push]
    exact hsettled { s with warnings := s.warnings.push (.packedRowTooLong declared capacity) } rfl
  · exact hsettled s rfl

theorem takePacked_warnings (declared : Int) (capacity : Nat) (stop : Stop) (s : Session Walk) :
    (sessionOf (takePacked declared capacity stop s)).warnings.toList =
      s.warnings.toList ++ settleWarnings declared capacity s.work.cursor := by
  rw [← settleLength_warnings declared capacity stop s, takePacked, bind_apply]
  cases settleLength declared capacity stop s <;> rfl

/-- Reading a packed row tells what settling its length does, whether it is decoded or fails. -/
theorem readPackedRow_warnings (f : Format) (width height rowBytes row : Nat) (stop : Stop)
    (s : Session Walk) :
    (sessionOf (readPackedRow f width height rowBytes row stop s)).warnings.toList =
      s.warnings.toList ++ rowWarnings rowBytes height row s.work.cursor := by
  have hread := Walk.read_apply stop s (readLength rowBytes)
  rw [readPackedRow_eq, bind_apply, hread]
  unfold rowWarnings
  rcases readLength rowBytes s.work.cursor with ⟨_ | declared, d⟩
  · exact Array.toList_push
  · dsimp only
    rw [bind_apply]
    have htake := takePacked_warnings declared (packedCapacity rowBytes) stop
      { s with work := { s.work with cursor := d } }
    cases hresult : takePacked declared (packedCapacity rowBytes) stop
        { s with work := { s.work with cursor := d } } with
    | error e t =>
      rw [hresult] at htake
      exact htake
    | ok packed t =>
      rw [hresult] at htake
      rw [← htake]
      exact congrArg Array.toList (mute_keepPacked f width packed stop t)

theorem length_settled (declared : Int) (capacity : Nat) (c : Cursor) :
    ((settle declared capacity c).1.next (settle declared capacity c).2).length =
      (settle declared capacity c).2 := by
  rw [Cursor.length_next]
  rcases settle_cases declared capacity c with hlast | ⟨n, hhere, hfit⟩
  · rw [hlast, Nat.zero_min]
  · have hlt := fitLength_lt_remaining declared capacity c.remaining
    rw [hhere]
    dsimp only
    omega

/-- A packed row is told of by its length alone. It is shortened in silence exactly where the length
reaches as far as the data, but not the capacity, and then it takes all but the last byte. -/
theorem takePacked_shortened (declared : Int) (capacity : Nat) (stop : Stop) (s : Session Walk) :
    (∃ packed t, takePacked declared capacity stop s = .ok packed t ∧
      (packed.length : Int) = max 0 (min (min declared capacity) (s.work.cursor.remaining - 1)) ∧
      t.warnings.toList = s.warnings.toList ++ settleWarnings declared capacity s.work.cursor ∧
      ((packed.length : Int) < declared ∨ declared < 0 →
        (t.warnings = s.warnings ↔ 0 < s.work.cursor.remaining ∧
          (s.work.cursor.remaining : Int) ≤ declared ∧ declared ≤ capacity)) ∧
      (t.warnings = s.warnings → (packed.length : Int) < declared →
        packed.length + 1 = s.work.cursor.remaining)) ∧
    ∀ f width height rowBytes row d, readLength rowBytes s.work.cursor = (some declared, d) →
      (sessionOf (readPackedRow f width height rowBytes row stop s)).warnings.toList =
        s.warnings.toList ++ settleWarnings declared (packedCapacity rowBytes) d := by
  refine ⟨?_, fun f width height rowBytes row d hlength => ?_⟩
  · obtain ⟨t, htake, -⟩ := takePacked_apply declared capacity stop s
    have hwarnings := takePacked_warnings declared capacity stop s
    rw [htake] at hwarnings
    have hsize : (((settle declared capacity s.work.cursor).1.next
        (settle declared capacity s.work.cursor).2).length : Int) =
          max 0 (fitLength declared capacity s.work.cursor.remaining) := by
      rw [length_settled, settle_snd]
    have hsilent : t.warnings = s.warnings ↔
        settleWarnings declared capacity s.work.cursor = [] := by
      rw [← Array.toList_inj, show t.warnings.toList = _ from hwarnings, List.append_right_eq_self]
    rw [settleWarnings_eq_nil] at hsilent
    refine ⟨_, t, htake, hsize, hwarnings, fun hshort => ?_, fun htold hshort => ?_⟩
    · rw [hsilent]
      unfold fitLength at hsize
      omega
    · have hrange := hsilent.mp htold
      unfold fitLength at hsize
      omega
  · have hrow := readPackedRow_warnings f width height rowBytes row stop s
    rw [rowWarnings, hlength] at hrow
    exact hrow

/-! ## Rows in a row -/

theorem prefix_rowSessions {σ : Type} {body : Nat → Job σ Bool} {stop : Stop} {s v w : Session σ}
    {row left : Nat} (h : [v, w] <+: rowSessions body stop row left s) :
    v = s ∧ sessionOf ((Job.checkRow row >>= fun _ => body row) stop s) = w := by
  cases left with
  | zero => exact absurd h.length_le (by simp [rowSessions])
  | succ left =>
    rw [rowSessions] at h
    obtain ⟨rfl, hbehind⟩ := List.cons_prefix_cons.mp h
    refine ⟨rfl, ?_⟩
    cases hrow : (Job.checkRow row >>= fun _ => body row) stop v with
    | error e t =>
      rw [hrow] at hbehind
      exact (List.cons_prefix_cons.mp hbehind).1.symm
    | ok more t =>
      rw [hrow] at hbehind
      cases more with
      | false => exact (List.cons_prefix_cons.mp hbehind).1.symm
      | true =>
        obtain ⟨rest, hrest⟩ := rowSessions_eq_cons body stop (row + 1) left t
        dsimp only at hbehind
        rw [hrest] at hbehind
        exact (List.cons_prefix_cons.mp hbehind).1.symm

/-- Three sessions in a row of a loop are those in front of and behind two of its rows. -/
theorem infix_rowSessions {σ : Type} {body : Nat → Job σ Bool} {stop : Stop} {u v w : Session σ}
    (left : Nat) : ∀ (row : Nat) (s : Session σ), [u, v, w] <:+: rowSessions body stop row left s →
      ∃ k, (Job.checkRow k >>= fun _ => body k) stop u = .ok true v ∧
        sessionOf ((Job.checkRow (k + 1) >>= fun _ => body (k + 1)) stop v) = w := by
  induction left with
  | zero => exact fun row s h => absurd h.length_le (by simp [rowSessions])
  | succ left ih =>
    intro row s h
    rw [rowSessions] at h
    cases hrow : (Job.checkRow row >>= fun _ => body row) stop s with
    | error e t =>
      rw [hrow] at h
      exact absurd h.length_le (by simp)
    | ok more t =>
      rw [hrow] at h
      cases more with
      | false => exact absurd h.length_le (by simp)
      | true =>
        dsimp only at h
        rcases List.infix_cons_iff.mp h with hfront | hrest
        · obtain ⟨rfl, hbehind⟩ := List.cons_prefix_cons.mp hfront
          obtain ⟨rfl, hnext⟩ := prefix_rowSessions hbehind
          exact ⟨row, hrow, hnext⟩
        · exact ih (row + 1) t hrest

section
variable {f : Format} {p : Picture} {s u v w : Session Walk} {row left : Nat}

theorem checkedRow_warnings (hpacked : f.isPacked p.rowBytes = true) (row : Nat)
    (s : Session Walk) :
    (sessionOf ((Job.checkRow row >>= fun _ => readRow f p row) .never s)).warnings.toList =
      s.warnings.toList ++ rowWarnings p.rowBytes p.declaredHeight row s.work.cursor := by
  obtain ⟨t, hcheck, hwork, htold⟩ := checkRow_never row s
  rw [bind_apply, hcheck]
  dsimp only
  rw [readRow, if_pos hpacked, readPackedRow_warnings, hwork, htold]

theorem rowWarnings_ne_nil {rowBytes : Nat} (height row : Nat) {c : Cursor} (h : c.remaining ≤ 1) :
    rowWarnings rowBytes height row c ≠ [] := by
  have hsize := (lengthSize_bounds rowBytes).1
  unfold rowWarnings
  rcases readLength_cases rowBytes c with ⟨hread, -⟩ | ⟨declared, hread, -⟩
  · rw [hread]
    exact List.cons_ne_nil _ _
  · rw [hread]
    intro htold
    have hleft := (settleWarnings_eq_nil.mp htold).2.2
    unfold Cursor.remaining at h hleft
    dsimp only at hleft
    omega

/-- What is shortened in silence leaves one byte. -/
theorem takenRow_silent {rowBytes : Nat} {c d : Cursor} {packed : List UInt8} (height row : Nat)
    (htaken : takenRow rowBytes c = some (packed, d)) (hshort : ShortensRow rowBytes c)
    (hsilent : rowWarnings rowBytes height row c = []) : d.remaining = 1 := by
  obtain ⟨declared, b, hlength, hshort⟩ := hshort
  rw [rowWarnings, hlength] at hsilent
  obtain ⟨hleft, hreach, hroom⟩ := shortens_silent_iff.mp ⟨hshort, hsilent⟩
  have hfit : fitLength declared (packedCapacity rowBytes) b.remaining = b.remaining - 1 := by
    unfold fitLength
    omega
  have hsettle : settle declared (packedCapacity rowBytes) b = (b, b.remaining - 1) := by
    rw [settle, hfit, if_neg (by omega)]
    congr 1
    omega
  rw [takenRow, hlength] at htaken
  dsimp only at htaken
  rw [hsettle] at htaken
  obtain ⟨-, rfl⟩ := Prod.mk.inj (Option.some.inj htaken)
  rw [Cursor.remaining_skip]
  show b.remaining - (b.remaining - 1) = 1
  omega

/-- Of two rows in a row the first of which is shortened, one is told of. -/
theorem rows_shortened (hpacked : f.isPacked p.rowBytes = true)
    (hrows : [u, v, w] <:+: rowSessions (readRow f p) .never row left s)
    (hshort : ShortensRow p.rowBytes u.work.cursor) : u.warnings.size < w.warnings.size := by
  obtain ⟨k, hfirst, hsecond⟩ := infix_rowSessions left row s hrows
  have htold := checkedRow_warnings hpacked k u
  rw [hfirst] at htold
  have htold' := checkedRow_warnings hpacked (k + 1) v
  rw [hsecond] at htold'
  have hsize : v.warnings.size = u.warnings.size +
      (rowWarnings p.rowBytes p.declaredHeight k u.work.cursor).length := by
    simpa [sessionOf] using congrArg List.length htold
  have hsize' : w.warnings.size = v.warnings.size +
      (rowWarnings p.rowBytes p.declaredHeight (k + 1) v.work.cursor).length := by
    simpa using congrArg List.length htold'
  by_cases hsilent : rowWarnings p.rowBytes p.declaredHeight k u.work.cursor = []
  · have hone : v.work.cursor.remaining = 1 := by
      have hstep := packedStep_cases f p.width p.declaredHeight p.rowBytes k .never u
      unfold readRow at hfirst
      rw [if_pos hpacked] at hfirst
      rw [hfirst] at hstep
      rcases hstep with ⟨t, -, ⟨e, herror⟩ | hend⟩ | ⟨packed, d, strips, t, htaken, -, hok, rfl, -⟩
      · cases herror
      · cases hend
      · obtain ⟨-, rfl⟩ := EStateM.Result.ok.inj hok
        exact takenRow_silent _ k htaken hshort hsilent
    have hnext : rowWarnings p.rowBytes p.declaredHeight (k + 1) v.work.cursor ≠ [] :=
      rowWarnings_ne_nil p.declaredHeight (k + 1) (Nat.le_of_eq hone)
    have hpos := List.length_pos_iff.mpr hnext
    omega
  · have hpos := List.length_pos_iff.mpr hsilent
    omega

theorem told_rowSessions {σ : Type} {body : Nat → Job σ Bool} {own : Error → Prop}
    (hbody : ∀ row, Heeds own (body row)) (stop : Stop) (left : Nat) :
    ∀ (row : Nat) (s : Session σ), ∀ u ∈ rowSessions body stop row left s,
      s.Precedes u ∧ u.Precedes (sessionOf (eachRow body row left stop s)) := by
  have hthreads : JobProperty.Threads fun _ (job : Job σ _) => job.Heeds own :=
    ⟨.pure, .bind, .check⟩
  induction left with
  | zero =>
    intro row s u hu
    obtain rfl := List.mem_singleton.mp hu
    exact ⟨.refl _, .refl _⟩
  | succ left ih =>
    intro row s u hu
    have hwhole := (hthreads.eachRow hbody (left + 1) row).later stop s
    have hfirst := ((hthreads.checkRow row).bind fun _ => hbody row).later stop s
    rw [rowSessions] at hu
    rw [eachRow_succ, bind_apply] at hwhole ⊢
    rcases List.mem_cons.mp hu with rfl | hu
    · exact ⟨.refl _, hwhole⟩
    cases hrow : (Job.checkRow row >>= fun _ => body row) stop s with
    | error e t =>
      rw [hrow] at hu hfirst
      obtain rfl := List.mem_singleton.mp hu
      exact ⟨hfirst, .refl _⟩
    | ok more t =>
      rw [hrow] at hu hfirst
      cases more with
      | false =>
        obtain rfl := List.mem_singleton.mp hu
        exact ⟨hfirst, .refl _⟩
      | true =>
        obtain ⟨hbehind, hlast⟩ := ih (row + 1) t u hu
        exact ⟨hfirst.trans hbehind, hlast⟩

/-- Where nothing is told of the rows of a raster, none but the last is shortened. -/
theorem readRows_silent (hpacked : f.isPacked s.work.picture.rowBytes = true)
    (hsilent : (sessionOf (readRows f .never s)).warnings = s.warnings)
    (hrows : [u, v, w] <:+:
      rowSessions (readRow f s.work.picture) .never 0 s.work.picture.declaredHeight s) :
    ¬ ShortensRow s.work.picture.rowBytes u.work.cursor := by
  intro hshort
  have hbody : ∀ row, Heeds (WalkError .unlimited) (readRow f s.work.picture row) :=
    (heeds_walks .unlimited).readRow f s.work.picture
  have htold := rows_shortened hpacked hrows hshort
  obtain ⟨hfirst, -⟩ := told_rowSessions hbody .never _ 0 s u (hrows.subset (by simp))
  obtain ⟨-, hlast⟩ := told_rowSessions hbody .never _ 0 s w (hrows.subset (by simp))
  have hrun : sessionOf (eachRow (readRow f s.work.picture) 0 s.work.picture.declaredHeight .never
      s) = sessionOf (readRows f .never s) := rfl
  rw [hrun] at hlast
  have hle := hfirst.warnings.length_le
  have hle' := hlast.warnings.length_le
  rw [hsilent] at hle'
  simp only [Array.length_toList] at hle hle'
  omega

end

end Raster

/-! ## A picture -/

namespace Decode

open Raster

/-- A row of bits that repeats one byte eight times, and ends the data. -/
def lastRow : List UInt8 := [2, 0xF9, 0xAA]

def lastRowLength : Session Walk :=
  { checks := 0
    warnings := #[]
    work := ⟨⟨lastRow.toArray, 1⟩, Picture.start ⟨64, 1, .two, none⟩, #[]⟩ }

def lastRowPicture : List UInt8 :=
  sampleHeader.bytes ++ [0x00, 0x98, 0x00, 0x08, 0, 0, 0, 0, 0, 1, 0, 64] ++ List.replicate 18 0 ++
    lastRow

/-- One of its two bytes is taken, which decodes to nothing, and nothing is told. -/
theorem takePacked_lastRow :
    (∃ packed t, takePacked 2 (packedCapacity 8) .never lastRowLength = .ok packed t ∧
      packed.length = 1 ∧ t.warnings = lastRowLength.warnings) ∧
    (decode lastRowPicture.toArray .unlimited .never).warnings = [] ∧
    ((decode lastRowPicture.toArray .unlimited .never).result.toOption.map fun doc =>
      doc.picture.strips) = some #[.bytes (List.replicate 64 0)] ∧
    PackBits.decodeBytes 256 lastRow.tail = List.replicate 8 0xAA := by
  obtain ⟨⟨packed, t, htake, hlength, -, hsilent, -⟩, -⟩ :=
    takePacked_shortened 2 (packedCapacity 8) .never lastRowLength
  have hone : packed.length = 1 := by
    have hcut : (max 0 (min (min 2 (packedCapacity 8 : Int))
        (lastRowLength.work.cursor.remaining - 1)) : Int) = 1 := by decide
    omega
  have htold : t.warnings = lastRowLength.warnings := (hsilent (by omega)).mpr (by decide)
  exact ⟨⟨packed, t, htake, hone, htold⟩, by decide +kernel, by decide +kernel, by decide +kernel⟩

/-- Not every packed row that is shortened is told of. -/
theorem decoded_silently_shortened :
    ¬ ∀ (declared : Int) (capacity : Nat) (stop : Stop) (s t : Session Walk) (packed : List UInt8),
      takePacked declared capacity stop s = .ok packed t →
      (packed.length : Int) < declared ∨ declared < 0 → s.warnings.size < t.warnings.size := by
  intro hall
  have htake : takePacked 2 (packedCapacity 8) .never lastRowLength =
      .ok [0xF9] { lastRowLength with work := { lastRowLength.work with
        cursor := ⟨lastRow.toArray, 2⟩ } } := by rfl
  exact absurd (hall _ _ _ _ _ _ htake (by decide)) (by decide)

end Decode
end Pict
