import Pict.Proofs.Decode.Tracks

/-!
# Rasters that are cut short

Where the bytes run out in front of the rows of a raster no row is read. Where they run
out in a row, that row and all rows behind it are stored with one byte left at most. A
format whose rows cannot be decoded fails on the whole data too.

Results:
* `tracks_readOpening`: an opening that is read to its end on the cut data alone ends there.
* `tracks_readRows`: behind the row in which the walks part there is one byte left at most.
-/
namespace Pict.Raster

open Job

variable {cut more : Source} {s t : Session Walk}

variable {f : Format} {width height rowBytes : Nat}

/-! ## Palettes -/

/-- How many of the declared entries there are bytes for. -/
def entriesAt (declared : Nat) (c : Cursor) : Nat :=
  min declared (c.remaining / Palette.entrySize)

theorem entriesAt_room (declared : Nat) {c : Cursor} (hin : c.Inside) :
    c.pos + entriesAt declared c * Palette.entrySize ≤ c.source.size := by
  unfold Cursor.Inside at hin
  unfold entriesAt Cursor.remaining Palette.entrySize
  omega

theorem readEntries_entriesAt (declared : Nat) {c : Cursor} (hin : c.Inside) :
    ∃ entries, ∀ more, Palette.readEntries (entriesAt declared c) (c.extend more) =
      (some entries,
        { c with pos := c.pos + entriesAt declared c * Palette.entrySize }.extend more) :=
  Palette.whole_readEntries (entriesAt declared c) c (entriesAt_room declared hin)

/-- All that is done with the number of declared entries: it is told when there are fewer, and those
that there are bytes for are read. -/
theorem takeEntries_eq (flags : UInt16) (declared : Nat) (stop : Stop) (s : Session Walk) :
    takeEntries flags declared stop s =
      .ok ((Palette.readEntries (entriesAt declared s.work.cursor) s.work.cursor).1.map
          fun entries => ⟨flags, entries⟩)
        { checks := s.checks
          warnings :=
            if s.work.cursor.remaining / Palette.entrySize < declared then
              s.warnings.push
                (.paletteTruncated declared (s.work.cursor.remaining / Palette.entrySize))
            else s.warnings
          work := { s.work with
            cursor :=
              (Palette.readEntries (entriesAt declared s.work.cursor) s.work.cursor).2 } } := by
  unfold takeEntries
  rw [bind_apply, Walk.getCursor_apply]
  dsimp only
  split <;> rfl

theorem takeEntries_apply (flags : UInt16) (declared : Nat) (stop : Stop) (s : Session Walk) :
    ∃ t, takeEntries flags declared stop s =
        .ok ((Palette.readEntries (entriesAt declared s.work.cursor) s.work.cursor).1.map
          fun entries => ⟨flags, entries⟩) t ∧
      t.work = { s.work with
        cursor :=
          (Palette.readEntries (entriesAt declared s.work.cursor) s.work.cursor).2 } :=
  ⟨_, takeEntries_eq flags declared stop s, rfl⟩

/-- Where fewer entries are there on the cut data, what is left of it is less than an entry. -/
theorem tracks_takeEntries (flags : UInt16) (declared : Nat) :
    Tracks cut more (takeEntries flags declared) fun a _ s _ => a.isSome ∧ Ends 7 s := by
  intro s t hst b t' ht
  obtain ⟨s', hs, hs'⟩ := takeEntries_apply flags declared .never s
  obtain ⟨u, hu, hu'⟩ := takeEntries_apply flags declared .never t
  obtain ⟨rfl, rfl⟩ := Job.ok_unique hu ht
  have hinside : s.work.cursor.pos ≤ s.work.cursor.source.size := hst.inside
  have hroom := entriesAt_room declared hst.inside
  obtain ⟨entries, hentries⟩ := readEntries_entriesAt declared hst.inside
  have hcut := hentries #[]
  rw [Cursor.extend_empty, Cursor.extend_empty] at hcut
  rw [hcut] at hs hs'
  refine ⟨_, s', hs, ?_⟩
  by_cases hmany : declared ≤ s.work.cursor.remaining / Palette.entrySize
  · have hsame : entriesAt declared t.work.cursor = entriesAt declared s.work.cursor := by
      have := hst.remaining_le
      unfold entriesAt Palette.entrySize at *
      omega
    rw [hsame, hst.cursor, hentries more] at hu' ⊢
    refine Or.inl ⟨rfl, ?_, ?_, ?_, ?_, ?_⟩
    · rw [hs']
      exact hst.source
    · rw [hs']
      exact hroom
    · rw [hs', hu']
    · rw [hs', hu']
      exact hst.picture
    · rw [hs']
      exact hst.marked
  · refine Or.inr ⟨rfl, ?_⟩
    unfold Ends
    rw [hs']
    refine ⟨hroom, ?_⟩
    unfold entriesAt Cursor.remaining Palette.entrySize at *
    dsimp only
    omega

theorem tracks_readPalette :
    Tracks cut more readPalette fun a _ s _ => Ends 7 s ∧ (a.isSome = false → Ends 1 s) := by
  rw [readPalette_eq]
  refine (Tracks.readExact Palette.exact_readDeclared).bind (fun declared => ?_) ?_
  · cases declared with
    | none => exact Tracks.pure none
    | some declared =>
      refine (tracks_takeEntries declared.1 declared.2).mono fun ⟨hsome, hends⟩ => ⟨hends, ?_⟩
      rw [hsome]
      exact fun h => by cases h
  · rintro a b s t c t' ⟨rfl, hends⟩ -
    have hleft := hends Palette.starves_readDeclared
    exact ⟨none, s, rfl, hleft.mono (by decide), fun _ => hleft⟩

/-! ## Openings -/

/-- Where an opening has come short: a part that was read to its end ends with the cut data. -/
def CutOff {α : Type} (a : Option α) (s : Session Walk) : Prop :=
  Ends 1 s ∧ (a.isSome → Ends 0 s)

theorem CutOff.of_ends {α : Type} (a : Option α) (h : Ends 0 s) : CutOff a s :=
  ⟨h.mono (Nat.zero_le 1), fun _ => h⟩

theorem tracks_takeRowBytes (rowBytes : Option Nat) :
    Tracks cut more (takeRowBytes rowBytes) fun _ _ s _ => Ends 0 s := by
  cases rowBytes with
  | none => exact Tracks.skip 6
  | some n =>
    have hmodify : Tracks cut more (Walk.modify fun p => { p with rowBytes := n }) _ :=
      Tracks.modify fun _ => rfl
    exact hmodify.mono fun h => h.elim

theorem tracks_readColors (kind : RasterKind) (f : Format) :
    Tracks cut more (readColors kind f) fun a _ s _ => Ends 7 s ∧ (a = false → Ends 1 s) := by
  have htable : Tracks cut more (readColors .bitsRect f)
      fun a _ s _ => Ends 7 s ∧ (a = false → Ends 1 s) := by
    refine tracks_readPalette.bind (fun palette => ?_) ?_
    · cases palette with
      | none => exact Tracks.pure false
      | some palette =>
        exact Tracks.bind_same (Tracks.modify fun _ => rfl) fun _ => Tracks.pure true
    · rintro a b s t c t' ⟨hends, hnone⟩ -
      cases a with
      | none => exact ⟨false, s, rfl, hends, fun _ => hnone rfl⟩
      | some palette => exact ⟨true, _, rfl, hends, fun h => by cases h⟩
  cases kind with
  | bitsRect | bitsRegion | packBitsRect | packBitsRegion => exact htable
  | directBits =>
    refine Tracks.getPicture.bind_same fun p => ?_
    split
    · exact Tracks.bind_same (Tracks.modify fun _ => rfl) fun _ => Tracks.pure true
    · exact Tracks.fail _

theorem succeeds_readTable {kind : RasterKind} (hkind : kind ≠ .directBits) (f : Format) :
    Succeeds (readColors kind f) := by
  have htable : Succeeds (readColors .bitsRect f) := by
    refine Succeeds.moves.readPalette.bind fun palette => ?_
    cases palette with
    | none => exact Succeeds.pure false
    | some palette => exact (Succeeds.modify _).bind fun _ => Succeeds.pure true
  cases kind with
  | bitsRect | bitsRegion | packBitsRect | packBitsRegion => exact htable
  | directBits => exact absurd rfl hkind

theorem succeeds_readColors {kind : RasterKind} {stop : Stop} {b : Bool}
    (h : readColors kind f stop s = .ok b t) : Succeeds (readColors kind f) := by
  by_cases hkind : kind = .directBits
  · subst hkind
    intro u
    obtain ⟨p, _, -, h⟩ := bind_eq_ok.mp h
    cases hbytes : f.directRowBytes? p.width with
    | none =>
      rw [hbytes] at h
      cases h
    | some n =>
      obtain ⟨m, hm⟩ := Format.directRowBytes?_of_some hbytes u.work.picture.width
      refine ⟨true, { u with work := { u.work with
        picture := { u.work.picture with rowBytes := m } } }, ?_⟩
      refine bind_eq_ok.mpr ⟨u.work.picture, u, rfl, ?_⟩
      rw [hm]
      rfl
  · exact succeeds_readTable hkind f

theorem tracks_passColors (kind : RasterKind) (f : Format) (settled : Bool) :
    Tracks cut more (passColors kind f settled) fun _ _ s _ => Ends 0 s := by
  unfold passColors
  split
  · refine (Tracks.skip 18).bind_ends (fun _ => ?_) (fun _ => Succeeds.moves.passRegion kind f)
      fun _ => (Within.opens Frame.forward_opens).passRegion kind f
    split
    · exact (Tracks.skip 2).bind_ends (fun _ => Tracks.pure _) (fun _ => Succeeds.pure _)
        fun _ => Within.pure _
    · exact Tracks.pure _
  · exact Tracks.pure none

/-- Colors that are settled with less than an entry left are followed by the end of the data. -/
theorem passColors_short {settled : Bool} (kind : RasterKind) (f : Format) (h : Ends 7 s)
    (hsettled : settled = false → Ends 1 s) :
    ∃ a t, passColors kind f settled .never s = .ok a t ∧ CutOff a t := by
  cases settled with
  | false => exact ⟨none, s, rfl, hsettled rfl, fun h => by cases h⟩
  | true =>
    have hskip : Ends 0 { s with work := { s.work with cursor := s.work.cursor.skip 18 } } := by
      refine ⟨Cursor.skip_pos_le _ 18, Nat.le_trans (Nat.le_of_eq (Cursor.remaining_skip _ 18)) ?_⟩
      have := h.2
      omega
    have hrest := Succeeds.moves.passRegion kind f
    have hforward := (Within.opens Frame.forward_opens).passRegion kind f
    obtain ⟨a, t, ht⟩ := hrest _
    exact ⟨a, t, bind_eq_ok.mpr ⟨(), _, rfl, ht⟩, .of_ends a (hskip.forward (hforward.ok ht))⟩

theorem tracks_readPixmap (kind : RasterKind) :
    Tracks cut more (readPixmap kind) fun a _ s _ => CutOff a s := by
  rw [readPixmap_eq]
  refine (Tracks.readClipped Format.clipped_read Format.starves_read).bind (fun f => ?_) ?_
  · cases f with
    | none => exact Tracks.pure none
    | some f =>
      refine (tracks_readColors kind f).bind (fun settled => ?_) ?_
      · exact (tracks_passColors kind f settled).mono fun h => .of_ends _ h
      · rintro a b s t c t' ⟨hends, hfalse⟩ -
        exact passColors_short kind f hends hfalse
  · rintro a b s t c t' (⟨rfl, hends⟩ | ⟨rfl, hsome, hends⟩) ht
    · exact ⟨none, s, rfl, hends, fun h => by cases h⟩
    · -- behind the end of the cut data nothing fails that does not fail on the whole
      obtain ⟨f, rfl⟩ := Option.isSome_iff_exists.mp hsome
      obtain ⟨_, _, hcolors, -⟩ := bind_eq_ok.mp ht
      have hrest : Succeeds (readColors kind f >>= passColors kind f) :=
        (succeeds_readColors hcolors).bind (Succeeds.moves.passColors kind f)
      have hforward : Within Frame.forward (readColors kind f >>= passColors kind f) :=
        (within_readColors Frame.forward_opens kind f).bind
          (within_passColors Frame.forward_opens kind f)
      obtain ⟨d, s', hs⟩ := hrest s
      exact ⟨d, s', hs, .of_ends d (hends.forward (hforward.ok hs))⟩

theorem tracks_openPixmap (kind : RasterKind) :
    Tracks cut more (openPixmap kind) fun a _ s _ => CutOff a s := by
  refine (tracks_readPixmap kind).bind (fun f => ?_) ?_
  · cases f with
    | none => exact Tracks.silent fun _ => ⟨_, rfl, rfl⟩
    | some f => exact Tracks.pure (some f)
  · rintro a b s t c t' hends -
    cases a with
    | none => exact ⟨none, _, rfl, hends⟩
    | some f => exact ⟨some f, s, rfl, hends⟩

theorem opened_atEnd (kind : RasterKind) (pixmap : Bool) (h : Ends 0 s) :
    ∃ a t, (if pixmap then openPixmap kind else pure (some Format.bitmap)) .never s = .ok a t ∧
      Ends 0 t := by
  cases pixmap with
  | false => exact ⟨_, s, rfl, h⟩
  | true =>
    have hread := Walk.read_eq .never s (Format.hungry_read _ (Nat.le_zero.mp h.2))
    have hforward := (Format.advances_read s.work.cursor).1
    refine ⟨none, _, bind_eq_ok.mpr ⟨none, _, bind_eq_ok.mpr ⟨none, _, hread, rfl⟩, rfl⟩, ?_⟩
    exact h.forward hforward

/-- An opening that is read to its end on the cut data alone ends with it. -/
theorem tracks_readOpening (op : RasterOp) :
    Tracks cut more (readOpening op) fun a _ s _ => CutOff a s := by
  rw [readOpening_eq]
  refine (tracks_takeRowBytes op.rowBytes).bind (fun _ => ?_) ?_
  · refine (Tracks.readClipped clipped_readBounds starves_readBounds).bind (fun bounds => ?_) ?_
    · cases bounds with
      | none => exact (Tracks.warn _).bind_same fun _ => Tracks.pure none
      | some bounds =>
        refine Tracks.bind_same (Tracks.modify fun _ => rfl) fun _ => ?_
        split
        · exact tracks_openPixmap op.kind
        · exact Tracks.pure _
    · rintro a b s t c t' (⟨rfl, hends⟩ | ⟨rfl, hsome, hends⟩) -
      · exact ⟨none, _, rfl, hends, fun h => by cases h⟩
      · obtain ⟨bounds, rfl⟩ := Option.isSome_iff_exists.mp hsome
        obtain ⟨d, s', hs, hends'⟩ := opened_atEnd op.kind op.pixmap
          (s := { s with work := { s.work with
            picture := s.work.picture.resize bounds.1 bounds.2 } }) hends
        exact ⟨d, s', bind_eq_ok.mpr ⟨(), _, rfl, hs⟩, .of_ends d hends'⟩
  · rintro a b s t c t' hends -
    have hread := Walk.read_eq .never s (hungry_readBounds _ (Nat.le_zero.mp hends.2))
    have hforward := (advances_readBounds s.work.cursor).1
    exact ⟨none, _, bind_eq_ok.mpr ⟨none, _, hread, rfl⟩, .of_ends none (hends.forward hforward)⟩

/-! ## Rows -/

theorem tracks_markDirect (f : Format) : Tracks cut more (markDirect f) fun _ _ _ _ => False := by
  unfold markDirect
  split
  · exact Tracks.modify fun _ => rfl
  · exact Tracks.pure ()

theorem tracks_keepRaw (row : Nat) (bytes : List UInt8) :
    Tracks cut more (keepRaw f width rowBytes row bytes) fun _ _ _ _ => False := by
  have hrow : Tracks cut more (do
      let strip ← Job.ofExcept (f.rawStrip width (fit rowBytes bytes))
      Walk.store strip
      markDirect f
      Pure.pure true) fun _ _ _ _ => False :=
    (Tracks.ofExcept _).bind_same fun strip => (Tracks.store strip).bind_same fun _ =>
      (tracks_markDirect f).bind_same fun _ => Tracks.pure true
  unfold keepRaw
  split
  · exact (Tracks.warn _).bind_same fun _ => hrow
  · exact hrow

theorem tracks_keepPacked (packed : List UInt8) :
    Tracks cut more (keepPacked f width packed) fun _ _ _ _ => False :=
  (Tracks.ofExcept _).bind_same fun strips => (Tracks.storeAll strips).bind_same fun _ =>
    (tracks_markDirect f).bind_same fun _ => Tracks.pure true

theorem keepRaw_ok {stop : Stop} {row : Nat} {bytes : List UInt8} {b : Bool}
    (h : keepRaw f width rowBytes row bytes stop s = .ok b t) (later : List UInt8) :
    ∃ strip, f.rawStrip width later = .ok strip := by
  unfold keepRaw at h
  split at h
  · obtain ⟨_, _, -, h⟩ := bind_eq_ok.mp h
    obtain ⟨strip, _, hstrip, -⟩ := bind_eq_ok.mp h
    exact Format.rawStrip_ok_of_ok (ofExcept_eq_ok.mp hstrip).1 later
  · obtain ⟨strip, _, hstrip, -⟩ := bind_eq_ok.mp h
    exact Format.rawStrip_ok_of_ok (ofExcept_eq_ok.mp hstrip).1 later

theorem keepPacked_ok {stop : Stop} {packed : List UInt8} {b : Bool}
    (h : keepPacked f width packed stop s = .ok b t) (later : List UInt8) :
    ∃ strips, f.packedStrips width later = .ok strips := by
  obtain ⟨strips, _, hstrips, -⟩ := bind_eq_ok.mp h
  exact Format.packedStrips_ok_of_ok (ofExcept_eq_ok.mp hstrips).1 later

theorem tracks_next (n : Nat) : Tracks cut more (Walk.next n) fun _ _ s _ => Ends 0 s := by
  intro s t hst b t' ht
  obtain ⟨rfl, rfl⟩ := EStateM.Result.ok.inj ht
  refine ⟨_, _, rfl, ?_⟩
  by_cases h : s.work.cursor.pos + n ≤ s.work.cursor.source.size
  · refine Or.inl ⟨?_, hst.source, s.work.cursor.skip_pos_le n, ?_, hst.picture, hst.marked⟩
    · rw [hst.cursor]
      exact (Source.slice_extend more h).symm
    · show t.work.cursor.skip n = _
      rw [hst.cursor, Cursor.skip_extend more h]
  · refine Or.inr ⟨s.work.cursor.skip_pos_le n, ?_⟩
    have := s.work.cursor.remaining_skip n
    unfold Cursor.remaining at *
    dsimp only at *
    omega

theorem tracks_readRawRow (row : Nat) :
    Tracks cut more (readRawRow f width height rowBytes row) fun a _ s t =>
      Parted cut s t ∧
        (a = true → ∀ later, Succeeds (readRawRow f width height rowBytes later)) := by
  -- behind the check for the end the walks read the same bytes, or the cut data ends
  have hbytes : Tracks cut more (Walk.next rowBytes >>= keepRaw f width rowBytes row)
      fun a _ s t => Parted cut s t ∧
        (a = true → ∀ later, Succeeds (readRawRow f width height rowBytes later)) := by
    have hnext : Tracks cut more (Walk.next rowBytes) _ := (tracks_next rowBytes).parted
      (fun h => h.mono (Nat.zero_le 1)) (Within.next Frame.still_opens rowBytes)
      (Within.next Frame.onward_rows.toOpens rowBytes)
    refine hnext.bind (fun bytes => (tracks_keepRaw row bytes).mono fun h => h.elim) ?_
    rintro a b s t c t' ⟨-, hparted⟩ ht
    obtain ⟨d, s', hs, hparted'⟩ := hparted.go (succeeds_keepRaw (keepRaw_ok ht) row a)
      (fun R hR => within_keepRaw hR row a) ((within_keepRaw Frame.appends_rows row b).ok ht)
    exact ⟨d, s', hs, hparted', fun _ => succeeds_readRawRow (keepRaw_ok ht)⟩
  intro s t hst b t' ht
  have happends := (within_readRawRow Frame.appends_rows row).ok ht
  rw [readRawRow_eq] at ht ⊢
  obtain ⟨_, _, hcursor, hrest⟩ := bind_eq_ok.mp ht
  rw [Walk.getCursor_apply] at hcursor
  obtain ⟨rfl, rfl⟩ := EStateM.Result.ok.inj hcursor
  by_cases hend : s.work.cursor.atEnd = true
  · refine ⟨false, { s with warnings := s.warnings.push (.rawRowsEnded row height) }, ?_,
      Or.inr ⟨?_, fun h => by cases h⟩⟩
    · refine bind_eq_ok.mpr ⟨_, s, rfl, ?_⟩
      rw [if_pos hend]
      rfl
    · refine hst.part ⟨rfl, rfl⟩ (.refl _) ?_ happends
      rw [Cursor.atEnd_iff] at hend
      exact Nat.le_trans (Nat.le_of_eq hend) (Nat.zero_le 1)
  · have hwhole : ¬t.work.cursor.atEnd = true := by
      have := hst.remaining_le
      rw [Cursor.atEnd_iff] at hend ⊢
      omega
    rw [if_neg hwhole] at hrest
    obtain ⟨a, s', hs, hout⟩ := hbytes s t hst b t' hrest
    refine ⟨a, s', bind_eq_ok.mpr ⟨_, s, rfl, ?_⟩, hout⟩
    rw [if_neg hend]
    exact hs

/-- Where a packed row is read from, and how many bytes of it. -/
def settle (declared : Int) (capacity : Nat) (c : Cursor) : Cursor × Nat :=
  if fitLength declared capacity c.remaining < 0 then (c.seek (c.source.size - 1), 0)
  else (c, (fitLength declared capacity c.remaining).toNat)

theorem settleLength_apply (declared : Int) (capacity : Nat) (stop : Stop) (s : Session Walk) :
    ∃ t, settleLength declared capacity stop s =
        .ok (settle declared capacity s.work.cursor).2 t ∧
      t.work = { s.work with cursor := (settle declared capacity s.work.cursor).1 } := by
  have hsettled : ∀ u : Session Walk, u.work = s.work → ∃ t, (do
      let c ← Walk.getCursor
      if fitLength declared capacity c.remaining < 0 then
        Job.warn (.packedRowOutOfRange declared c.pos)
        Walk.move fun c => c.seek (c.source.size - 1)
        Pure.pure 0
      else Pure.pure (fitLength declared capacity c.remaining).toNat) stop u =
        .ok (settle declared capacity s.work.cursor).2 t ∧
      t.work = { s.work with cursor := (settle declared capacity s.work.cursor).1 } := by
    intro u hu
    rw [bind_apply, Walk.getCursor_apply, settle, ← hu]
    dsimp only
    split
    · exact ⟨_, rfl, rfl⟩
    · exact ⟨u, rfl, rfl⟩
  unfold settleLength
  split
  · exact hsettled { s with warnings := s.warnings.push (.packedRowTooLong declared capacity) } rfl
  · exact hsettled s rfl

theorem takePacked_apply (declared : Int) (capacity : Nat) (stop : Stop) (s : Session Walk) :
    ∃ t, takePacked declared capacity stop s =
        .ok ((settle declared capacity s.work.cursor).1.next
          (settle declared capacity s.work.cursor).2) t ∧
      t.work = { s.work with
        cursor := (settle declared capacity s.work.cursor).1.skip
          (settle declared capacity s.work.cursor).2 } := by
  obtain ⟨u, hu, hwork⟩ := settleLength_apply declared capacity stop s
  refine ⟨{ u with work := { u.work with
    cursor := u.work.cursor.skip (settle declared capacity s.work.cursor).2 } }, ?_, ?_⟩
  · refine bind_eq_ok.mpr ⟨_, u, hu, ?_⟩
    have hcursor : u.work.cursor = (settle declared capacity s.work.cursor).1 := by rw [hwork]
    rw [← hcursor]
    rfl
  · rw [hwork]

/-- A length that is cut to what is left leaves one byte, and so does one that is out of range. -/
theorem tracks_takePacked (declared : Int) (capacity : Nat) :
    Tracks cut more (takePacked declared capacity) fun _ _ s _ => Ends 1 s := by
  intro s t hst b t' ht
  obtain ⟨s', hs, hs'⟩ := takePacked_apply declared capacity .never s
  obtain ⟨u, hu, hu'⟩ := takePacked_apply declared capacity .never t
  obtain ⟨rfl, rfl⟩ := Job.ok_unique hu ht
  refine ⟨_, s', hs, ?_⟩
  have hinside : s.work.cursor.pos ≤ s.work.cursor.source.size := hst.inside
  have hmore := hst.remaining_le
  by_cases hneg : fitLength declared capacity s.work.cursor.remaining < 0
  · rw [settle, if_pos hneg] at hs'
    have hend : Ends 1 s' := by
      unfold Ends
      rw [hs']
      refine ⟨Cursor.skip_pos_le _ _, Nat.le_trans (Nat.le_of_eq (Cursor.remaining_skip _ 0)) ?_⟩
      simp only [Cursor.remaining, Cursor.seek]
      omega
    exact Or.inr hend
  · have hsettle : settle declared capacity s.work.cursor =
        (s.work.cursor, (fitLength declared capacity s.work.cursor.remaining).toNat) := by
      rw [settle, if_neg hneg]
    rw [hsettle] at hs' ⊢
    dsimp only at hs' ⊢
    generalize hlength : (fitLength declared capacity s.work.cursor.remaining).toNat = length at *
    have hfits : length < s.work.cursor.remaining := by
      have := fitLength_lt_remaining declared capacity s.work.cursor.remaining
      omega
    by_cases hcut : length + 1 = s.work.cursor.remaining
    · have hend : Ends 1 s' := by
        unfold Ends
        rw [hs']
        refine ⟨Cursor.skip_pos_le _ _, Nat.le_trans (Nat.le_of_eq (Cursor.remaining_skip _ _)) ?_⟩
        omega
      exact Or.inr hend
    · -- the length is the one that is declared, or the capacity
      left
      have hsame : settle declared capacity t.work.cursor = (t.work.cursor, length) := by
        have hfit : fitLength declared capacity t.work.cursor.remaining =
            fitLength declared capacity s.work.cursor.remaining := by
          unfold fitLength at *
          omega
        rw [settle, hfit, if_neg hneg, hlength]
      rw [hsame] at hu' ⊢
      have hroom : s.work.cursor.pos + length ≤ s.work.cursor.source.size := by
        unfold Cursor.remaining at hfits
        omega
      refine ⟨?_, ?_, ?_, ?_, ?_, ?_⟩
      · rw [hst.cursor]
        exact (Source.slice_extend more hroom).symm
      · rw [hs']
        exact hst.source
      · rw [hs']
        exact Cursor.skip_pos_le _ _
      · rw [hs', hu', hst.cursor]
        exact Cursor.skip_extend more hroom
      · rw [hs', hu']
        exact hst.picture
      · rw [hs']
        exact hst.marked

theorem within_takePacked_still (declared : Int) (capacity : Nat) :
    Within Frame.still (takePacked declared capacity) := by
  intro stop s
  obtain ⟨t, ht, hwork⟩ := takePacked_apply declared capacity stop s
  rw [ht]
  show Frame.still.allows s.work t.work
  rw [hwork]
  exact ⟨rfl, rfl⟩

theorem tracks_readPackedRow (row : Nat) :
    Tracks cut more (readPackedRow f width height rowBytes row) fun a _ s t =>
      Parted cut s t ∧
        (a = true → ∀ later, Succeeds (readPackedRow f width height rowBytes later)) := by
  have hadvances := advances_readLength rowBytes
  have hlength : Tracks cut more (Walk.read (readLength rowBytes)) _ :=
    (Tracks.readExact (exact_readLength rowBytes)).parted
      (fun h => h.2 (starves_readLength rowBytes)) (Within.read Frame.still_opens hadvances)
      (Within.read Frame.onward_rows.toOpens hadvances)
  rw [readPackedRow_eq]
  refine hlength.bind (fun declared => ?_) ?_
  · cases declared with
    | none => exact (Tracks.warn _).bind_same fun _ => Tracks.pure false
    | some declared =>
      have htake : Tracks cut more (takePacked declared (packedCapacity rowBytes)) _ :=
        (tracks_takePacked declared _).parted (fun h => h) (within_takePacked_still declared _)
          (within_takePacked Frame.onward_rows declared _)
      refine htake.bind (fun packed => (tracks_keepPacked packed).mono fun h => h.elim) ?_
      rintro a b s t c t' ⟨-, hparted⟩ ht
      obtain ⟨d, s', hs, hparted'⟩ := hparted.go (succeeds_keepPacked (keepPacked_ok ht) a)
        (fun R hR => within_keepPacked hR a) ((within_keepPacked Frame.appends_rows b).ok ht)
      exact ⟨d, s', hs, hparted', fun _ => succeeds_readPackedRow (keepPacked_ok ht)⟩
  · -- no length on the cut data: the rows end there
    rintro a b s t c t' ⟨⟨rfl, -⟩, hparted⟩ ht
    refine ⟨false, { s with warnings := s.warnings.push (.packedRowsEnded row height) }, rfl, ?_,
      fun h => by cases h⟩
    refine hparted.mono (fun R _ => R.refl s.work) ?_
    cases b with
    | none => exact ((Within.warn _).bind fun _ => Within.pure false).ok ht
    | some declared =>
      have hrest : Within Frame.appends
          (takePacked declared (packedCapacity rowBytes) >>= keepPacked f width) :=
        (within_takePacked Frame.appends_rows declared _).bind
          fun packed => within_keepPacked Frame.appends_rows packed
      exact hrest.ok ht

/-- Rows of the cut data come first, then rows that are stored with one byte left at most. -/
theorem tracks_readRows (f : Format) :
    Tracks cut more (readRows f) fun _ _ s t => Parted cut s t := by
  rw [readRows_eq]
  refine Tracks.getPicture.bind_same fun p => ?_
  refine Tracks.eachRow (fun row R hR => within_readRow hR f p row) (fun row => ?_) _ 0
  unfold readRow
  cases f.isPacked p.rowBytes with
  | true => exact tracks_readPackedRow row
  | false => exact tracks_readRawRow row

end Pict.Raster
