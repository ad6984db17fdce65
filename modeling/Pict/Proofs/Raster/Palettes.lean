import Pict.Proofs.Raster.Undecodable

/-!
# Palettes as they are found

A palette says of itself, behind a seed of four bytes, which flags it has and the number of its last
entry. That number may be anything: a negative one declares no entries, and one that is too large
more than there are bytes for. Whatever it is, no more entries are read than lie whole in the data, so
no entry is ever missed, and reading goes on behind the last one.

Results:
* `readDeclared_there`, `readEntry_there`, `readEntries_there`: the parts of a palette are read where
  their bytes are.
* `readPalette_short`, `readPalette_there`: what is read where a palette is expected.
* `readPalette_total`: every place has a palette or is too short for one, by eight bytes.
-/
namespace Pict

namespace Palette

/-- What a palette says of itself is read where its eight bytes are. -/
theorem readDeclared_there {c : Cursor} (h : 8 ≤ c.remaining) :
    ∃ flags last, c.source.u16? (c.pos + 4) = some flags ∧
      c.source.i16? (c.pos + 6) = some last ∧
      readDeclared c = (some (flags, (last + 1).toNat), { c with pos := c.pos + 8 }) := by
  obtain ⟨source, pos⟩ := c
  have hroom : pos + 8 ≤ source.size := by
    simp only [Cursor.remaining] at h
    omega
  obtain ⟨flags, hflags⟩ := Option.isSome_iff_exists.mp
    ((source.isSome_u16?_iff (pos + 4)).mpr (by omega))
  obtain ⟨last, hlast⟩ := Source.i16?_of_le (show pos + 6 + 2 ≤ source.size by omega)
  refine ⟨flags, last, hflags, hlast, ?_⟩
  unfold readDeclared Reader.u16 Reader.i16
  rw [Reader.bind_skip (show pos + 4 ≤ source.size by omega), Reader.bind_field hflags,
    Reader.bind_field hlast]
  rfl

theorem readDeclared_short {c : Cursor} (h : c.remaining < 8) : (readDeclared c).1 = none := by
  have hbehind : readDeclared c = (Reader.u16 >>= fun flags =>
      Reader.i16 >>= fun last => pure (flags, (last + 1).toNat)) (c.skip 4) := rfl
  have hadvances : Reader.Advances 4 (Reader.u16 >>= fun flags =>
      Reader.i16 >>= fun last => pure (flags, (last + 1).toNat)) :=
    Reader.Advances.u16.bind (m := 2) fun _ =>
      Reader.Advances.i16.bind (m := 0) fun _ => Reader.Advances.pure _
  rw [hbehind]
  exact hadvances.short (c.skip_pos_le 4) (by rw [Cursor.remaining_skip]; omega)

/-- The entry that stands at the cursor: the high bytes of the three words behind its value. It is
read, and nothing of it is left. -/
structure HasEntry (c : Cursor) (e : Rgb) : Prop where
  red : c.source.u8? (c.pos + 2) = some e.red
  green : c.source.u8? (c.pos + 4) = some e.green
  blue : c.source.u8? (c.pos + 6) = some e.blue
  read : readEntry c = (some e, { c with pos := c.pos + 8 })

/-- Eight bytes are an entry, whatever they are. -/
theorem readEntry_there {c : Cursor} (h : c.pos + 8 ≤ c.source.size) : ∃ e, HasEntry c e := by
  obtain ⟨source, pos⟩ := c
  dsimp only at h
  have hbyte (p : Nat) (hp : p < source.size) : ∃ b, source.u8? p = some b :=
    Option.isSome_iff_exists.mp ((source.isSome_u8?_iff p).mpr hp)
  obtain ⟨red, hred⟩ := hbyte (pos + 2) (by omega)
  obtain ⟨green, hgreen⟩ := hbyte (pos + 4) (by omega)
  obtain ⟨blue, hblue⟩ := hbyte (pos + 6) (by omega)
  refine ⟨⟨red, green, blue⟩, hred, hgreen, hblue, ?_⟩
  unfold readEntry Reader.u8
  rw [Reader.bind_skip (show pos + 2 ≤ source.size by omega), Reader.bind_field hred,
    Reader.bind_skip (show pos + 3 + 1 ≤ source.size by omega), Reader.bind_field hgreen,
    Reader.bind_skip (show pos + 5 + 1 ≤ source.size by omega), Reader.bind_field hblue,
    Reader.bind_skip (show pos + 7 + 1 ≤ source.size by omega)]
  rfl

/-- Entries that lie whole in the data are read one behind the other. -/
theorem readEntries_there (n : Nat) : ∀ {c : Cursor}, c.pos + 8 * n ≤ c.source.size →
    ∃ entries, readEntries n c = (some entries, { c with pos := c.pos + 8 * n }) ∧
      entries.length = n ∧
      ∀ k e, entries[k]? = some e → HasEntry { c with pos := c.pos + 8 * k } e := by
  induction n with
  | zero => exact fun _ => ⟨[], rfl, rfl, nofun⟩
  | succ n ih =>
    intro c h
    obtain ⟨e, he⟩ := readEntry_there (show c.pos + 8 ≤ c.source.size by omega)
    obtain ⟨entries, hread, hlength, hentries⟩ := ih (c := { c with pos := c.pos + 8 })
      (by dsimp only; omega)
    refine ⟨e :: entries, ?_, congrArg Nat.succ hlength, ?_⟩
    · have hend : c.pos + 8 + 8 * n = c.pos + 8 * (n + 1) := by omega
      rw [readEntries, Reader.bind_apply, he.read]
      dsimp only
      rw [Reader.bind_apply, hread]
      dsimp only
      rw [hend]
      rfl
    · intro k e' hk
      cases k with
      | zero =>
        obtain rfl := Option.some.inj hk
        exact he
      | succ k =>
        have hplace : c.pos + 8 + 8 * k = c.pos + 8 * (k + 1) := by omega
        have hentry := hentries k e' hk
        dsimp only at hentry
        rwa [hplace] at hentry

/-- The palette that is found at the cursor, with the number that it gives its last entry: it has as
many entries as it declares, or as there are bytes for behind what it says of itself. -/
structure Found (c : Cursor) (last : Int) (palette : Palette) : Prop where
  flags : c.source.u16? (c.pos + 4) = some palette.flags
  declares : c.source.i16? (c.pos + 6) = some last
  length : palette.length = min (last + 1).toNat ((c.remaining - 8) / 8)
  entry : ∀ k e, palette.entries[k]? = some e → HasEntry { c with pos := c.pos + 8 + 8 * k } e

end Palette

namespace Raster

open Job

variable {s : Session Walk}

/-- Where a walk is behind a palette that was found: more entries than there are bytes for have been
told of, and nothing else is different. -/
def behindPalette (s : Session Walk) (last : Int) (palette : Palette) : Session Walk :=
  let room := (s.work.cursor.remaining - 8) / 8
  { checks := s.checks
    warnings :=
      if (room : Int) < last + 1 then
        s.warnings.push (.paletteTruncated (last + 1).toNat room)
      else s.warnings
    work := { s.work with
      cursor := { s.work.cursor with pos := s.work.cursor.pos + 8 + 8 * palette.length } } }

/-- With less than eight bytes left there is no palette, and nothing is told. -/
theorem readPalette_short (stop : Stop) (h : s.work.cursor.remaining < 8) :
    ∃ d, readPalette stop s = .ok none { s with work := { s.work with cursor := d } } := by
  rw [readPalette_eq, bind_apply, Walk.read_apply, Palette.readDeclared_short h]
  exact ⟨_, rfl⟩

/-- With eight bytes left there is one. -/
theorem readPalette_there (stop : Stop) (h : 8 ≤ s.work.cursor.remaining) :
    ∃ last palette, Palette.Found s.work.cursor last palette ∧
      readPalette stop s = .ok (some palette) (behindPalette s last palette) := by
  obtain ⟨flags, last, hflags, hlast, hdeclared⟩ := Palette.readDeclared_there h
  generalize hn : min (last + 1).toNat ((s.work.cursor.remaining - 8) / 8) = n
  have hroom : s.work.cursor.pos + 8 + 8 * n ≤ s.work.cursor.source.size := by
    unfold Cursor.remaining at h hn
    omega
  obtain ⟨entries, hread, hlength, hentries⟩ := Palette.readEntries_there n
    (c := { s.work.cursor with pos := s.work.cursor.pos + 8 }) hroom
  have hleft : ({ s.work.cursor with pos := s.work.cursor.pos + 8 } : Cursor).remaining =
      s.work.cursor.remaining - 8 := Nat.sub_add_eq _ _ _
  have hat : entriesAt (last + 1).toNat { s.work.cursor with pos := s.work.cursor.pos + 8 } =
      n := by
    rw [entriesAt, hleft]
    exact hn
  have htold : (s.work.cursor.remaining - 8) / Palette.entrySize < (last + 1).toNat ↔
      (((s.work.cursor.remaining - 8) / 8 : Nat) : Int) < last + 1 := by
    unfold Palette.entrySize
    omega
  refine ⟨last, ⟨flags, entries⟩, ⟨hflags, hlast, hlength.trans hn.symm, hentries⟩, ?_⟩
  rw [readPalette_eq, bind_apply, Walk.read_apply, hdeclared]
  dsimp only
  rw [takeEntries_eq]
  dsimp only
  rw [hat, hread, hleft, if_congr htold rfl rfl, behindPalette, Palette.length, hlength]
  rfl

/-- Reading a palette never fails, whatever is declared. There is none exactly where less than eight
bytes are left, and any other is found as it stands: its entries one by one, none of which is missed,
what is told of their number, and how far the cursor goes. -/
theorem readPalette_total (stop : Stop) (s : Session Walk) :
    ∃ answer t, readPalette stop s = .ok answer t ∧
      (answer = none ↔ s.work.cursor.remaining < 8) ∧
      ∀ palette, answer = some palette →
        ∃ last, Palette.Found s.work.cursor last palette ∧ t = behindPalette s last palette := by
  by_cases h : s.work.cursor.remaining < 8
  · obtain ⟨d, hread⟩ := readPalette_short stop h
    exact ⟨none, _, hread, ⟨fun _ => h, fun _ => rfl⟩, nofun⟩
  · obtain ⟨last, palette, hfound, hread⟩ := readPalette_there stop (Nat.le_of_not_lt h)
    refine ⟨some palette, _, hread, ⟨nofun, fun hshort => absurd hshort h⟩, ?_⟩
    intro palette' hsame
    obtain rfl := Option.some.inj hsame
    exact ⟨last, hfound, rfl⟩

/-- In front of a palette that declares four entries and has the bytes of two, with three bytes over. -/
def scantPalette : Session Walk :=
  { checks := 0
    warnings := #[]
    work :=
      { cursor := ⟨#[0, 0, 0, 0, 0x80, 0, 0, 3, 0, 0, 0x11, 1, 0x22, 2, 0x33, 3,
          0, 1, 0x44, 4, 0x55, 5, 0x66, 6, 9, 9, 9], 0⟩
        picture := .start ⟨8, 1, .two, none⟩
        marks := #[] } }

/-- The two are read, it is told that two are missing, and the three bytes are left. -/
theorem readPalette_scant :
    ∃ t, readPalette .never scantPalette =
        .ok (some ⟨0x8000, [⟨0x11, 0x22, 0x33⟩, ⟨0x44, 0x55, 0x66⟩]⟩) t ∧
      t.warnings = #[.paletteTruncated 4 2] ∧ t.work.cursor.remaining = 3 := by
  obtain ⟨answer, t, hread, -, hfound⟩ := readPalette_total .never scantPalette
  obtain ⟨u, hu⟩ : ∃ u, readPalette .never scantPalette =
      .ok (some ⟨0x8000, [⟨0x11, 0x22, 0x33⟩, ⟨0x44, 0x55, 0x66⟩]⟩) u :=
    ⟨_, Job.eq_ok_of_toOption (by decide +kernel)⟩
  obtain ⟨rfl, rfl⟩ := Job.ok_unique hread hu
  obtain ⟨last, hpalette, rfl⟩ := hfound _ rfl
  have hlast : scantPalette.work.cursor.source.i16? (scantPalette.work.cursor.pos + 6) = some 3 :=
    by decide
  obtain rfl := Option.some.inj (hpalette.declares.symm.trans hlast)
  exact ⟨_, hread, by decide, by decide⟩

end Raster
end Pict
