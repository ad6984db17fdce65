import Pict.Proofs.Decode.Stopped
import Pict.Proofs.Raster.Cut

/-!
# What the limits of the canvas bound

The canvas is checked behind the header and between the opening of each raster and its rows. A
raster that is given up in its opening is not checked, though its bounds may be the canvas by
then. At most one byte is left there, so that no opcode behind it changes the canvas again.

Results:
* `Raster.readOpening_none`: a raster is given up where the data ends, and with a warning if it has
  changed the canvas.
* `turn_canvas`: the canvas behind a turn is within the limits, unless a raster is given up.
* `canvas_within_limits_iff`: the canvas of a decoded picture is within the limits exactly
  when that of each raster that was given up is.
* `decode_beyond_canvas`: one that is not.
-/
namespace Pict

/-- The limits allow the canvas of a picture. -/
def Limits.AllowsCanvas (l : Limits) (p : Picture) : Prop :=
  allows l.width p.width ∧ allows l.height p.declaredHeight ∧
    allows l.pixels (p.width * p.declaredHeight)

structure Picture.SameCanvas (p q : Picture) : Prop where
  width : q.width = p.width
  height : q.declaredHeight = p.declaredHeight

namespace Picture.SameCanvas

variable {p q r : Picture}

theorem refl (p : Picture) : p.SameCanvas p := ⟨rfl, rfl⟩

theorem trans (h : p.SameCanvas q) (h' : q.SameCanvas r) : p.SameCanvas r :=
  ⟨h'.width.trans h.width, h'.height.trans h.height⟩

theorem allowsCanvas_iff (h : p.SameCanvas q) (l : Limits) :
    l.AllowsCanvas p ↔ l.AllowsCanvas q := by
  simp only [Limits.AllowsCanvas, h.width, h.height]

end Picture.SameCanvas

/-! ## Jobs that leave the canvas alone -/

def Frame.sameCanvas : Frame where
  allows u v := u.picture.SameCanvas v.picture
  refl w := .refl w.picture
  trans h h' := h.trans h'

open Job

theorem sameCanvas_moves : JobProperty.Moves fun _ job => Within .sameCanvas job :=
  Within.moves fun w _ _ => .refl w.picture

theorem sameCanvas_opens : JobProperty.Opens fun _ job => Within .sameCanvas job where
  toMoves := sameCanvas_moves
  setRowBytes _ _ _ := ⟨rfl, rfl⟩
  setPalette _ _ _ := ⟨rfl, rfl⟩
  unsupported _ := .fail _

theorem sameCanvas_rows : JobProperty.Rows fun _ job => Within .sameCanvas job where
  toMoves := sameCanvas_moves
  park _ _ := ⟨rfl, rfl⟩
  store _ _ _ := ⟨rfl, rfl⟩
  markColor _ _ := ⟨rfl, rfl⟩
  undecodable _ := .fail _

theorem sameCanvas_takes : JobProperty.Takes fun _ job => Within .sameCanvas job where
  toMoves := sameCanvas_moves
  setJpeg _ _ _ := ⟨rfl, rfl⟩
  finish _ _ := ⟨rfl, rfl⟩

/-! ## Where a raster is given up -/

variable {stop : Stop} {s t : Session Walk}

theorem Job.Within.inside {α : Type} {job : Job Walk α} (h : Within Frame.onward job) {a : α}
    (hin : s.work.cursor.Inside) (hjob : job stop s = .ok a t) : t.work.cursor.Inside :=
  ((h.ok hjob).moved hin).2

/-- A reader that fails leaves one byte at most. -/
theorem Reader.Starves.ends {α : Type} {n : Nat} {r : Reader α} (h : r.Starves) (hr : r.Advances n)
    (hin : s.work.cursor.Inside) (hread : Walk.read r stop s = .ok none t) : Ends 1 t := by
  obtain ⟨hnone, rfl⟩ := Walk.read_eq_ok.mp hread
  exact ⟨((hr s.work.cursor).1.moved hin).2, h _ hin hnone⟩

namespace Raster

/-- The entries of a palette never end a header: no more are read than there are bytes for. -/
theorem takeEntries_isSome (flags : UInt16) (declared : Nat) (hin : s.work.cursor.Inside) :
    ∃ palette t, takeEntries flags declared stop s = .ok (some palette) t := by
  obtain ⟨t, htake, -⟩ := takeEntries_apply flags declared stop s
  obtain ⟨entries, hentries⟩ := readEntries_entriesAt declared hin
  have hread := hentries #[]
  rw [Cursor.extend_empty, Cursor.extend_empty] at hread
  rw [hread] at htake
  exact ⟨_, t, htake⟩

theorem readColors_direct (f : Format) : readColors .directBits f stop s ≠ .ok false t := by
  intro h
  obtain ⟨p, u, -, hrest⟩ := bind_eq_ok.mp h
  cases hsize : f.directRowBytes? p.width with
  | none =>
    rw [hsize] at hrest
    cases hrest
  | some n =>
    rw [hsize] at hrest
    obtain ⟨_, _, -, hrest⟩ := bind_eq_ok.mp hrest
    cases (pure_eq_ok.mp hrest).1

theorem passColors_true {kind : RasterKind} (f : Format) :
    passColors kind f true stop s ≠ .ok none t := by
  intro h
  obtain ⟨_, _, -, hrest⟩ := bind_eq_ok.mp h
  split at hrest
  · obtain ⟨_, _, -, hrest⟩ := bind_eq_ok.mp hrest
    cases (pure_eq_ok.mp hrest).1
  · cases (pure_eq_ok.mp hrest).1

theorem readPalette_none (hin : s.work.cursor.Inside) (h : readPalette stop s = .ok none t) :
    Ends 1 t := by
  rw [readPalette_eq] at h
  obtain ⟨declared, u, hread, hrest⟩ := bind_eq_ok.mp h
  cases declared with
  | none =>
    obtain ⟨-, rfl⟩ := pure_eq_ok.mp hrest
    exact Palette.starves_readDeclared.ends Palette.advances_readDeclared hin hread
  | some declared =>
    have hinside := (Within.read Frame.onward_rows.toOpens Palette.advances_readDeclared).inside
      hin hread
    obtain ⟨palette, v, htake⟩ := takeEntries_isSome declared.1 declared.2 hinside
    cases (Job.ok_unique htake hrest).1

theorem readColors_false {kind : RasterKind} {f : Format} (hin : s.work.cursor.Inside)
    (h : readColors kind f stop s = .ok false t) : Ends 1 t := by
  have htable (h : readColors .bitsRect f stop s = .ok false t) : Ends 1 t := by
    obtain ⟨palette, u, hpalette, hrest⟩ := bind_eq_ok.mp h
    cases palette with
    | none =>
      obtain ⟨-, rfl⟩ := pure_eq_ok.mp hrest
      exact readPalette_none hin hpalette
    | some palette =>
      obtain ⟨_, _, -, hrest⟩ := bind_eq_ok.mp hrest
      cases (pure_eq_ok.mp hrest).1
  cases kind with
  | bitsRect | bitsRegion | packBitsRect | packBitsRegion => exact htable h
  | directBits => exact absurd h (readColors_direct f)

theorem readPixmap_none {kind : RasterKind} (hin : s.work.cursor.Inside)
    (h : readPixmap kind stop s = .ok none t) : Ends 1 t := by
  rw [readPixmap_eq] at h
  obtain ⟨f, u, hread, hrest⟩ := bind_eq_ok.mp h
  cases f with
  | none =>
    obtain ⟨-, rfl⟩ := pure_eq_ok.mp hrest
    exact Format.starves_read.ends Format.advances_read hin hread
  | some f =>
    have hinside := (Within.read Frame.onward_rows.toOpens Format.advances_read).inside hin hread
    obtain ⟨settled, v, hcolors, hrest⟩ := bind_eq_ok.mp hrest
    cases settled with
    | false =>
      obtain ⟨-, rfl⟩ := pure_eq_ok.mp hrest
      exact readColors_false hinside hcolors
    | true => exact absurd hrest (passColors_true f)

theorem openPixmap_none {kind : RasterKind} (hin : s.work.cursor.Inside)
    (h : openPixmap kind stop s = .ok none t) :
    Ends 1 t ∧ .pixmapTruncated t.work.cursor.pos ∈ t.warnings := by
  obtain ⟨f, u, hpixmap, hrest⟩ := bind_eq_ok.mp h
  cases f with
  | some f => cases (pure_eq_ok.mp hrest).1
  | none =>
    have hends := readPixmap_none hin hpixmap
    obtain ⟨c, v, hcursor, hrest⟩ := bind_eq_ok.mp hrest
    rw [Walk.getCursor_apply] at hcursor
    obtain ⟨rfl, rfl⟩ := EStateM.Result.ok.inj hcursor
    obtain ⟨_, v, hwarn, hrest⟩ := bind_eq_ok.mp hrest
    obtain ⟨-, rfl⟩ := EStateM.Result.ok.inj hwarn
    obtain ⟨-, rfl⟩ := pure_eq_ok.mp hrest
    exact ⟨hends, Array.mem_push_self⟩

theorem openPixmap_some {kind : RasterKind} {f : Format}
    (h : openPixmap kind stop s = .ok (some f) t) :
    ∃ u v, Walk.read Format.read stop s = .ok (some f) u ∧ readColors kind f stop u = .ok true v := by
  obtain ⟨g, u, hpixmap, hrest⟩ := bind_eq_ok.mp h
  cases g with
  | none =>
    obtain ⟨_, _, -, hrest⟩ := bind_eq_ok.mp hrest
    obtain ⟨_, _, -, hrest⟩ := bind_eq_ok.mp hrest
    cases (pure_eq_ok.mp hrest).1
  | some g =>
    obtain ⟨hg, -⟩ := pure_eq_ok.mp hrest
    obtain rfl := Option.some.inj hg
    rw [readPixmap_eq] at hpixmap
    obtain ⟨read, v, hread, hpixmap⟩ := bind_eq_ok.mp hpixmap
    cases read with
    | none => cases (pure_eq_ok.mp hpixmap).1
    | some read =>
      obtain ⟨settled, w, hcolors, hpass⟩ := bind_eq_ok.mp hpixmap
      cases settled with
      | false => cases (pure_eq_ok.mp hpass).1
      | true =>
        obtain ⟨_, _, -, hpass⟩ := bind_eq_ok.mp hpass
        have hsame : some read = some g := by
          split at hpass
          · obtain ⟨_, _, -, hpass⟩ := bind_eq_ok.mp hpass
            exact (pure_eq_ok.mp hpass).1
          · exact (pure_eq_ok.mp hpass).1
        obtain rfl := Option.some.inj hsame
        exact ⟨v, w, hread, hcolors⟩

/-- The bounds of a raster are missing, and it is given up, or what comes behind them is read on the
canvas that they leave. -/
theorem readOpening_eq_ok {op : RasterOp} {opened : Option Format}
    (h : readOpening op stop s = .ok opened t) :
    ∃ u v bounds, takeRowBytes op.rowBytes stop s = .ok () u ∧
      Walk.read readBounds stop u = .ok bounds v ∧
      match bounds with
      | none => opened = none ∧ t.work = v.work
      | some (width, height) =>
        (if op.pixmap then openPixmap op.kind else pure (some Format.bitmap)) stop
          { v with work.picture := v.work.picture.resize width height } = .ok opened t := by
  rw [readOpening_eq] at h
  obtain ⟨_, u, hrowBytes, h⟩ := bind_eq_ok.mp h
  obtain ⟨bounds, v, hbounds, h⟩ := bind_eq_ok.mp h
  refine ⟨u, v, bounds, hrowBytes, hbounds, ?_⟩
  cases bounds with
  | none =>
    obtain ⟨_, w, hwarn, h⟩ := bind_eq_ok.mp h
    obtain ⟨-, rfl⟩ := EStateM.Result.ok.inj hwarn
    obtain ⟨rfl, rfl⟩ := pure_eq_ok.mp h
    exact ⟨rfl, rfl⟩
  | some bounds =>
    obtain ⟨_, w, hresize, h⟩ := bind_eq_ok.mp h
    obtain ⟨-, rfl⟩ := EStateM.Result.ok.inj hresize
    exact h

theorem unbounded_sameCanvas {rowBytes : Option Nat} {bounds : Option (Int × Int)}
    {u : Session Walk} (hrowBytes : takeRowBytes rowBytes stop s = .ok () u)
    (hbounds : Walk.read readBounds stop u = .ok bounds t) :
    s.work.picture.SameCanvas t.work.picture :=
  ((sameCanvas_opens.takeRowBytes rowBytes).ok hrowBytes).trans
    ((sameCanvas_moves.read advances_readBounds).ok hbounds)

/-- A raster is given up where the data ends. It leaves the canvas as it was, unless it is a pixmap
whose bounds were read. -/
theorem readOpening_none {op : RasterOp} (hin : s.work.cursor.Inside)
    (h : readOpening op stop s = .ok none t) :
    Ends 1 t ∧ (s.work.picture.SameCanvas t.work.picture ∨
      .pixmapTruncated t.work.cursor.pos ∈ t.warnings) := by
  obtain ⟨u, v, bounds, hrowBytes, hbounds, hrest⟩ := readOpening_eq_ok h
  have hu := (within_takeRowBytes Frame.onward_rows.toOpens op.rowBytes).inside hin hrowBytes
  cases bounds with
  | none =>
    obtain ⟨-, hwork⟩ := hrest
    have hends := starves_readBounds.ends advances_readBounds hu hbounds
    have hsame := unbounded_sameCanvas hrowBytes hbounds
    rw [Ends, hwork]
    exact ⟨hends, Or.inl hsame⟩
  | some bounds =>
    have hv := (Within.read Frame.onward_rows.toOpens advances_readBounds).inside hu hbounds
    dsimp only at hrest
    split at hrest
    · have hresized : { v with work.picture :=
          v.work.picture.resize bounds.1 bounds.2 }.work.cursor.Inside := hv
      obtain ⟨hends, hwarned⟩ := openPixmap_none hresized hrest
      exact ⟨hends, Or.inr hwarned⟩
    · cases (pure_eq_ok.mp hrest).1

/-- At the end of the data a raster leaves the canvas alone. -/
theorem readOpening_ended {op : RasterOp} {opened : Option Format} (hs : Ends 0 s)
    (h : readOpening op stop s = .ok opened t) :
    opened = none ∧ s.work.picture.SameCanvas t.work.picture := by
  obtain ⟨u, v, bounds, hrowBytes, hbounds, hrest⟩ := readOpening_eq_ok h
  have hu := hs.forward ((within_takeRowBytes Frame.forward_opens op.rowBytes).ok hrowBytes)
  have hnone := Walk.read_eq stop u (hungry_readBounds _ (Nat.le_zero.mp hu.2))
  obtain ⟨rfl, -⟩ := Job.ok_unique hnone hbounds
  obtain ⟨rfl, hwork⟩ := hrest
  rw [hwork]
  exact ⟨rfl, unbounded_sameCanvas hrowBytes hbounds⟩

end Raster

/-! ## Turns -/

namespace Decode

variable {limits : Limits} {u : Session Walk}

/-- In a turn from `s` the opcode of a raster is read, and the raster is given up in `t`. -/
def GivesUp (stop : Stop) (s t : Session Walk) : Prop :=
  ∃ op s₁ s₂, Walk.read (Opcode.read s.work.picture.version) stop s = .ok (some (.raster op)) s₁ ∧
    Job.check stop s₁ = .ok () s₂ ∧ Raster.readOpening op stop s₂ = .ok none t

/-- The walk has moved on behind an opcode. -/
structure BehindOpcode (s t : Session Walk) : Prop where
  picture : t.work.picture = s.work.picture
  inside : s.work.cursor.Inside → t.work.cursor.Inside
  remaining : s.work.cursor.Inside → t.work.cursor.remaining + 1 ≤ s.work.cursor.remaining

theorem read_opcode {opcode : Opcode} {s₁ s₂ : Session Walk}
    (hread : Walk.read (Opcode.read s.work.picture.version) stop s = .ok (some opcode) s₁)
    (hcheck : Job.check stop s₁ = .ok () s₂) : BehindOpcode s s₂ := by
  have hadvances := Opcode.advances_read s.work.picture.version
  obtain ⟨hsome, rfl⟩ := Walk.read_eq_ok.mp hread
  have hwork := check_work hcheck
  refine ⟨by rw [hwork], fun hin => ?_, fun hin => ?_⟩
  · rw [hwork]
    exact ((hadvances _).1.moved hin).2
  · rw [hwork]
    exact hadvances.remaining_le hin (by rw [hsome]; rfl)

theorem GivesUp.turn_eq (limits : Limits) (h : GivesUp stop s t) :
    turn limits stop s = .ok (true && !t.work.cursor.atEnd) t := by
  obtain ⟨op, s₁, s₂, hread, hcheck, hopening⟩ := h
  exact turn_raster_eq hread hcheck (bind_eq_ok.mpr ⟨none, t, hopening, rfl⟩)

theorem GivesUp.ends (h : GivesUp stop s t) (hin : s.work.cursor.Inside) : Ends 1 t := by
  obtain ⟨op, s₁, s₂, hread, hcheck, hopening⟩ := h
  exact (Raster.readOpening_none ((read_opcode hread hcheck).inside hin) hopening).1

/-- The canvas behind a turn is within the limits, unless a pixmap is given up in it. -/
theorem turn_canvas {b : Bool} (h : turn limits stop s = .ok b t) (hin : s.work.cursor.Inside)
    (hs : limits.AllowsCanvas s.work.picture) :
    limits.AllowsCanvas t.work.picture ∨
      GivesUp stop s t ∧ .pixmapTruncated t.work.cursor.pos ∈ t.warnings := by
  rcases turn_eq_ok h with ⟨-, hread⟩ | ⟨opcode, s₁, s₂, goesOn, hread, hcheck, hdispatch, -⟩
  · have hsame := (sameCanvas_moves.read (Opcode.advances_read _)).ok hread
    exact Or.inl ((hsame.allowsCanvas_iff limits).mp hs)
  · have hopcode := read_opcode hread hcheck
    rw [← hopcode.picture] at hs
    by_cases hraster : ∃ op, opcode = .raster op
    · obtain ⟨op, rfl⟩ := hraster
      rcases dispatch_raster_eq_ok hdispatch with hnone | ⟨f, u, hallow, hrows⟩
      · have hopening := allow_opening hnone
        rcases (Raster.readOpening_none (hopcode.inside hin) hopening).2 with hsame | hwarned
        · exact Or.inl ((hsame.allowsCanvas_iff limits).mp hs)
        · exact Or.inr ⟨⟨op, s₁, s₂, hread, hcheck, hopening⟩, hwarned⟩
      · -- the canvas is checked in front of the rows, which keep it
        have hu : limits.AllowsCanvas u.work.picture :=
          (limits.check_eq_ok_iff _ _).mp (allow_eq_ok hallow).1
        have hsame := (sameCanvas_rows.readRows f).ok hrows
        exact Or.inl ((hsame.allowsCanvas_iff limits).mp hu)
    · have hkeeps := sameCanvas_takes.dispatch_of_ne limits fun op hop => hraster ⟨op, hop⟩
      exact Or.inl (((hkeeps.ok hdispatch).allowsCanvas_iff limits).mp hs)

/-- With one byte left a turn leaves the canvas alone. -/
theorem turn_ends {b : Bool} (h : turn limits stop s = .ok b t) (hs : Ends 1 s) :
    s.work.picture.SameCanvas t.work.picture ∧ Ends 1 t := by
  have hwithin : Within Frame.late (turn limits) := within_turn Frame.late_rows
  obtain ⟨hin, hleft, -⟩ := hwithin.ok h hs.1 hs.2
  refine ⟨?_, hin, hleft⟩
  rcases turn_eq_ok h with ⟨-, hread⟩ | ⟨opcode, s₁, s₂, goesOn, hread, hcheck, hdispatch, -⟩
  · exact (sameCanvas_moves.read (Opcode.advances_read _)).ok hread
  · have hopcode := read_opcode hread hcheck
    rw [← hopcode.picture]
    by_cases hraster : ∃ op, opcode = .raster op
    · -- the opcode took the byte that was left, and there are no bounds behind it
      obtain ⟨op, rfl⟩ := hraster
      have hended : Ends 0 s₂ := by
        have := hopcode.remaining hs.1
        have := hs.2
        exact ⟨hopcode.inside hs.1, by omega⟩
      rcases dispatch_raster_eq_ok hdispatch with hnone | ⟨f, u, hallow, -⟩
      · exact (Raster.readOpening_ended hended (allow_opening hnone)).2
      · obtain ⟨opened, v, hopening, hallow⟩ := bind_eq_ok.mp hallow
        obtain ⟨rfl, -⟩ := Raster.readOpening_ended hended hopening
        cases (pure_eq_ok.mp hallow).1
    · have hkeeps := sameCanvas_takes.dispatch_of_ne limits fun op hop => hraster ⟨op, hop⟩
      exact hkeeps.ok hdispatch

/-! ## Runs -/

def GivesUpWithin (limits : Limits) (stop : Stop) :
    (turns : Nat) → (s t : Session Walk) → Prop
  | 0, _, _ => False
  | n + 1, s, t =>
    GivesUp stop s t ∨
      ∃ v, turn limits stop s = .ok true v ∧ GivesUpWithin limits stop n v t

theorem turns_ends (n : Nat) :
    ∀ {s : Session Walk}, turns limits n stop s = .ok () t → Ends 1 s →
      s.work.picture.SameCanvas t.work.picture := by
  induction n with
  | zero =>
    intro s h _
    obtain ⟨-, rfl⟩ := pure_eq_ok.mp h
    exact .refl _
  | succ n ih =>
    intro s h hs
    rcases turns_succ_eq_ok h with hturn | ⟨v, hturn, hrest⟩
    · exact (turn_ends hturn hs).1
    · obtain ⟨hsame, hends⟩ := turn_ends hturn hs
      exact hsame.trans (ih hrest hends)

theorem turns_warnings {n : Nat} {w : Warning} (h : turns limits n stop s = .ok () t)
    (hw : w ∈ s.warnings) : w ∈ t.warnings := by
  have hlater := ((heeds_walks limits).turns n).later stop s
  rw [h] at hlater
  exact hlater.mem hw

theorem turn_inside {b : Bool} (h : turn limits stop s = .ok b t) (hin : s.work.cursor.Inside) :
    t.work.cursor.Inside :=
  (within_turn Frame.onward_rows).inside hin h

theorem GivesUpWithin.sameCanvas {n : Nat} :
    ∀ {s : Session Walk}, GivesUpWithin limits stop n s u → s.work.cursor.Inside →
      turns limits n stop s = .ok () t → u.work.picture.SameCanvas t.work.picture := by
  induction n with
  | zero => exact fun h => h.elim
  | succ n ih =>
    intro s h hin hturns
    rcases h with hgives | ⟨v, hv, hwithin⟩
    · rcases turns_behind (hgives.turn_eq limits) hturns with ⟨-, rfl⟩ | ⟨-, hrest⟩
      · exact .refl _
      · exact turns_ends n hrest (hgives.ends hin)
    · rcases turns_behind hv hturns with ⟨hlast, -⟩ | ⟨-, hrest⟩
      · cases hlast
      · exact ih hwithin (turn_inside hv hin) hrest

/-- The canvas behind a walk is within the limits, unless a pixmap is given up. -/
theorem turns_canvas (n : Nat) :
    ∀ {s : Session Walk}, turns limits n stop s = .ok () t → s.work.cursor.Inside →
      limits.AllowsCanvas s.work.picture →
      limits.AllowsCanvas t.work.picture ∨
        (∃ u, GivesUpWithin limits stop n s u) ∧
          ∃ offset, .pixmapTruncated offset ∈ t.warnings := by
  induction n with
  | zero =>
    intro s h _ hs
    obtain ⟨-, rfl⟩ := pure_eq_ok.mp h
    exact Or.inl hs
  | succ n ih =>
    intro s h hin hs
    rcases turns_succ_eq_ok h with hturn | ⟨v, hturn, hrest⟩
    · rcases turn_canvas hturn hin hs with ht | ⟨hgives, hwarned⟩
      · exact Or.inl ht
      · exact Or.inr ⟨⟨t, Or.inl hgives⟩, _, hwarned⟩
    · rcases turn_canvas hturn hin hs with hv | ⟨hgives, hwarned⟩
      · rcases ih hrest (turn_inside hturn hin) hv with ht | ⟨⟨u, hwithin⟩, hwarned⟩
        · exact Or.inl ht
        · exact Or.inr ⟨⟨u, Or.inr ⟨v, hturn, hwithin⟩⟩, hwarned⟩
      · exact Or.inr ⟨⟨v, Or.inl hgives⟩, _, turns_warnings hrest hwarned⟩

/-! ## Whole pictures -/

/-- While a picture is decoded, a raster is given up in `t`. -/
def GivesUpIn (source : Source) (limits : Limits) (stop : Stop) (t : Session Walk) : Prop :=
  ∃ info cursor, Header.parse source = .ok (info, cursor) ∧
    GivesUpWithin limits stop cursor.source.size (entered info cursor) t

variable {source : Source} {doc : Document}

/-- The canvas of a decoded picture is within the limits exactly when that of each raster that was
given up is; and it is if there was no warning of a pixmap that ends in its header. -/
theorem canvas_within_limits_iff (h : (decode source limits stop).result = .ok doc) :
    (limits.AllowsCanvas doc.picture ↔
      ∀ t, GivesUpIn source limits stop t → limits.AllowsCanvas t.work.picture) ∧
    ((∀ offset, .pixmapTruncated offset ∉ (decode source limits stop).warnings) →
      limits.AllowsCanvas doc.picture) := by
  obtain ⟨info, cursor, t, hparse, hheader, hturns, hreport⟩ := decode_report h
  rw [hreport] at h ⊢
  obtain rfl := Except.ok.inj h
  obtain ⟨hsource, -, hinside⟩ := Header.parse_pos hparse
  have hin : (entered info cursor).work.cursor.Inside := by
    rw [← hsource] at hinside
    exact hinside
  have hcanvas : limits.AllowsCanvas (entered info cursor).work.picture :=
    (limits.check_eq_ok_iff _ _).mp hheader
  refine ⟨⟨?_, fun hgiven => ?_⟩, fun hquiet => ?_⟩
  · rintro ht u ⟨info', cursor', hparse', hwithin⟩
    obtain ⟨rfl, rfl⟩ := Prod.mk.inj (Except.ok.inj (hparse.symm.trans hparse'))
    exact ((hwithin.sameCanvas hin hturns).allowsCanvas_iff limits).mpr ht
  · rcases turns_canvas _ hturns hin hcanvas with ht | ⟨⟨u, hwithin⟩, -⟩
    · exact ht
    · have hu := hgiven u ⟨info, cursor, hparse, hwithin⟩
      exact ((hwithin.sameCanvas hin hturns).allowsCanvas_iff limits).mp hu
  · rcases turns_canvas _ hturns hin hcanvas with ht | ⟨-, offset, hwarned⟩
    · exact ht
    · exact absurd (Array.mem_toList_iff.mpr hwarned) (hquiet offset)

def cutPixmap : Source :=
  (sampleHeader.bytes ++ [0, 0x98, 0x80, 8, 0, 0, 0, 0, 0, 1, 0, 100] ++
    List.replicate 18 0).toArray

def tenWide : Limits := ⟨some 10, none, none, none⟩

theorem decode_cutPixmap :
    ∃ doc, (decode cutPixmap tenWide .never).result = .ok doc ∧ doc.picture.width = 100 := by
  have hmap : (decode cutPixmap tenWide .never).result.toOption.map (·.picture.width) =
      some 100 := by decide +kernel
  cases hresult : (decode cutPixmap tenWide .never).result with
  | error e =>
    rw [hresult] at hmap
    cases hmap
  | ok doc =>
    rw [hresult] at hmap
    exact ⟨doc, rfl, Option.some.inj hmap⟩

/-- Not every decoded canvas is within the limits. -/
theorem decode_beyond_canvas :
    ¬ ∀ (source : Source) (limits : Limits) (stop : Stop) (doc : Document),
      (decode source limits stop).result = .ok doc → limits.AllowsCanvas doc.picture := by
  intro hall
  obtain ⟨doc, hdoc, hwidth⟩ := decode_cutPixmap
  have hle : doc.picture.width ≤ 10 := (hall cutPixmap tenWide .never doc hdoc).1 10 rfl
  rw [hwidth] at hle
  exact absurd hle (by decide)

/-- In the picture whose canvas is beyond its limits a raster is given up with that canvas. -/
theorem givesUpIn_cutPixmap :
    ∃ t, GivesUpIn cutPixmap tenWide .never t ∧ ¬ tenWide.AllowsCanvas t.work.picture := by
  obtain ⟨doc, hdoc, hwidth⟩ := decode_cutPixmap
  obtain ⟨hiff, -⟩ := canvas_within_limits_iff hdoc
  refine Classical.byContradiction fun hnone => ?_
  have hallowed : tenWide.AllowsCanvas doc.picture := hiff.mpr fun t ht =>
    Classical.byContradiction fun hbeyond => hnone ⟨t, ht, hbeyond⟩
  have hle : doc.picture.width ≤ 10 := hallowed.1 10 rfl
  rw [hwidth] at hle
  exact absurd hle (by decide)

end Decode
end Pict
