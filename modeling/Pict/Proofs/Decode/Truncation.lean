import Pict.Proofs.Decode.Composition
import Pict.Proofs.Decode.Turns
import Pict.Proofs.Raster.Cut

/-!
# Pictures that are cut short

What each opcode does on cut data beside the whole data (`Tracks`), up to whole
pictures.

Results:
* `tracks_dispatch`, `tracks_turn`: what opcodes and turns do.
* `turns_cut`: the turns on the cut data succeed with those on the whole data.
* `decode_cut`: a picture that decodes also decodes when it is cut behind its header, and the
  strips that were stored with two bytes to spare are those of the whole picture.
-/
namespace Pict.Decode

open Job

variable {cut more : Source} {s t : Session Walk}

/-! ## Opcodes -/

theorem tracks_raster (op : RasterOp) :
    Tracks cut more (raster .unlimited op) fun _ _ s t => Parted cut s t := by
  have hopening : Tracks cut more (Raster.readOpening op) _ :=
    (Raster.tracks_readOpening op).parted (fun h => h.1)
      (Raster.within_readOpening Frame.still_opens op)
      (Raster.within_readOpening Frame.onward_rows.toOpens op)
  rw [raster_eq_limitedRows]
  refine hopening.bind (fun opened => ?_) ?_
  · cases opened with
    | none => exact Tracks.pure ()
    | some f =>
      exact Tracks.getPicture.bind_same fun p => (Tracks.enforce _).bind_same fun _ =>
        (Tracks.enforce _).bind_same fun _ => Raster.tracks_readRows f
  · rintro a b s t c t' ⟨⟨-, hsome⟩, hparted⟩ ht
    have happends := (within_limitedRows Frame.appends_rows b).ok ht
    have hrows : ∃ s', limitedRows .unlimited a .never s = .ok () s' := by
      cases a with
      | none => exact ⟨s, rfl⟩
      | some f =>
        obtain ⟨s', hs, -⟩ := Raster.readRows_atEnd f (Nat.le_zero.mp (hsome rfl).2)
        exact ⟨s', bind_eq_ok.mpr ⟨_, s, rfl, hs⟩⟩
    obtain ⟨s', hs⟩ := hrows
    exact ⟨(), s', hs, hparted.mono (fun R hR => (within_limitedRows hR a).ok hs) happends⟩

theorem skipPayload_apply (payload : Payload) (length : Int) (stop : Stop) (s : Session Walk) :
    ∃ t, skipPayload payload length stop s = .ok () t ∧
      t.work = { s.work with cursor := s.work.cursor.skip length.toNat } := by
  unfold skipPayload
  rw [bind_apply, Walk.getCursor_apply]
  dsimp only
  split <;> exact ⟨_, rfl, rfl⟩

theorem tracks_skipPayload (payload : Payload) (length : Int) :
    Tracks cut more (skipPayload payload length) fun _ _ s _ => Ends 1 s :=
  (Tracks.passes _ fun s => skipPayload_apply payload length .never s).mono
    fun h => h.mono (Nat.zero_le 1)

theorem tracks_jpeg : Tracks cut more jpeg fun _ _ s _ => Ends 1 s := by
  intro s t _ b t' _
  refine ⟨(), _, rfl, Or.inr ⟨Cursor.seek_pos_le _ _, ?_⟩⟩
  simp only [Cursor.seek, Cursor.remaining]
  omega

/-- What follows an opcode that is not a raster is passed over, or ends with the cut data. -/
theorem tracks_dispatch_of_ne {opcode : Opcode} (h : ∀ op, opcode ≠ .raster op) :
    Tracks cut more (dispatch .unlimited opcode) fun _ _ s _ => Ends 1 s := by
  have hgoesOn : ∀ {job : Job Walk Unit}, Tracks cut more job (fun _ _ s _ => Ends 1 s) →
      Tracks cut more (do job; Pure.pure true) fun _ _ s _ => Ends 1 s := fun hjob =>
    hjob.bind_ends (fun _ => Tracks.pure true) (fun _ => Succeeds.pure true)
      fun _ => Within.pure true
  have hread : ∀ {α : Type} {r : Reader α} (payload : Payload) (length : Option α → Int),
      r.Exact → r.Starves → Tracks cut more (do
        let a ← Walk.read r
        skipPayload payload (length a)) fun _ _ s _ => Ends 1 s := fun payload length hr hstarves =>
    ((Tracks.readExact hr).mono fun h => h.2 hstarves).bind_ends
      (fun _ => tracks_skipPayload payload _) (fun _ => succeeds_skipPayload payload _)
      fun _ => within_skipPayload Frame.forward_opens payload _
  cases opcode with
  | raster op => exact absurd rfl (h op)
  | clipRegion => exact hgoesOn (hread _ _ Reader.Exact.i16 Reader.Starves.i16)
  | longComment =>
    refine hgoesOn (((Tracks.skip 2).mono fun h => h.mono (Nat.zero_le 1)).bind_ends
      (fun _ => hread _ _ Reader.Exact.i16 Reader.Starves.i16) (fun _ => ?_) fun _ => ?_)
    · exact (Succeeds.moves.read Reader.Advances.i16).bind fun _ => succeeds_skipPayload _ _
    · exact (Within.read Frame.forward_opens Reader.Advances.i16).bind fun _ =>
        within_skipPayload Frame.forward_opens _ _
  | shortSkip => exact hgoesOn (hread _ _ Reader.Exact.u8 Reader.Starves.u8)
  | jpeg => exact hgoesOn tracks_jpeg
  | terminator => exact Tracks.pure false
  | unknown code => exact Tracks.silent fun _ => ⟨_, rfl, rfl⟩

theorem tracks_dispatch (opcode : Opcode) :
    Tracks cut more (dispatch .unlimited opcode) fun _ _ s t => Parted cut s t := by
  by_cases h : ∃ op, opcode = .raster op
  · obtain ⟨op, rfl⟩ := h
    refine (tracks_raster op).bind (fun _ => Tracks.pure true) fun {a b s t c t'} hparted ht => ?_
    obtain ⟨-, rfl⟩ := pure_eq_ok.mp ht
    exact ⟨true, s, rfl, hparted⟩
  · have hne : ∀ op, opcode ≠ .raster op := fun op hop => h ⟨op, hop⟩
    exact ((tracks_dispatch_of_ne hne).parted (fun h => h)
      (within_dispatch_of_ne Frame.still_opens hne)
      (within_dispatch_of_ne Frame.onward_rows.toOpens hne)).mono fun h => h.2

/-! ## Turns -/

/-- In a turn the walks stay together, or they part, or the cut data is over. -/
theorem tracks_turn :
    Tracks cut more (turn .unlimited) fun a _ s t =>
      Covered cut s t ∧ (a = true → Parted cut s t) := by
  rw [turn_eq_obey]
  refine Tracks.getPicture.bind_same fun p => ?_
  have hopcode : Tracks cut more (Walk.read (Opcode.read p.version)) _ :=
    (Tracks.readExact (Opcode.exact_read p.version)).covered
      (Within.read Frame.still_opens (Opcode.advances_read p.version))
  refine hopcode.bind (fun opcode => ?_) ?_
  · cases opcode with
    | none => exact Tracks.pure false
    | some opcode =>
      refine Tracks.check.bind_same fun _ => (tracks_dispatch opcode).bind (fun goesOn => ?_) ?_
      · -- the whole data may go on where the cut data is over
        intro s t hst b t' ht
        obtain ⟨rfl, rfl⟩ := EStateM.Result.ok.inj ht
        refine ⟨goesOn && !s.work.cursor.atEnd, s, rfl, ?_⟩
        cases hend : s.work.cursor.atEnd with
        | true => exact Or.inr ⟨hst.covered, fun h => by simp at h⟩
        | false =>
          have hwhole : t.work.cursor.atEnd = false := by
            have := hst.remaining_le
            rw [← Bool.not_eq_true, Cursor.atEnd_iff] at hend ⊢
            omega
          exact Or.inl ⟨by rw [hwhole], hst⟩
      · intro a b s t c t' hparted ht
        obtain ⟨-, rfl⟩ := EStateM.Result.ok.inj ht
        exact ⟨_, s, rfl, hparted.toCovered, fun _ => hparted⟩
  · rintro a b s t c t' ⟨⟨rfl, -⟩, hcovered⟩ ht
    have happends := (within_obey Frame.appends_rows b).ok ht
    exact ⟨false, s, rfl, hcovered.still (Frame.still.refl s.work) happends, fun h => by cases h⟩

/-- The turns on the cut data succeed with those on the whole data. -/
theorem turns_cut {n : Nat} :
    ∀ {m : Nat} {s t t' : Session Walk}, n ≤ m → Together cut more s t →
      turns .unlimited m .never t = .ok () t' →
        ∃ s', turns .unlimited n .never s = .ok () s' ∧ Covered cut s' t' := by
  induction n with
  | zero =>
    intro m s t t' _ hst ht
    have happends := (within_turns Frame.appends_rows m).ok ht
    exact ⟨s, rfl, hst.covered.still (Frame.still.refl s.work) happends⟩
  | succ n ih =>
    intro m s t t' hle hst ht
    obtain ⟨m, rfl⟩ : ∃ k, m = k + 1 := ⟨m - 1, by omega⟩
    obtain ⟨b, t₁, hturn, hrest⟩ := bind_eq_ok.mp ht
    have happends : Frame.appends.allows t₁.work t'.work := by
      cases b with
      | false => exact (Within.pure ()).ok hrest
      | true => exact (within_turns Frame.appends_rows m).ok hrest
    obtain ⟨a, s₁, hs₁, ⟨rfl, hst₁⟩ | ⟨hcovered, hparted⟩⟩ := tracks_turn s t hst b t₁ hturn
    · cases a with
      | false =>
        exact ⟨s₁, bind_eq_ok.mpr ⟨false, s₁, hs₁, rfl⟩,
          hst₁.covered.still (Frame.still.refl s₁.work) happends⟩
      | true =>
        obtain ⟨s', hs', hout⟩ := ih (Nat.le_of_succ_le_succ hle) hst₁ hrest
        exact ⟨s', bind_eq_ok.mpr ⟨true, s₁, hs₁, hs'⟩, hout⟩
    · cases a with
      | false =>
        exact ⟨s₁, bind_eq_ok.mpr ⟨false, s₁, hs₁, rfl⟩,
          hcovered.still (Frame.still.refl s₁.work) happends⟩
      | true =>
        -- with one byte left there is one turn more at most
        have hends := (hparted rfl).ends
        obtain ⟨s', hs', hstill⟩ := turns_late .unlimited n hends.1 hends.2
        exact ⟨s', bind_eq_ok.mpr ⟨true, s₁, hs₁, hs'⟩, hcovered.still hstill happends⟩

/-! ## Whole pictures -/

def marks (source : Source) (limits : Limits) (stop : Stop) : Array Nat :=
  match Header.parse source with
  | .error _ => #[]
  | .ok (info, cursor) => (sessionOf (walk limits stop info cursor)).work.marks

theorem marks_of_turns {source : Source} {info : Info} {cursor : Cursor}
    (hparse : Header.parse source = .ok (info, cursor))
    (hturns : turns .unlimited cursor.source.size .never (entered info cursor) = .ok () t) :
    marks source .unlimited .never = t.work.marks := by
  have hwalk : walk .unlimited .never info cursor = .ok () t := hturns
  unfold marks
  rw [hparse]
  dsimp only
  rw [hwalk]
  rfl

/-- A picture that decodes also decodes when it is cut somewhere behind its header. The strips
that were stored while two bytes of the cut data were unread are those of the whole picture. -/
theorem decode_cut {source more : Source} {info : Info} {doc : Document}
    (hprobe : probe source = .ok info)
    (hdoc : (decode (source ++ more) .unlimited .never).result = .ok doc) :
    ∃ cut, (decode source .unlimited .never).result = .ok cut ∧
      (marks source .unlimited .never).size = cut.picture.strips.size ∧
      ∀ (i mark : Nat) (strip : Strip), cut.picture.strips[i]? = some strip →
        (marks source .unlimited .never)[i]? = some mark → mark + 2 ≤ source.size →
          doc.picture.strips[i]? = some strip := by
  obtain ⟨cursor, hparse⟩ : ∃ cursor, Header.parse source = .ok (info, cursor) := by
    unfold probe at hprobe
    cases hheader : Header.parse source with
    | error e =>
      rw [hheader] at hprobe
      cases hprobe
    | ok header =>
      rw [hheader] at hprobe
      obtain rfl := Except.ok.inj hprobe
      exact ⟨header.2, rfl⟩
  obtain ⟨whole, hwhole, hplace⟩ := Header.parse_extend hparse more
  obtain ⟨t, hturns, rfl⟩ := turns_of_decode hwhole hdoc
  obtain ⟨hsource, -, hinside⟩ := Header.parse_pos hparse
  rw [← hsource] at hinside
  obtain ⟨s', hs', hcovered⟩ : ∃ s',
      turns .unlimited cursor.source.size .never (entered info cursor) = .ok () s' ∧
        Covered source s' t := by
    rcases hplace with rfl | hend
    · have hstart : Together source more (entered info cursor)
          (entered info (cursor.extend more)) := ⟨hsource, hinside, rfl, rfl, rfl⟩
      refine turns_cut ?_ hstart hturns
      rw [Cursor.extend_source, Array.size_append]
      exact Nat.le_add_right _ _
    · -- the header has taken all of the cut data
      obtain ⟨s', hs', hstill⟩ := turns_late .unlimited cursor.source.size
        (s := entered info cursor) hinside (by show cursor.remaining ≤ 1; omega)
      have hempty : Covered source (entered info cursor) t :=
        ⟨rfl, fun i m strip hi _ _ => by cases hi⟩
      exact ⟨s', hs', hempty.still hstill (Frame.appends.refl t.work)⟩
  have hmarks := marks_of_turns hparse hs'
  refine ⟨_, decode_of_turns hparse hs', ?_, ?_⟩
  · rw [hmarks]
    exact hcovered.marked
  · rw [hmarks]
    exact hcovered.covers

/-- A bitmap of four rows of eight pixels, cut behind the third one. Two bytes were unread when the
first one was stored. -/
def cutBitmap : Source :=
  (sampleHeader.bytes ++ [0, 0x90, 0, 1, 0, 0, 0, 0, 0, 4, 0, 8] ++ List.replicate 18 0 ++
    [0xA0, 0xFF, 0x0F]).toArray

def cutRest : Source := #[0x81, 0, 0, 0xFF]

theorem decode_cutBitmap :
    probe cutBitmap = .ok sampleHeader.info ∧
      ∃ whole cut, (decode (cutBitmap ++ cutRest) .unlimited .never).result = .ok whole ∧
        (decode cutBitmap .unlimited .never).result = .ok cut ∧
        cut.picture.strips[0]? = some (.bytes [1, 0, 1, 0, 0, 0, 0, 0]) ∧
        whole.picture.strips[0]? = some (.bytes [1, 0, 1, 0, 0, 0, 0, 0]) := by
  have hprobe : probe cutBitmap = .ok sampleHeader.info := by decide +kernel
  have hsome : (decode (cutBitmap ++ cutRest) .unlimited .never).result.toOption.isSome := by
    decide +kernel
  cases hwhole : (decode (cutBitmap ++ cutRest) .unlimited .never).result with
  | error e =>
    rw [hwhole] at hsome
    cases hsome
  | ok whole =>
    obtain ⟨cut, hcut, -, hcovers⟩ := decode_cut hprobe hwhole
    have hfirst : (decode cutBitmap .unlimited .never).result.toOption.map
        (·.picture.strips[0]?) = some (some (.bytes [1, 0, 1, 0, 0, 0, 0, 0])) := by
      decide +kernel
    rw [hcut] at hfirst
    have hstrip := Option.some.inj hfirst
    have hmark : (marks cutBitmap .unlimited .never)[0]? = some 583 := by decide +kernel
    have hsize : cutBitmap.size = 585 := by decide +kernel
    exact ⟨hprobe, whole, cut, rfl, hcut, hstrip, hcovers 0 583 _ hstrip hmark (by rw [hsize])⟩

end Pict.Decode
