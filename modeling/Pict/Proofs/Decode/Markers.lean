import Pict.Proofs.Decode.Recorded

/-!
# Which start markers are recorded

A scan for embedded JPEG data goes over words at even distances from its opcode. Up to the first end
marker among them it records nothing but the place of the first JPEG. Behind it every start marker is
recorded that is not the end of the data, in the order in which they stand. The scan takes all that is
left, so that no opcode follows it.

Results:
* `mem_starts`, `mem_laterStarts`: which offsets are recorded, byte by byte.
* `turn_jpeg`: a turn with embedded JPEG is the last one.
* `jpeg_records`: all that a scan does, and where it stands among the opcodes of a picture.
-/
namespace Pict

/-! ## Words in the data -/

theorem word_inj {a b c d : UInt8} : word a b = word c d ↔ a = c ∧ b = d := by
  constructor
  · intro h
    have hnat : a.toNat * 256 + b.toNat = c.toNat * 256 + d.toNat := by
      rw [← toNat_word, ← toNat_word, h]
    have hb := b.toNat_lt
    have hd := d.toNat_lt
    exact ⟨UInt8.toNat_inj.mp (by omega), UInt8.toNat_inj.mp (by omega)⟩
  · rintro ⟨rfl, rfl⟩
    rfl

def Source.BytesAt (source : Source) (q : Nat) (hi lo : UInt8) : Prop :=
  source[q]? = some hi ∧ source[q + 1]? = some lo

theorem Source.u16?_eq_word {source : Source} {q : Nat} {hi lo : UInt8} :
    source.u16? q = some (word hi lo) ↔ source.BytesAt q hi lo := by
  unfold u16? BytesAt
  cases source[q]? with
  | none => simp
  | some a =>
    cases source[q + 1]? with
    | none => simp
    | some b => simp [word_inj]

instance (source : Source) (q : Nat) (hi lo : UInt8) : Decidable (source.BytesAt q hi lo) :=
  inferInstanceAs (Decidable (_ ∧ _))

theorem Source.BytesAt.le {source : Source} {q : Nat} {hi lo : UInt8} (h : source.BytesAt q hi lo) :
    q + 2 ≤ source.size :=
  (source.isSome_u16?_iff q).mp (by rw [u16?_eq_word.mpr h]; rfl)

namespace Spans

variable {source : Source} {p q m : Nat}

/-! ## Which words are recorded -/

/-- An end marker stands at `m`, and it is the first one at an even distance from `p`. -/
structure FirstEnd (source : Source) (p m : Nat) : Prop where
  le : p ≤ m
  even : (m - p) % 2 = 0
  marker : source.BytesAt m 0xFF 0xD9
  first : ∀ k, p ≤ k → k < m → (k - p) % 2 = 0 → ¬ source.BytesAt k 0xFF 0xD9

theorem mem_wordOffsets :
    q ∈ wordOffsets source p ↔ p ≤ q ∧ (q - p) % 2 = 0 ∧ q + 2 ≤ source.size := by
  simp only [wordOffsets, List.mem_map, List.mem_range]
  constructor
  · rintro ⟨i, hi, rfl⟩
    omega
  · rintro ⟨hle, heven, hend⟩
    exact ⟨(q - p) / 2, by omega, by omega⟩

/-- From an offset on the start markers are found that something stands behind. -/
theorem mem_starts : q ∈ starts source p ↔
    p ≤ q ∧ (q - p) % 2 = 0 ∧ source.BytesAt q 0xFF 0xD8 ∧ q + 2 < source.size := by
  have hmarker : startMarker = word 0xFF 0xD8 := rfl
  simp only [starts, List.mem_filter, mem_wordOffsets, isStart, Bool.and_eq_true, decide_eq_true_eq,
    hmarker, Source.u16?_eq_word]
  constructor
  · rintro ⟨⟨hle, heven, -⟩, hstart⟩
    exact ⟨hle, heven, hstart⟩
  · rintro ⟨hle, heven, hstart⟩
    exact ⟨⟨hle, heven, by omega⟩, hstart⟩

theorem FirstEnd.eq (h : FirstEnd source p m) (hp : source.BytesAt p 0xFF 0xD9) : m = p := by
  by_contra hne
  have hlt : p < m := Nat.lt_of_le_of_ne h.le (Ne.symm hne)
  exact h.first p (Nat.le_refl p) hlt (by rw [Nat.sub_self]) hp

theorem firstEnd_behind (hp : ¬ source.BytesAt p 0xFF 0xD9) :
    FirstEnd source p m ↔ FirstEnd source (p + 2) m := by
  constructor
  · intro h
    have hne : m ≠ p := by
      rintro rfl
      exact hp h.marker
    have hle := h.le
    have heven := h.even
    refine ⟨by omega, by omega, h.marker, fun k hk hlt hdist => ?_⟩
    exact h.first k (by omega) hlt (by omega)
  · intro h
    have hle := h.le
    have heven := h.even
    refine ⟨by omega, by omega, h.marker, fun k hk hlt hdist => ?_⟩
    by_cases hfirst : k = p
    · rwa [hfirst]
    · exact h.first k (by omega) hlt (by omega)

/-- Later starts are found behind the first end marker. -/
theorem mem_laterStarts :
    q ∈ laterStarts source p ↔ ∃ m, FirstEnd source p m ∧ q ∈ starts source (m + 2) := by
  have hmarker : endMarker = word 0xFF 0xD9 := rfl
  -- word by word up to the end of the data
  induction hn : source.size - p using Nat.strongRecOn generalizing p with
  | _ n ih =>
    subst hn
    cases hword : source.u16? p with
    | none =>
      rw [laterStarts_nil hword]
      refine iff_of_false List.not_mem_nil ?_
      rintro ⟨m, hm, -⟩
      have hroom := Nat.le_trans (Nat.add_le_add_right hm.le 2) hm.marker.le
      rw [← source.isSome_u16?_iff, hword] at hroom
      cases hroom
    | some w =>
      have hroom : p + 2 ≤ source.size := (source.isSome_u16?_iff p).mp (by rw [hword]; rfl)
      by_cases hend : w = endMarker
      · subst hend
        have hhere : source.BytesAt p 0xFF 0xD9 := Source.u16?_eq_word.mp hword
        have hfirst : FirstEnd source p p :=
          ⟨Nat.le_refl p, by rw [Nat.sub_self], hhere, fun k hk hlt => absurd hk (Nat.not_le.mpr hlt)⟩
        rw [laterStarts_marker hword]
        constructor
        · exact fun h => ⟨p, hfirst, h⟩
        · rintro ⟨m, hm, h⟩
          rwa [hm.eq hhere] at h
      · have hother : ¬ source.BytesAt p 0xFF 0xD9 := by
          rw [← Source.u16?_eq_word, hword, ← hmarker]
          exact fun h => hend (Option.some.inj h)
        simp only [firstEnd_behind hother]
        rw [laterStarts_other hword hend]
        exact ih _ (by omega) rfl

end Spans

/-! ## Turns -/

namespace Decode

open Job

variable {limits : Limits} {stop : Stop} {s u : Session Walk}

/-- A turn with embedded JPEG is the last one: the cursor is behind all data. -/
theorem turn_jpeg (limits : Limits) (h : Dispatches stop s .jpeg u) :
    ∃ t, jpeg stop u = .ok () t ∧ turn limits stop s = .ok false t := by
  obtain ⟨s₁, hread, hcheck⟩ := h
  let t := sessionOf (jpeg stop u)
  have hjpeg : jpeg stop u = .ok () t := rfl
  have hdispatch : dispatch limits .jpeg stop u = .ok true t := bind_eq_ok.mpr ⟨(), t, hjpeg, rfl⟩
  have hend : (true && !t.work.cursor.atEnd) = false := by
    have hatEnd : (u.work.cursor.seek u.work.cursor.source.size).atEnd = true := by
      simp [Cursor.atEnd, Cursor.seek]
    show (true && !(u.work.cursor.seek u.work.cursor.source.size).atEnd) = false
    rw [hatEnd]
    rfl
  refine ⟨t, hjpeg, ?_⟩
  refine bind_eq_ok.mpr ⟨_, s, rfl, ?_⟩
  refine bind_eq_ok.mpr ⟨_, s₁, hread, ?_⟩
  refine bind_eq_ok.mpr ⟨(), u, hcheck, ?_⟩
  exact bind_eq_ok.mpr ⟨true, t, hdispatch, bind_eq_ok.mpr ⟨_, t, rfl, by rw [← hend]; rfl⟩⟩

/-- Embedded JPEG is recorded in one turn at most, and that is the last one. -/
theorem walks_jpeg {info : Info} {cursor : Cursor} {visited front back : List (Session Walk)}
    {r : EStateM.Result Error (Session Walk) Unit} (h : Walks limits stop info cursor visited r)
    (hsplit : visited = front ++ s :: back) (hjpeg : Dispatches stop s .jpeg u) :
    back = [] ∧ (∃ t, jpeg stop u = .ok () t ∧ r = .ok () t) ∧
      ∀ v ∈ front, ∀ w, ¬ Dispatches stop v .jpeg w := by
  obtain ⟨t, ht, hturn⟩ := turn_jpeg limits hjpeg
  cases h with
  | refused => exact absurd hsplit.symm (List.append_ne_nil_of_right_ne_nil front nofun)
  | walked henter hloop =>
    obtain ⟨hback, hr, hfront⟩ := hloop.last hsplit (turnStep_last hturn)
    refine ⟨hback, ⟨t, ht, hr⟩, fun v hv w hw => ?_⟩
    obtain ⟨v', hstep⟩ := hfront v hv
    obtain ⟨t', -, hlast⟩ := turn_jpeg limits hw
    cases (turnStep_eq_inl.mp hstep).symm.trans hlast

/-- An opcode for embedded JPEG data records two bytes behind its end as the place of the first JPEG,
whatever stands there, and behind it, in increasing order, those start markers at an even distance from
its end that stand behind the first end marker at such a distance and are not the end of the data; none
if there is no such end marker. Three loops over words find them, and come to an end. The cursor is
then at the end of the data, and the picture has three interleaved channels; nothing else has changed.
In a picture that is decoded no other opcode of this kind comes before this one, and none at all
behind it. -/
theorem jpeg_records :
    (∀ (stop : Stop) (s : Session Walk),
      let source := s.work.cursor.source
      let p := s.work.cursor.pos
      ∃ later words,
        jpeg stop s = .ok () { s with work := { s.work with
          cursor := ⟨source, source.size⟩
          picture := { s.work.picture with
            jpegOffsets := s.work.picture.jpegOffsets ++ (p + 2) :: later
            channels := 3
            interleaved := true } } } ∧
        Loop (Scan.step source) (Scan.start p) words ((p + 2) :: later) ∧
        later.Pairwise (· < ·) ∧
        ∀ q, q ∈ later ↔ ∃ m, Spans.FirstEnd source p m ∧ m + 2 ≤ q ∧ (q - p) % 2 = 0 ∧
          source.BytesAt q 0xFF 0xD8 ∧ q + 2 < source.size) ∧
    ∀ (source : Source) (info : Info) (cursor : Cursor) (limits : Limits) (stop : Stop),
      Header.parse source = .ok (info, cursor) → ∃ visited r,
        Walks limits stop info cursor visited r ∧
        decode source limits stop =
          (reportOf r).map (fun _ => ⟨source, limits, (sessionOf r).work.picture⟩) ∧
        ∀ front s back u, visited = front ++ s :: back → Dispatches stop s .jpeg u →
          back = [] ∧ (∃ t, jpeg stop u = .ok () t ∧ r = .ok () t) ∧
            ∀ v ∈ front, ∀ w, ¬ Dispatches stop v .jpeg w := by
  constructor
  · intro stop s source p
    obtain ⟨words, hscan⟩ := Scan.loop_scan source p
    refine ⟨Spans.laterStarts source p, words, ?_, hscan, Spans.laterStarts_increasing source p,
      fun q => ?_⟩
    · have hseek : s.work.cursor.seek source.size = ⟨source, source.size⟩ := by
        simp [Cursor.seek, source]
      rw [← hseek]
      rfl
    · rw [Spans.mem_laterStarts]
      refine exists_congr fun m => and_congr_right fun hm => ?_
      have hle := hm.le
      have heven := hm.even
      rw [Spans.mem_starts]
      exact and_congr_right fun hbehind => and_congr_left' (by omega)
  · intro source info cursor limits stop hparse
    obtain ⟨⟨visited, r, hwalks, hdecode, -, -⟩, -, -⟩ := decode_advances hparse limits stop
    exact ⟨visited, r, hwalks, hdecode, fun front s back u hsplit hjpeg =>
      walks_jpeg hwalks hsplit hjpeg⟩

/-- An opcode for embedded JPEG data, an end marker, two start markers and one more byte. -/
def markedRecords : List UInt8 := [0x00, 0x18, 0xFF, 0xD9, 0xFF, 0xD8, 0xFF, 0xD8, 0x00]

def markedStart : Session Walk :=
  entered sampleHeader.info (.between sampleHeader.bytes markedRecords)

def markedOpcode : Session Walk := sessionOf (Walk.read (Opcode.read .two) .never markedStart)

theorem dispatches_marked :
    Dispatches .never markedStart .jpeg { markedOpcode with checks := markedOpcode.checks + 1 } := by
  have hread : Walk.read (Opcode.read .two) .never markedStart = .ok (some .jpeg) markedOpcode :=
    eq_ok_of_toOption (by decide +kernel)
  exact ⟨_, hread, check_passes _ _ rfl⟩

theorem walks_marked :
    ∃ r, Walks .unlimited .never sampleHeader.info (.between sampleHeader.bytes markedRecords)
      [markedStart] r := by
  obtain ⟨t, -, hlast⟩ := turn_jpeg .unlimited dispatches_marked
  exact ⟨.ok () t, .walked (enter_unlimited _ _) (.done (turnStep_last hlast))⟩

/-- The one turn of its picture records both start markers behind the place of the first JPEG, and not
the end marker in front of them. -/
theorem jpeg_markedRecords :
    ∃ t later, Walks .unlimited .never sampleHeader.info
        (.between sampleHeader.bytes markedRecords) [markedStart] (.ok () t) ∧
      t.work.picture.jpegOffsets.toList = 556 :: later ∧ 554 ∉ later ∧ 556 ∈ later ∧
      558 ∈ later := by
  obtain ⟨visited, r, hwalks, -, hlast⟩ := jpeg_records.2 _ _ _ .unlimited .never
    (Header.parse_header sampleHeader markedRecords)
  obtain ⟨s, hmarked⟩ := walks_marked
  obtain ⟨rfl, rfl⟩ := hwalks.unique hmarked
  obtain ⟨-, ⟨t, ht, rfl⟩, -⟩ := hlast [] markedStart [] _ rfl dispatches_marked
  obtain ⟨later, words, hjpeg, -, -, hmem⟩ := jpeg_records.1 .never
    { markedOpcode with checks := markedOpcode.checks + 1 }
  obtain ⟨-, rfl⟩ := ok_unique ht hjpeg
  obtain ⟨hpos, hsize, hoffsets⟩ : markedOpcode.work.cursor.pos = 554 ∧
      markedOpcode.work.cursor.source.size = 561 ∧
      markedOpcode.work.picture.jpegOffsets = #[] := by decide +kernel
  obtain ⟨hend, hone, htwo⟩ : markedOpcode.work.cursor.source.BytesAt 554 0xFF 0xD9 ∧
      markedOpcode.work.cursor.source.BytesAt 556 0xFF 0xD8 ∧
      markedOpcode.work.cursor.source.BytesAt 558 0xFF 0xD8 := by decide +kernel
  dsimp only at hmem
  rw [hpos, hsize] at hmem
  have hfirst : Spans.FirstEnd markedOpcode.work.cursor.source 554 554 :=
    ⟨Nat.le_refl 554, rfl, hend, fun k hle hlt => absurd hle (Nat.not_le.mpr hlt)⟩
  refine ⟨_, later, hmarked, ?_, fun hzero => ?_, ?_, ?_⟩
  · dsimp only
    rw [hpos, hoffsets]
    exact Array.toList_appendList
  · obtain ⟨m, hm, hbehind, -⟩ := (hmem 554).mp hzero
    have hle := hm.le
    omega
  · exact (hmem 556).mpr ⟨554, hfirst, Nat.le_refl 556, rfl, hone, by decide⟩
  · exact (hmem 558).mpr ⟨554, hfirst, by decide, rfl, htwo, by decide⟩

end Decode
end Pict
