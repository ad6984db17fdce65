import Pict.Proofs.Decode.Composition
import Pict.Proofs.Decode.Growth

/-!
# What the memory limit bounds

The memory limit is checked before the rows of a raster are read, against what
they are expected to take. All rows stay below that but those of eight bits:
raw ones keep all their bytes, however narrow the canvas is, and packed ones
may unpack to four times its width.

Results:
* `ReadsRows.stripBytes_le`: rows of other pixels keep the limit.
* `strips_within_memory_iff`: the strips of a decoded picture are within the
  memory limit exactly when no raster of eight-bit pixels went beyond it.
* `decode_beyond_memory`: one that does.
* `strips_within_fourfold`: how far beyond the limit strips can be.
-/
namespace Pict

namespace Decode

variable {limits : Limits} {stop : Stop} {s t u : Session Walk} {f : Format}

/-! ## Rows -/

section
variable {m : Nat} (hm : limits.memory = some m)
include hm

theorem ReadsRows.expected_le (h : ReadsRows limits stop s f u t) :
    u.work.picture.stripBytes +
      f.expectedBytes u.work.picture.width u.work.picture.declaredHeight ≤ m := by
  obtain ⟨op, s₁, s₂, -, -, hallow, -⟩ := h
  exact (limits.checkMemory_eq_ok_iff _).mp (allow_eq_ok hallow).2 m hm

/-- All rows but those of eight bits stay within the limit. -/
theorem ReadsRows.stripBytes_le (h : ReadsRows limits stop s f u t) (hf : f.pixelSize ≠ 8) :
    t.work.picture.stripBytes ≤ m := by
  have hle := h.rows_grow.stripBytes_le
  rw [Format.rowLimit_eq hf] at hle
  exact Nat.le_trans hle (h.expected_le hm)

/-- No rows go beyond four times the limit, or beyond the limit by more than seven bytes for
each row of the canvas. -/
theorem ReadsRows.stripBytes_le_fourfold {k : Nat} (hk : limits.height = some k)
    (h : ReadsRows limits stop s f u t) :
    t.work.picture.stripBytes ≤ max (4 * m) (m + 7 * k) := by
  by_cases hf : f.pixelSize = 8
  · have hle := h.rows_grow.stripBytes_le
    have hexpected := h.expected_le hm
    have hheight : u.work.picture.declaredHeight ≤ k := by
      obtain ⟨op, s₁, s₂, -, -, hallow, -⟩ := h
      exact ((limits.check_eq_ok_iff _ _).mp (allow_eq_ok hallow).1).2.1 k hk
    have hone : u.work.picture.width * u.work.picture.declaredHeight ≤
        f.expectedBytes u.work.picture.width u.work.picture.declaredHeight := by
      unfold Format.expectedBytes
      refine Nat.le_mul_of_pos_right _ (Nat.mul_pos ?_ ?_)
      · exact Nat.lt_of_lt_of_le Nat.zero_lt_one (Nat.le_max_right _ _)
      · split <;> decide
    rw [Format.rowLimit, if_pos hf] at hle
    split at hle
    · rw [← Nat.mul_assoc, Nat.mul_comm u.work.picture.declaredHeight] at hle
      omega
    · rename_i hp
      have hbytes : u.work.picture.rowBytes ≤ 7 := by
        simp only [Format.isPacked, Bool.or_eq_true, decide_eq_true_eq, not_or] at hp
        omega
      have := Nat.mul_le_mul hheight hbytes
      omega
  · have := h.stripBytes_le hm hf
    omega

end

/-! ## Runs -/

/-- The strips of a walk stay below what those behind the rows of each raster stay below. -/
theorem turns_stripBytes_le {bound : Nat} (n : Nat) :
    ∀ {s : Session Walk}, turns limits n stop s = .ok () t → s.work.picture.stripBytes ≤ bound →
      (∀ f u v, ReadsRowsWithin limits stop n s f u v → v.work.picture.stripBytes ≤ bound) →
      t.work.picture.stripBytes ≤ bound := by
  induction n with
  | zero =>
    intro s h hs _
    obtain ⟨-, rfl⟩ := Job.pure_eq_ok.mp h
    exact hs
  | succ n ih =>
    intro s h hs hrows
    have hstep : ∀ {b v}, turn limits stop s = .ok b v → v.work.picture.stripBytes ≤ bound := by
      intro b v hturn
      rcases turn_cases hturn with hgrows | ⟨f, u, hreads⟩
      · exact Nat.le_trans hgrows.stripBytes_le hs
      · exact hrows f u v (Or.inl hreads)
    rcases turns_succ_eq_ok h with hturn | ⟨v, hturn, hrest⟩
    · exact hstep hturn
    · exact ih hrest (hstep hturn) fun f u w hwithin => hrows f u w (Or.inr ⟨v, hturn, hwithin⟩)

end Decode

/-! ## Whole pictures -/

def Picture.sampleBytes (p : Picture) : Nat := (p.strips.toList.map Strip.byteSize).sum

theorem Picture.GrowsBy.stripBytes_eq {n : Nat} {info : Info} {p : Picture}
    (h : GrowsBy n (Picture.start info) p) : p.stripBytes = p.sampleBytes := by
  obtain ⟨more, hs, hb, -⟩ := h
  rw [sampleBytes, hs, hb]
  exact Nat.zero_add _

namespace Decode

variable {limits : Limits} {stop : Stop} {source : Source} {doc : Document} {m : Nat}

/-- The strips of a decoded picture are within the memory limit exactly when those behind the
rows of each raster of eight-bit pixels are. -/
theorem strips_within_memory_iff (hm : limits.memory = some m)
    (h : (decode source limits stop).result = .ok doc) :
    doc.picture.sampleBytes ≤ m ↔
      ∀ f u t, ReadsRowsIn source limits stop f u t → f.pixelSize = 8 →
        t.work.picture.sampleBytes ≤ m := by
  obtain ⟨info, cursor, t, hparse, hturns, rfl⟩ := decode_eq_ok h
  obtain ⟨k, hk⟩ := turns_grow _ hturns
  rw [← hk.stripBytes_eq]
  constructor
  · intro hle f u v hin _
    have hwithin := hin.within hparse
    obtain ⟨l, hl⟩ := hwithin.grows
    rw [← hl.stripBytes_eq]
    obtain ⟨k, hgrows⟩ := hwithin.grows_behind _ hturns
    exact Nat.le_trans hgrows.le_stripBytes hle
  · intro h8
    refine turns_stripBytes_le _ hturns (Nat.zero_le m) fun f u v hwithin => ?_
    by_cases hf : f.pixelSize = 8
    · obtain ⟨l, hl⟩ := hwithin.grows
      rw [hl.stripBytes_eq]
      exact h8 f u v ⟨info, cursor, hparse, hwithin⟩ hf
    · obtain ⟨w, hreads⟩ := hwithin.exists_turn
      exact hreads.stripBytes_le hm hf

/-- With a limit on the height as well there is a bound that every decoded picture keeps. -/
theorem strips_within_fourfold {k : Nat} (hm : limits.memory = some m)
    (hk : limits.height = some k) (h : (decode source limits stop).result = .ok doc) :
    doc.picture.sampleBytes ≤ max (4 * m) (m + 7 * k) := by
  obtain ⟨info, cursor, t, hparse, hturns, rfl⟩ := decode_eq_ok h
  obtain ⟨n, hn⟩ := turns_grow _ hturns
  rw [← hn.stripBytes_eq]
  refine turns_stripBytes_le _ hturns (Nat.zero_le _) fun f u v hwithin => ?_
  obtain ⟨w, hreads⟩ := hwithin.exists_turn
  exact hreads.stripBytes_le_fourfold hm hk

/-- A pixmap of one pixel of eight bits, in a row of seven bytes. -/
def narrowPicture : List UInt8 :=
  writePicture sampleHeader
    [⟨0, .raster
      { opening := .indexed .packBitsRect 0x8007 ⟨0, 0, 1, 1⟩ (Vector.replicate 18 0)
          ⟨8, 1, Vector.replicate 14 0⟩
          ⟨Vector.replicate 4 0, 0, 0, [⟨Vector.replicate 2 0, ⟨1, 2, 3⟩, 0, 0, 0⟩], by decide⟩
          (Vector.replicate 18 0) (Vector.replicate 2 0)
        rows := [[1, 2, 3, 4, 5, 6, 7]] }⟩] 0 []

/-- A memory limit of one byte and no other limits. -/
def oneByte : Limits := ⟨none, none, none, some 1⟩

theorem decode_narrowPicture :
    ∃ doc, (decode narrowPicture.toArray oneByte .never).result = .ok doc ∧
      doc.picture.sampleBytes = 7 := by
  have hmap : (decode narrowPicture.toArray oneByte .never).result.toOption.map
      (·.picture.sampleBytes) = some 7 := by decide +kernel
  cases hresult : (decode narrowPicture.toArray oneByte .never).result with
  | error e =>
    rw [hresult] at hmap
    cases hmap
  | ok doc =>
    rw [hresult] at hmap
    exact ⟨doc, rfl, Option.some.inj hmap⟩

/-- Not every decoded picture is within its memory limit. -/
theorem decode_beyond_memory :
    ¬ ∀ (source : Source) (limits : Limits) (stop : Stop) (doc : Document) (m : Nat),
      limits.memory = some m → (decode source limits stop).result = .ok doc →
        doc.picture.sampleBytes ≤ m := by
  intro hall
  obtain ⟨doc, hdoc, hbytes⟩ := decode_narrowPicture
  have hle := hall narrowPicture.toArray oneByte .never doc 1 rfl hdoc
  rw [hbytes] at hle
  exact absurd hle (by decide)

/-- In the picture that goes beyond its limit a raster of eight-bit pixels does. -/
theorem readsRowsIn_narrowPicture :
    ∃ f u t, ReadsRowsIn narrowPicture.toArray oneByte .never f u t ∧ f.pixelSize = 8 ∧
      1 < t.work.picture.sampleBytes := by
  obtain ⟨doc, hdoc, hbytes⟩ := decode_narrowPicture
  have hiff := strips_within_memory_iff rfl hdoc
  refine Classical.byContradiction fun hnone => ?_
  have hwithin : doc.picture.sampleBytes ≤ 1 := hiff.mpr fun f u t hreads hf =>
    Nat.le_of_not_lt fun hlt => hnone ⟨f, u, t, hreads, hf, hlt⟩
  rw [hbytes] at hwithin
  exact absurd hwithin (by decide)

end Decode
end Pict
