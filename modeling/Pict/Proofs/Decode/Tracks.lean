import Pict.Decode.Document
import Pict.Proofs.Decode.Late
import Pict.Proofs.Decode.Turns

/-!
# A walk on cut data beside the walk on the whole

A picture is decoded from its whole data and from a part of it that is cut off
somewhere. As long as there are bytes enough both walks do the same
(`Together`). Where the bytes run out they part: the walk on the cut data has one byte left
at most, and all strips that it stored in time are strips of the other one
(`Parted`). `Tracks` says of a job that it takes walks that are together to walks
that are together, or says how they have parted; a job that succeeds on the whole
data succeeds on the cut data in either case.

Results:
* `Parted.go`: walks that have parted stay parted.
* `Tracks.bind`, `Tracks.eachRow`: jobs in a row, and loops.
* `Tracks.skip`, `Tracks.readClipped`, `Tracks.readExact`: the steps in which walks part.
-/
namespace Pict

open Job

/-! ## Walks that are together, and walks that have parted -/

/-- The walks on the cut data and on the whole have done the same. -/
structure Together (cut more : Source) (s t : Session Walk) : Prop where
  source : s.work.cursor.source = cut
  inside : s.work.cursor.Inside
  cursor : t.work.cursor = s.work.cursor.extend more
  picture : t.work.picture = s.work.picture
  marked : s.work.marks.size = s.work.picture.strips.size

/-- Every strip on the cut data has its mark, and those stored with two bytes to spare are stored on
the whole data as well. -/
structure Covered (cut : Source) (s t : Session Walk) : Prop where
  marked : s.work.marks.size = s.work.picture.strips.size
  covers : ∀ (i m : Nat) (strip : Strip), s.work.picture.strips[i]? = some strip →
    s.work.marks[i]? = some m → m + 2 ≤ cut.size → t.work.picture.strips[i]? = some strip

def Ends (n : Nat) (s : Session Walk) : Prop :=
  s.work.cursor.Inside ∧ s.work.cursor.remaining ≤ n

/-- The walks have parted: there is one byte left at most of the cut data. -/
structure Parted (cut : Source) (s t : Session Walk) : Prop extends Covered cut s t where
  source : s.work.cursor.source = cut
  ends : Ends 1 s

variable {cut more : Source} {s t s' t' : Session Walk}

theorem Ends.forward {n : Nat} (h : Ends n s) (hs : s.work.cursor.Forward s'.work.cursor) :
    Ends n s' :=
  ⟨(hs.moved h.1).2, Nat.le_trans (hs.remaining_le h.1) h.2⟩

theorem Ends.mono {n m : Nat} (h : Ends n s) (hle : n ≤ m) : Ends m s :=
  ⟨h.1, Nat.le_trans h.2 hle⟩

theorem Together.covered (h : Together cut more s t) : Covered cut s t where
  marked := h.marked
  covers i m strip hi _ _ := by rwa [h.picture]

/-- Nothing is lost where the cut data keeps its strips and the whole data gets more. -/
theorem Covered.still (h : Covered cut s t) (hs : Frame.still.allows s.work s'.work)
    (ht : Frame.appends.allows t.work t'.work) : Covered cut s' t' where
  marked := Frame.still.marked hs h.marked
  covers i m strip hi hm hsize := by
    rw [hs.2] at hi
    rw [hs.1] at hm
    exact ht i strip (h.covers i m strip hi hm hsize)

theorem Parted.mono (h : Parted cut s t) (hs : ∀ R : Frame, R.Rows → R.allows s.work s'.work)
    (ht : Frame.appends.allows t.work t'.work) : Parted cut s' t' := by
  obtain ⟨hin, hleft, hsource, hmarks⟩ := hs _ Frame.late_rows h.ends.1 h.ends.2
  have hmarked := hs _ Frame.marked_rows h.marked
  refine ⟨⟨hmarked, fun i m strip hi hm hsize => ?_⟩, hsource.trans h.source, hin, hleft⟩
  -- a strip with two bytes to spare is none of those stored since
  rw [h.source] at hmarks
  have hmark : s.work.marks[i]? = some m := hmarks i m hm hsize
  have hlt : i < s.work.picture.strips.size := by
    rw [← h.marked]
    exact (Array.getElem?_eq_some_iff.mp hmark).1
  have hthere := hs _ Frame.appends_rows i _ (Array.getElem?_eq_getElem hlt)
  rw [hi] at hthere
  obtain rfl := Option.some.inj hthere
  exact ht i _ (h.covers i m _ (Array.getElem?_eq_getElem hlt) hmark hsize)

/-- Walks that are together part where the bytes run out. -/
theorem Together.part (h : Together cut more s t) (hs : Frame.still.allows s.work s'.work)
    (hforward : s.work.cursor.Onward s'.work.cursor) (hleft : s'.work.cursor.remaining ≤ 1)
    (ht : Frame.appends.allows t.work t'.work) : Parted cut s' t' where
  toCovered := h.covered.still hs ht
  source := hforward.source.trans h.source
  ends := ⟨(hforward.moved h.inside).2, hleft⟩

theorem Together.remaining_le (h : Together cut more s t) :
    s.work.cursor.remaining ≤ t.work.cursor.remaining := by
  rw [h.cursor, Cursor.remaining_extend more h.inside]
  exact Nat.le_add_right _ _

/-- A job that does not fail goes on where the walks have parted. -/
theorem Parted.go {α : Type} {job : Job Walk α} (h : Parted cut s t) (hjob : Succeeds job)
    (hw : ∀ R : Frame, R.Rows → Within R job) (ht : Frame.appends.allows t.work t'.work) :
    ∃ a s', job .never s = .ok a s' ∧ Parted cut s' t' := by
  obtain ⟨a, s', hs⟩ := hjob s
  exact ⟨a, s', hs, h.mono (fun R hR => (hw R hR).ok hs) ht⟩

/-! ## Jobs on both -/

/-- Where the job succeeds on the whole data it succeeds on the cut data. The walks stay together,
with the same answer, or else have parted as `Q` says, of the answers and of the walks. -/
def Tracks {α : Type} (cut more : Source) (job : Job Walk α)
    (Q : α → α → Session Walk → Session Walk → Prop) : Prop :=
  ∀ (s t : Session Walk), Together cut more s t → ∀ b t', job .never t = .ok b t' →
    ∃ a s', job .never s = .ok a s' ∧ (a = b ∧ Together cut more s' t' ∨ Q a b s' t')

namespace Tracks

variable {α β : Type} {Q Q' : α → α → Session Walk → Session Walk → Prop}
  {P : β → β → Session Walk → Session Walk → Prop}

theorem mono {job : Job Walk α} (h : Tracks cut more job Q)
    (hQ : ∀ {a b s t}, Q a b s t → Q' a b s t) : Tracks cut more job Q' := by
  intro s t hst b t' ht
  obtain ⟨a, s', hs, hsame | hlost⟩ := h s t hst b t' ht
  · exact ⟨a, s', hs, Or.inl hsame⟩
  · exact ⟨a, s', hs, Or.inr (hQ hlost)⟩

/-- The second job is looked at where the walks are still together and where they have parted. -/
theorem bind {job : Job Walk α} {f : α → Job Walk β} (h : Tracks cut more job Q)
    (h' : ∀ a, Tracks cut more (f a) P)
    (hlost : ∀ {a b s t c t'}, Q a b s t → f b .never t = .ok c t' →
      ∃ d s', f a .never s = .ok d s' ∧ P d c s' t') : Tracks cut more (job >>= f) P := by
  intro s t hst c t' ht
  obtain ⟨b, t₁, hjob, hrest⟩ := bind_eq_ok.mp ht
  obtain ⟨a, s₁, hs₁, ⟨rfl, hst₁⟩ | hparted⟩ := h s t hst b t₁ hjob
  · obtain ⟨d, s', hs', hout⟩ := h' a s₁ t₁ hst₁ c t' hrest
    exact ⟨d, s', bind_eq_ok.mpr ⟨a, s₁, hs₁, hs'⟩, hout⟩
  · obtain ⟨d, s', hs', hout⟩ := hlost hparted hrest
    exact ⟨d, s', bind_eq_ok.mpr ⟨a, s₁, hs₁, hs'⟩, Or.inr hout⟩

theorem bind_same {job : Job Walk α} {f : α → Job Walk β}
    (h : Tracks cut more job fun _ _ _ _ => False) (h' : ∀ a, Tracks cut more (f a) P) :
    Tracks cut more (job >>= f) P :=
  h.bind h' fun hfalse => hfalse.elim

theorem bind_ends {n : Nat} {job : Job Walk α} {f : α → Job Walk β}
    (h : Tracks cut more job fun _ _ s _ => Ends n s)
    (h' : ∀ a, Tracks cut more (f a) fun _ _ s _ => Ends n s) (hs : ∀ a, Succeeds (f a))
    (hf : ∀ a, Within Frame.forward (f a)) :
    Tracks cut more (job >>= f) fun _ _ s _ => Ends n s := by
  refine h.bind h' fun {a b s t c t'} hends _ => ?_
  obtain ⟨d, s', hjob⟩ := hs a s
  exact ⟨d, s', hjob, hends.forward ((hf a).ok hjob)⟩

theorem covered {job : Job Walk α} (h : Tracks cut more job Q) (hstill : Within Frame.still job) :
    Tracks cut more job fun a b s t => Q a b s t ∧ Covered cut s t := by
  intro s t hst b t' ht
  obtain ⟨a, s', hs, hsame | hlost⟩ := h s t hst b t' ht
  · exact ⟨a, s', hs, Or.inl hsame⟩
  · exact ⟨a, s', hs, Or.inr ⟨hlost,
      hst.covered.still (hstill.ok hs) (Frame.still.appends (hstill.ok ht))⟩⟩

theorem parted {job : Job Walk α} (h : Tracks cut more job Q)
    (hQ : ∀ {a b s t}, Q a b s t → Ends 1 s) (hstill : Within Frame.still job)
    (honward : Within Frame.onward job) :
    Tracks cut more job fun a b s t => Q a b s t ∧ Parted cut s t := by
  intro s t hst b t' ht
  obtain ⟨a, s', hs, hsame | hlost⟩ := h s t hst b t' ht
  · exact ⟨a, s', hs, Or.inl hsame⟩
  · exact ⟨a, s', hs, Or.inr ⟨hlost,
      hst.part (hstill.ok hs) (honward.ok hs) (hQ hlost).2 (Frame.still.appends (hstill.ok ht))⟩⟩

/-! ## Single steps -/

theorem silent {job : Job Walk α} {a : α}
    (h : ∀ s, ∃ t, job .never s = .ok a t ∧ t.work = s.work) : Tracks cut more job Q := by
  intro s t hst b t' ht
  obtain ⟨s', hs, hwork⟩ := h s
  obtain ⟨u, hu, hwork'⟩ := h t
  obtain ⟨rfl, rfl⟩ := Job.ok_unique hu ht
  refine ⟨_, s', hs, Or.inl ⟨rfl, ?_, ?_, ?_, ?_, ?_⟩⟩
  · rw [hwork]
    exact hst.source
  · rw [hwork]
    exact hst.inside
  · rw [hwork, hwork']
    exact hst.cursor
  · rw [hwork, hwork']
    exact hst.picture
  · rw [hwork]
    exact hst.marked

theorem pure (a : α) : Tracks cut more (Pure.pure a : Job Walk α) Q :=
  silent fun s => ⟨s, rfl, rfl⟩

theorem warn (w : Warning) : Tracks cut more (Job.warn w) fun _ _ _ _ => False :=
  silent fun _ => ⟨_, rfl, rfl⟩

theorem check : Tracks cut more Job.check fun _ _ _ _ => False :=
  silent fun s => ⟨_, check_passes .never s rfl, rfl⟩

theorem checkRow (row : Nat) : Tracks cut more (Job.checkRow row) fun _ _ _ _ => False :=
  silent fun s =>
    let ⟨t, ht, hwork, _⟩ := checkRow_never row s
    ⟨t, ht, hwork⟩

/-- A job that fails on the whole data may do anything on the cut data. -/
theorem fail (e : Error) : Tracks cut more (Job.fail e : Job Walk α) Q := by
  intro s t _ b t' ht
  cases ht

theorem enforce (limit : Except Breach Unit) :
    Tracks cut more (Job.enforce limit) fun _ _ _ _ => False := by
  cases limit with
  | ok _ => exact pure ()
  | error breach => exact fail _

theorem ofExcept (r : Except Error α) :
    Tracks cut more (Job.ofExcept r) fun _ _ _ _ => False := by
  cases r with
  | ok a => exact pure a
  | error e => exact fail e

theorem getPicture : Tracks cut more Walk.getPicture fun _ _ _ _ => False := by
  intro s t hst b t' ht
  obtain ⟨rfl, rfl⟩ := EStateM.Result.ok.inj ht
  exact ⟨_, s, rfl, Or.inl ⟨hst.picture.symm, hst⟩⟩

theorem modify {f : Picture → Picture} (hf : ∀ p, (f p).strips = p.strips) :
    Tracks cut more (Walk.modify f) fun _ _ _ _ => False := by
  intro s t hst b t' ht
  obtain ⟨-, rfl⟩ := EStateM.Result.ok.inj ht
  refine ⟨(), _, rfl, Or.inl ⟨rfl, hst.source, hst.inside, hst.cursor, congrArg f hst.picture, ?_⟩⟩
  show s.work.marks.size = (f s.work.picture).strips.size
  rw [hf, hst.marked]

theorem store (strip : Strip) : Tracks cut more (Walk.store strip) fun _ _ _ _ => False := by
  intro s t hst b t' ht
  obtain ⟨-, rfl⟩ := EStateM.Result.ok.inj ht
  refine ⟨(), _, rfl, Or.inl ⟨rfl, hst.source, hst.inside, hst.cursor, ?_, ?_⟩⟩
  · exact congrArg (·.store strip) hst.picture
  · simp only [Picture.store, Array.size_push, hst.marked]

theorem storeAll : ∀ strips : List Strip,
    Tracks cut more (Walk.storeAll strips) fun _ _ _ _ => False
  | [] => pure ()
  | strip :: strips => (store strip).bind_same fun _ => storeAll strips

theorem passes {job : Job Walk Unit} (n : Nat)
    (h : ∀ s, ∃ t, job .never s = .ok () t ∧
      t.work = { s.work with cursor := s.work.cursor.skip n }) :
    Tracks cut more job fun _ _ s _ => Ends 0 s := by
  intro s t hst b t' ht
  obtain ⟨s', hs, hwork⟩ := h s
  obtain ⟨u, hu, hwork'⟩ := h t
  obtain ⟨-, rfl⟩ := Job.ok_unique hu ht
  have hinside : s'.work.cursor.Inside := by
    rw [hwork]
    exact Cursor.skip_pos_le _ n
  refine ⟨(), s', hs, ?_⟩
  rcases s.work.cursor.skip_extend_or n more with hsame | hend
  · refine Or.inl ⟨rfl, ?_, hinside, ?_, ?_, ?_⟩
    · rw [hwork]
      exact hst.source
    · rw [hwork', hwork, hst.cursor]
      exact hsame
    · rw [hwork', hwork]
      exact hst.picture
    · rw [hwork]
      exact hst.marked
  · refine Or.inr ⟨hinside, ?_⟩
    rw [hwork]
    exact Nat.le_of_eq hend

theorem skip (n : Nat) : Tracks cut more (Walk.move (·.skip n)) fun _ _ s _ => Ends 0 s :=
  passes n fun _ => ⟨_, rfl, rfl⟩

/-- A reader whose skips may be clipped. -/
theorem readClipped {r : Reader α} (h : r.Clipped) (hr : r.Starves) :
    Tracks cut more (Walk.read r)
      fun a b s _ => a = none ∧ Ends 1 s ∨ a = b ∧ a.isSome ∧ Ends 0 s := by
  intro s t hst b t' ht
  obtain ⟨rfl, rfl⟩ := Walk.read_eq_ok.mp ht
  have hforward := (h.forward s.work.cursor).1
  have hinside := (hforward.moved hst.inside).2
  refine ⟨_, _, Walk.read_apply .never s r, ?_⟩
  rw [hst.cursor]
  cases ha : (r s.work.cursor).1 with
  | none => exact Or.inr (Or.inl ⟨rfl, hinside, hr _ hst.inside ha⟩)
  | some a =>
    obtain ⟨hb, hplace | hend⟩ := h.same more hst.inside ha
    · exact Or.inl ⟨hb.symm, hforward.source.trans hst.source, hinside, hplace, hst.picture,
        hst.marked⟩
    · exact Or.inr (Or.inr ⟨hb.symm, rfl, hinside, Nat.le_of_eq hend⟩)

/-- A reader of fields. -/
theorem readExact {r : Reader α} (h : r.Exact) :
    Tracks cut more (Walk.read r) fun a _ s _ => a = none ∧ (r.Starves → Ends 1 s) := by
  intro s t hst b t' ht
  obtain ⟨rfl, rfl⟩ := Walk.read_eq_ok.mp ht
  have hforward := (h.forward s.work.cursor).1
  have hinside := (hforward.moved hst.inside).2
  refine ⟨_, _, Walk.read_apply .never s r, ?_⟩
  rw [hst.cursor]
  cases ha : (r s.work.cursor).1 with
  | none => exact Or.inr ⟨rfl, fun hr => ⟨hinside, hr _ hst.inside ha⟩⟩
  | some a =>
    rw [h.same more hst.inside ha]
    exact Or.inl ⟨rfl, hforward.source.trans hst.source, hinside, rfl, hst.picture, hst.marked⟩

/-! ## Row loops -/

/-- Rows go on where the walks have parted, unless they fail on the whole data as well. -/
theorem eachRow {body : Nat → Job Walk Bool} (hw : ∀ row, ∀ R : Frame, R.Rows → Within R (body row))
    (h : ∀ row, Tracks cut more (body row) fun a _ s t =>
      Parted cut s t ∧ (a = true → ∀ later, Succeeds (body later))) (left : Nat) :
    ∀ row, Tracks cut more (Job.eachRow body row left) fun _ _ s t => Parted cut s t := by
  induction left with
  | zero => exact fun row => pure ()
  | succ left ih =>
    refine fun row => (checkRow row).bind_same fun _ => (h row).bind (fun a => ?_) ?_
    · split
      · exact ih (row + 1)
      · exact pure ()
    · rintro a b s t c t' ⟨hparted, hlater⟩ ht
      have happends : Frame.appends.allows t.work t'.work := by
        have hrest : Within Frame.appends
            (if b = true then Job.eachRow body (row + 1) left else Pure.pure ()) := by
          split
          · exact Within.eachRow (fun later => hw later _ Frame.appends_rows) left (row + 1)
          · exact Within.pure ()
        exact hrest.ok ht
      cases a with
      | false =>
        exact ⟨(), s, rfl, hparted.mono (fun R _ => R.refl s.work) happends⟩
      | true =>
        exact hparted.go (Succeeds.moves.eachRow (hlater rfl) left (row + 1))
          (fun R hR => Within.eachRow (fun later => hw later R hR) left (row + 1)) happends

end Tracks
end Pict
