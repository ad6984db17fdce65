import Pict.Proofs.Plane.Buffered

/-!
# Reads that end midway

A loop over rows asks the stop in front of every sixteenth row. What it has done when the stop refuses
is what its rows up to there have done, one after the other, and nothing of the row in front of which it
was asked. A row of strips is painted in all planes at once, so that the planes are finished up to the
same row, and the warning for rows without a strip comes after the last one only.

Results:
* `eachRow_stopped`: how far a loop over rows comes.
* `paintStrips_stopped`: what is painted of strips.
* `readIntoWith_midway`: the whole buffer after a read that is cancelled, byte by byte.
-/
namespace Pict

/-! ## Rows -/

namespace Job

variable {σ : Type}

/-- A stop that passes `n` checks ends a loop over rows in front of row `16 * n`, if there is one. Of the
loop it leaves what the rows in front of that have done. -/
theorem eachRow_stopped (n : Nat) (reason : StopReason) {body : Nat → Job σ Bool}
    {next : Nat → σ → σ}
    (hbody : ∀ row stop s, body row stop s = .ok true { s with work := next row s.work })
    (left : Nat) : ∀ (row : Nat) (s : Session σ), s.checks = (row + 15) / 16 → row ≤ 16 * n →
      16 * n < row + left →
      eachRow body row left (.after n reason) s = .error (.cancelled reason)
        ⟨n + 1, s.warnings, (List.range' row (16 * n - row)).foldl (fun w i => next i w) s.work⟩ := by
  induction left with
  | zero =>
    intro row s hchecks hle hlt
    omega
  | succ left ih =>
    intro row s hchecks hle hlt
    rw [eachRow, bind_apply]
    by_cases hrow : row = 16 * n
    · rw [checkRow_refused hrow (by omega), hrow, Nat.sub_self]
      rfl
    · have hbefore : row < 16 * n := by omega
      have hrange : 16 * n - row = 16 * n - (row + 1) + 1 := by omega
      have hcome : row < (Stop.after n reason).rowsBefore (row + (left + 1)) :=
        Nat.lt_min.mpr ⟨by omega, hbefore⟩
      rw [checkRow_passes hcome hchecks]
      dsimp only
      rw [bind_apply, hbody]
      dsimp only
      rw [if_pos rfl, ih (row + 1) _ rfl hbefore (by omega), hrange, List.range'_succ,
        List.foldl_cons]

end Job

/-! ## Strips -/

namespace Picture

variable (p : Picture) (assembly : Assembly) (win : Window)

/-- Strips are painted up to the row in front of which the stop refuses, and nothing is warned of. -/
theorem paintStrips_stopped {n : Nat} (reason : StopReason) (hlt : 16 * n < rowsOf assembly win) :
    ∃ t, p.paintStrips assembly win (.after n reason) ⟨0, #[], Canvas.empty⟩ =
        .error (.cancelled reason) t ∧ t.checks = n + 1 ∧ t.warnings = #[] ∧
      t.work.lines.toList = (List.range' 0 (16 * n)).map (p.line assembly win) := by
  have hbody : ∀ i stop s, p.paintRow assembly win i stop s =
      .ok true { s with work := p.withRow assembly win i s.work } := p.paintRow_apply assembly win
  have hrows := Job.eachRow_stopped n reason hbody (rowsOf assembly win) 0
    ⟨0, #[], Canvas.empty⟩ rfl (Nat.zero_le _) (by omega)
  unfold paintStrips
  rw [Job.bind_apply, hrows]
  refine ⟨_, rfl, rfl, rfl, ?_⟩
  rw [foldl_withRow, Nat.sub_zero]
  simp [Canvas.empty]

end Picture

/-! ## Buffers -/

/-- Every place of some planes of one size lies in one row of one of them. -/
theorem exists_place {planes width height k : Nat} (h : k < width * height * planes) :
    ∃ c < planes, ∃ i < height, ∃ j < width,
      k = c * (width * height) + (i * width + j) ∧ k / width % height = i := by
  have hwidth : 0 < width := Nat.pos_of_ne_zero fun h0 => by simp [h0] at h
  have hheight : 0 < height := Nat.pos_of_ne_zero fun h0 => by simp [h0] at h
  refine ⟨k / width / height, ?_, k / width % height, Nat.mod_lt _ hheight, k % width,
    Nat.mod_lt _ hwidth, ?_, rfl⟩
  · rw [Nat.div_div_eq_div_mul]
    exact Nat.div_lt_of_lt_mul h
  · have hrow := Nat.div_add_mod k width
    have hplane := Nat.div_add_mod (k / width) height
    calc k = width * (k / width) + k % width := hrow.symm
      _ = width * (height * (k / width / height) + k / width % height) + k % width := by rw [hplane]
      _ = k / width / height * (width * height) + (k / width % height * width + k % width) := by
        rw [Nat.mul_add, ← Nat.mul_assoc, Nat.mul_comm (width * height),
          Nat.mul_comm width (k / width % height), Nat.add_assoc]

/-- A canvas with the first `n` rows of a window has the bytes of these rows of the whole, in each of the
planes, and black in all others. -/
theorem Picture.getElem?_samples {p : Picture} {assembly : Assembly} {win : Window} {canvas : Canvas}
    {n k : Nat} (hs : assembly.isStrips = true)
    (hlines : canvas.lines.toList = (List.range' 0 n).map (p.line assembly win))
    (hk : k < win.pixels * (p.layoutOf assembly).bytesPerPixel) :
    (canvas.samples (p.layoutOf assembly) win.pixels)[k]? =
      if k / win.width % win.height < n then (p.stripPixels assembly win)[k]? else some 0 := by
  have hplanes : (p.layoutOf assembly).bytesPerPixel = (p.layoutOf assembly).planes := by
    rw [← Layout.planes_mul_pitch, (layoutOf_strips hs).2.1, Nat.mul_one]
  rw [hplanes] at hk
  -- byte `k` is that of column `j` of row `i` of plane `c`
  obtain ⟨c, hc, i, hi, j, hj, hplace, hrow⟩ := exists_place hk
  have hwhole : (p.stripPixels assembly win)[k]? =
      some (if i < rowsOf assembly win then p.stripSample assembly c (win.x + j) (win.y + i) else 0) := by
    rw [hplace]
    exact samples_lines hs rfl hc hi hj
  rw [rowsOf_strips hs (Nat.zero_lt_of_lt hj), if_pos hi] at hwhole
  rw [hwhole, hrow, hplace, ← Window.pixels, samples_lines hs hlines hc hi hj, apply_ite some]

namespace Document

variable {codec : Codec} {doc : Document} {request : Request} {buffer : List UInt8}

theorem paint_stopped (codec : Codec) {n : Nat} (reason : StopReason)
    (hs : (doc.picture.assembly request.legacy).isStrips = true)
    (hlt : 16 * n < Picture.rowsOf (doc.picture.assembly request.legacy) request.window) :
    ∃ t, (doc.paint codec request (doc.planOf request)).run (.after n reason) Canvas.empty =
        .error (.cancelled reason) t ∧ t.checks = n + 1 ∧ t.warnings = #[] ∧
      t.work.lines.toList = (List.range' 0 (16 * n)).map
        (doc.picture.line (doc.picture.assembly request.legacy) request.window) := by
  obtain ⟨t, ht, hleft⟩ := doc.picture.paintStrips_stopped _ request.window reason hlt
  refine ⟨t, ?_, hleft⟩
  unfold paint planOf
  dsimp only
  cases hassembly : doc.picture.assembly request.legacy with
  | jpeg | fallback =>
    rw [hassembly] at hs
    cases hs
  | indexed | gray | planar _ | packed555 =>
    rw [hassembly] at ht
    dsimp only
    rw [Job.run, Job.bind_apply, ht]

/-- A window with columns that is read from strips into a buffer that is large enough is stopped by any
stop that passes too few checks for its rows, sixteen rows a check. The buffer then has the rows that
the passed checks stand in front of, in every plane as they would be without the stop, all other rows
of the window are black, and the rest of the buffer is as it was. Missing rows are not warned of. A stop
that passes enough checks makes no difference. -/
theorem readIntoWith_midway (hstrips : doc.FromStrips request)
    (hfits : request.window.fits doc.picture.width doc.picture.height = true)
    (hmemory : Limits.allows doc.limits.memory (doc.planOf request).size)
    (hwidth : 0 < request.window.width) (hbuffer : (doc.planOf request).size ≤ buffer.length)
    (codec : Codec) (n : Nat) (reason : StopReason) :
    let win := request.window
    let needed := (doc.planOf request).size
    let whole := doc.readIntoWith codec request buffer .never
    let stopped := doc.readIntoWith codec request buffer (.after n reason)
    whole.report.result = .ok (doc.planOf request).layout ∧
    whole.report.checks = (win.height + 15) / 16 ∧
    (n < (win.height + 15) / 16 →
      stopped.report.result = .error (.cancelled reason) ∧ stopped.report.checks = n + 1 ∧
      stopped.report.warnings = [] ∧ stopped.buffer.drop needed = buffer.drop needed ∧
      ∀ k < needed, stopped.buffer[k]? =
        if k / win.width % win.height < 16 * n then whole.buffer[k]? else some 0) ∧
    ((win.height + 15) / 16 ≤ n → stopped = whole) := by
  intro win needed whole stopped
  have hs := (doc.picture.assembly_isStrips request.legacy).mpr hstrips
  have hplan := plan_eq_ok.mpr ⟨hfits, hmemory, rfl⟩
  have hrows := Picture.rowsOf_strips hs hwidth
  have hchecks : doc.checksOf request = (win.height + 15) / 16 := by rw [checksOf, hrows]
  have hpainted : doc.painted codec request = .ok _ := painted_strips rfl hs
  obtain ⟨hlength, hwhole⟩ := readIntoWith_painted hplan hbuffer hpainted
  refine ⟨?_, ?_, fun hlt => ?_, fun hle => ?_⟩
  · show (doc.readIntoWith codec request buffer .never).report.result = _
    rw [(readIntoWith_report hplan hbuffer).1]
    show Plane.layout <$> (doc.readWith codec request .never).report.result = _
    rw [readWith_met hplan, hpainted]
    rfl
  · rw [← hchecks, ← doc.paint_checks codec request]
    exact congrArg (fun writing => writing.report.checks) (readIntoWith_run hplan hbuffer)
  · have hrow : 16 * n < Picture.rowsOf (doc.picture.assembly request.legacy) win := by
      rw [hrows]
      show 16 * n < win.height
      omega
    obtain ⟨t, ht, hcount, hwarnings, hlines⟩ := paint_stopped codec reason hs hrow
    have hstopped : stopped = ⟨⟨.error (.cancelled reason), t.checks, t.warnings.toList⟩,
        t.work.samples (doc.planOf request).layout win.pixels ++ buffer.drop needed,
        t.work.handed⟩ := by
      show doc.readIntoWith codec request buffer _ = _
      rw [readIntoWith_run hplan hbuffer, ht]
      rfl
    rw [hstopped, hcount, hwarnings]
    refine ⟨rfl, rfl, rfl, List.drop_left' (Canvas.length_samples _ _ _), fun k hk => ?_⟩
    have hall : whole.buffer[k]? =
        (doc.picture.stripPixels (doc.picture.assembly request.legacy) win)[k]? := by
      rw [show whole.buffer = _ from hwhole]
      exact List.getElem?_append_left (hlength.symm ▸ hk)
    rw [hall]
    exact (List.getElem?_append_left (by rwa [Canvas.length_samples])).trans
      (Picture.getElem?_samples hs hlines hk)
  · exact (readIntoWith_stopped hfits hmemory codec n reason hbuffer).1 (hchecks ▸ hle)

/-- Seventeen rows of two pixels with a strip for each channel. -/
def narrowDocument : Document where
  source := #[]
  limits := .unlimited
  picture :=
    { Picture.start ⟨2, 17, .two, none⟩ with strips := Array.replicate 51 (.bytes [5, 6]) }

/-- A stop that passes one check leaves the last row black in all three planes. -/
theorem readIntoWith_narrowDocument :
    let stopped := narrowDocument.readIntoWith (fun _ => none) ⟨⟨1, 0, 1, 17⟩, false, none⟩
      (List.replicate 52 9) (.after 1 .timedOut)
    stopped.report.result = .error (.cancelled .timedOut) ∧ stopped.report.checks = 2 ∧
      stopped.buffer[15]? = some 6 ∧ stopped.buffer[16]? = some 0 ∧ stopped.buffer[17]? = some 6 ∧
      stopped.buffer[33]? = some 0 ∧ stopped.buffer[50]? = some 0 ∧ stopped.buffer.drop 51 = [9] := by
  intro stopped
  have hstrips : narrowDocument.FromStrips ⟨⟨1, 0, 1, 17⟩, false, none⟩ :=
    ⟨rfl, by simp [narrowDocument], rfl⟩
  have hsize : (narrowDocument.planOf ⟨⟨1, 0, 1, 17⟩, false, none⟩).size = 51 := by decide +kernel
  have hwhole : (narrowDocument.readIntoWith (fun _ => none) ⟨⟨1, 0, 1, 17⟩, false, none⟩
      (List.replicate 52 9) .never).buffer = List.replicate 51 6 ++ [9] := by decide +kernel
  have hbuffer : (narrowDocument.planOf ⟨⟨1, 0, 1, 17⟩, false, none⟩).size ≤
      (List.replicate 52 (9 : UInt8)).length := by
    rw [hsize]
    decide
  obtain ⟨-, -, hcut, -⟩ := readIntoWith_midway hstrips rfl nofun Nat.one_pos
    hbuffer (fun _ => none) 1 .timedOut
  rw [hsize, hwhole] at hcut
  obtain ⟨hresult, hchecks, -, hrest, hbyte⟩ := hcut (by decide)
  exact ⟨hresult, hchecks, hbyte 15 (by decide), hbyte 16 (by decide), hbyte 17 (by decide),
    hbyte 33 (by decide), hbyte 50 (by decide), hrest⟩

end Document
end Pict
