import Mathlib.Algebra.Ring.Nat
import Pict.Proofs.Decode.Passes
import Pict.Raster.Rows

/-!
# Rows as they are written

A row of a raster is written as it stands, or behind its length when rows are
packed (`Format.writeRow`). `Format.rowStrips` is what a row decodes to on its
own, on a canvas of a given width.

Results:
* `Raster.passes_readPackedRow_cut`: a packed row is read as far as the capacity reaches.
* `Raster.passes_readPackedRow`, `Raster.passes_readRawRow`: a complete row with something
  behind it is read back as its own strips, and one that stands as it is without that.
* `Raster.passes_readRows`: so are all rows of a raster, in order.
-/
namespace Pict

open PackBits (writeWord)

namespace Format

def writeLength (rowBytes length : Nat) : List UInt8 :=
  if 250 < rowBytes then writeWord (UInt16.ofNat length) else [UInt8.ofNat length]

/-- The bytes of a row. -/
def writeRow (f : Format) (rowBytes : Nat) (row : List UInt8) : List UInt8 :=
  if f.isPacked rowBytes then writeLength rowBytes row.length ++ row else row

theorem writeRow_packed {f : Format} {rowBytes : Nat} (hp : f.isPacked rowBytes = true)
    (row : List UInt8) : f.writeRow rowBytes row = writeLength rowBytes row.length ++ row := by
  rw [writeRow, if_pos hp]

/-- Whether a row has all its bytes, or a length that a packed row may have. -/
def Complete (f : Format) (rowBytes : Nat) (row : List UInt8) : Prop :=
  if f.isPacked rowBytes then
    row.length ≤ Raster.packedCapacity rowBytes ∧ row.length < 0x8000
  else row.length = rowBytes

def Decodable (f : Format) (rowBytes : Nat) : Prop :=
  f.pixelSize ∈ [1, 2, 4, 8, 16] ∨ f.isPacked rowBytes = true ∧ f.pixelSize ∈ [24, 32]

instance (f : Format) (rowBytes : Nat) (row : List UInt8) : Decidable (f.Complete rowBytes row) :=
  inferInstanceAs (Decidable (if f.isPacked rowBytes then _ ∧ _ else _))

instance (f : Format) (rowBytes : Nat) : Decidable (f.Decodable rowBytes) :=
  inferInstanceAs (Decidable (_ ∨ _ ∧ _))

def rowStrips? (f : Format) (width rowBytes : Nat) (row : List UInt8) : Except Error (List Strip) :=
  if f.isPacked rowBytes then f.packedStrips width row
  else (fun strip => [strip]) <$> f.rawStrip width row

/-- The strips of a row on its own, none if its pixel size cannot be decoded. -/
def rowStrips (f : Format) (width rowBytes : Nat) (row : List UInt8) : List Strip :=
  match f.rowStrips? width rowBytes row with
  | .ok strips => strips
  | .error _ => []

theorem packedStrips_isOk {f : Format} (h : f.pixelSize ∈ [1, 2, 4, 8, 16, 24, 32]) (width : Nat)
    (row : List UInt8) : ∃ strips, f.packedStrips width row = .ok strips := by
  simp only [List.mem_cons, List.not_mem_nil, or_false] at h
  rcases h with h | h | h | h | h | h | h <;>
    simp [packedStrips, h, Depth.expandRow, Depth.expandInto, Functor.map, Except.map]

theorem rawStrip_isOk {f : Format} (h : f.pixelSize ∈ [1, 2, 4, 8, 16]) (width : Nat)
    (row : List UInt8) : ∃ strip, f.rawStrip width row = .ok strip := by
  simp only [List.mem_cons, List.not_mem_nil, or_false] at h
  rcases h with h | h | h | h | h <;>
    simp [rawStrip, h, Depth.expandRow, Depth.expandInto, Functor.map, Except.map]

theorem rowStrips?_eq_ok {f : Format} {rowBytes : Nat} (h : f.Decodable rowBytes) (width : Nat)
    (row : List UInt8) :
    f.rowStrips? width rowBytes row = .ok (f.rowStrips width rowBytes row) := by
  suffices hs : ∃ strips, f.rowStrips? width rowBytes row = .ok strips by
    obtain ⟨strips, hs⟩ := hs
    rw [rowStrips, hs]
  unfold rowStrips?
  unfold Decodable at h
  cases hp : f.isPacked rowBytes with
  | true =>
    refine packedStrips_isOk ?_ width row
    rcases h with h | ⟨-, h⟩ <;> simp only [List.mem_cons, List.not_mem_nil, or_false] at h ⊢ <;>
      omega
  | false =>
    have h : f.pixelSize ∈ [1, 2, 4, 8, 16] := h.resolve_right (by simp [hp])
    obtain ⟨strip, hstrip⟩ := rawStrip_isOk h width row
    exact ⟨[strip], by simp [hstrip, Functor.map, Except.map]⟩

end Format

namespace Picture

def extend (p : Picture) (strips : List Strip) (colored : Bool) : Picture :=
  { p with
    strips := p.strips ++ strips.toArray
    stripBytes := p.stripBytes + (strips.map Strip.byteSize).sum
    channels := if colored then 3 else p.channels }

theorem extend_nil (p : Picture) : p.extend [] false = p := by
  simp [extend]

theorem extend_extend (p : Picture) (xs ys : List Strip) (b c : Bool) :
    (p.extend xs b).extend ys c = p.extend (xs ++ ys) (b || c) := by
  simp only [extend, List.map_append, List.sum_append, Nat.add_assoc, Array.append_assoc,
    List.append_toArray]
  cases b <;> cases c <;> rfl

theorem store_eq_extend (p : Picture) (strip : Strip) : p.store strip = p.extend [strip] false := by
  simp [store, extend]

theorem foldl_store (strips : List Strip) (p : Picture) :
    strips.foldl store p = p.extend strips false := by
  induction strips generalizing p with
  | nil => exact p.extend_nil.symm
  | cons strip strips ih =>
    rw [List.foldl_cons, ih, store_eq_extend, extend_extend]
    rfl

theorem foldl_extend {ρ : Type} (strips : ρ → List Strip) (colored : Bool) (rows : List ρ)
    (p : Picture) :
    rows.foldl (fun q row => q.extend (strips row) colored) p =
      p.extend (rows.flatMap strips) (colored && !rows.isEmpty) := by
  induction rows generalizing p with
  | nil => simpa using p.extend_nil.symm
  | cons row rows ih =>
    rw [List.foldl_cons, ih, extend_extend, List.flatMap_cons]
    cases colored <;> rfl

end Picture

namespace Raster

variable {f : Format} {rowBytes : Nat}

theorem passes_store (strip : Strip) (front rest : List UInt8) (p : Picture) :
    Passes (Walk.store strip) front [] rest p () (p.store strip) := by
  intro s hs
  refine ⟨_, rfl, ⟨?_, congrArg (fun q : Picture => q.store strip) hs.picture⟩⟩
  rw [List.append_nil]
  exact hs.cursor

theorem passes_storeAll : ∀ (strips : List Strip) (front rest : List UInt8) (p : Picture),
    Passes (Walk.storeAll strips) front [] rest p () (strips.foldl Picture.store p)
  | [], front, rest, p => Passes.pure front rest p ()
  | strip :: strips, front, rest, p =>
    Passes.bind_nil (passes_store strip front rest p) (passes_storeAll strips front rest _)

theorem passes_markDirect (f : Format) (front rest : List UInt8) (p : Picture) :
    Passes (markDirect f) front [] rest p () (p.extend [] f.isDirect) := by
  unfold markDirect
  cases hd : f.isDirect with
  | false =>
    rw [Picture.extend_nil]
    exact Passes.pure front rest p ()
  | true =>
    have : p.extend [] true = p.markColor := by simp [Picture.extend, Picture.markColor]
    rw [this]
    exact Passes.modify front rest p Picture.markColor

theorem passes_marked {store : Job Walk Unit} {strips : List Strip} {front rest : List UInt8}
    {p : Picture} (f : Format)
    (h : Passes store front [] rest p () (strips.foldl Picture.store p)) :
    Passes (do store; markDirect f; pure true) front [] rest p true
      (p.extend strips f.isDirect) := by
  have he := p.extend_extend strips [] false f.isDirect
  rw [List.append_nil, Bool.false_or] at he
  rw [Picture.foldl_store] at h
  rw [← he]
  exact Passes.bind_nil h (Passes.bind_nil (passes_markDirect f _ _ _) (Passes.pure _ _ _ true))

/-- The lengths that can stand in front of a packed row. -/
def FitsLength (rowBytes n : Nat) : Prop := n < if 250 < rowBytes then 0x8000 else 0x100

instance (rowBytes n : Nat) : Decidable (FitsLength rowBytes n) := inferInstanceAs (Decidable (_ < _))

theorem fitsLength_of_le {n : Nat} (hn : n ≤ packedCapacity rowBytes) (hn' : n < 0x8000) :
    FitsLength rowBytes n := by
  unfold packedCapacity at hn
  unfold FitsLength
  split <;> omega

theorem takes_readLength {n : Nat} (hn : FitsLength rowBytes n) :
    (readLength rowBytes).Takes (Format.writeLength rowBytes n) n := by
  unfold FitsLength at hn
  unfold readLength Format.writeLength
  by_cases h : 250 < rowBytes
  · rw [if_pos h] at hn
    rw [if_pos h, if_pos h]
    have hs : signed (UInt16.ofNat n) = n := by
      rw [signed, UInt16.toNat_ofNat']
      rw [if_pos (by omega)]
      omega
    rw [← hs]
    exact Reader.Takes.i16 _
  · rw [if_neg h] at hn
    rw [if_neg h, if_neg h]
    have hb : (UInt8.ofNat n).toNat = n := by
      rw [UInt8.toNat_ofNat']
      omega
    have := (Reader.Takes.u8 (UInt8.ofNat n)).map (f := fun b => (b.toNat : Int))
    rwa [hb] at this

/-- A length that has enough behind it is taken as it is, or cut to the capacity. -/
theorem passes_settleLength (n capacity : Nat) {front rest : List UInt8}
    (hlt : min n capacity < rest.length) (p : Picture) :
    Passes (settleLength n capacity) front [] rest p (min n capacity) p := by
  have hfit : fitLength n capacity rest.length = (min n capacity : Nat) := by
    unfold fitLength
    omega
  have hneg : ¬ ((min n capacity : Nat) : Int) < 0 := by omega
  have hsettled : Passes (do
      let c ← Walk.getCursor
      let length := fitLength n capacity c.remaining
      if length < 0 then
        Job.warn (.packedRowOutOfRange n c.pos)
        Walk.move fun c => c.seek (c.source.size - 1)
        pure 0
      else pure length.toNat) front [] rest p (min n capacity) p := by
    refine Passes.bind_nil (Passes.getCursor _ _ p) ?_
    simp only [List.nil_append, Cursor.remaining_between, hfit, if_neg hneg, Int.toNat_natCast]
    exact Passes.pure _ _ p _
  unfold settleLength
  split
  · exact Passes.bind_nil (Passes.warn _ _ p _) hsettled
  · exact hsettled

/-- A packed row with something behind it is read back, cut to the capacity if it is longer. -/
theorem passes_readPackedRow_cut (hp : f.isPacked rowBytes = true) (hf : f.Decodable rowBytes)
    {bytes : List UInt8} (hb : FitsLength rowBytes bytes.length) (width height row : Nat)
    {front rest : List UInt8} (hrest : rest ≠ []) (p : Picture) :
    Passes (readPackedRow f width height rowBytes row) front
      (Format.writeLength rowBytes bytes.length ++ bytes.take (packedCapacity rowBytes)) rest p true
      (p.extend (f.rowStrips width rowBytes (bytes.take (packedCapacity rowBytes)))
        f.isDirect) := by
  have hstrips := Format.rowStrips?_eq_ok hf width (bytes.take (packedCapacity rowBytes))
  rw [Format.rowStrips?, if_pos hp] at hstrips
  have hcut : (bytes.take (packedCapacity rowBytes)).length =
      min bytes.length (packedCapacity rowBytes) := by
    rw [List.length_take, Nat.min_comm]
  have hlt : min bytes.length (packedCapacity rowBytes) <
      (bytes.take (packedCapacity rowBytes) ++ rest).length := by
    have := List.length_pos_iff.mpr hrest
    rw [List.length_append]
    omega
  refine Passes.bind (Passes.read (takes_readLength hb _ _) p) ?_
  refine Passes.bind_nil (passes_settleLength _ _ hlt p) ?_
  refine Passes.bind_last (Passes.next hcut _ _ p) ?_
  rw [hstrips]
  exact passes_marked f (passes_storeAll _ _ _ p)

/-- A row that is complete and has something behind it is read back. -/
theorem passes_readPackedRow (hp : f.isPacked rowBytes = true) (hf : f.Decodable rowBytes)
    {bytes : List UInt8} (hb : f.Complete rowBytes bytes) (width height row : Nat)
    {front rest : List UInt8} (hrest : rest ≠ []) (p : Picture) :
    Passes (readPackedRow f width height rowBytes row) front (f.writeRow rowBytes bytes) rest p true
      (p.extend (f.rowStrips width rowBytes bytes) f.isDirect) := by
  rw [Format.Complete, if_pos hp] at hb
  have hwhole : bytes.take (packedCapacity rowBytes) = bytes := List.take_of_length_le hb.1
  rw [Format.writeRow_packed hp, ← hwhole, List.length_take, Nat.min_eq_right hb.1]
  exact passes_readPackedRow_cut hp hf (fitsLength_of_le hb.1 hb.2) width height row hrest p

theorem passes_readRawRow (hp : f.isPacked rowBytes = false) (hf : f.Decodable rowBytes)
    {bytes : List UInt8} (hb : f.Complete rowBytes bytes) (width height row : Nat)
    {front rest : List UInt8} (hmore : bytes ++ rest ≠ []) (p : Picture) :
    Passes (readRawRow f width height rowBytes row) front (f.writeRow rowBytes bytes) rest p true
      (p.extend (f.rowStrips width rowBytes bytes) f.isDirect) := by
  have hlen : bytes.length = rowBytes := by simpa [Format.Complete, hp] using hb
  have hfit : fit rowBytes bytes = bytes := by simp [fit, ← hlen]
  have hstrips := Format.rowStrips?_eq_ok hf width bytes
  rw [Format.rowStrips?, if_neg (by simp [hp])] at hstrips
  have hleft : ¬ (Cursor.between front (bytes ++ rest)).atEnd = true := by
    rw [Cursor.atEnd_between]
    exact hmore
  rw [Format.writeRow, if_neg (by simp [hp])]
  refine Passes.bind_nil (Passes.getCursor _ _ p) ?_
  rw [if_neg hleft]
  refine Passes.bind_last (Passes.next hlen _ _ p) ?_
  rw [if_neg (by omega), hfit]
  cases hs : f.rawStrip width bytes with
  | error e =>
    rw [hs] at hstrips
    cases hstrips
  | ok strip =>
    rw [hs] at hstrips
    have : f.rowStrips width rowBytes bytes = [strip] := (Except.ok.inj hstrips).symm
    rw [this]
    have hstore := passes_store strip (front ++ bytes) rest p
    rw [show p.store strip = [strip].foldl Picture.store p from rfl] at hstore
    exact passes_marked f hstore

/-- All rows of a raster are read back, as many as the canvas has. -/
theorem passes_readRows (f : Format) {rows : List (List UInt8)} {p : Picture}
    (hf : rows ≠ [] → f.Decodable p.rowBytes) (hrows : ∀ row ∈ rows, f.Complete p.rowBytes row)
    (hn : rows.length = p.declaredHeight) (front : List UInt8) {rest : List UInt8}
    (hrest : rest ≠ []) :
    Passes (readRows f) front (rows.flatMap (f.writeRow p.rowBytes)) rest p ()
      (p.extend (rows.flatMap (f.rowStrips p.width p.rowBytes)) (f.isDirect && !rows.isEmpty)) := by
  refine Passes.bind_nil (Passes.getPicture _ _ p) ?_
  dsimp only
  rw [← hn, ← Picture.foldl_extend]
  refine Passes.eachRow _ _ _ hrest rows ?_ 0 front p
  intro row hrow i front more q hmore
  have hf := hf (List.ne_nil_of_mem hrow)
  cases hp : f.isPacked p.rowBytes with
  | true => exact passes_readPackedRow hp hf (hrows row hrow) _ _ _ hmore q
  | false =>
    exact passes_readRawRow hp hf (hrows row hrow) _ _ _ (List.append_ne_nil_of_right_ne_nil _ hmore) q

end Raster
end Pict
