import Pict.Proofs.PackBits.Expansion

/-!
# Packed rows expand to what their packets stand for

What is unpacked from a row that is written as packets holds for every packing of a row, not only
for that of an encoder.

Results:
* `decodeBytes_packets`, `decodeWords_packets`: rows of bytes and rows of words are decoded to what
  their packets stand for.
* `exists_packets`: every row can be packed with little overhead.
-/
namespace Pict.PackBits

namespace Packet

instance {α : Type} : (p : Packet α) → Decidable p.Valid
  | literal _ => inferInstanceAs (Decidable (_ ∧ _))
  | run _ _ => inferInstanceAs (Decidable (_ ∧ _))
  | skip => inferInstanceAs (Decidable True)

theorem length_bytes_literal (units : List UInt8) :
    ((literal units).bytes fun b => [b]).length = 1 + units.length := by
  rw [bytes, List.length_cons, List.flatMap_singleton', Nat.add_comm]

theorem length_bytes_run (count : Nat) (b : UInt8) :
    ((run count b).bytes fun b => [b]).length = 2 := rfl

end Packet

/-- A row of bytes, however it is packed. -/
theorem decodeBytes_packets {ps : List (Packet UInt8)} (hv : ∀ p ∈ ps, p.Valid) (room : Nat) :
    decodeBytes room (bytesOf (fun b => [b]) ps) = (expandAll ps).take room := by
  rw [decodeBytes, unpacksRows_bytes.expansion]
  exact congrArg (List.take room) (byteUnits.expansion_bytesOf hv)

/-- A row of words, however it is packed. -/
theorem decodeWords_packets {ps : List (Packet UInt16)} (hv : ∀ p ∈ ps, p.Valid)
    (room : Nat) : decodeWords room (bytesOf writeWord ps) = fit room (expandAll ps) := by
  rw [decodeWords, unpacksRows_words.expansion, fit_take]
  exact congrArg (fit room) (wordUnits.expansion_bytesOf hv)

/-- Literals of 128 units pack any row, with one header to each of them. -/
theorem exists_packets (row : List UInt8) :
    ∃ packets : List (Packet UInt8), (∀ packet ∈ packets, packet.Valid) ∧
      expandAll packets = row ∧
      (bytesOf (fun b => [b]) packets).length ≤ row.length + (row.length + 127) / 128 := by
  induction hn : row.length using Nat.strongRecOn generalizing row with
  | ind n ih =>
    subst hn
    cases hrow : row with
    | nil => exact ⟨[], nofun, rfl, Nat.le_refl 0⟩
    | cons b rest =>
      rw [← hrow]
      have hpos : 0 < row.length := by simp [hrow]
      obtain ⟨packets, hv, hex, hlen⟩ := ih (row.drop 128).length
        (by rw [List.length_drop]; omega) (row.drop 128) rfl
      have htake : 1 ≤ (row.take 128).length ∧ (row.take 128).length ≤ 128 := by
        rw [List.length_take]
        omega
      refine ⟨.literal (row.take 128) :: packets, ?_, ?_, ?_⟩
      · intro packet hp
        rcases List.mem_cons.mp hp with rfl | hp
        · exact htake
        · exact hv packet hp
      · show row.take 128 ++ expandAll packets = row
        rw [hex, List.take_append_drop]
      · rw [List.length_drop] at hlen
        rw [bytesOf_cons, List.length_append, Packet.length_bytes_literal, List.length_take]
        omega

end Pict.PackBits
