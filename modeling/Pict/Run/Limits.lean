/-!
# Limits

Bounds that a caller sets on the canvas and on memory. A missing bound allows
everything. `check` and `checkMemory` name the first bound that is exceeded.
-/
namespace Pict

/-- Bounds on what a run may produce. Mirrors `Limits`, limits 5-12. -/
structure Limits where
  width : Option Nat
  height : Option Nat
  pixels : Option Nat
  memory : Option Nat
  deriving DecidableEq, Repr

/-- A bound that was exceeded, with the value that did. -/
inductive Breach where
  | width (value limit : Nat)
  | height (value limit : Nat)
  | pixels (value limit : Nat)
  | memory (value limit : Nat)
  deriving DecidableEq, Repr

def Breach.message : Breach → String
  | width value limit => s!"width {value} exceeds limit {limit}"
  | height value limit => s!"height {value} exceeds limit {limit}"
  | pixels value limit => s!"pixel count {value} exceeds limit {limit}"
  | memory value limit => s!"allocation {value} bytes exceeds memory limit {limit}"

namespace Limits

def unlimited : Limits := ⟨none, none, none, none⟩

/-- Whether `bound` allows `value`. -/
def allows (bound : Option Nat) (value : Nat) : Prop := ∀ limit ∈ bound, value ≤ limit

theorem allows_none (value : Nat) : allows none value := nofun

/-- Refuses a value above its bound. -/
def bounded (bound : Option Nat) (value : Nat) (breach : Nat → Nat → Breach) :
    Except Breach Unit :=
  match bound with
  | some limit => if limit < value then .error (breach value limit) else .ok ()
  | none => .ok ()

/-- Checks a canvas: its width, its height, its pixels. Mirrors `check`, limits 16-40. -/
def check (l : Limits) (width height : Nat) : Except Breach Unit := do
  bounded l.width width .width
  bounded l.height height .height
  bounded l.pixels (width * height) .pixels

/-- Checks an allocation. Mirrors `check_memory`, limits 43-52. -/
def checkMemory (l : Limits) (bytes : Nat) : Except Breach Unit :=
  bounded l.memory bytes .memory

theorem bounded_eq_ok_iff (bound : Option Nat) (value : Nat) (breach : Nat → Nat → Breach) :
    bounded bound value breach = .ok () ↔ allows bound value := by
  cases bound with
  | none => simp [bounded, allows]
  | some limit =>
    by_cases h : limit < value
    · simp [bounded, allows, h]
    · simpa [bounded, allows, h] using Nat.le_of_not_lt h

theorem checkMemory_eq_ok_iff (l : Limits) (bytes : Nat) :
    l.checkMemory bytes = .ok () ↔ allows l.memory bytes :=
  bounded_eq_ok_iff _ _ _

theorem check_eq_ok_iff (l : Limits) (width height : Nat) :
    l.check width height = .ok () ↔
      allows l.width width ∧ allows l.height height ∧ allows l.pixels (width * height) := by
  rw [← bounded_eq_ok_iff l.width width .width, ← bounded_eq_ok_iff l.height height .height,
    ← bounded_eq_ok_iff l.pixels (width * height) .pixels]
  unfold check
  cases bounded l.width width .width <;> cases bounded l.height height .height <;>
    simp [bind, Except.bind]

end Limits
end Pict
