/-!
# The inverse cosine transform

The transform is exact integer arithmetic with constants scaled by `2 ^ 12`:
eight columns, then eight rows of the result. Each pass adds a bias and
shifts right, which rounds toward minus infinity; the second one also moves
the samples to the range around 128 and cuts them to a byte.
-/
namespace Pict.Jpeg

/-- Cuts a value to a byte. -/
def clampByte (v : Int) : UInt8 := UInt8.ofNat (max 0 (min 255 v)).toNat

/-- The transform of one line of eight values. -/
def transformLine (bias : Int) (shift : Nat) : List Int → List Int
  | [s0, s1, s2, s3, s4, s5, s6, s7] =>
    let e1 := (s2 + s6) * 2217
    let e2 := e1 - 7567 * s6
    let e3 := e1 + 3135 * s2
    let sum := (s0 + s4) * 4096
    let diff := (s0 - s4) * 4096
    let x0 := sum + e3 + bias
    let x3 := sum - e3 + bias
    let x1 := diff + e2 + bias
    let x2 := diff - e2 + bias
    let p5 := (s7 + s3 + (s5 + s1)) * 4816
    let p1 := p5 - 3685 * (s7 + s1)
    let p2 := p5 - 10497 * (s5 + s3)
    let p3 := -8034 * (s7 + s3)
    let p4 := -1597 * (s5 + s1)
    let t0 := s7 * 1223 + p1 + p3
    let t1 := s5 * 8410 + p2 + p4
    let t2 := s3 * 12586 + p2 + p3
    let t3 := s1 * 6149 + p1 + p4
    [x0 + t3, x1 + t2, x2 + t1, x3 + t0, x3 - t0, x2 - t1, x1 - t2, x0 - t3].map
      fun x : Int => x >>> shift
  | _ => []

/-- Rows as columns, for rows of eight values. -/
def transpose {α : Type} (rows : List (List α)) : List (List α) :=
  rows.foldr (List.zipWith (· :: ·)) (List.replicate 8 [])

/-- The samples of a block of coefficients, both row by row. -/
def transform (rows : List (List Int)) : List (List UInt8) :=
  let columns := (transpose rows).map (transformLine 512 10)
  (transpose columns).map fun row =>
    (transformLine (512 + 65536 + 128 * 131072) 17 row).map clampByte

/-- The place in zigzag order of each coefficient, row by row. -/
def zigzag : List (List Nat) :=
  [[0, 1, 5, 6, 14, 15, 27, 28],
   [2, 4, 7, 13, 16, 26, 29, 42],
   [3, 8, 12, 17, 25, 30, 41, 43],
   [9, 11, 18, 24, 31, 40, 44, 53],
   [10, 19, 23, 32, 39, 45, 52, 54],
   [20, 22, 33, 38, 46, 51, 55, 60],
   [21, 34, 37, 47, 50, 56, 59, 61],
   [35, 36, 48, 49, 57, 58, 62, 63]]

/-- The samples of a block whose coefficients are in zigzag order and are
multiples of the entries of a quantisation table. -/
def blockSamples (quantisation : List Nat) (coefficients : List Int) : List (List UInt8) :=
  let values := (List.zipWith (fun (c : Int) (q : Nat) => c * q) coefficients quantisation).toArray
  transform (zigzag.map fun row => row.map fun k => values.getD k 0)

end Pict.Jpeg
