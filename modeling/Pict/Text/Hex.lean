/-!
# Hexadecimal words

Codes and markers are written `0x` and four lower-case digits.
-/
namespace Pict.Hex

def digit (n : Nat) : Char :=
  if n < 10 then Char.ofNat (48 + n) else Char.ofNat (87 + n)

/-- `0x` and the four digits of a word, the highest first. -/
def ofWord (w : UInt16) : String :=
  let n := w.toNat
  String.ofList
    ['0', 'x', digit (n / 4096), digit (n / 256 % 16), digit (n / 16 % 16), digit (n % 16)]

end Pict.Hex
