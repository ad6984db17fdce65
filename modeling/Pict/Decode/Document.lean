import Pict.Decode.Dispatch

/-!
# Decoding a picture

`probe` reads the header alone; `decode` walks through the whole picture. A
`Document` is what was decoded together with its data and the limits, which
stay in force for every plane that is read from it.
-/
namespace Pict

/-- A decoded picture. -/
structure Document where
  source : Source
  limits : Limits
  picture : Picture
  deriving DecidableEq, Repr

/-- What a picture tells about itself, without walking through it. Mirrors `probe_header`, pict
37-45. -/
def probe (source : Source) : Except Error Info := do
  let (info, _) ← Header.parse source
  pure info

namespace Decode

/-- The walk through a picture whose header has been read. -/
def walk (limits : Limits) (stop : Stop) (info : Info) (cursor : Cursor) :
    EStateM.Result Error (Session Walk) Unit :=
  (opcodes limits info).run stop (start info cursor)

end Decode

/-- Decodes a picture. Mirrors `decode`, pict 49-103. -/
def decode (source : Source) (limits : Limits) (stop : Stop) : Report Document :=
  match Header.parse source with
  | .error e => Report.refused e
  | .ok (info, cursor) =>
    let r := Decode.walk limits stop info cursor
    (reportOf r).map fun _ => ⟨source, limits, (sessionOf r).work.picture⟩

end Pict
