import Pict.PackBits.Encoder
import Pict.Plane.View
import Pict.Proofs.Decode.Bitmaps
import Pict.Proofs.Decode.Footprint
import Pict.Proofs.Decode.LastByte
import Pict.Proofs.Decode.Limited
import Pict.Proofs.Decode.Markers
import Pict.Proofs.Decode.Memory
import Pict.Proofs.Decode.Metadata
import Pict.Proofs.Decode.Probed
import Pict.Proofs.Decode.Recorded
import Pict.Proofs.Decode.Truncation
import Pict.Proofs.Decode.Unsupported
import Pict.Proofs.Decode.Unterminated
import Pict.Proofs.Machine.Packing
import Pict.Proofs.Machine.Safety
import Pict.Proofs.Machine.SmallPixels
import Pict.Proofs.PackBits.Encoding
import Pict.Proofs.PackBits.Expansion
import Pict.Proofs.Plane.Assembled
import Pict.Proofs.Plane.Bounds
import Pict.Proofs.Plane.Buffered
import Pict.Proofs.Plane.Laid
import Pict.Proofs.Plane.Midway
import Pict.Proofs.Plane.Missing
import Pict.Proofs.Plane.Stacked
import Pict.Proofs.Plane.Stopped
import Pict.Proofs.Raster.CutShort
import Pict.Proofs.Raster.LastRow
import Pict.Proofs.Raster.Palettes
import Pict.Proofs.Raster.RunOut
import Pict.Proofs.Raster.Shapes
import Pict.Proofs.Raster.Shortened
import Pict.Proofs.RoundTrip.Bands
import Pict.Proofs.RoundTrip.Direct
import Pict.Proofs.RoundTrip.Encoded
