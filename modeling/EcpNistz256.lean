import EcpNistz256.Limbs
import EcpNistz256.Prime
import EcpNistz256.Field
import EcpNistz256.Affine
import EcpNistz256.Generator
import EcpNistz256.Exec
import EcpNistz256.Booth
import EcpNistz256.Scalar
import EcpNistz256.Point
import EcpNistz256.Sizes
import EcpNistz256.WindowedMul
import EcpNistz256.GeneratorPath
import EcpNistz256.PointsMul
import EcpNistz256.Noninterference
import EcpNistz256.PointsMulSum
import EcpNistz256.Outcomes
import EcpNistz256.Bounds
