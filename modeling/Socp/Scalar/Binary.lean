import Socp.Scalar

/-!
The two binary floating-point formats, and the conversions into them, each of which rounds once.
-/

namespace Socp

instance : Scalar Float where
  decidableLE := inferInstance
  decidableLT := inferInstance
  abs := Float.abs
  sqrt := Float.sqrt
  isNaN := Float.isNaN
  isFinite := Float.isFinite
  half := 0.5
  defaultTolerance := 1e-8

instance : Scalar Float32 where
  decidableLE := inferInstance
  decidableLT := inferInstance
  abs := Float32.abs
  sqrt := Float32.sqrt
  isNaN := Float32.isNaN
  isFinite := Float32.isFinite
  half := 0.5
  defaultTolerance := (1e-8 : Float).toFloat32

/-- A binary format together with the nearest value to a machine integer or to a value of
either format. -/
class BinaryFormat (α : Type) extends Scalar α where
  ofUInt64 : UInt64 → α
  ofSingle : Float32 → α
  ofDouble : Float → α
  /-- The same number in double precision; no value is lost. -/
  toDouble : α → Float

instance : BinaryFormat Float where
  ofUInt64 := UInt64.toFloat
  ofSingle := Float32.toFloat
  ofDouble := id
  toDouble := id

instance : BinaryFormat Float32 where
  ofUInt64 := UInt64.toFloat32
  ofSingle := id
  ofDouble := Float.toFloat32
  toDouble := Float32.toFloat

end Socp
