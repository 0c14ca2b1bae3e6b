/-! # Build configurations

The settings that the lowering, the primitive builders and the engine share. -/

namespace TensorLowering

/-- The bounds by which matrix products decide whether to move transposes in front of themselves. -/
structure MatMulTuning where
  /-- Operands whose last two extents are all multiples of this stay as they are. -/
  alignment : Nat := 16
  /-- From this extent on an axis is large. -/
  largeExtent : Nat := 64
  /-- Above this number of elements an operand is large. -/
  largeCount : Nat := 100000
  deriving DecidableEq, Repr, Inhabited

/-- The settings of a build. -/
structure BuildConfig where
  profiling : Bool := false
  /-- The shape inference regime asked for from outside; only inner programs look at it. -/
  newShapeInference : Bool := false
  partialBuild : Bool := false
  optimizeData : Bool := false
  /-- The overlay document that is loaded first. -/
  globalOverlay : Option String := none
  /-- The overlay document that is loaded after the global one. -/
  overlay : Option String := none
  /-- Whether the second overlay document may replace kernels of the first. -/
  overlayReplaces : Bool := false
  matmul : MatMulTuning := {}
  deriving DecidableEq, Repr, Inhabited

namespace BuildConfig

/-- Switches profiling on or off. -/
def withProfiling (c : BuildConfig) (enabled : Bool) : BuildConfig := { c with profiling := enabled }

/-- Names the overlay document of this build. -/
def withOverlay (c : BuildConfig) (path : String) (replaces : Bool) : BuildConfig :=
  { c with overlay := some path, overlayReplaces := replaces }

end BuildConfig

end TensorLowering
