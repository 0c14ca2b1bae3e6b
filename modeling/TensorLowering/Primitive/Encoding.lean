import TensorLowering.Bytes
import TensorLowering.Primitive.Basic

/-! # Bytes of primitives

Numbers are words of eight bytes with the least significant byte first, flags single bytes. A list is
its length followed by its items, a text the list of its UTF-8 bytes, an optional value a flag
followed by the value if there is one, a variant its number in four bytes followed by its fields, and
a record its fields. There are no separators: what follows is known from what was read before. -/

namespace TensorLowering.Encoding

open Numeric Bytes

/-- A number. -/
def nat (n : Nat) : List UInt8 := littleEndian 8 n

/-- The number of a variant. -/
def variant (code : Nat) : List UInt8 := littleEndian 4 code

/-- A flag. -/
def bool (b : Bool) : List UInt8 := [if b then 1 else 0]

/-- A list. -/
def list {α : Type} (item : α → List UInt8) (items : List α) : List UInt8 :=
  nat items.length ++ items.flatMap item

/-- A text. -/
def string (s : String) : List UInt8 := list (fun b => [b]) s.toUTF8.toList

/-- An optional value. -/
def option {α : Type} (item : α → List UInt8) : Option α → List UInt8
  | none => bool false
  | some a => bool true ++ item a

/-- An element type. -/
def element (t : ElementType) : List UInt8 := variant t.code

/-- An extent. -/
def extent : Extent → List UInt8
  | .fixed size => variant 0 ++ nat size
  | .symbolic symbol => variant 1 ++ string symbol

/-- A tensor type. -/
def tensorType (t : TensorType) : List UInt8 := element t.element ++ list extent t.shape.extents

/-- A literal. -/
def literal (l : Literal) : List UInt8 := tensorType l.type ++ list (fun b => [b]) l.bytes

/-- An elementwise operation. -/
def eltwiseMode : EltwiseMode → List UInt8
  | .sum => variant 0
  | .sub => variant 1
  | .prod => variant 2
  | .div => variant 3
  | .squaredDiff => variant 4
  | .pow => variant 5
  | .floorMod => variant 6
  | .mod => variant 7
  | .max => variant 8
  | .min => variant 9

/-- An activation function. -/
def activationFunction : ActivationFunction → List UInt8
  | .erf => variant 0

/-- A reduction. -/
def reduceMode : ReduceMode → List UInt8
  | .sum => variant 0
  | .mean => variant 1
  | .max => variant 2
  | .min => variant 3
  | .prod => variant 4
  | .l1 => variant 5
  | .l2 => variant 6

/-- The settings of a matrix product. -/
def gemmSpec (s : GemmSpec) : List UInt8 :=
  element s.element ++ bool s.transposeA ++ bool s.transposeB ++ ofBinary32 s.alpha ++
    ofBinary32 s.beta ++ nat s.inputRank ++ nat s.weightRank

/-- A kernel. -/
def kernelSpec (k : KernelSpec) : List UInt8 :=
  string k.entryPoint ++ string k.source ++ string k.buildOptions ++ list nat k.globalWorkSize ++
    list nat k.localWorkSize ++ tensorType k.output

/-- A payload. -/
def payload : Payload → List UInt8
  | .inputLayout type => variant 0 ++ tensorType type
  | .data l => variant 1 ++ literal l
  | .reorder t => variant 2 ++ element t
  | .eltwise mode t => variant 3 ++ eltwiseMode mode ++ element t
  | .activation function => variant 4 ++ activationFunction function
  | .gemm spec => variant 5 ++ gemmSpec spec
  | .permute order => variant 6 ++ list nat order
  | .reshape sizes => variant 7 ++ option (list nat) sizes
  | .reduce mode axes keepDims => variant 8 ++ reduceMode mode ++ list nat axes ++ bool keepDims
  | .crop axis offset length => variant 9 ++ nat axis ++ nat offset ++ nat length
  | .concatenation axis => variant 10 ++ nat axis
  | .fullyConnected compressed hasZeroPoint t =>
    variant 11 ++ bool compressed ++ bool hasZeroPoint ++ element t
  | .customKernel spec => variant 12 ++ kernelSpec spec

/-- An output of a primitive. -/
def source (s : Source) : List UInt8 := string s.id ++ nat s.output

/-- A primitive. -/
def primitive (p : Primitive) : List UInt8 :=
  string p.id ++ payload p.payload ++ list source p.inputs ++ string p.originName ++ string p.originType

end TensorLowering.Encoding
