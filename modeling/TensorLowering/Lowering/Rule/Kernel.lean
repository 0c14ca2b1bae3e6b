import TensorLowering.Lowering.Rule.Basic

/-! # Kernels of overlays

A node whose kind an overlay covers becomes a kernel primitive. Attributes of the node are handed to
the kernel as defines in its build options. -/

namespace TensorLowering

open Numeric

/-- How 64-bit numbers are written in build options. -/
def optionStyle : DecimalStyle := ⟨-4, 16, .awayFromZero⟩

/-- A 64-bit number in build options. -/
def Numeric.Binary64.optionText (x : Binary64) : String :=
  match x.decode with
  | .finite negative m q => (optionStyle.numeral .binary64 negative m q).text
  | .infinite negative => if negative then "-inf" else "inf"
  | .nan => "NaN"

/-- An attribute in build options. -/
def Attribute.optionText : Attribute → String
  | bool value => if value then "1" else "0"
  | int value => toString value.toInt
  | float value => value.optionText
  | ints values => String.intercalate "," (values.map fun value => toString value.toInt)
  | str value => value

namespace Rule

/-- The value of a define: that of its attribute, or else its own. -/
def defineValue? (n : Node) (d : KernelDefine) : Option String :=
  ((d.parameter.bind n.attributes.get?).map Attribute.optionText) <|> d.fallback

/-- The build options of a kernel: its own, followed by its defines. -/
def buildOptions (n : Node) (k : KernelDescriptor) : Outcome LoweringError String := do
  let defines ← k.defines.mapM fun d =>
    match defineValue? n d with
    | some value => pure ("-D " ++ d.name ++ "=" ++ value)
    | none => n.failParameter (.defineWithoutValue d.name)
  let options := Text.trimBlanks k.compilerOptions
  pure (String.intercalate " " (if options = "" then defines else options :: defines))

/-- The work sizes that expressions stand for. -/
def workSizes (d : Overlay.WorkExtents) (expressions : List String) : Outcome LoweringError (List Nat) :=
  expressions.mapM fun expression =>
    match Overlay.evaluateWorkSize d expression with
    | .ok size => pure size
    | .error fault => .fail (.overlay (.workSize expression fault))

/-- What the kernel reads: the inputs it binds, or all of them. -/
def boundInputs (n : Node) (k : KernelDescriptor) (inputs : List Source) :
    Outcome LoweringError (List Source) :=
  if k.inputs = [] then pure inputs
  else
    k.inputs.mapM fun b =>
      match inputs[b.index]? with
      | some source => pure source
      | none => n.failParameter (.unboundInput b.index n.inputs.length)

/-- The output that the kernel writes: the first one it binds, or the first of the node. -/
def boundOutput (n : Node) (k : KernelDescriptor) : Outcome LoweringError TensorType :=
  let index := (k.outputs.head?.map KernelBinding.index).getD 0
  match n.outputs[index]? with
  | some type => pure type
  | none => n.failParameter (.unboundOutput index n.outputs.length)

/-- A node that an overlay covers. -/
def kernel (k : KernelDescriptor) : Rule := .ofEmission fun ctx ids n => do
  let inputs ← boundInputs n k (← ctx.inputs ids n)
  let output ← boundOutput n k
  let extents := Overlay.WorkExtents.ofSizes (← n.staticSizes output.shape "custom kernel output")
  let spec : KernelSpec := {
    entryPoint := k.entryPoint
    source := k.source
    buildOptions := ← buildOptions n k
    globalWorkSize := ← workSizes extents k.globalWorkSize
    localWorkSize := ← workSizes extents k.localWorkSize
    output := output }
  pure [.ok (.new (← n.identity) (.customKernel spec) inputs)]

end Rule

end TensorLowering
