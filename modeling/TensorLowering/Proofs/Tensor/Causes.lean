import TensorLowering.Proofs.Tensor.Kernels

/-!
# Why operations on tensors fail

Operations on tensors know nothing of the program that they run in: whatever they are applied to,
they never report that steps ran out of order. The lemmas here follow the text of each operation.

## Main statements

* `Tensor.faultsIn_gemm` and its likes: the faults of an operation are ordinary.
-/

namespace TensorLowering

open Outcome Indexing

/-- The cause denies that steps run behind the steps that they read: a producer has no slot yet, a
slot that is read is empty, or an output was not computed. -/
def ExecutionError.deniesOrder : ExecutionError → Bool
  | .scheduledBefore .. | .emptySlot _ | .producedNothing _ => true
  | _ => false

/-- A fault that does not deny the order of the steps. -/
def Fault.Ordinary : Fault EngineError → Prop
  | .error (.execution cause) => cause.deniesOrder = false
  | _ => True

open Fault (Ordinary)

theorem faultsIn_failExecution {α : Type} {cause : ExecutionError} (h : cause.deniesOrder = false) :
    FaultsIn Ordinary (failExecution cause : Outcome EngineError α) :=
  faultsIn_fail h

theorem faultsIn_orExecution {α : Type} {cause : ExecutionError}
    (h : cause.deniesOrder = false) (o : Option α) :
    FaultsIn Ordinary (ofOptionOr (.execution cause) o) :=
  faultsIn_ofOptionOr h o

/-- Nothing runs behind an error. -/
theorem faultsIn_failExecution_bind {α β : Type} {cause : ExecutionError}
    (h : cause.deniesOrder = false) (f : α → Outcome EngineError β) :
    FaultsIn Ordinary (failExecution cause >>= f) :=
  (faultsIn_failExecution h).bind fun _ hok => absurd hok fail_ne_ok

theorem faultsIn_failUnimplemented {α : Type} (cause : Unimplemented) :
    FaultsIn Ordinary (failUnimplemented cause : Outcome EngineError α) :=
  faultsIn_fail trivial

namespace Indexing

theorem faultsIn_coordinates (sizes : List Nat) (index : Nat) :
    FaultsIn Ordinary (coordinates sizes index) :=
  .ite (fun _ => faultsIn_abort trivial) fun _ => faultsIn_ok _

theorem faultsIn_sourceOffset (coords sizes : List Nat) :
    FaultsIn Ordinary (sourceOffset coords sizes) :=
  .ite (fun _ => faultsIn_abort trivial) fun _ => faultsIn_ok _

/-- A step at the coordinates of every element. -/
theorem faultsIn_mapM_coordinates {α : Type} {sizes : List Nat} {count : Nat}
    {f : List Nat → Outcome EngineError α} (h : ∀ coords, FaultsIn Ordinary (f coords)) :
    FaultsIn Ordinary ((List.range count).mapM fun index => do f (← coordinates sizes index)) :=
  .mapM fun _ _ => (faultsIn_coordinates _ _).bind fun coords _ => h coords

end Indexing

namespace Tensor

theorem faultsIn_new (sizes : List Nat) (elements : Elements) :
    FaultsIn Ordinary (new sizes elements) := by
  rw [new]
  split
  · exact faultsIn_ok _
  · exact faultsIn_failExecution rfl

theorem faultsIn_ofFloats (sizes : List Nat) (values : List Numeric.Binary32) :
    FaultsIn Ordinary (ofFloats sizes values) :=
  faultsIn_new _ _

theorem faultsIn_floats (t : Tensor) : FaultsIn Ordinary t.floats := by
  rw [floats]
  split
  · exact faultsIn_ok _
  · exact faultsIn_failExecution rfl

theorem faultsIn_ofLiteral (l : Literal) : FaultsIn Ordinary (ofLiteral l) := by
  rw [ofLiteral]
  split
  · exact faultsIn_failExecution rfl
  · split
    · exact faultsIn_new _ _
    · exact faultsIn_new _ _
    · exact faultsIn_new _ _
    · exact faultsIn_failUnimplemented _

theorem faultsIn_convertElements (target : ElementType) (elements : Elements) :
    FaultsIn Ordinary (convertElements target elements) := by
  cases elements <;> cases target <;>
    first | exact faultsIn_ok _ | exact faultsIn_failUnimplemented _

theorem faultsIn_convert (t : Tensor) (target : ElementType) :
    FaultsIn Ordinary (t.convert target) := by
  rw [convert]
  apply FaultsIn.ite
  · exact fun _ => faultsIn_pure _
  · exact fun _ => (faultsIn_convertElements _ _).bind fun _ _ => faultsIn_new _ _

section Elementwise

theorem faultsIn_broadcast (lhs rhs : List Nat) : FaultsIn Ordinary (broadcast lhs rhs) :=
  faultsIn_orExecution rfl _

theorem faultsIn_elementAt (values : Array Numeric.Binary32) (sizes coords : List Nat) :
    FaultsIn Ordinary (elementAt values sizes coords) :=
  (faultsIn_sourceOffset _ _).bind fun _ _ => faultsIn_ofOption trivial _

theorem faultsIn_eltwise (mode : EltwiseMode) (lhs rhs : Tensor) :
    FaultsIn Ordinary (eltwise mode lhs rhs) := by
  apply (faultsIn_floats lhs).bind
  intro a _
  apply (faultsIn_floats rhs).bind
  intro b _
  apply (faultsIn_broadcast _ _).bind
  intro sizes _
  refine FaultsIn.bind (faultsIn_mapM_coordinates fun coords => ?_) fun _ _ => faultsIn_ofFloats _ _
  apply (faultsIn_elementAt _ _ _).bind
  intro x _
  exact (faultsIn_elementAt _ _ _).bind fun y _ => faultsIn_pure _

theorem faultsIn_erf (t : Tensor) (f : ErrorFunction) : FaultsIn Ordinary (t.erf f) :=
  (faultsIn_floats t).bind fun _ _ => faultsIn_ofFloats _ _

theorem faultsIn_spread (t : Tensor) (target : List Nat) : FaultsIn Ordinary (t.spread target) := by
  apply (faultsIn_broadcast _ _).bind
  intro sizes _
  apply FaultsIn.ite
  · exact fun _ => faultsIn_failExecution_bind rfl _
  · exact fun _ => faultsIn_mapM_coordinates fun _ => faultsIn_elementAt _ _ _

end Elementwise

section Layout

theorem faultsIn_rearrange (t : Tensor) (sizes positions : List Nat) :
    FaultsIn Ordinary (t.rearrange sizes positions) :=
  (faultsIn_ofOption trivial _).bind fun _ _ => faultsIn_new _ _

theorem faultsIn_permute (t : Tensor) (order : List Nat) : FaultsIn Ordinary (t.permute order) := by
  rw [permute]
  split
  · exact faultsIn_failExecution_bind rfl _
  · refine (faultsIn_ofOption trivial _).bind fun sizes _ => ?_
    refine (faultsIn_ofOption trivial _).bind fun steps _ => ?_
    refine (faultsIn_mapM_coordinates fun coords => faultsIn_pure _).bind fun positions _ => ?_
    exact faultsIn_rearrange _ _ _

theorem faultsIn_reshape (t : Tensor) (sizes : List Nat) : FaultsIn Ordinary (t.reshape sizes) :=
  .ite (fun _ => faultsIn_failExecution rfl) fun _ => faultsIn_new _ _

theorem faultsIn_crop (t : Tensor) (axis start length : Nat) :
    FaultsIn Ordinary (t.crop axis start length) := by
  rw [crop]
  split
  · split
    · exact faultsIn_failExecution_bind rfl _
    · apply (faultsIn_mapM_coordinates fun coords => faultsIn_pure _).bind
      exact fun _ _ => faultsIn_rearrange _ _ _
  · exact faultsIn_failExecution rfl

theorem faultsIn_slice {α : Type} (values : Array α) (first last : Nat) :
    FaultsIn Ordinary (slice values first last) :=
  .ite (fun _ => faultsIn_ok _) fun _ => faultsIn_abort trivial

theorem faultsIn_joinChunks {α : Type} (outer : Nat) (parts : List (Array α × Nat)) :
    FaultsIn Ordinary (joinChunks outer parts) := by
  apply FaultsIn.bind
  · exact .mapM fun o _ => .mapM fun part _ => faultsIn_slice _ _ _
  · exact fun _ _ => faultsIn_pure _

theorem faultsIn_partsOf {α : Type} (view : Elements → Option (Array α)) (inputs : List Tensor) :
    FaultsIn Ordinary (partsOf view inputs) :=
  .mapM fun _ _ => faultsIn_orExecution rfl _

theorem faultsIn_joined {α : Type} (view : Elements → Option (Array α)) (make : Array α → Elements)
    (inputs : List Tensor) (outer : Nat) (chunks sizes : List Nat) :
    FaultsIn Ordinary (do
      let parts ← partsOf view inputs
      new sizes (make (← joinChunks outer (parts.zip chunks)))) :=
  (faultsIn_partsOf view inputs).bind fun _ _ =>
    (faultsIn_joinChunks _ _).bind fun _ _ => faultsIn_new _ _

theorem faultsIn_concat (inputs : List Tensor) (axis : Nat) :
    FaultsIn Ordinary (concat inputs axis) := by
  cases hfirst : inputs.head? with
  | none =>
      simp only [concat, hfirst]
      exact faultsIn_failExecution rfl
  | some first =>
      simp only [concat, hfirst]
      split
      · exact faultsIn_failExecution_bind rfl _
      · refine FaultsIn.bind ?_ fun _ _ => ?_
        · exact .forM fun t _ => .ite (fun _ => faultsIn_pure _) fun _ => faultsIn_failExecution rfl
        · refine (faultsIn_ofOption trivial _).bind fun extents _ => ?_
          split
          · exact faultsIn_joined _ .f32 _ _ _ _
          · exact faultsIn_joined _ .i32 _ _ _ _
          · exact faultsIn_joined _ .i64 _ _ _ _

end Layout

theorem faultsIn_reduce (t : Tensor) (mode : ReduceMode) (axes : List Nat) (keepDims : Bool) :
    FaultsIn Ordinary (t.reduce mode axes keepDims) := by
  rw [reduce]
  refine (faultsIn_floats t).bind fun values _ => ?_
  cases axes.find? (t.rank ≤ ·) with
  | some axis => exact faultsIn_failExecution_bind rfl _
  | none =>
      refine (faultsIn_ofOption trivial _).bind fun extents _ => ?_
      refine FaultsIn.bind (.mapM ?_) fun _ _ => faultsIn_ofFloats _ _
      rintro ⟨value, index⟩ _
      refine (faultsIn_coordinates _ _).bind fun coords _ => ?_
      exact .ite (fun _ => faultsIn_pure _) fun _ => faultsIn_abort trivial

section Products

theorem faultsIn_dot (start : Numeric.Binary32) {length : Nat}
    {left right : Nat → Outcome EngineError Numeric.Binary32}
    (hleft : ∀ p, FaultsIn Ordinary (left p)) (hright : ∀ p, FaultsIn Ordinary (right p)) :
    FaultsIn Ordinary (dot start length left right) :=
  .foldlM fun _ p _ => (hleft p).bind fun _ _ => (hright p).bind fun _ _ => faultsIn_pure _

theorem faultsIn_gemm (lhs rhs : Tensor) (spec : GemmSpec) :
    FaultsIn Ordinary (lhs.gemm rhs spec) := by
  rcases hleft : MatrixSizes.ofSizes (fun k => (1, k)) lhs.sizes with _ | left
  · simp only [gemm, hleft]
    exact faultsIn_failUnimplemented _
  rcases hright : MatrixSizes.ofSizes (fun k => (k, 1)) rhs.sizes with _ | right
  · simp only [gemm, hleft, hright]
    exact faultsIn_failUnimplemented _
  simp only [gemm, hleft, hright]
  refine (faultsIn_floats lhs).bind fun a _ => ?_
  refine (faultsIn_floats rhs).bind fun b _ => ?_
  refine .ite (fun _ => faultsIn_failExecution_bind rfl _) fun _ => ?_
  refine (faultsIn_broadcast _ _).bind fun batch _ => ?_
  refine FaultsIn.bind ?_ fun _ _ => faultsIn_ofFloats _ _
  refine faultsIn_mapM_coordinates fun coords => ?_
  refine (faultsIn_sourceOffset _ _).bind fun startA _ => ?_
  refine (faultsIn_sourceOffset _ _).bind fun startB _ => ?_
  refine .mapM fun i _ => .mapM fun j _ => ?_
  refine FaultsIn.bind ?_ fun _ _ => faultsIn_pure _
  exact faultsIn_dot _ (fun _ => faultsIn_ofOption trivial _) fun _ => faultsIn_ofOption trivial _

theorem faultsIn_corrected (f : Numeric.Binary32 → Numeric.Binary32 → Numeric.Binary32)
    (values : List Numeric.Binary32) (sizes : List Nat) (correction : Option Tensor) :
    FaultsIn Ordinary (corrected f values sizes correction) := by
  cases correction with
  | none => exact faultsIn_pure _
  | some t => exact (faultsIn_spread t sizes).bind fun _ _ => faultsIn_pure _

theorem faultsIn_decompress (weights : Tensor) (scale zeroPoint : Option Tensor) :
    FaultsIn Ordinary (decompress weights scale zeroPoint) := by
  rw [decompress_eq]
  refine (faultsIn_corrected _ _ _ _).bind fun _ _ => ?_
  exact (faultsIn_corrected _ _ _ _).bind fun _ _ => faultsIn_pure _

theorem faultsIn_fullyConnected (input weights : Tensor) (scale zeroPoint : Option Tensor) :
    FaultsIn Ordinary (fullyConnected input weights scale zeroPoint) := by
  rw [fullyConnected]
  refine (faultsIn_floats input).bind fun x _ => ?_
  split
  · split
    · refine .ite (fun _ => faultsIn_failExecution_bind rfl _) fun _ => ?_
      refine (faultsIn_decompress _ _ _).bind fun w _ => ?_
      refine FaultsIn.bind (.mapM fun r _ => .mapM fun j _ => ?_) fun _ _ => faultsIn_ofFloats _ _
      apply faultsIn_dot
      · exact fun _ => faultsIn_ofOption trivial _
      · exact fun _ => faultsIn_ofOption trivial _
    · exact faultsIn_failExecution rfl
  · exact faultsIn_failExecution rfl

end Products

end Tensor

end TensorLowering
