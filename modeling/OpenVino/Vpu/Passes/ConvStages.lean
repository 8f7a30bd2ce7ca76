import OpenVino.Base.Convolution

/-!
# Convolution and deconvolution stages

A `StubStage` of the VPU model with what its attributes mean: `StubStage.conv` and `StubStage.deconv` are its output
over a commutative ring, for weights in the flat layouts of the two stages. In the weights of a deconvolution the
input channels of one group come first, so that the group is inside. What a stage does with the sum, its scale factor
and its bias is a parameter.
-/

namespace OpenVino.Vpu

/-- The dims of a `DataDesc` with four dims. -/
structure Dims where
  W : Nat
  H : Nat
  C : Nat
  N : Nat

/-- Elements by image, channel, row and column. -/
abbrev Tensor (R : Type) := Nat → Nat → Nat → Nat → R

/-- The attributes of a `StubConv` or `StubDeconv`. -/
structure StubStage where
  kernelSizeX : Nat
  kernelSizeY : Nat
  kernelStrideX : Nat
  kernelStrideY : Nat
  padLeft : Int
  padRight : Int
  padTop : Int
  padBottom : Int
  dilationX : Nat
  dilationY : Nat
  groupSize : Nat
  scaleFactor : ℚ := 1

namespace StubStage

variable {R : Type} [CommRing R] (s : StubStage) (input output : Dims) (finish : ℚ → R → Option R → R)

/-- A dilation of zero is none. -/
def axisX : ConvAxis := ⟨input.W, s.kernelSizeX, s.kernelStrideX, s.padLeft, max 1 s.dilationX⟩

def axisY : ConvAxis := ⟨input.H, s.kernelSizeY, s.kernelStrideY, s.padTop, max 1 s.dilationY⟩

/-- The input channels that output channel `oc` reads start here. -/
def firstChannel (oc : Nat) : Nat := oc / (output.C / s.groupSize) * (input.C / s.groupSize)

def convWeight (weights : List R) (oc ic ky kx : Nat) : R :=
  weights.getD (kx + ky * s.kernelSizeX + ic * s.kernelSizeX * s.kernelSizeY +
    oc * s.kernelSizeX * s.kernelSizeY * (input.C / s.groupSize)) 0

def deconvWeight (weights : List R) (oc ic ky kx : Nat) : R :=
  weights.getD (kx + ky * s.kernelSizeX + oc * s.kernelSizeX * s.kernelSizeY +
    ic * s.kernelSizeX * s.kernelSizeY * output.C) 0

/-- The output of the convolution; `biases` is `none` for a `Fake` data. -/
def conv (weights : List R) (biases : Option (List R)) (t : Tensor R) : Tensor R := fun n oc y x =>
  finish s.scaleFactor
    (OpenVino.conv (s.axisY input) (s.axisX input) (input.C / s.groupSize)
      (fun c => t n (s.firstChannel input output oc + c)) (s.convWeight input weights oc) y x)
    (biases.map fun b => b.getD oc 0)

def deconv (weights : List R) (biases : Option (List R)) (t : Tensor R) : Tensor R := fun n oc y x =>
  finish s.scaleFactor
    (OpenVino.deconv (s.axisY input) (s.axisX input) (input.C / s.groupSize)
      (fun c => t n (s.firstChannel input output oc + c)) (s.deconvWeight output weights oc) y x)
    (biases.map fun b => b.getD oc 0)

/-- The width of what a convolution computes. -/
def convWidth (width : Nat) : Int :=
  (width + s.padLeft + s.padRight - ((max 1 s.dilationX : Nat) * (s.kernelSizeX - 1) + 1)) / s.kernelStrideX + 1

def convHeight (height : Nat) : Int :=
  (height + s.padTop + s.padBottom - ((max 1 s.dilationY : Nat) * (s.kernelSizeY - 1) + 1)) / s.kernelStrideY + 1

end StubStage

end OpenVino.Vpu
