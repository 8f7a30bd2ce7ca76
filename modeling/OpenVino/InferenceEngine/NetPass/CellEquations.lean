import OpenVino.InferenceEngine.NetPass.Layers

/-!
# The equations of the cells

What an LSTM, GRU or RNN cell computes for one element of the batch, from the row `x` of the data and the rows of
the states. The gates lie one behind the other in the weights and the biases, `S` rows each, where `S` is the size
of the hidden state. Data is clipped on input of the activations. `unrolledStep` is what the unrolled cell does instead,
which differs for a clipped LSTM.
-/

namespace OpenVino.InferenceEngine.NetPass

/-- The number of state tensors. -/
def CellType.NS : CellType → Nat
  | .LSTM => 2
  | _ => 1

/-- The number of gates. -/
def CellType.G : CellType → Nat
  | .LSTM => 4
  | .RNN => 1
  | _ => 3

/-- The number of biases of one element of the state. -/
def CellType.biases : CellType → Nat
  | .GRU_LBR => 4
  | t => t.G

def CellType.activations : CellType → Nat
  | .LSTM => 3
  | .RNN => 1
  | _ => 2

variable {α : Type} [CommRing α] [LinearOrder α]

namespace RNNCellBase

/-- What the validators check of a cell over data of `D` elements and states of `S` elements. -/
structure Valid (cell : RNNCellBase α) (D S : Nat) : Prop where
  clip : 0 ≤ cell.clip
  activations : cell.activations.length = cell.cellType.activations
  weights : cell.weights.length = cell.cellType.G * S * (D + S)
  biases : cell.biases.length = cell.cellType.biases * S

variable (K : Kernels α) (cell : RNNCellBase α)

def clipped (z : α) : α := if cell.clip = 0 then z else max (-cell.clip) (min z cell.clip)

def act (i : Nat) (z : α) : α := K.activation (cell.activations.getD i "") z

/-- Activation `i` of the clipped elements. -/
def activated (i : Nat) (zs : List α) : List α := zs.map fun z => cell.act K i (cell.clipped z)

/-- The weights of element `s` of gate `g`, for an input of `k` elements. -/
def gateRow (k S g s : Nat) : List α := rowAt k cell.weights (g * S + s)

def gateBias (S g s : Nat) : α := cell.biases.getD (g * S + s) 0

/-- `W * xs + B` for the gate `g`. -/
def gate (S g : Nat) (xs : List α) : List α :=
  (List.range S).map fun s => K.neuron (cell.gateRow xs.length S g s) (cell.gateBias S g s) xs

/-- Ct = ft (.) Ct-1 + it (.) ct -/
def lstmCellState (x h c : List α) : List α :=
  let ft := cell.activated K 0 (cell.gate K h.length 0 (x ++ h))
  let it := cell.activated K 0 (cell.gate K h.length 1 (x ++ h))
  let ct := cell.activated K 1 (cell.gate K h.length 2 (x ++ h))
  List.zipWith (· + ·) (List.zipWith (· * ·) ft c) (List.zipWith (· * ·) it ct)

/-- Ht = ot (.) _h(Ct) -/
def lstmHiddenState (x h c : List α) : List α :=
  let ot := cell.activated K 0 (cell.gate K h.length 3 (x ++ h))
  List.zipWith (· * ·) ot (cell.activated K 2 (cell.lstmCellState K x h c))

def updateGate (x h : List α) : List α := cell.activated K 0 (cell.gate K h.length 0 (x ++ h))

def resetGate (x h : List α) : List α := cell.activated K 0 (cell.gate K h.length 1 (x ++ h))

/-- Wh * [Xt, rt (.) Ht-1] + Bh -/
def gruCandidate (x h : List α) : List α :=
  cell.gate K h.length 2 (x ++ List.zipWith (· * ·) (cell.resetGate K x h) h)

/-- Whw * Xt + Bhw + rt (.) (Whr * Ht-1 + Bhr) -/
def gruLinearCandidate (x h : List α) : List α :=
  let S := h.length
  let row := cell.gateRow (x.length + S) S 2
  let whw := (List.range S).map fun s => K.neuron ((row s).take x.length) (cell.gateBias S 2 s) x
  let whr := (List.range S).map fun s => K.neuron ((row s).drop x.length) (cell.gateBias S 3 s) h
  List.zipWith (· + ·) whw (List.zipWith (· * ·) (cell.resetGate K x h) whr)

/-- Ht = (1 - zt) (.) ht + zt (.) Ht-1 -/
def gruHiddenState (candidate x h : List α) : List α :=
  let zt := cell.updateGate K x h
  let ht := cell.activated K 1 candidate
  List.zipWith (· + ·) (List.zipWith (· * ·) (zt.map (1 - ·)) ht) (List.zipWith (· * ·) zt h)

/-- One step: the new states, the hidden state first. -/
def step (x : List α) (states : List (List α)) : List (List α) :=
  let h := states.getD 0 []
  match cell.cellType with
  | .LSTM => [cell.lstmHiddenState K x h (states.getD 1 []), cell.lstmCellState K x h (states.getD 1 [])]
  | .GRU => [cell.gruHiddenState K (cell.gruCandidate K x h) x h]
  | .GRU_LBR => [cell.gruHiddenState K (cell.gruLinearCandidate K x h) x h]
  | .RNN => [cell.activated K 0 (cell.gate K h.length 0 (x ++ h))]

/-- The hidden state of an LSTM cell without a clip in front of its last activation. -/
def lstmHiddenUnclipped (x h c : List α) : List α :=
  let ot := cell.activated K 0 (cell.gate K h.length 3 (x ++ h))
  List.zipWith (· * ·) ot ((cell.lstmCellState K x h c).map (cell.act K 2))

/-- One step as the unrolled cell does it. -/
def unrolledStep (x : List α) (states : List (List α)) : List (List α) :=
  let h := states.getD 0 []
  let c := states.getD 1 []
  match cell.cellType with
  | .LSTM => [cell.lstmHiddenUnclipped K x h c, cell.lstmCellState K x h c]
  | _ => cell.step K x states

theorem unrolledStep_eq (hclip : cell.cellType = .LSTM → cell.clip = 0) (x : List α) (states : List (List α)) :
    cell.unrolledStep K x states = cell.step K x states := by
  unfold unrolledStep
  cases htype : cell.cellType with
  | LSTM =>
    have hid : ∀ zs, cell.activated K 2 zs = zs.map (cell.act K 2) := by
      intro zs
      unfold activated clipped
      simp only [if_pos (hclip htype)]
    simp only [step, htype, lstmHiddenState, lstmHiddenUnclipped, hid]
  | _ => rfl

end RNNCellBase

end OpenVino.InferenceEngine.NetPass
