import OpenVino.InferenceEngine.NetPass.CellEquations
import OpenVino.InferenceEngine.NetPass.RegionCopy

/-!
# Unrolling the cells

`unrollCell` puts a small network in the place of a cell: the layers compute the cell's gates from one matrix product
over the data and the hidden state, and its outputs from them. New Data are known by the Data of the hidden state
that the cell gives and their own name (`Unrolled`), which keeps them apart from each other and from those of the
network.
-/

namespace OpenVino.InferenceEngine.NetPass

/-- The new Data of an unrolled cell, by the names that follow that of the cell. -/
inductive Part
  | concat
  | fc
  | split_clip
  | split (part : Nat)
  | act_clip
  | act_f
  | act_i
  | act_c
  | act_o
  | act_x
  | mul_ic
  | mul_f
  | fc_ur
  | act_ur_clip
  | act_ur
  | fc_whr
  | fc_whw
  | mul_r
  | sum_h
  | concat_h
  | fc_o
  | act_o_clip
  | pwr
  | mul
  | mul_u

/-- The Data of a network, and the new ones of the cell that gives the hidden state `state`. -/
inductive Unrolled (ι : Type)
  | data (p : ι)
  | part (state : ι) (name : Part)

variable {ι κ α : Type} [CommRing α] [LinearOrder α]

/-- The Data that the consumer of `src` reads, and the layer in between. -/
def link_with_clip (clip_val : α) (src clip : DataPtr κ) : DataPtr κ × List (CNNLayer κ α) :=
  if clip_val = 0 then (src, []) else (clip, [⟨.clamp (-clip_val) clip_val, [src], [clip]⟩])

/-! ### The layers -/

section Layers

variable (cell : RNNCellBase α) (N D S : Nat)

def rnnCellLayers (f : String) (in_data in_h_state out_h_state : DataPtr ι) : List (CNNLayer (Unrolled ι) α) :=
  let new (name : Part) (dims : SizeVector) : DataPtr (Unrolled ι) := ⟨.part out_h_state.ptr name, dims⟩
  let concat := new .concat [N, D + S]
  let fc := new .fc [N, S]
  let clip := link_with_clip cell.clip fc (new .act_clip [N, S])
  [⟨.concat 1, [in_data.map .data, in_h_state.map .data], [concat]⟩,
    ⟨.fullyConnected cell.weights cell.biases, [concat], [fc]⟩] ++ clip.2 ++
  [⟨.activation f, [clip.1], [out_h_state.map .data]⟩]

def lstmCellLayers (f g h : String) (in_data in_h_state in_c_state out_h_state out_c_state : DataPtr ι) :
    List (CNNLayer (Unrolled ι) α) :=
  let new (name : Part) (dims : SizeVector) : DataPtr (Unrolled ι) := ⟨.part out_h_state.ptr name, dims⟩
  let concat := new .concat [N, D + S]
  let fc := new .fc [N, S * 4]
  let clip := link_with_clip cell.clip fc (new .split_clip [N, S * 4])
  let split (part : Nat) := new (.split part) [N, S]
  let act_f := new .act_f [N, S]
  let act_i := new .act_i [N, S]
  let act_c := new .act_c [N, S]
  let act_o := new .act_o [N, S]
  let act_x := new .act_x [N, S]
  let mul_ic := new .mul_ic [N, S]
  let mul_f := new .mul_f [N, S]
  -- `sum` and `mul` give the states, and `act_x` is moved to the new cell state by `CombineData`.
  [⟨.concat 1, [in_data.map .data, in_h_state.map .data], [concat]⟩,
    ⟨.fullyConnected cell.weights cell.biases, [concat], [fc]⟩] ++ clip.2 ++
  [⟨.split 1, [clip.1], [split 0, split 1, split 2, split 3]⟩,
    ⟨.activation f, [split 0], [act_f]⟩,
    ⟨.activation f, [split 1], [act_i]⟩,
    ⟨.activation g, [split 2], [act_c]⟩,
    ⟨.activation f, [split 3], [act_o]⟩,
    ⟨.eltwise .Prod, [act_i, act_c], [mul_ic]⟩,
    ⟨.eltwise .Prod, [act_f, in_c_state.map .data], [mul_f]⟩,
    ⟨.eltwise .Sum, [mul_f, mul_ic], [out_c_state.map .data]⟩,
    ⟨.activation h, [out_c_state.map .data], [act_x]⟩,
    ⟨.eltwise .Prod, [act_x, act_o], [out_h_state.map .data]⟩]

/-- Up to the gates: `split 0` is zt, `split 1` is rt. -/
def gruGateLayers (f : String) (ur_W ur_B : List α) (in_data in_h_state out_h_state : DataPtr ι) :
    List (CNNLayer (Unrolled ι) α) :=
  let new (name : Part) (dims : SizeVector) : DataPtr (Unrolled ι) := ⟨.part out_h_state.ptr name, dims⟩
  let concat := new .concat [N, D + S]
  let fc_ur := new .fc_ur [N, S * 2]
  let clip := link_with_clip cell.clip fc_ur (new .act_ur_clip [N, S * 2])
  let act_ur := new .act_ur [N, 2 * S]
  [⟨.concat 1, [in_data.map .data, in_h_state.map .data], [concat]⟩,
    ⟨.fullyConnected ur_W ur_B, [concat], [fc_ur]⟩] ++ clip.2 ++
  [⟨.activation f, [clip.1], [act_ur]⟩,
    ⟨.split 1, [act_ur], [new (.split 0) [N, S], new (.split 1) [N, S]]⟩]

/-- ht when the reset gate comes before the matrix product. -/
def gruCandidateLayers (g : String) (o_W o_B : List α) (in_data in_h_state out_h_state : DataPtr ι) :
    List (CNNLayer (Unrolled ι) α) :=
  let new (name : Part) (dims : SizeVector) : DataPtr (Unrolled ι) := ⟨.part out_h_state.ptr name, dims⟩
  let mul_r := new .mul_r [N, S]
  let concat_h := new .concat_h [N, D + S]
  let fc_wh := new .fc_o [N, S]
  let clip := link_with_clip cell.clip fc_wh (new .act_o_clip [N, S])
  [⟨.eltwise .Prod, [new (.split 1) [N, S], in_h_state.map .data], [mul_r]⟩,
    ⟨.concat 1, [in_data.map .data, mul_r], [concat_h]⟩,
    ⟨.fullyConnected o_W o_B, [concat_h], [fc_wh]⟩] ++ clip.2 ++
  [⟨.activation g, [clip.1], [new .act_o [N, S]]⟩]

/-- ht when it comes after. -/
def gruLinearCandidateLayers (g : String) (whw_W whw_B whr_W whr_B : List α)
    (in_data in_h_state out_h_state : DataPtr ι) : List (CNNLayer (Unrolled ι) α) :=
  let new (name : Part) (dims : SizeVector) : DataPtr (Unrolled ι) := ⟨.part out_h_state.ptr name, dims⟩
  let fc_whr := new .fc_whr [N, S]
  let mul_r := new .mul_r [N, S]
  let fc_whw := new .fc_whw [N, S]
  let sum_h := new .sum_h [N, S]
  let clip := link_with_clip cell.clip sum_h (new .act_o_clip [N, S])
  [⟨.fullyConnected whr_W whr_B, [in_h_state.map .data], [fc_whr]⟩,
    ⟨.eltwise .Prod, [fc_whr, new (.split 1) [N, S]], [mul_r]⟩,
    ⟨.fullyConnected whw_W whw_B, [in_data.map .data], [fc_whw]⟩,
    ⟨.eltwise .Sum, [fc_whw, mul_r], [sum_h]⟩] ++ clip.2 ++
  [⟨.activation g, [clip.1], [new .act_o [N, S]]⟩]

def gruOutputLayers (in_h_state out_h_state : DataPtr ι) : List (CNNLayer (Unrolled ι) α) :=
  let new (name : Part) : DataPtr (Unrolled ι) := ⟨.part out_h_state.ptr name, [N, S]⟩
  [⟨.power 1 (-1) 1, [new (.split 0)], [new .pwr]⟩,
    ⟨.eltwise .Prod, [new .act_o, new .pwr], [new .mul]⟩,
    ⟨.eltwise .Prod, [new (.split 0), in_h_state.map .data], [new .mul_u]⟩,
    ⟨.eltwise .Sum, [new .mul, new .mul_u], [out_h_state.map .data]⟩]

end Layers

/-! ### The passes -/

def unrollRNNCellBody (cell : RNNCellBase α) (insData outData : List (DataPtr ι)) :
    Result (List (CNNLayer (Unrolled ι) α)) := do
  let in_data ← elemAt "cell->insData[0]" insData 0
  let in_h_state ← elemAt "cell->insData[1]" insData 1
  let out_h_state ← elemAt "cell->outData[0]" outData 0
  let N ← elemAt "d_dims[0]" in_data.dims 0
  let D ← elemAt "d_dims[1]" in_data.dims 1
  let S ← elemAt "s_dims[1]" in_h_state.dims 1
  let f ← elemAt "cell->activations[0]" cell.activations 0
  return rnnCellLayers cell N D S f in_data in_h_state out_h_state

def unrollLSTMCellBody (cell : RNNCellBase α) (insData outData : List (DataPtr ι)) :
    Result (List (CNNLayer (Unrolled ι) α)) := do
  let in_data ← elemAt "cell->insData[0]" insData 0
  let in_h_state ← elemAt "cell->insData[1]" insData 1
  let in_c_state ← elemAt "cell->insData[2]" insData 2
  let out_h_state ← elemAt "cell->outData[0]" outData 0
  let out_c_state ← elemAt "cell->outData[1]" outData 1
  let N ← elemAt "d_dims[0]" in_data.dims 0
  let D ← elemAt "d_dims[1]" in_data.dims 1
  let S ← elemAt "s_dims[1]" in_h_state.dims 1
  let f ← elemAt "cell->activations[0]" cell.activations 0
  let g ← elemAt "cell->activations[1]" cell.activations 1
  let h ← elemAt "cell->activations[2]" cell.activations 2
  return lstmCellLayers cell N D S f g h in_data in_h_state in_c_state out_h_state out_c_state

def unrollGRUCellBody (cell : RNNCellBase α) (linear_before_reset : Bool) (insData outData : List (DataPtr ι)) :
    Result (List (CNNLayer (Unrolled ι) α)) := do
  let in_data ← elemAt "cell->insData[0]" insData 0
  let in_h_state ← elemAt "cell->insData[1]" insData 1
  let out_h_state ← elemAt "cell->outData[0]" outData 0
  let N ← elemAt "d_dims[0]" in_data.dims 0
  let D ← elemAt "d_dims[1]" in_data.dims 1
  let S ← elemAt "s_dims[1]" in_h_state.dims 1
  let orig_W ← wrap_as_tensor cell.weights [3, S, D + S]
  let orig_B ← wrap_as_tensor cell.biases [if linear_before_reset then 4 else 3, S]
  let ur_W ← make_region_copy orig_W [2, S, D + S] [0, 0, 0]
  let o_W ← make_region_copy orig_W [1, S, D + S] [2, 0, 0]
  let ur_B ← make_region_copy orig_B [2, S] [0, 0]
  let o_B ← make_region_copy orig_B [1, S] [2, 0]
  let f ← elemAt "cell->activations[0]" cell.activations 0
  let g ← elemAt "cell->activations[1]" cell.activations 1
  let gates := gruGateLayers cell N D S f ur_W.buffer ur_B.buffer in_data in_h_state out_h_state
  let output := gruOutputLayers N S in_h_state out_h_state
  if linear_before_reset then
    let lbr_B ← wrap_as_tensor orig_B.buffer [4, S]
    let whw_W ← make_region_copy o_W [1, S, D] [0, 0, 0]
    let whr_W ← make_region_copy o_W [1, S, S] [0, 0, D]
    let whw_B ← make_region_copy lbr_B [1, S] [2, 0]
    let whr_B ← make_region_copy lbr_B [1, S] [3, 0]
    return gates ++ gruLinearCandidateLayers cell N S g whw_W.buffer whw_B.buffer whr_W.buffer whr_B.buffer in_data
      in_h_state out_h_state ++ output
  else
    return gates ++ gruCandidateLayers cell N D S g o_W.buffer o_B.buffer in_data in_h_state out_h_state ++ output

/-- Layers that are no cells stay. -/
def unrollCell (cur : CNNLayer ι α) : Result (List (CNNLayer (Unrolled ι) α)) :=
  match cur.op with
  | .cell cell =>
    match cell.cellType with
    | .LSTM => unrollLSTMCellBody cell cur.insData cur.outData
    | .GRU => unrollGRUCellBody cell false cur.insData cur.outData
    | .GRU_LBR => unrollGRUCellBody cell true cur.insData cur.outData
    | .RNN => unrollRNNCellBody cell cur.insData cur.outData
  | _ => return [cur.map .data]

end OpenVino.InferenceEngine.NetPass
