import OpenVino.InferenceEngine.NetPass.CellEquations
import OpenVino.InferenceEngine.NetPass.UnrollTI

/-!
# Unrolling a sequence layer

`unrollSeq` turns a sequence of recurrent cells into a TensorIterator whose body is one cell between two reshapes.
-/

namespace OpenVino.InferenceEngine.NetPass

inductive Direction
  | FWD
  | BWD
  | BDR
deriving DecidableEq

structure RNNSequenceLayer (ι α : Type) extends RNNCellBase α where
  axis : Nat
  direction : Direction
  insData : List (DataPtr ι)
  outData : List (DataPtr ι)

/-- The Data of the body. -/
inductive SeqData
  | data_in
  | resh1
  | out_state (i : Nat)
  | resh2
  | state_in (i : Nat)
deriving DecidableEq

variable {ι α : Type}

namespace SeqData

def body_in (axis : Nat) (in_d_dims : SizeVector) : DataPtr SeqData := ⟨.data_in, in_d_dims.set axis 1⟩

def squeezed (axis : Nat) (in_d_dims : SizeVector) : DataPtr SeqData := ⟨.resh1, in_d_dims.eraseIdx axis⟩

def body_out (axis : Nat) (out_d_dims : SizeVector) : DataPtr SeqData := ⟨.resh2, out_d_dims.set axis 1⟩

def inState (state_dims : SizeVector) (i : Nat) : DataPtr SeqData := ⟨.state_in i, state_dims⟩

def outState (state_dims : SizeVector) (i : Nat) : DataPtr SeqData := ⟨.out_state i, state_dims⟩

end SeqData

open SeqData

/-- The rule of the sequence itself. -/
def iteratedPort (axis : Nat) (direct : Direction) : PortMap where
  from_ := 0
  to_ := 0
  axis := axis
  stride := if direct = .FWD then 1 else -1
  start := if direct = .FWD then 0 else -1
  end_ := if direct = .FWD then -1 else 0
  part_size := 1

/-- The rule of a state, also as a back edge. -/
def statePort (i : Nat) : PortMap where
  from_ := 1 + i
  to_ := 1 + i
  axis := -1
  stride := 0
  start := 0
  end_ := 0
  part_size := 0

def seqBody (cell : RNNCellBase α) (axis : Nat) (in_d_dims state_dims out_d_dims : SizeVector) : TIBody SeqData α :=
  let states := List.range cell.cellType.NS
  { layers := [⟨.reshape, [body_in axis in_d_dims], [squeezed axis in_d_dims]⟩,
      ⟨.cell cell, squeezed axis in_d_dims :: states.map (inState state_dims), states.map (outState state_dims)⟩,
      ⟨.reshape, [outState state_dims 0], [body_out axis out_d_dims]⟩]
    inputs := body_in axis in_d_dims :: states.map (inState state_dims)
    outputs := body_out axis out_d_dims :: states.map (outState state_dims) }

def unrollSeq (seq : RNNSequenceLayer ι α) : Result (TILayer ι SeqData α) := do
  let in_data ← elemAt "seq->insData[0]" seq.insData 0
  let in_h_state ← elemAt "seq->insData[1]" seq.insData 1
  let out_data ← elemAt "seq->outData[0]" seq.outData 0
  let states := List.range seq.cellType.NS
  let in_states ← states.mapM fun (i : Nat) => elemAt "seq->insData[1 + i]" seq.insData (1 + i)
  let out_states ← states.mapM fun (i : Nat) => elemAt "seq->outData[1 + i]" seq.outData (1 + i)
  return {
    insData := in_data :: in_states
    outData := out_data :: out_states
    input_port_map := iteratedPort seq.axis seq.direction :: states.map statePort
    output_port_map := iteratedPort seq.axis seq.direction :: states.map statePort
    back_edges := states.map statePort
    body := seqBody seq.toRNNCellBase seq.axis in_data.dims in_h_state.dims out_data.dims }

/-! ### The unrolled layers -/

/-- The Data around a sequence layer. -/
structure SeqPorts (ι : Type) where
  in_data : DataPtr ι
  in_state : Nat → DataPtr ι
  out_data : DataPtr ι
  out_state : Nat → DataPtr ι

/-- The dims of a sequence of `k` features. -/
def seqDims (axis N T k : Nat) : SizeVector := if axis = 0 then [T, N, k] else [N, T, k]

/-- What the validators and the shape inference make sure of: a layer of one direction with its initial states. -/
structure RNNSequenceLayer.Fits (seq : RNNSequenceLayer ι α) (P : SeqPorts ι) (N T D S : Nat) : Prop where
  axis : seq.axis = 0 ∨ seq.axis = 1
  direction : seq.direction ≠ .BDR
  insData : seq.insData = P.in_data :: (List.range seq.cellType.NS).map P.in_state
  outData : seq.outData = P.out_data :: (List.range seq.cellType.NS).map P.out_state
  in_dims : P.in_data.dims = seqDims seq.axis N T D
  out_dims : P.out_data.dims = seqDims seq.axis N T S
  in_state_dims : ∀ k < seq.cellType.NS, (P.in_state k).dims = [N, S]
  out_state_dims : ∀ k < seq.cellType.NS, (P.out_state k).dims = [N, S]

section Unrolled

variable (seq : RNNSequenceLayer ι α) (P : SeqPorts ι) (N num : Nat)

/-- The states that copy `i` reads and gives. -/
def stateIn (S i k : Nat) : DataPtr (Copies ι SeqData) :=
  if i = 0 then (P.in_state k).map .outer else (outState [N, S] k).map (.copy (i - 1))

def stateOut (S i k : Nat) : DataPtr (Copies ι SeqData) :=
  if i + 1 = num then (P.out_state k).map .outer else (outState [N, S] k).map (.copy i)

/-- The part of the sequence that copy `i` works on. -/
def chunkIn (i : Nat) : DataPtr (Copies ι SeqData) := (body_in seq.axis P.in_data.dims).map (.copy i)

def chunkOut (i : Nat) : DataPtr (Copies ι SeqData) := (body_out seq.axis P.out_data.dims).map (.copy i)

def copyLayers (S i : Nat) : List (CNNLayer (Copies ι SeqData) α) :=
  let states := List.range seq.cellType.NS
  let squeezed := (squeezed seq.axis P.in_data.dims).map (.copy i)
  [⟨.reshape, [chunkIn seq P i], [squeezed]⟩,
    ⟨.cell seq.toRNNCellBase, squeezed :: states.map (stateIn P N S i), states.map (stateOut P N num S i)⟩,
    ⟨.reshape, [stateOut P N num S i 0], [chunkOut seq P i]⟩]

/-- The copy that works on part `j`. -/
def partCopy (j : Nat) : Nat := if seq.direction = .FWD then j else num - 1 - j

def seqLayers (S : Nat) : List (CNNLayer (Copies ι SeqData) α) :=
  ⟨.split seq.axis, [P.in_data.map .outer], (List.range num).map fun j => chunkIn seq P (partCopy seq num j)⟩ ::
    (List.range num).flatMap (copyLayers seq P N num S) ++
    [⟨.concat seq.axis, (List.range num).map fun j => chunkOut seq P (partCopy seq num j), [P.out_data.map .outer]⟩]

end Unrolled

/-! ### The TensorIterator -/

section Iterator

variable {seq : RNNSequenceLayer ι α} {P : SeqPorts ι} {N T D S num : Nat}

/-- The layer that `unrollSeq` makes. -/
def seqTI (seq : RNNSequenceLayer ι α) (P : SeqPorts ι) (N S : Nat) : TILayer ι SeqData α where
  insData := P.in_data :: (List.range seq.cellType.NS).map P.in_state
  outData := P.out_data :: (List.range seq.cellType.NS).map P.out_state
  input_port_map := iteratedPort seq.axis seq.direction :: (List.range seq.cellType.NS).map statePort
  output_port_map := iteratedPort seq.axis seq.direction :: (List.range seq.cellType.NS).map statePort
  back_edges := (List.range seq.cellType.NS).map statePort
  body := seqBody seq.toRNNCellBase seq.axis P.in_data.dims [N, S] P.out_data.dims

/-- The port of a state. -/
theorem elemAt_state {β : Type} {e : String} {a : β} {f : Nat → β} {n k : Nat} (hk : k < n) :
    elemAt e (a :: (List.range n).map f) (1 + (k : Int)) = .ok (f k) := by
  rw [elemAt_ok_iff]
  have hindex : (1 + (k : Int)).toNat = k + 1 := by omega
  refine ⟨by omega, ?_⟩
  rw [hindex, List.getElem?_cons_succ, List.getElem?_map, List.getElem?_range hk]
  rfl

theorem NS_pos (t : CellType) : 0 < t.NS := by
  cases t <;> decide

theorem unrollSeq_eq (h : seq.Fits P N T D S) : unrollSeq seq = .ok (seqTI seq P N S) := by
  have hfirst : ∀ (e : String) (a : DataPtr ι) (f : Nat → DataPtr ι),
      elemAt e (a :: (List.range seq.cellType.NS).map f) 1 = .ok (f 0) :=
    fun e a f => elemAt_state (k := 0) (NS_pos _)
  have hstates : ∀ (e : String) (a : DataPtr ι) (f : Nat → DataPtr ι), (List.range seq.cellType.NS).mapM
      (fun (i : Nat) => elemAt e (a :: (List.range seq.cellType.NS).map f) (1 + (i : Int))) =
        .ok ((List.range seq.cellType.NS).map f) :=
    fun e a f => mapM_eq_map fun i hi => elemAt_state (List.mem_range.mp hi)
  rw [unrollSeq, h.insData, h.outData]
  simp only [elemAt_zero, hfirst, hstates, ok_bind, h.in_state_dims 0 (NS_pos _)]
  rfl

end Iterator

end OpenVino.InferenceEngine.NetPass
