import OpenVino.Base.NodeNetwork
import OpenVino.InferenceEngine.SizeT

/-!
# Layers and what they compute

A `CNNLayer` reads and writes Data, which the passes know by pointer. Behind a Data stands its `Content`, the
elements in the order of memory. `Op.eval` is what the layers do that the unrolling of recurrent cells makes:
the activations and the neurons of a fully connected layer are parameters (`Kernels`). A network computes by its
consistent valuations.

The contents of two-dimensional Data are read row by row with `rowOf`: one lemma for each layer says what the rows
of its output are.
-/

namespace OpenVino.InferenceEngine.NetPass

/-! ### Layers -/

inductive CellType
  | LSTM
  | GRU
  | RNN
  | GRU_LBR
deriving DecidableEq

/-- `clip` is 0 when nothing is clipped. -/
structure RNNCellBase (α : Type) where
  cellType : CellType
  weights : List α
  biases : List α
  activations : List String
  clip : α

structure DataPtr (ι : Type) where
  ptr : ι
  dims : SizeVector
deriving DecidableEq

def DataPtr.map {ι κ : Type} (f : ι → κ) (d : DataPtr ι) : DataPtr κ := ⟨f d.ptr, d.dims⟩

@[simp] theorem DataPtr.map_ptr {ι κ : Type} (f : ι → κ) (d : DataPtr ι) : (d.map f).ptr = f d.ptr := rfl

@[simp] theorem DataPtr.map_dims {ι κ : Type} (f : ι → κ) (d : DataPtr ι) : (d.map f).dims = d.dims := rfl

inductive EltwiseOp
  | Sum
  | Prod

inductive Op (α : Type)
  | concat (axis : Nat)
  | split (axis : Nat)
  | fullyConnected (weights biases : List α)
  | activation (type : String)
  | clamp (min max : α)
  | power (power : Nat) (scale offset : α)
  | eltwise (operation : EltwiseOp)
  | reshape
  | cell (cell : RNNCellBase α)

structure CNNLayer (ι α : Type) where
  op : Op α
  insData : List (DataPtr ι)
  outData : List (DataPtr ι)

variable {ι κ α : Type}

def CNNLayer.map (f : ι → κ) (l : CNNLayer ι α) : CNNLayer κ α where
  op := l.op
  insData := l.insData.map (DataPtr.map f)
  outData := l.outData.map (DataPtr.map f)

def redirect [DecidableEq ι] (master slave d : DataPtr ι) : DataPtr ι := if d = slave then master else d

/-- The consumers of the slave read the master. -/
def CombineData [DecidableEq ι] (master slave : DataPtr ι) (net : List (CNNLayer ι α)) : List (CNNLayer ι α) :=
  net.map fun l => { l with insData := l.insData.map (redirect master slave) }

/-! ### Contents -/

abbrev Content (α : Type) := Nat → α

/-- The activations, and a neuron of a fully connected layer, from its weights, its bias and the input. -/
structure Kernels (α : Type) where
  activation : String → α → α
  neuron : List α → α → List α → α

/-- The number of elements of one row from `axis` on. -/
def rowWidth (axis : Nat) (dims : SizeVector) : Nat := (dims.drop axis).prod

/-- Row `n` of a content in rows of `w` elements. -/
def rowOf (w : Nat) (x : Content α) (n : Nat) : List α := (List.range w).map fun k => x (n * w + k)

def rowAt (w : Nat) (l : List α) (n : Nat) : List α := (l.drop (n * w)).take w

section Eval

variable [CommRing α] [LinearOrder α]

/-- Position `r` of row `n` where the parts, with their widths, lie side by side. -/
def readParts : List (Nat × Content α) → Nat → Nat → α
  | [], _, _ => 0
  | (w, x) :: parts, n, r => if r < w then x (n * w + r) else readParts parts n (r - w)

/-- The columns from `off` on, `w` of them, of rows of `whole` elements. -/
def columns (whole off w : Nat) (x : Content α) : Content α := fun q => x (q / w * whole + (off + q % w))

def splitColumns (whole : Nat) (x : Content α) : Nat → List Nat → List (Content α)
  | _, [] => []
  | off, w :: ws => columns whole off w x :: splitColumns whole x (off + w) ws

/-- `o` neurons over rows of `k` elements. -/
def neurons (K : Kernels α) (k o : Nat) (weights biases : List α) (x : Content α) : Content α :=
  fun q => K.neuron (rowAt k weights (q % o)) (biases.getD (q % o) 0) (rowOf k x (q / o))

def Op.eval (K : Kernels α) (op : Op α) (ins outs : List SizeVector) (xs : List (Content α)) : List (Content α) :=
  let x := xs.headD 0
  match op with
  | .concat axis =>
    let whole := rowWidth axis (outs.headD [])
    [fun q => readParts ((ins.map (rowWidth axis)).zip xs) (q / whole) (q % whole)]
  | .split axis => splitColumns (rowWidth axis (ins.headD [])) x 0 (outs.map (rowWidth axis))
  | .fullyConnected weights biases =>
    [neurons K (rowWidth 1 (ins.headD [])) ((outs.headD []).getD 1 0) weights biases x]
  | .activation type => [fun q => K.activation type (x q)]
  | .clamp lo hi => [fun q => max lo (min (x q) hi)]
  | .power p scale offset => [fun q => (offset + scale * x q) ^ p]
  | .eltwise .Sum => [fun q => (xs.map fun y => y q).sum]
  | .eltwise .Prod => [fun q => (xs.map fun y => y q).prod]
  | .reshape => [x]
  -- A cell computes once it is unrolled.
  | .cell _ => []

def CNNLayer.node (K : Kernels α) (l : CNNLayer ι α) : Node ι (Content α) where
  reads := l.insData.map DataPtr.ptr
  writes := l.outData.map DataPtr.ptr
  fn := l.op.eval K (l.insData.map DataPtr.dims) (l.outData.map DataPtr.dims)

def Consistent (K : Kernels α) (w : ι → Content α) (net : List (CNNLayer ι α)) : Prop :=
  Node.Consistent w (net.map (CNNLayer.node K))

end Eval

/-- The parts along `axis` make up the whole. -/
def FitsAlong (axis : Nat) (whole : SizeVector) (parts : List SizeVector) : Prop :=
  (parts.map fun dims => dims.getD axis 0).sum = whole.getD axis 0 ∧
    ∀ dims ∈ parts, dims.eraseIdx axis = whole.eraseIdx axis

/-- The dims of the Data around the layer go together. -/
def CNNLayer.Shaped (l : CNNLayer ι α) : Prop :=
  let ins := l.insData.map DataPtr.dims
  let outs := l.outData.map DataPtr.dims
  match l.op with
  | .concat axis => FitsAlong axis (outs.headD []) ins
  | .split axis => FitsAlong axis (ins.headD []) outs
  | _ => True

/-! ### Rows -/

section Rows

variable {w w' n : Nat} {x y : Content α}

theorem div_mod_row {k : Nat} (hk : k < w) : (n * w + k) / w = n ∧ (n * w + k) % w = k := by
  rw [Nat.mul_comm, Nat.mul_add_div (by omega), Nat.mul_add_mod, Nat.div_eq_of_lt hk]
  exact ⟨Nat.add_zero n, Nat.mod_eq_of_lt hk⟩

@[simp] theorem length_rowOf : (rowOf w x n).length = w := by
  rw [rowOf, List.length_map, List.length_range]

theorem rowOf_map (f : α → α) : rowOf w (fun q => f (x q)) n = (rowOf w x n).map f := by
  rw [rowOf, rowOf, List.map_map]
  rfl

theorem rowOf_zipWith (f : α → α → α) :
    rowOf w (fun q => f (x q) (y q)) n = List.zipWith f (rowOf w x n) (rowOf w y n) := by
  rw [rowOf, rowOf, rowOf, List.zipWith_map, List.zipWith_self]

theorem rowOf_columns {whole off : Nat} (h : off + w ≤ whole) :
    rowOf w (columns whole off w x) n = ((rowOf whole x n).drop off).take w := by
  apply List.ext_getElem
  · simp only [length_rowOf, List.length_take, List.length_drop]
    omega
  intro k hk _
  rw [length_rowOf] at hk
  obtain ⟨hq, hr⟩ := div_mod_row (n := n) hk
  simp only [rowOf, columns, List.getElem_map, List.getElem_range, List.getElem_take, List.getElem_drop, hq, hr]

theorem getElem?_splitColumns {whole S : Nat} {off : Nat} {ws : List Nat} (hws : ∀ v ∈ ws, v = S) {g : Nat}
    (hg : g < ws.length) : (splitColumns whole x off ws)[g]? = some (columns whole (off + g * S) S x) := by
  induction ws generalizing off g with
  | nil => simp at hg
  | cons v ws ih =>
    have hv := hws v List.mem_cons_self
    subst hv
    cases g with
    | zero => rw [splitColumns, List.getElem?_cons_zero, Nat.zero_mul, Nat.add_zero]
    | succ g =>
      rw [splitColumns, List.getElem?_cons_succ, ih (fun u hu => hws u (List.mem_cons_of_mem v hu)) (by simpa using hg),
        Nat.succ_mul, Nat.add_comm (g * v), Nat.add_assoc]

variable [CommRing α]

theorem map_readParts (parts : List (Nat × Content α)) :
    (List.range (parts.map Prod.fst).sum).map (readParts parts n) = parts.flatMap fun p => rowOf p.1 p.2 n := by
  induction parts with
  | nil => simp
  | cons p parts ih =>
    have hfirst : (List.range p.1).map (readParts (p :: parts) n) = rowOf p.1 p.2 n := by
      refine List.map_congr_left fun r hr => ?_
      rw [readParts, if_pos (List.mem_range.mp hr)]
    have hrest : (List.range (parts.map Prod.fst).sum).map (readParts (p :: parts) n ∘ (p.1 + ·)) =
        (List.range (parts.map Prod.fst).sum).map (readParts parts n) := by
      refine List.map_congr_left fun r _ => ?_
      rw [Function.comp_apply, readParts, if_neg (by omega), Nat.add_sub_cancel_left]
    rw [List.map_cons, List.sum_cons, List.range_add, List.map_append, List.map_map, hfirst, hrest, ih,
      List.flatMap_cons]

/-- The row of a concatenation. -/
theorem rowOf_readParts {parts : List (Nat × Content α)} {whole : Nat} (h : (parts.map Prod.fst).sum = whole) :
    rowOf whole (fun q => readParts parts (q / whole) (q % whole)) n = parts.flatMap fun p => rowOf p.1 p.2 n := by
  rw [← map_readParts, h]
  refine List.map_congr_left fun k hk => ?_
  obtain ⟨hq, hr⟩ := div_mod_row (n := n) (List.mem_range.mp hk)
  simp only [hq, hr]

/-- The row of a fully connected layer. -/
theorem rowOf_neurons {K : Kernels α} {k o : Nat} {weights biases : List α} :
    rowOf o (neurons K k o weights biases x) n =
      (List.range o).map fun j => K.neuron (rowAt k weights j) (biases.getD j 0) (rowOf k x n) := by
  refine List.map_congr_left fun j hj => ?_
  obtain ⟨hq, hr⟩ := div_mod_row (n := n) (List.mem_range.mp hj)
  rw [neurons, hq, hr]

end Rows

end OpenVino.InferenceEngine.NetPass
