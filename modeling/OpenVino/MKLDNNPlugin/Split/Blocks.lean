import OpenVino.InferenceEngine.SlicedOffset
import OpenVino.MKLDNNPlugin.Split.SplitNode

/-!
# The blocks of a view

The layouts of the views are the plain one and those in blocks of `c` channels. In each of them a coordinate
vector of a part, moved along the axis by what lies before the part, has the digits of the vector in the part moved
along one block (`digits_moved`), and the part takes a multiple of the stride of that block (`prod_drop_blkDims`).
-/

namespace OpenVino.MKLDNNPlugin

open InferenceEngine (SizeVector toSizeT TensorDesc toSizeT_modEq toSizeT_lt)
open InferenceEngine.TensorDesc (coord_lt)
open InferenceEngine.BlockingDesc (fillStrides fillStrides_cons fillStrides_cons_cons length_fillStrides)
open MKLDNNMemoryDesc (channelBlocks)

variable {block : Option Nat} {axis c k p x prev : Nat} {dims src v D : SizeVector}

/-- The sizes of the blocks; `none` is the plain layout. -/
def blkDims (block : Option Nat) (dims : SizeVector) : SizeVector := block.elim dims (channelBlocks dims)

def blkOrder (block : Option Nat) (n : Nat) : SizeVector := List.range n ++ block.elim [] fun _ => [1]

/-- The elements along the axis that one step of its outer block takes. -/
def blkUnit (block : Option Nat) : Nat := block.getD 1

/-- The dimensions are made of whole blocks. -/
def WholeBlocks (axis : Nat) (block : Option Nat) (dims : SizeVector) : Prop :=
  ∀ c ∈ block, axis = 1 ∧ 1 < dims.length ∧ 0 < c ∧ c ∣ dims.getD 1 0

theorem channelBlocks_eq (h : c ∣ dims.getD 1 0) : channelBlocks dims c = dims.set 1 (dims.getD 1 0 / c) ++ [c] := by
  rw [channelBlocks, if_pos (Nat.mod_eq_zero_of_dvd h), Nat.add_zero]

theorem length_blkDims : (blkDims block dims).length = (blkOrder block dims.length).length := by
  cases block <;> simp [blkDims, blkOrder, channelBlocks]

theorem mem_blkOrder (h : WholeBlocks axis block dims) {o : Nat} (ho : o ∈ blkOrder block dims.length) :
    o < dims.length := by
  cases block with
  | none => simpa [blkOrder] using ho
  | some c =>
    obtain ⟨-, hlen, -⟩ := h c rfl
    simp only [blkOrder, Option.elim_some, List.mem_append, List.mem_range, List.mem_singleton] at ho
    omega

/-! ### Digits -/

theorem digits_plain (hv : v ∈ box dims) :
    (splitDigits ((blkOrder none dims.length).zip (blkDims none dims)) (v.getD · 0)).1 =
      (List.range dims.length).map (v.getD · 0) := by
  rw [blkOrder, Option.elim_none, List.append_nil]
  exact digits_range fun i hi => coord_lt hv i hi

theorem digits_blocked (h : WholeBlocks axis (some c) dims) (hv : v ∈ box dims) :
    (splitDigits ((blkOrder (some c) dims.length).zip (blkDims (some c) dims)) (v.getD · 0)).1 =
      (List.range dims.length).map (Function.update (v.getD · 0) 1 (v.getD 1 0 / c)) ++ [v.getD 1 0 % c] := by
  obtain ⟨-, hlen, hc, hdvd⟩ := h c rfl
  have hzip : (blkOrder (some c) dims.length).zip (blkDims (some c) dims) =
      (List.range dims.length).zip (dims.set 1 (dims.getD 1 0 / c)) ++ [(1, c)] := by
    rw [blkOrder, blkDims, Option.elim_some, Option.elim_some, channelBlocks_eq hdvd,
      List.zip_append (by simp)]
    rfl
  have hset : (dims.set 1 (dims.getD 1 0 / c)).length = dims.length := List.length_set
  rw [hzip, splitDigits_concat]
  congr 1
  rw [← hset]
  apply digits_range
  intro i hi
  have hin := coord_lt hv i (hset ▸ hi)
  by_cases hi1 : i = 1
  · subst hi1
    rw [Function.update_self, List.getD_eq_getElem _ _ hi, List.getElem_set_self]
    exact Nat.div_lt_div_of_lt_of_dvd hdvd hin
  · have hi' : i < dims.length := hset ▸ hi
    rw [List.getD_eq_getElem _ _ hi'] at hin
    rwa [Function.update_of_ne hi1, List.getD_eq_getElem _ _ hi, List.getElem_set_ne (Ne.symm hi1)]

/-- The coordinate vector of the whole for one of a part. -/
def moved (axis prev : Nat) (v : SizeVector) : SizeVector := v.set axis (v.getD axis 0 + prev)

theorem getD_moved (haxis : axis < v.length) :
    ((moved axis prev v).getD · 0) = Function.update (v.getD · 0) axis (v.getD axis 0 + prev) := by
  funext i
  rw [moved]
  by_cases hi : i = axis
  · subst hi
    rw [Function.update_self, List.getD_eq_getElem?_getD, List.getElem?_set_self haxis, Option.getD_some]
  · rw [Function.update_of_ne hi, List.getD_eq_getElem?_getD, List.getElem?_set_ne (Ne.symm hi),
      ← List.getD_eq_getElem?_getD]

theorem moved_mem_box (haxis : axis < src.length) (hroom : prev + x ≤ src.getD axis 0)
    (hv : v ∈ box (src.set axis x)) : moved axis prev v ∈ box src := by
  have hlen : v.length = src.length := by simpa using (mem_box.mp hv).length_eq
  rw [mem_box, List.forall₂_iff_get]
  refine ⟨by simpa [moved] using hlen, fun i hi hi' => ?_⟩
  have hin := coord_lt hv i (by simpa using hi')
  rw [List.getD_eq_getElem _ _ (by omega), List.getD_eq_getElem _ _ (by simpa using hi'), List.getElem_set] at hin
  rw [List.get_eq_getElem, List.get_eq_getElem]
  simp only [moved, List.getElem_set]
  by_cases hia : axis = i
  · subst hia
    rw [if_pos rfl] at hin
    rw [List.getD_eq_getElem _ _ haxis] at hroom
    rw [if_pos rfl, List.getD_eq_getElem _ _ (by omega)]
    omega
  · rw [if_neg hia] at hin
    rwa [if_neg hia]

/-- **The digits of a part and of the whole.** -/
theorem digits_moved (haxis : axis < src.length) (hroom : prev + x ≤ src.getD axis 0)
    (hv : v ∈ box (src.set axis x)) (hsrc : WholeBlocks axis block src)
    (hpart : WholeBlocks axis block (src.set axis x)) (hprev : blkUnit block ∣ prev) :
    (splitDigits ((blkOrder block src.length).zip (blkDims block src)) ((moved axis prev v).getD · 0)).1 =
      ((splitDigits ((blkOrder block src.length).zip (blkDims block (src.set axis x))) (v.getD · 0)).1).modify axis
        (· + prev / blkUnit block) := by
  have hlen : v.length = src.length := by simpa using (mem_box.mp hv).length_eq
  have hset : (src.set axis x).length = src.length := List.length_set
  have hw := moved_mem_box haxis hroom hv
  have hcoord : ((moved axis prev v).getD · 0) = Function.update (v.getD · 0) axis (v.getD axis 0 + prev) :=
    getD_moved (hlen.symm ▸ haxis)
  cases block with
  | none =>
    have hpartDigits := digits_plain hv
    rw [hset] at hpartDigits
    rw [digits_plain hw, hpartDigits, hcoord, blkUnit, Option.getD_none, Nat.div_one]
    exact map_update_range
  | some c =>
    obtain ⟨rfl, hlen1, hc, hdvd⟩ := hsrc c rfl
    have hpartDigits := digits_blocked hpart hv
    rw [hset] at hpartDigits
    obtain ⟨q, rfl⟩ : c ∣ prev := hprev
    have hat1 : (moved 1 (c * q) v).getD 1 0 = v.getD 1 0 + c * q := by
      rw [congrFun hcoord 1, Function.update_self]
    rw [digits_blocked hsrc hw, hpartDigits, hcoord, hat1]
    have hdiv : (v.getD 1 0 + c * q) / c = v.getD 1 0 / c + q := Nat.add_mul_div_left _ _ hc
    have hunit : c * q / blkUnit (some c) = q := Nat.mul_div_cancel_left q hc
    rw [Function.update_idem, hdiv, Nat.add_mul_mod_self_left, hunit]
    have hmap := map_update_range (n := src.length) (k := 1) (p := q)
      (v := Function.update (v.getD · 0) 1 (v.getD 1 0 / c))
    rw [Function.update_self, Function.update_idem] at hmap
    rw [hmap]
    apply List.ext_getElem
    · simp
    · intro i hi _
      simp only [List.getElem_append, List.getElem_modify, List.length_modify, List.length_map, List.length_range]
      split_ifs with hin h1 h1
      · rfl
      · rfl
      · omega
      · rfl

/-! ### Sizes -/

theorem blkDims_pos (h : WholeBlocks axis block dims) (hpos : ∀ X ∈ dims, 0 < X) :
    ∀ b ∈ (blkOrder block dims.length).zip (blkDims block dims), 0 < b.2 := by
  intro b hb
  have hb := (List.of_mem_zip hb).2
  cases block with
  | none => exact hpos _ hb
  | some c =>
    obtain ⟨-, hlen, hc, hdvd⟩ := h c rfl
    rw [blkDims, Option.elim_some, channelBlocks_eq hdvd, List.mem_append, List.mem_singleton] at hb
    rcases hb with hb | hb
    · rcases List.mem_or_eq_of_mem_set hb with hb | hb
      · exact hpos _ hb
      · have hdim : 0 < dims.getD 1 0 := by
          rw [List.getD_eq_getElem _ _ hlen]
          exact hpos _ (List.getElem_mem hlen)
        rw [hb]
        exact Nat.div_pos (Nat.le_of_dvd hdim hdvd) hc
    · omega

theorem blkDims_prod (h : WholeBlocks axis block dims) : (blkDims block dims).prod = dims.prod := by
  cases block with
  | none => rfl
  | some c =>
    obtain ⟨-, hlen, hc, hdvd⟩ := h c rfl
    obtain ⟨N, dims, rfl⟩ := List.exists_cons_of_length_pos (Nat.zero_lt_of_lt hlen)
    obtain ⟨C, rest, rfl⟩ := List.exists_cons_of_length_pos (Nat.lt_of_succ_lt_succ hlen)
    have hC : C / c * c = C := Nat.div_mul_cancel hdvd
    rw [blkDims, Option.elim_some, channelBlocks_eq hdvd]
    simp only [List.getD_cons_succ, List.getD_cons_zero, List.set_cons_succ, List.set_cons_zero, List.cons_append,
      List.prod_cons, List.prod_append, List.prod_nil, mul_one]
    calc N * (C / c * (rest.prod * c)) = N * (C / c * c * rest.prod) := by ring
      _ = N * (C * rest.prod) := by rw [hC]

/-- What a part takes from the axis on. -/
theorem prod_drop_blkDims (haxis : axis < src.length) (hsrc : WholeBlocks axis block src)
    (hpart : WholeBlocks axis block (src.set axis x)) :
    ((blkDims block (src.set axis x)).drop axis).prod =
      x / blkUnit block * ((blkDims block src).drop (axis + 1)).prod := by
  have hdrop : (src.set axis x).drop axis = x :: src.drop (axis + 1) := by
    rw [List.drop_eq_getElem_cons (by simpa using haxis), List.getElem_set_self,
      List.drop_set_of_lt (Nat.lt_succ_self axis)]
  cases block with
  | none => rw [blkDims, Option.elim_none, hdrop, List.prod_cons, blkUnit, Option.getD_none, Nat.div_one]; rfl
  | some c =>
    obtain ⟨rfl, hlen, hc, hdvd⟩ := hsrc c rfl
    obtain ⟨-, -, -, hx⟩ := hpart c rfl
    obtain ⟨N, src, rfl⟩ := List.exists_cons_of_length_pos (Nat.zero_lt_of_lt hlen)
    obtain ⟨C, rest, rfl⟩ := List.exists_cons_of_length_pos (Nat.lt_of_succ_lt_succ hlen)
    rw [blkDims, blkDims, Option.elim_some, Option.elim_some, channelBlocks_eq hdvd, channelBlocks_eq hx]
    simp [blkUnit]

/-! ### Strides -/

theorem getD_fillStrides (hk : k < D.length) : (fillStrides D).getD k 0 < 2 ^ 64 ∧
    (fillStrides D).getD k 0 ≡ (D.drop (k + 1)).prod [MOD 2 ^ 64] := by
  induction D generalizing k with
  | nil => exact absurd hk (Nat.not_lt_zero k)
  | cons X D ih =>
    obtain ⟨stride, hstrides, hmod, hlt⟩ := fillStrides_cons (D := D) X
    rw [hstrides]
    cases k with
    | zero => exact ⟨hlt, hmod⟩
    | succ k => exact ih (Nat.lt_of_succ_lt_succ hk)

/-- From the axis on the strides are those of a packed tensor. -/
theorem getD_splitStrides (hk : k < D.length) (haxis : axis ≤ k) :
    (splitStrides axis D).getD k 0 = (fillStrides D).getD k 0 := by
  induction D generalizing axis k with
  | nil => exact absurd hk (Nat.not_lt_zero k)
  | cons X D ih =>
    cases D with
    | nil =>
      obtain rfl : k = 0 := by simpa using hk
      rfl
    | cons Y D =>
      obtain ⟨stride, hstrides, -⟩ := fillStrides_cons (D := D) Y
      rw [splitStrides, fillStrides_cons_cons hstrides]
      cases k with
      | zero =>
        obtain rfl : axis = 0 := Nat.le_zero.mp haxis
        have hhead : (splitStrides 0 (Y :: D)).getD 0 0 = (fillStrides (Y :: D)).getD 0 0 := ih (by simp) le_rfl
        rw [hstrides, List.getD_cons_zero] at hhead
        rw [List.getD_cons_zero, List.getD_cons_zero, if_neg (Nat.lt_irrefl 0), List.headD_eq_head?_getD,
          List.head?_eq_getElem?, ← List.getD_eq_getElem?_getD, hhead, Nat.cast_mul]
      | succ k =>
        rw [List.getD_cons_succ, List.getD_cons_succ, ← hstrides]
        exact ih (Nat.lt_of_succ_lt_succ hk) (by omega)

end OpenVino.MKLDNNPlugin
