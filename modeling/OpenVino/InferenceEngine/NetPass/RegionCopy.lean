import OpenVino.InferenceEngine.NetPass.Layers

/-!
# Copies of regions of a blob

`make_region_copy` cuts a box out of a blob of at most three dimensions, row by row. `rowAt_region` and
`rowAt_region_two` say which part of the source each row of the copy is.
-/

namespace OpenVino.InferenceEngine.NetPass

structure Blob (α : Type) where
  dims : SizeVector
  buffer : List α

variable {α : Type}

def wrap_as_tensor (src : List α) (dims : SizeVector) : Result (Blob α) := do
  ieAssert "src->size() == res->size()" (src.length = dims.prod)
  return ⟨dims, src⟩

/-- A vector of three dimensions with the given ones at its end. -/
def atEnd (fill : Nat) (dims : SizeVector) : SizeVector := List.replicate (3 - dims.length) fill ++ dims

/-- The loops over the rows, which come one behind the other in the copy. -/
def regionRows (src : List α) (str1 str2 off1 off2 off3 D1 D2 D3 : Nat) : List α :=
  (List.range D1).flatMap fun d1 => (List.range D2).flatMap fun d2 =>
    (src.drop ((off1 + d1) * str1 + (off2 + d2) * str2 + off3)).take D3

def make_region_copy (src : Blob α) (region offset : SizeVector) : Result (Blob α) := do
  ieAssert "region.size() == offset.size()" (region.length = offset.length)
  ieAssert "region.size() == src->getTensorDesc().getDims().size()" (region.length = src.dims.length)
  let src_dims := atEnd 1 src.dims
  let dims := atEnd 1 region
  let off := atEnd 0 offset
  let str1 := src_dims.getD 1 0 * src_dims.getD 2 0
  let str2 := src_dims.getD 2 0
  return ⟨region, regionRows src.buffer str1 str2 (off.getD 0 0) (off.getD 1 0) (off.getD 2 0)
    (dims.getD 0 0) (dims.getD 1 0) (dims.getD 2 0)⟩

theorem wrap_as_tensor_ok {src : List α} {dims : SizeVector} (h : src.length = dims.prod) :
    wrap_as_tensor src dims = .ok ⟨dims, src⟩ := by
  rw [wrap_as_tensor, ieAssert, if_pos h]
  rfl

theorem make_region_copy_three {src : List α} {s1 s2 s3 D1 D2 D3 off1 off2 off3 : Nat} :
    make_region_copy ⟨[s1, s2, s3], src⟩ [D1, D2, D3] [off1, off2, off3] =
      .ok ⟨[D1, D2, D3], regionRows src (s2 * s3) s3 off1 off2 off3 D1 D2 D3⟩ := rfl

theorem make_region_copy_two {src : List α} {s1 s2 D1 D2 off1 off2 : Nat} :
    make_region_copy ⟨[s1, s2], src⟩ [D1, D2] [off1, off2] =
      .ok ⟨[D1, D2], regionRows src (s1 * s2) s2 0 off1 off2 1 D1 D2⟩ := rfl

theorem rowAt_flatMap {f : Nat → List α} {w m j : Nat} (hf : ∀ i < m, (f i).length = w) (hj : j < m) :
    rowAt w ((List.range m).flatMap f) j = f j := by
  have hlengths : ∀ k ≤ m, ((List.range k).flatMap f).length = k * w := by
    intro k hk
    induction k with
    | zero => simp
    | succ k ih =>
      rw [List.range_succ, List.flatMap_append, List.flatMap_singleton, List.length_append, ih (by omega),
        hf k (by omega), Nat.succ_mul]
  obtain ⟨k, rfl⟩ := Nat.exists_eq_add_of_lt hj
  have hsplit : (List.range (j + k + 1)).flatMap f =
      (List.range j).flatMap f ++ (f j ++ (List.range k).flatMap fun i => f (j + 1 + i)) := by
    rw [show j + k + 1 = j + (1 + k) by omega, List.range_add, List.range_add, List.flatMap_append]
    simp [List.flatMap_map, Nat.add_assoc]
  rw [rowAt, hsplit, List.drop_left' (hlengths j (by omega)), List.take_left' (hf j hj)]

theorem rowAt_rowAt {l : List α} {w m i j : Nat} (hj : j < m) :
    rowAt w (rowAt (m * w) l i) j = rowAt w l (i * m + j) := by
  have hle : j * w + w ≤ m * w := by
    rw [← Nat.succ_mul]
    exact Nat.mul_le_mul_right w hj
  rw [rowAt, rowAt, rowAt, List.drop_take, List.take_take, List.drop_drop, Nat.min_eq_left (by omega)]
  congr 2
  ring

theorem length_rowAt {l : List α} {w j : Nat} (h : (j + 1) * w ≤ l.length) : (rowAt w l j).length = w := by
  rw [Nat.succ_mul] at h
  rw [rowAt, List.length_take, List.length_drop]
  omega

theorem getD_rowAt {l : List α} {w j k : Nat} {a : α} (hk : k < w) : (rowAt w l j).getD k a = l.getD (j * w + k) a := by
  rw [rowAt, List.getD_eq_getElem?_getD, List.getD_eq_getElem?_getD, List.getElem?_take_of_lt hk, List.getElem?_drop]

section Region

variable {src : List α} {s1 s2 s3 off1 off2 off3 D1 D2 D3 : Nat}

theorem length_regionRow (hlen : src.length = s1 * s2 * s3) (h1 : off1 + D1 ≤ s1) (h2 : off2 + D2 ≤ s2)
    (h3 : off3 + D3 ≤ s3) {d1 d2 : Nat} (hd1 : d1 < D1) (hd2 : d2 < D2) :
    ((src.drop ((off1 + d1) * (s2 * s3) + (off2 + d2) * s3 + off3)).take D3).length = D3 := by
  have hcol : (off2 + d2) * s3 + s3 ≤ s2 * s3 := by
    rw [← Nat.succ_mul]
    exact Nat.mul_le_mul_right s3 (by omega)
  have hplane : (off1 + d1) * (s2 * s3) + s2 * s3 ≤ src.length := by
    rw [hlen, ← Nat.succ_mul, Nat.mul_assoc s1]
    exact Nat.mul_le_mul_right (s2 * s3) (by omega)
  rw [List.length_take, List.length_drop]
  omega

theorem length_regionPlane (hlen : src.length = s1 * s2 * s3) (h1 : off1 + D1 ≤ s1) (h2 : off2 + D2 ≤ s2)
    (h3 : off3 + D3 ≤ s3) {d1 : Nat} (hd1 : d1 < D1) :
    ((List.range D2).flatMap fun d2 =>
      (src.drop ((off1 + d1) * (s2 * s3) + (off2 + d2) * s3 + off3)).take D3).length = D2 * D3 := by
  rw [List.length_flatMap, List.map_congr_left fun d2 hd2 =>
      length_regionRow hlen h1 h2 h3 hd1 (List.mem_range.mp hd2), List.map_const', List.sum_replicate,
    List.length_range, smul_eq_mul]

/-- The rows of a box inside a source of `s1 * s2` rows of `s3` elements. -/
theorem rowAt_regionRows (hlen : src.length = s1 * s2 * s3) (h1 : off1 + D1 ≤ s1) (h2 : off2 + D2 ≤ s2)
    (h3 : off3 + D3 ≤ s3) {d1 d2 : Nat} (hd1 : d1 < D1) (hd2 : d2 < D2) :
    rowAt D3 (regionRows src (s2 * s3) s3 off1 off2 off3 D1 D2 D3) (d1 * D2 + d2) =
      ((rowAt s3 src ((off1 + d1) * s2 + (off2 + d2))).drop off3).take D3 := by
  rw [← rowAt_rowAt hd2, regionRows, rowAt_flatMap (fun i hi => length_regionPlane hlen h1 h2 h3 hi) hd1,
    rowAt_flatMap (fun j hj => length_regionRow hlen h1 h2 h3 hd1 hj) hd2, rowAt, List.drop_take, List.take_take,
    List.drop_drop, Nat.min_eq_left (by omega)]
  congr 2
  ring

/-- Whole rows. -/
theorem rowAt_regionRows_whole (hlen : src.length = s1 * s2 * s3) (h1 : off1 + D1 ≤ s1) (h2 : off2 + D2 ≤ s2)
    {d1 d2 : Nat} (hd1 : d1 < D1) (hd2 : d2 < D2) :
    rowAt s3 (regionRows src (s2 * s3) s3 off1 off2 0 D1 D2 s3) (d1 * D2 + d2) =
      rowAt s3 src ((off1 + d1) * s2 + (off2 + d2)) := by
  rw [rowAt_regionRows hlen h1 h2 (by omega) hd1 hd2, List.drop_zero, rowAt, List.take_take, Nat.min_self]

/-- An element of a copy of whole rows. -/
theorem getD_regionRows (hlen : src.length = s2 * s3) (h2 : off2 + D2 ≤ s2) {d2 k : Nat} {a : α} (hd2 : d2 < D2)
    (hk : k < s3) :
    (regionRows src (s2 * s3) s3 0 off2 0 1 D2 s3).getD (d2 * s3 + k) a = src.getD ((off2 + d2) * s3 + k) a := by
  have hrow : rowAt s3 (regionRows src (s2 * s3) s3 0 off2 0 1 D2 s3) (0 * D2 + d2) =
      rowAt s3 src ((0 + 0) * s2 + (off2 + d2)) :=
    rowAt_regionRows_whole (by rw [hlen, Nat.one_mul]) (Nat.le_refl 1) h2 Nat.one_pos hd2
  simp only [Nat.zero_mul, Nat.zero_add] at hrow
  rw [← getD_rowAt hk, hrow, getD_rowAt hk]

theorem length_regionRows (hlen : src.length = s1 * s2 * s3) (h1 : off1 + D1 ≤ s1) (h2 : off2 + D2 ≤ s2)
    (h3 : off3 + D3 ≤ s3) :
    (regionRows src (s2 * s3) s3 off1 off2 off3 D1 D2 D3).length = D1 * D2 * D3 := by
  rw [regionRows, List.length_flatMap, List.map_congr_left fun d1 hd1 =>
      length_regionPlane hlen h1 h2 h3 (List.mem_range.mp hd1), List.map_const', List.sum_replicate,
    List.length_range, smul_eq_mul, Nat.mul_assoc]

end Region

end OpenVino.InferenceEngine.NetPass
