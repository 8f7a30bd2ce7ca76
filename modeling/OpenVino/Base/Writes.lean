import Mathlib
import OpenVino.Base.Exception

/-!
# Vectors that are filled by loops

`Written zs val done out`: the vector `out` is `zs` with the elements at the places `done` written, each with its
value. A loop that writes one place in each round has written the places of its rounds (`Written.foldlM`).
`Accumulated f zs tgt val done out`: each of `done` has been added by `f` to the element at its place `tgt`; an element
is the fold over what went to it, in the order of the rounds (`Accumulated.foldlM`).
-/

namespace OpenVino

variable {α β ι σ : Type}

/-- The vector with the places `done` written. -/
structure Written (zs : List α) (val : Nat → α) (done : List Nat) (out : List α) : Prop where
  length : out.length = zs.length
  written : ∀ j ∈ done, j < zs.length → out[j]? = some (val j)
  kept : ∀ j, j ∉ done → out[j]? = zs[j]?

namespace Written

variable {zs out : List α} {val : Nat → α} {done : List Nat}

theorem start (zs : List α) (val : Nat → α) : Written zs val [] zs :=
  ⟨rfl, fun _ h => absurd h List.not_mem_nil, fun _ _ => rfl⟩

theorem set (h : Written zs val done out) (i : Nat) : Written zs val (done ++ [i]) (out.set i (val i)) := by
  refine ⟨by rw [List.length_set, h.length], fun j hj hlt => ?_, fun j hj => ?_⟩
  · by_cases hij : i = j
    · rw [← hij, List.getElem?_set_self (by rw [h.length, hij]; exact hlt)]
    · rw [List.getElem?_set_ne hij]
      refine h.written j ?_ hlt
      rcases List.mem_append.mp hj with hj | hj
      · exact hj
      · exact absurd (List.mem_singleton.mp hj).symm hij
  · rw [List.mem_append, List.mem_singleton, not_or] at hj
    rw [List.getElem?_set_ne (Ne.symm hj.2)]
    exact h.kept j hj.1

/-- A loop with a state of its own, each of whose rounds writes one place. -/
theorem foldlM {f : σ → Nat → Result σ} {v : σ → List α} {I : List Nat → σ → Prop} {l : List Nat} {s : σ}
    (hstart : Written zs val done (v s)) (h₀ : I [] s)
    (hstep : ∀ pre i post s, l = pre ++ i :: post → I pre s → (v s).length = zs.length →
      ∃ s', f s i = .ok s' ∧ v s' = (v s).set i (val i) ∧ I (pre ++ [i]) s') :
    ∃ s', l.foldlM f s = .ok s' ∧ Written zs val (done ++ l) (v s') ∧ I l s' := by
  let J (pre : List Nat) (s : σ) : Prop := Written zs val (done ++ pre) (v s) ∧ I pre s
  have hJ : J [] s := ⟨by rwa [List.append_nil], h₀⟩
  refine exists_foldlM_ok hJ fun pre i post s hl hpre => ?_
  obtain ⟨s', hrun, hv, hI⟩ := hstep pre i post s hl hpre.2 hpre.1.length
  refine ⟨s', hrun, ?_, hI⟩
  rw [hv, ← List.append_assoc]
  exact hpre.1.set i

/-- A vector whose places are all written. -/
theorem eq_map {n : Nat} (h : Written zs val (List.range n) out) (hn : zs.length = n) : out = (List.range n).map val := by
  apply List.ext_getElem?
  intro j
  rw [List.getElem?_map]
  by_cases hj : j < n
  · rw [h.written j (List.mem_range.mpr hj) (hn ▸ hj), List.getElem?_range hj, Option.map_some]
  · rw [List.getElem?_eq_none (by rw [h.length, hn]; omega), List.getElem?_eq_none (by rw [List.length_range]; omega),
      Option.map_none]

end Written

/-- The vector with everything in `done` added at its place. -/
structure Accumulated (f : α → β → α) (zs : List α) (tgt : ι → Nat) (val : ι → β) (done : List ι)
    (out : List α) : Prop where
  length : out.length = zs.length
  value : ∀ (j : Nat) (z : α), zs[j]? = some z → out[j]? = some (((done.filter (tgt · = j)).map val).foldl f z)

namespace Accumulated

variable {f : α → β → α} {zs out : List α} {tgt : ι → Nat} {val : ι → β} {done : List ι}

theorem start (f : α → β → α) (zs : List α) (tgt : ι → Nat) (val : ι → β) : Accumulated f zs tgt val [] zs :=
  ⟨rfl, fun _ _ h => h⟩

theorem set {x : α} {i : ι} (h : Accumulated f zs tgt val done out) (hx : out[tgt i]? = some x) :
    Accumulated f zs tgt val (done ++ [i]) (out.set (tgt i) (f x (val i))) := by
  refine ⟨by rw [List.length_set, h.length], fun j z hz => ?_⟩
  have hvalue := h.value j z hz
  rw [List.filter_append, List.map_append, List.foldl_append]
  by_cases hij : tgt i = j
  · obtain ⟨hlt, -⟩ := List.getElem?_eq_some_iff.mp hx
    rw [← hij, hx] at hvalue
    rw [← hij, List.getElem?_set_self hlt, List.filter_cons_of_pos (by simp), List.filter_nil,
      ← Option.some_inj.mp hvalue]
    rfl
  · rw [List.getElem?_set_ne hij, hvalue, List.filter_cons_of_neg (by simpa using hij), List.filter_nil]
    rfl

/-- A loop with a state of its own, each of whose rounds adds something at one place. -/
theorem foldlM {g : σ → ι → Result σ} {v : σ → List α} {I : List ι → σ → Prop} {l : List ι} {s : σ}
    (hstart : Accumulated f zs tgt val done (v s)) (h₀ : I [] s)
    (hstep : ∀ pre i post s, l = pre ++ i :: post → I pre s → (v s).length = zs.length →
      ∃ s' x, g s i = .ok s' ∧ (v s)[tgt i]? = some x ∧ v s' = (v s).set (tgt i) (f x (val i)) ∧
        I (pre ++ [i]) s') :
    ∃ s', l.foldlM g s = .ok s' ∧ Accumulated f zs tgt val (done ++ l) (v s') ∧ I l s' := by
  let J (pre : List ι) (s : σ) : Prop := Accumulated f zs tgt val (done ++ pre) (v s) ∧ I pre s
  have hJ : J [] s := ⟨by rwa [List.append_nil], h₀⟩
  refine exists_foldlM_ok hJ fun pre i post s hl hpre => ?_
  obtain ⟨s', x, hrun, hx, hv, hI⟩ := hstep pre i post s hl hpre.2 hpre.1.length
  refine ⟨s', hrun, ?_, hI⟩
  rw [hv, ← List.append_assoc]
  exact hpre.1.set hx

end Accumulated

end OpenVino
