import Mathlib

/-!
# A sorted map

`StdMap κ α` is `std::map`: its entries in the order of their keys, which `sorted` keeps distinct. An entry
of a map after an assignment is the new one or an old one with another key (`mem_set`), and after a loop of
assignments one of the loop or an old one whose key the loop does not assign (`mem_setAll`).
-/

namespace OpenVino

structure StdMap (κ α : Type*) [LinearOrder κ] where
  entries : List (κ × α)
  sorted : entries.Pairwise fun e e' => e.1 < e'.1

namespace StdMap

variable {κ α : Type*} [LinearOrder κ] {m : StdMap κ α} {k : κ} {v : α} {e : κ × α} {l : List (κ × α)}

theorem ext_entries {m m' : StdMap κ α} (h : m.entries = m'.entries) : m = m' := by
  cases m
  cases m'
  simpa using h

def empty : StdMap κ α := ⟨[], .nil⟩

def setEntry (k : κ) (v : α) : List (κ × α) → List (κ × α)
  | [] => [(k, v)]
  | e :: l => if k < e.1 then (k, v) :: e :: l else if k = e.1 then (k, v) :: l else e :: setEntry k v l

theorem mem_of_mem_setEntry (h : e ∈ setEntry k v l) : e = (k, v) ∨ e ∈ l := by
  induction l with
  | nil => exact .inl (List.mem_singleton.mp h)
  | cons a l ih =>
    rw [setEntry] at h
    split_ifs at h
    · rcases List.mem_cons.mp h with rfl | h
      · exact .inl rfl
      · exact .inr h
    · rcases List.mem_cons.mp h with rfl | h
      · exact .inl rfl
      · exact .inr (List.mem_cons_of_mem _ h)
    · rcases List.mem_cons.mp h with rfl | h
      · exact .inr List.mem_cons_self
      · exact (ih h).imp_right (List.mem_cons_of_mem _)

theorem pairwise_setEntry (h : l.Pairwise fun e e' => e.1 < e'.1) :
    (setEntry k v l).Pairwise fun e e' => e.1 < e'.1 := by
  induction l with
  | nil => exact List.pairwise_singleton _ _
  | cons a l ih =>
    obtain ⟨hhead, htail⟩ := List.pairwise_cons.mp h
    rw [setEntry]
    split_ifs with hlt heq
    · refine List.pairwise_cons.mpr ⟨fun e he => ?_, h⟩
      rcases List.mem_cons.mp he with rfl | he
      · exact hlt
      · exact hlt.trans (hhead e he)
    · exact List.pairwise_cons.mpr ⟨fun e he => heq ▸ hhead e he, htail⟩
    · refine List.pairwise_cons.mpr ⟨fun e he => ?_, ih htail⟩
      rcases mem_of_mem_setEntry he with rfl | he
      · exact lt_of_le_of_ne (not_lt.mp hlt) (Ne.symm heq)
      · exact hhead e he

/-- `m[k] = v` -/
def set (m : StdMap κ α) (k : κ) (v : α) : StdMap κ α := ⟨setEntry k v m.entries, pairwise_setEntry m.sorted⟩

theorem mem_setEntry (h : l.Pairwise fun e e' => e.1 < e'.1) :
    e ∈ setEntry k v l ↔ e = (k, v) ∨ e.1 ≠ k ∧ e ∈ l := by
  induction l with
  | nil => simp [setEntry]
  | cons a l ih =>
    obtain ⟨hhead, htail⟩ := List.pairwise_cons.mp h
    rw [setEntry]
    split_ifs with hlt heq
    · have hne : ∀ e ∈ a :: l, e.1 ≠ k := by
        intro e he
        rcases List.mem_cons.mp he with rfl | he
        · exact hlt.ne'
        · exact (hlt.trans (hhead e he)).ne'
      rw [List.mem_cons]
      exact or_congr_right ⟨fun he => ⟨hne e he, he⟩, And.right⟩
    · have hne : ∀ e ∈ l, e.1 ≠ k := fun e he => heq ▸ (hhead e he).ne'
      rw [List.mem_cons, List.mem_cons]
      refine or_congr_right ⟨fun he => ⟨hne e he, .inr he⟩, fun ⟨hk, he⟩ => he.resolve_left ?_⟩
      rintro rfl
      exact hk heq.symm
    · rw [List.mem_cons, ih htail, List.mem_cons]
      constructor
      · rintro (rfl | rfl | ⟨hk, he⟩)
        · exact .inr ⟨Ne.symm heq, .inl rfl⟩
        · exact .inl rfl
        · exact .inr ⟨hk, .inr he⟩
      · rintro (rfl | ⟨hk, rfl | he⟩)
        · exact .inr (.inl rfl)
        · exact .inl rfl
        · exact .inr (.inr ⟨hk, he⟩)

theorem mem_set : e ∈ (m.set k v).entries ↔ e = (k, v) ∨ e.1 ≠ k ∧ e ∈ m.entries := mem_setEntry m.sorted

/-- `m.erase(k)` -/
def erase (m : StdMap κ α) (k : κ) : StdMap κ α := ⟨m.entries.filter (·.1 ≠ k), m.sorted.filter _⟩

/-- `erase_if` by the value of an entry. -/
def eraseIf (m : StdMap κ α) (p : α → Prop) [DecidablePred p] : StdMap κ α :=
  ⟨m.entries.filter fun e => ¬p e.2, m.sorted.filter _⟩

theorem mem_eraseIf {p : α → Prop} [DecidablePred p] : e ∈ (m.eraseIf p).entries ↔ e ∈ m.entries ∧ ¬p e.2 := by
  simp [eraseIf]

/-- The loop `for (e : l) m[e.first] = e.second`. -/
def setAll (m : StdMap κ α) (l : List (κ × α)) : StdMap κ α := l.foldl (fun m e => m.set e.1 e.2) m

theorem mem_setAll (hl : (l.map Prod.fst).Nodup) :
    e ∈ (m.setAll l).entries ↔ e ∈ l ∨ e.1 ∉ l.map Prod.fst ∧ e ∈ m.entries := by
  induction l generalizing m with
  | nil => simp [setAll]
  | cons a l ih =>
    obtain ⟨hnot, hl⟩ := List.nodup_cons.mp hl
    rw [setAll, List.foldl_cons]
    refine (ih hl).trans ?_
    rw [mem_set, List.map_cons, List.mem_cons, List.mem_cons, not_or]
    constructor
    · rintro (he | ⟨hkey, rfl | ⟨hne, he⟩⟩)
      · exact .inl (.inr he)
      · exact .inl (.inl rfl)
      · exact .inr ⟨⟨hne, hkey⟩, he⟩
    · rintro ((rfl | he) | ⟨⟨hne, hkey⟩, he⟩)
      · exact .inr ⟨hnot, .inl rfl⟩
      · exact .inl he
      · exact .inr ⟨hkey, .inr ⟨hne, he⟩⟩

/-- The loop that replaces every value, with the keys as they are. -/
def mapValues {β : Type*} (f : α → β) (m : StdMap κ α) : StdMap κ β :=
  ⟨m.entries.map fun e => (e.1, f e.2), List.pairwise_map.mpr m.sorted⟩

def values (m : StdMap κ α) : List α := m.entries.map Prod.snd

theorem mapValues_congr {β : Type*} {f g : α → β} (h : ∀ v ∈ m.values, f v = g v) : m.mapValues f = m.mapValues g := by
  refine ext_entries (List.map_congr_left fun e he => ?_)
  rw [h e.2 (List.mem_map_of_mem he)]

theorem mem_values : v ∈ m.values ↔ ∃ k, (k, v) ∈ m.entries := by
  simp [values]

theorem nodup_keys (m : StdMap κ α) : (m.entries.map Prod.fst).Nodup :=
  (List.pairwise_map.mpr m.sorted).imp ne_of_lt

theorem mem_values_set_of_empty {v' : α} (h : m.entries = []) : v' ∈ (m.set k v).values ↔ v' = v := by
  simp only [values, set]
  rw [h, setEntry, List.map_singleton, List.mem_singleton]

/-- Two entries with one key are one entry. -/
theorem entry_unique {v' : α} (h : (k, v) ∈ m.entries) (h' : (k, v') ∈ m.entries) : v = v' :=
  (Prod.ext_iff.mp (List.inj_on_of_nodup_map m.nodup_keys h h' rfl)).2

/-- Two maps with the same entries. -/
theorem ext_mem {m' : StdMap κ α} (h : ∀ k v, (k, v) ∈ m.entries ↔ (k, v) ∈ m'.entries) : m = m' := by
  have hnodup : ∀ m : StdMap κ α, m.entries.Nodup := fun m => m.nodup_keys.of_map
  have hperm := (List.perm_ext_iff_of_nodup (hnodup m) (hnodup m')).mpr fun e => h e.1 e.2
  refine ext_entries (hperm.eq_of_pairwise (fun a b _ _ hab hba => ?_) m.sorted m'.sorted)
  exact absurd hab (not_lt_of_gt hba)

theorem set_set : (m.set k v).set k v = m.set k v := by
  refine ext_mem fun k' v' => ?_
  simp only [mem_set]
  grind

/-- The loop that erases the first entry with a value. -/
def eraseFirst [DecidableEq α] (m : StdMap κ α) (v : α) : StdMap κ α :=
  ⟨m.entries.eraseP (·.2 = v), m.sorted.sublist List.eraseP_sublist⟩

theorem eraseFirst_eq_erase [DecidableEq α] (h : m.entries.find? (·.2 = v) = some e) :
    m.eraseFirst v = m.erase e.1 := by
  refine ext_entries ?_
  obtain ⟨hv, pre, post, heq, hpre⟩ := List.find?_eq_some_iff_append.mp h
  have hkeys := m.nodup_keys
  rw [heq, List.map_append, List.map_cons, List.nodup_append, List.nodup_cons] at hkeys
  obtain ⟨-, ⟨hpost, -⟩, hdisjoint⟩ := hkeys
  have hfirst : pre.filter (·.1 ≠ e.1) = pre := by
    refine List.filter_eq_self.mpr fun a ha => ?_
    simpa using hdisjoint a.1 (List.mem_map_of_mem ha) e.1 List.mem_cons_self
  have hlast : post.filter (·.1 ≠ e.1) = post := by
    refine List.filter_eq_self.mpr fun a ha => ?_
    have hne : a.1 ≠ e.1 := fun heq => hpost (heq ▸ List.mem_map_of_mem ha)
    simpa using hne
  have hcons : (e :: post).eraseP (·.2 = v) = post := List.eraseP_cons_of_pos hv
  change m.entries.eraseP (·.2 = v) = m.entries.filter (·.1 ≠ e.1)
  rw [heq, List.filter_append, hfirst, List.eraseP_append_right _ fun a ha => by simpa using hpre a ha,
    hcons, List.filter_cons_of_neg (by simp), hlast]

/-- `find` -/
def find? (m : StdMap κ α) (k : κ) : Option α := (m.entries.find? (·.1 = k)).map Prod.snd

theorem find?_eq_some (h : (k, v) ∈ m.entries) : m.find? k = some v := by
  rw [find?]
  cases hfind : m.entries.find? (·.1 = k) with
  | none => exact absurd (List.find?_eq_none.mp hfind _ h) (by simp)
  | some e =>
    have hkey : e.1 = k := by
      have hfound := List.find?_some hfind
      simpa using hfound
    have hmem : (k, e.2) ∈ m.entries := hkey ▸ List.mem_of_find?_eq_some hfind
    rw [Option.map_some, entry_unique hmem h]

end StdMap

end OpenVino
