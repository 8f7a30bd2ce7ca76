import OpenVino.InferenceEngine.ShapeInfer.Reshape.Extensions

/-!
# What `AddExtension` leaves behind

The types are registered first (`registerTypes_exec`), then the launchers are replaced type by type
(`forM_replaceLaunchers`). `addExtension_iff`: the call does what it should, and leaves no trace when it throws,
exactly when it throws before it changes anything or has all it needs.
-/

namespace OpenVino.InferenceEngine

/-! ### Sets of names -/

namespace caseless_set

variable {types set : List String} {s t : String}

theorem caselessEq_comm (s t : String) : caselessEq s t = caselessEq t s := by
  unfold caselessEq
  rw [Bool.beq_comm]

theorem contains_insert (set : List String) (s t : String) :
    contains (insert set s).1 t = (contains set t || caselessEq t s) := by
  unfold insert
  split_ifs with hs
  · rw [contains, List.any_eq_true] at hs
    obtain ⟨u, hu, hsu⟩ := hs
    rcases htu : caselessEq t s with _ | _
    · rw [Bool.or_false]
    · -- what is equal to `s` is equal to the name that is there
      rw [Bool.or_true, contains, List.any_eq_true]
      refine ⟨u, hu, ?_⟩
      simp only [caselessEq, beq_iff_eq] at hsu htu ⊢
      exact htu.trans hsu
  · simp only [contains]
    rw [(List.perm_orderedInsert CaselessLess s set).any_eq, List.any_cons, Bool.or_comm]

theorem length_insert (set : List String) (s : String) :
    (insert set s).1.length = set.length + if contains set s then 0 else 1 := by
  unfold insert
  split_ifs with hs
  · rfl
  · exact List.orderedInsert_length CaselessLess set s

theorem length_le_foldl (types set : List String) :
    set.length ≤ (types.foldl (fun set s => (insert set s).1) set).length := by
  induction types generalizing set with
  | nil => exact Nat.le_refl _
  | cons s types ih =>
    have hhead := length_insert set s
    have hrest := ih (insert set s).1
    rw [List.foldl_cons]
    omega

/-- Nothing is new exactly when every name is there. -/
theorem foldl_insert_eq_iff :
    types.foldl (fun set s => (insert set s).1) set = set ↔ ∀ s ∈ types, contains set s := by
  induction types with
  | nil => simp
  | cons s types ih =>
    rw [List.foldl_cons, List.forall_mem_cons]
    by_cases hs : contains set s
    · have hsame : (insert set s).1 = set := by
        unfold insert
        rw [if_pos hs]
      rw [hsame, ih]
      exact ⟨fun h => ⟨hs, h⟩, fun h => h.2⟩
    · refine ⟨fun h => ?_, fun h => absurd h.1 hs⟩
      have hlength := length_le_foldl types (insert set s).1
      rw [h, length_insert, if_neg hs] at hlength
      omega

/-- No name is there twice, whatever its case. -/
def Distinct (types : List String) : Prop := types.Pairwise fun s t => caselessEq s t = false

theorem Distinct.insert (h : Distinct set) (s : String) : Distinct (insert set s).1 := by
  unfold caseless_set.insert
  split_ifs with hs
  · exact h
  · have hperm := List.perm_orderedInsert CaselessLess s set
    refine (List.Perm.pairwise_iff ?_ hperm).mpr (List.pairwise_cons.mpr ⟨fun t ht => ?_, h⟩)
    · intro t u htu
      rwa [caselessEq_comm]
    · rw [contains, List.any_eq_true] at hs
      by_contra hst
      exact hs ⟨t, ht, Bool.eq_true_of_not_eq_false hst⟩

theorem Distinct.foldl (h : Distinct set) (types : List String) :
    Distinct (types.foldl (fun set s => (caseless_set.insert set s).1) set) := by
  induction types generalizing set with
  | nil => exact h
  | cons s types ih => exact ih (h.insert s)

end caseless_set

namespace ShapeInfer.Reshaper

open caseless_set

variable {β : Type} {n : CNNNetwork β} {getConstInferImpl : String → Option (IConstInferImpl β)}
  {place : List (Launcher β) → Launcher β → Nat} {extension : IShapeInferExtension β} {r r' : Reshaper β}
  {types : List String} {layerType : String} {launchers : List (Launcher β)}

theorem distinct_getTypeNames (h : getTypeNamesFromExtension extension = .ok types) : Distinct types := by
  unfold getTypeNamesFromExtension at h
  split at h
  · obtain rfl := pure_ok_iff.mp h
    exact Distinct.foldl List.Pairwise.nil _
  · exact absurd h throwException_ne_ok

/-! ### The types -/

/-- The reshaper once the types are registered. -/
def registered (r : Reshaper β) (types : List String) : Reshaper β :=
  { r with allTypes := types.foldl (fun set s => (insert set s).1) r.allTypes }

theorem registerTypes_exec (h : Distinct types) (r : Reshaper β) (bad : String) :
    ∃ bad', (registerTypes types bad).exec r = (.ok bad', registered r types) ∧
      (bad' = "" ↔ bad = "" ∧ ∀ s ∈ types, contains r.allTypes s → s = "") := by
  induction types generalizing r bad with
  | nil => exact ⟨bad, rfl, by simp⟩
  | cons s types ih =>
    obtain ⟨hs, htypes⟩ := List.pairwise_cons.mp h
    -- the other types are registered after `s` exactly when they are registered before it
    have hothers : ∀ t ∈ types, contains (insert r.allTypes s).1 t = contains r.allTypes t := by
      intro t ht
      rw [contains_insert, caselessEq_comm, hs t ht, Bool.or_false]
    have hforall : (∀ t ∈ types, contains (insert r.allTypes s).1 t → t = "") ↔
        ∀ t ∈ types, contains r.allTypes t → t = "" :=
      forall₂_congr fun t ht => by rw [hothers t ht]
    rw [registerTypes, Method.exec_bind, Method.exec_get]
    dsimp only
    rw [Method.exec_bind, Method.exec_modify]
    dsimp only
    rw [show registered r (s :: types) = registered { r with allTypes := (insert r.allTypes s).1 } types from rfl]
    by_cases hold : contains r.allTypes s
    · have hnew : (insert r.allTypes s).2 = false := by
        unfold caseless_set.insert
        rw [if_pos hold]
      rw [if_neg (by rw [hnew]; exact Bool.false_ne_true)]
      obtain ⟨bad', hrun, hbad⟩ := ih htypes { r with allTypes := (insert r.allTypes s).1 }
        ((if bad = "" then bad else bad ++ ", ") ++ s)
      refine ⟨bad', hrun, ?_⟩
      rw [hbad, hforall, List.forall_mem_cons]
      have hempty : (if bad = "" then bad else bad ++ ", ") ++ s = "" ↔ bad = "" ∧ s = "" := by
        rw [String.append_eq_empty_iff]
        split_ifs with hb
        · rfl
        · simp [hb]
      rw [hempty]
      tauto
    · have hnew : (insert r.allTypes s).2 = true := by
        unfold caseless_set.insert
        rw [if_neg hold]
      rw [if_pos hnew]
      obtain ⟨bad', hrun, hbad⟩ := ih htypes { r with allTypes := (insert r.allTypes s).1 } bad
      refine ⟨bad', hrun, ?_⟩
      rw [hbad, hforall, List.forall_mem_cons]
      tauto

/-! ### The launchers -/

/-- The extension has an implementation for the layer, and a launcher can be built for it. -/
def Renewable (n : CNNNetwork β) (getConstInferImpl : String → Option (IConstInferImpl β))
    (extension : IShapeInferExtension β) (data : DataPtr → Data) (launcher : Launcher β) : Prop :=
  ∃ new, newLauncher n getConstInferImpl extension (n.type launcher.layer) data launcher = .ok new

def renewed (n : CNNNetwork β) (getConstInferImpl : String → Option (IConstInferImpl β))
    (extension : IShapeInferExtension β) (data : DataPtr → Data) (launcher : Launcher β) : Launcher β :=
  match newLauncher n getConstInferImpl extension (n.type launcher.layer) data launcher with
  | .ok new => new
  | .error _ => launcher

/-- The launchers of the types, renewed. -/
def renew (n : CNNNetwork β) (getConstInferImpl : String → Option (IConstInferImpl β))
    (extension : IShapeInferExtension β) (data : DataPtr → Data) (types : List String) (launcher : Launcher β) :
    Launcher β :=
  if n.type launcher.layer ∈ types then renewed n getConstInferImpl extension data launcher else launcher

theorem newLauncher_ok {new launcher : Launcher β} {data : DataPtr → Data}
    (h : newLauncher n getConstInferImpl extension layerType data launcher = .ok new) :
    new.layer = launcher.layer ∧
      ∃ impl, extension.getShapeInferImpl layerType = some impl ∧ new.kind = .ReshapeLauncher impl := by
  unfold newLauncher at h
  split at h
  · rename_i impl himpl
    unfold createLauncher at h
    simp only [bind_ok_iff, pure_ok_iff] at h
    obtain ⟨i, -, o, -, rfl⟩ := h
    exact ⟨rfl, impl, himpl, rfl⟩
  · exact absurd h throwException_ne_ok

theorem renewed_layer (data : DataPtr → Data) (launcher : Launcher β) :
    (renewed n getConstInferImpl extension data launcher).layer = launcher.layer := by
  unfold renewed
  split
  · rename_i new hnew
    exact (newLauncher_ok hnew).1
  · rfl

theorem renew_layer (data : DataPtr → Data) (types : List String) (launcher : Launcher β) :
    (renew n getConstInferImpl extension data types launcher).layer = launcher.layer := by
  unfold renew
  split_ifs
  · exact renewed_layer data launcher
  · rfl

theorem takeLaunchers_ok (seen : List (Launcher β)) (hr : r.launchers = seen ++ launchers)
    (h : ∀ l ∈ launchers, n.type l.layer = layerType → Renewable n getConstInferImpl extension r.data l) :
    (takeLaunchers n getConstInferImpl extension layerType seen launchers).exec r =
      (.ok ((launchers.filter (n.type ·.layer = layerType)).map (renewed n getConstInferImpl extension r.data)),
        { r with launchers := seen ++ launchers.filter (n.type ·.layer ≠ layerType) }) := by
  induction launchers generalizing seen r with
  | nil =>
    rw [List.append_nil] at hr
    simp [takeLaunchers, ← hr]
  | cons l launchers ih =>
    obtain ⟨hl, hlaunchers⟩ := List.forall_mem_cons.mp h
    rw [takeLaunchers]
    by_cases htype : n.type l.layer = layerType
    · obtain ⟨new, hnew⟩ := hl htype
      have hrenewed : renewed n getConstInferImpl extension r.data l = new := by
        rw [renewed, hnew]
      rw [htype] at hnew
      have hrest := ih seen (r := { r with launchers := seen ++ launchers }) rfl hlaunchers
      rw [if_pos htype]
      simp only [Method.exec_bind, Method.exec_get, Method.exec_lift, hnew, Method.exec_modify, hrest,
        Method.exec_pure]
      simp [htype, hrenewed]
    · rw [if_neg htype, ih (seen ++ [l]) (by rw [hr, List.append_assoc, List.singleton_append]) hlaunchers]
      simp [htype, List.append_assoc]

/-- The first launcher of the type cannot be renewed. -/
def FirstFails (n : CNNNetwork β) (getConstInferImpl : String → Option (IConstInferImpl β))
    (extension : IShapeInferExtension β) (data : DataPtr → Data) (layerType : String)
    (launchers : List (Launcher β)) : Prop :=
  ∃ l, launchers.find? (n.type ·.layer = layerType) = some l ∧ ¬ Renewable n getConstInferImpl extension data l

/-- Every launcher of the type that was renewed before the failure is lost. -/
theorem takeLaunchers_error (seen : List (Launcher β)) (hr : r.launchers.length = seen.length + launchers.length)
    (h : ∃ l ∈ launchers, n.type l.layer = layerType ∧ ¬ Renewable n getConstInferImpl extension r.data l) :
    ∃ e r', (takeLaunchers n getConstInferImpl extension layerType seen launchers).exec r = (.error e, r') ∧
      r'.allTypes = r.allTypes ∧ r'.extensions = r.extensions ∧ r'.launchers.length ≤ r.launchers.length ∧
      (FirstFails n getConstInferImpl extension r.data layerType launchers → r'.launchers = r.launchers) ∧
      (¬ FirstFails n getConstInferImpl extension r.data layerType launchers →
        r'.launchers.length < r.launchers.length) := by
  induction launchers generalizing seen r with
  | nil =>
    obtain ⟨l, hl, -⟩ := h
    exact absurd hl List.not_mem_nil
  | cons l launchers ih =>
    rw [takeLaunchers]
    rw [List.length_cons] at hr
    by_cases htype : n.type l.layer = layerType
    · have hfirst : FirstFails n getConstInferImpl extension r.data layerType (l :: launchers) ↔
          ¬ Renewable n getConstInferImpl extension r.data l := by
        rw [FirstFails, List.find?_cons_of_pos (by simpa using htype)]
        simp
      rw [if_pos htype, hfirst]
      by_cases hl : Renewable n getConstInferImpl extension r.data l
      · obtain ⟨new, hnew⟩ := hl
        rw [htype] at hnew
        have hrest : ∃ l' ∈ launchers, n.type l'.layer = layerType ∧
            ¬ Renewable n getConstInferImpl extension r.data l' := by
          obtain ⟨l', hl', htype', hnot⟩ := h
          rcases List.mem_cons.mp hl' with rfl | hl'
          · exact absurd ⟨new, htype ▸ hnew⟩ hnot
          · exact ⟨l', hl', htype', hnot⟩
        obtain ⟨e, r', hrun, htypes, hext, hle, -, -⟩ :=
          ih seen (r := { r with launchers := seen ++ launchers }) List.length_append hrest
        simp only [List.length_append] at hle
        refine ⟨e, r', ?_, htypes, hext, by omega, fun hnot => absurd ⟨new, htype ▸ hnew⟩ hnot, fun _ => by omega⟩
        simp only [Method.exec_bind, Method.exec_get, Method.exec_lift, hnew, Method.exec_modify, hrun]
      · have herror : ∃ e, newLauncher n getConstInferImpl extension layerType r.data l = .error e := by
          rcases hnew : newLauncher n getConstInferImpl extension layerType r.data l with e | new
          · exact ⟨e, rfl⟩
          · exact absurd ⟨new, htype ▸ hnew⟩ hl
        obtain ⟨e, he⟩ := herror
        refine ⟨e, r, ?_, rfl, rfl, Nat.le_refl _, fun _ => rfl, fun hnot => absurd hl hnot⟩
        simp only [Method.exec_bind, Method.exec_get, Method.exec_lift, he]
    · have hfirst : FirstFails n getConstInferImpl extension r.data layerType (l :: launchers) ↔
          FirstFails n getConstInferImpl extension r.data layerType launchers := by
        rw [FirstFails, FirstFails, List.find?_cons_of_neg (by simpa using htype)]
      rw [if_neg htype, hfirst]
      apply ih
      · rw [List.length_append, List.length_singleton]
        omega
      · obtain ⟨l', hl', htype', hnot⟩ := h
        rcases List.mem_cons.mp hl' with rfl | hl'
        · exact absurd htype' htype
        · exact ⟨l', hl', htype', hnot⟩

theorem foldl_insertLauncher_perm (new launchers : List (Launcher β)) :
    (new.foldl (insertLauncher place) launchers).Perm (launchers ++ new) := by
  induction new generalizing launchers with
  | nil => rw [List.foldl_nil, List.append_nil]
  | cons l new ih =>
    rw [List.foldl_cons]
    refine (ih _).trans ?_
    have hhead : (insertLauncher place launchers l).Perm (l :: launchers) :=
      List.perm_insertIdx l launchers (Nat.min_le_right _ _)
    refine (hhead.append_right new).trans ?_
    rw [List.cons_append]
    exact List.perm_middle.symm

/-- What the loop does with the launchers of one type. -/
theorem replaceLaunchers_ok
    (h : ∀ l ∈ r.launchers, n.type l.layer = layerType → Renewable n getConstInferImpl extension r.data l) :
    ∃ launchers, (replaceLaunchers n getConstInferImpl place extension layerType).exec r =
        (.ok (), { r with launchers }) ∧
      launchers.Perm (r.launchers.map (renew n getConstInferImpl extension r.data [layerType])) := by
  have htake := takeLaunchers_ok [] (List.nil_append _).symm h
  let new := (r.launchers.filter (n.type ·.layer = layerType)).map (renewed n getConstInferImpl extension r.data)
  refine ⟨new.foldl (insertLauncher place) ([] ++ r.launchers.filter (n.type ·.layer ≠ layerType)), ?_, ?_⟩
  · rw [replaceLaunchers]
    simp only [Method.exec_bind, Method.exec_get, htake, Method.exec_modify]
    rfl
  · refine (foldl_insertLauncher_perm _ _).trans ?_
    rw [List.nil_append]
    refine List.perm_append_comm.trans ?_
    have hsplit := List.filter_append_perm (fun l : Launcher β => decide (n.type l.layer = layerType)) r.launchers
    refine List.Perm.trans ?_ (hsplit.map _)
    rw [List.map_append]
    refine List.Perm.append (.of_eq ?_) (.of_eq ?_)
    · refine List.map_congr_left fun l hl => ?_
      have htype := of_decide_eq_true (List.mem_filter.mp hl).2
      rw [renew, if_pos (by rw [htype]; exact List.mem_singleton_self _)]
    · have hcongr : ∀ l ∈ r.launchers.filter (fun l => !decide (n.type l.layer = layerType)),
          renew n getConstInferImpl extension r.data [layerType] l = id l := by
        intro l hl
        have htype := (List.mem_filter.mp hl).2
        rw [renew, if_neg (by simpa using htype), id]
      rw [List.map_congr_left hcongr, List.map_id]
      simp only [ne_eq, decide_not]

theorem replaceLaunchers_error
    (h : ∃ l ∈ r.launchers, n.type l.layer = layerType ∧ ¬ Renewable n getConstInferImpl extension r.data l) :
    ∃ e r', (replaceLaunchers n getConstInferImpl place extension layerType).exec r = (.error e, r') ∧
      r'.allTypes = r.allTypes ∧ r'.extensions = r.extensions ∧
      (FirstFails n getConstInferImpl extension r.data layerType r.launchers ↔ r'.launchers.Perm r.launchers) := by
  obtain ⟨e, r', hrun, htypes, hext, -, hsame, hless⟩ :=
    takeLaunchers_error [] (by rw [List.length_nil, Nat.zero_add]) h
  refine ⟨e, r', ?_, htypes, hext, fun hfirst => .of_eq (hsame hfirst), fun hperm => ?_⟩
  · rw [replaceLaunchers]
    simp only [Method.exec_bind, Method.exec_get, hrun]
  · by_contra hnot
    have hlt := hless hnot
    have heq := hperm.length_eq
    omega

theorem renew_of_ne {data : DataPtr → Data} {l : Launcher β} (h : n.type l.layer ≠ layerType) :
    renew n getConstInferImpl extension data [layerType] l = l := by
  rw [renew, if_neg (by rwa [List.mem_singleton])]

theorem renew_renew {data : DataPtr → Data} (h : layerType ∉ types) (l : Launcher β) :
    renew n getConstInferImpl extension data types (renew n getConstInferImpl extension data [layerType] l) =
      renew n getConstInferImpl extension data (layerType :: types) l := by
  by_cases htype : n.type l.layer = layerType
  · have hrenewed : renew n getConstInferImpl extension data [layerType] l =
        renewed n getConstInferImpl extension data l := by
      rw [renew, if_pos (by rw [htype]; exact List.mem_singleton_self _)]
    rw [hrenewed, renew, renewed_layer, if_neg (by rwa [htype]), renew,
      if_pos (by rw [htype]; exact List.mem_cons_self)]
  · rw [renew_of_ne htype]
    simp only [renew, List.mem_cons, htype, false_or]

/-- The launchers of the other types are still the ones that were there. -/
theorem mem_of_mem_renew {data : DataPtr → Data} {launchers' : List (Launcher β)} (ht : layerType ∉ types)
    (hperm : launchers'.Perm (launchers.map (renew n getConstInferImpl extension data [layerType])))
    {l : Launcher β} (htype : n.type l.layer ∈ types) : l ∈ launchers' ↔ l ∈ launchers := by
  rw [hperm.mem_iff, List.mem_map]
  have hne : n.type l.layer ≠ layerType := ne_of_mem_of_not_mem htype ht
  constructor
  · rintro ⟨l₀, hl₀, rfl⟩
    rw [renew_layer] at hne
    rwa [renew_of_ne hne]
  · exact fun hl => ⟨l, hl, renew_of_ne hne⟩

theorem forM_replaceLaunchers_ok (hnodup : types.Nodup)
    (h : ∀ l ∈ r.launchers, n.type l.layer ∈ types → Renewable n getConstInferImpl extension r.data l) :
    ∃ launchers, (types.forM (replaceLaunchers n getConstInferImpl place extension)).exec r =
        (.ok (), { r with launchers }) ∧
      launchers.Perm (r.launchers.map (renew n getConstInferImpl extension r.data types)) := by
  induction types generalizing r with
  | nil =>
    refine ⟨r.launchers, rfl, .of_eq ?_⟩
    have hid : renew n getConstInferImpl extension r.data [] = id := by
      funext l
      rw [renew, if_neg List.not_mem_nil, id]
    rw [hid, List.map_id]
  | cons t types ih =>
    obtain ⟨ht, hnodup⟩ := List.nodup_cons.mp hnodup
    have hhead : ∀ l ∈ r.launchers, n.type l.layer = t → Renewable n getConstInferImpl extension r.data l := by
      intro l hl htype
      exact h l hl (htype ▸ List.mem_cons_self)
    obtain ⟨launchers, hrun, hperm⟩ := @replaceLaunchers_ok _ _ _ place _ _ _ hhead
    obtain ⟨launchers', hrun', hperm'⟩ := ih (r := { r with launchers }) hnodup fun l hl htype =>
      h l ((mem_of_mem_renew ht hperm htype).mp hl) (List.mem_cons_of_mem t htype)
    refine ⟨launchers', ?_, ?_⟩
    · rw [Method.exec_forM_cons, hrun]
      exact hrun'
    · refine hperm'.trans ((hperm.map _).trans (.of_eq ?_))
      rw [List.map_map]
      exact List.map_congr_left fun l _ => renew_renew ht l

theorem forM_replaceLaunchers_error (hnodup : types.Nodup)
    (h : ∃ l ∈ r.launchers, n.type l.layer ∈ types ∧ ¬ Renewable n getConstInferImpl extension r.data l) :
    ∃ e r', (types.forM (replaceLaunchers n getConstInferImpl place extension)).exec r = (.error e, r') ∧
      r'.allTypes = r.allTypes := by
  induction types generalizing r with
  | nil =>
    obtain ⟨l, -, hl, -⟩ := h
    exact absurd hl List.not_mem_nil
  | cons t types ih =>
    obtain ⟨ht, hnodup⟩ := List.nodup_cons.mp hnodup
    rw [Method.exec_forM_cons]
    by_cases hhead : ∀ l ∈ r.launchers, n.type l.layer = t → Renewable n getConstInferImpl extension r.data l
    · obtain ⟨launchers, hrun, hperm⟩ := @replaceLaunchers_ok _ _ _ place _ _ _ hhead
      obtain ⟨l, hl, htype, hnot⟩ := h
      have hmem : n.type l.layer ∈ types := by
        refine (List.mem_cons.mp htype).resolve_left fun heq => ?_
        exact hnot (hhead l hl heq)
      rw [hrun]
      exact ih (r := { r with launchers }) hnodup ⟨l, (mem_of_mem_renew ht hperm hmem).mpr hl, hmem, hnot⟩
    · push Not at hhead
      obtain ⟨e, r', hrun, htypes, -, -⟩ := @replaceLaunchers_error _ _ _ place _ _ _ hhead
      rw [hrun]
      exact ⟨e, r', rfl, htypes⟩

/-! ### The call -/

/-- What the call leaves as it was. -/
structure NoTrace (r r' : Reshaper β) : Prop where
  allTypes : r'.allTypes = r.allTypes
  launchers : r'.launchers.Perm r.launchers
  extensions : r'.extensions = r.extensions

/-- The launcher uses the implementation that the extension has for its type. -/
def Uses (n : CNNNetwork β) (extension : IShapeInferExtension β) (launcher : Launcher β) : Prop :=
  ∃ impl, extension.getShapeInferImpl (n.type launcher.layer) = some impl ∧ launcher.kind = .ReshapeLauncher impl

/-- The launchers of the types use the extension, and the others are the ones that were there. -/
def Replaces (n : CNNNetwork β) (extension : IShapeInferExtension β) (types : List String) (r r' : Reshaper β) : Prop :=
  ∃ launchers, r'.launchers.Perm launchers ∧
    List.Forall₂ (fun l l' => if contains types (n.type l.layer) then l'.layer = l.layer ∧ Uses n extension l' else l' = l)
      r.launchers launchers

/-- A call that throws leaves no trace, and one that returns replaces the launchers of the extension's types. -/
def AddExtensionCorrect (n : CNNNetwork β) (getConstInferImpl : String → Option (IConstInferImpl β))
    (place : List (Launcher β) → Launcher β → Nat) (extension : Option (IShapeInferExtension β))
    (r : Reshaper β) : Prop :=
  ∀ result r', (AddExtension n getConstInferImpl place extension).exec r = (result, r') →
    (∀ e, result = .error e → NoTrace r r') ∧
      (result = .ok () → ∀ e types, extension = some e → getTypeNamesFromExtension e = .ok types → Replaces n e types r r')

/-- No type is new, and the call throws because of one of them, or at the first launcher of the type without
a name. -/
def FailsBeforeChanges (n : CNNNetwork β) (getConstInferImpl : String → Option (IConstInferImpl β))
    (extension : IShapeInferExtension β) (types : List String) (r : Reshaper β) : Prop :=
  (∀ t ∈ types, contains r.allTypes t) ∧
    ((∃ t ∈ types, t ≠ "") ∨ "" ∈ types ∧ FirstFails n getConstInferImpl extension r.data "" r.launchers)

/-- All types are new, every launcher of one of them can be renewed, and no launcher has one of them in another
spelling. -/
structure Accepted (n : CNNNetwork β) (getConstInferImpl : String → Option (IConstInferImpl β))
    (extension : IShapeInferExtension β) (types : List String) (r : Reshaper β) : Prop where
  new : ∀ t ∈ types, contains r.allTypes t → t = ""
  renewable : ∀ l ∈ r.launchers, n.type l.layer ∈ types → Renewable n getConstInferImpl extension r.data l
  spelled : ∀ l ∈ r.launchers, contains types (n.type l.layer) → n.type l.layer ∈ types ∨ Uses n extension l

theorem contains_of_mem {t : String} (h : t ∈ types) : contains types t := by
  rw [contains, List.any_eq_true]
  exact ⟨t, h, beq_self_eq_true _⟩

theorem nodup_of_distinct (h : Distinct types) : types.Nodup := by
  refine List.Pairwise.imp (fun {s t} hst heq => ?_) h
  rw [heq] at hst
  simp [caselessEq] at hst

theorem uses_renewed {data : DataPtr → Data} {l : Launcher β} (h : Renewable n getConstInferImpl extension data l) :
    Uses n extension (renewed n getConstInferImpl extension data l) := by
  obtain ⟨new, hnew⟩ := h
  obtain ⟨hlayer, impl, himpl, hkind⟩ := newLauncher_ok hnew
  have hrenewed : renewed n getConstInferImpl extension data l = new := by
    rw [renewed, hnew]
  rw [hrenewed]
  exact ⟨impl, by rwa [hlayer], hkind⟩

theorem replaces_iff (hperm : r'.launchers.Perm (r.launchers.map (renew n getConstInferImpl extension r.data types)))
    (hrenew : ∀ l ∈ r.launchers, n.type l.layer ∈ types → Renewable n getConstInferImpl extension r.data l) :
    Replaces n extension types r r' ↔
      ∀ l ∈ r.launchers, contains types (n.type l.layer) → n.type l.layer ∈ types ∨ Uses n extension l := by
  constructor
  · rintro ⟨launchers, hlaunchers, hpairs⟩ l hl hcontains
    rw [or_iff_not_imp_left]
    intro hmem
    -- the launcher is still in the set, where a launcher of one of the types uses the extension
    have hl' : l ∈ launchers := by
      rw [← hlaunchers.mem_iff, hperm.mem_iff, List.mem_map]
      exact ⟨l, hl, by rw [renew, if_neg hmem]⟩
    obtain ⟨i, hi, hget⟩ := List.mem_iff_getElem.mp hl'
    have hpair := (List.forall₂_iff_get.mp hpairs).2 i (by rw [hpairs.length_eq]; exact hi) hi
    simp only [List.get_eq_getElem, hget] at hpair
    split_ifs at hpair with hold
    · exact hpair.2
    · rw [← hpair] at hold
      exact absurd hcontains hold
  · intro hspelled
    refine ⟨_, hperm, ?_⟩
    rw [List.forall₂_map_right_iff, List.forall₂_same]
    intro l hl
    by_cases hmem : n.type l.layer ∈ types
    · rw [if_pos (contains_of_mem hmem), renew, if_pos hmem]
      exact ⟨renewed_layer r.data l, uses_renewed (hrenew l hl hmem)⟩
    · rw [renew, if_neg hmem]
      split_ifs with hcontains
      · exact ⟨rfl, (hspelled l hl hcontains).resolve_left hmem⟩
      · rfl

section Call

variable {e : IShapeInferExtension β} (htypes : getTypeNamesFromExtension e = .ok types)

include htypes

theorem addExtension_refused (hold : ∃ t ∈ types, contains r.allTypes t ∧ t ≠ "") :
    ∃ err, (AddExtension n getConstInferImpl place (some e)).exec r = (.error err, registered r types) := by
  obtain ⟨bad, hregister, hbad⟩ := registerTypes_exec (distinct_getTypeNames htypes) r ""
  obtain ⟨t, ht, hcontains, hne⟩ := hold
  have hbad' : bad ≠ "" := fun h => hne ((hbad.mp h).2 t ht hcontains)
  refine ⟨.exception ("Failed to add extension with already registered types:" ++ bad), ?_⟩
  rw [AddExtension, htypes]
  simp only [Method.exec_bind, Method.exec_lift, hregister, if_pos hbad', Method.exec_throw]

variable (hnew : ∀ t ∈ types, contains r.allTypes t → t = "")

include hnew

/-- The call goes on to the launchers. -/
theorem addExtension_exec :
    (AddExtension n getConstInferImpl place (some e)).exec r =
      match (types.forM (replaceLaunchers n getConstInferImpl place e)).exec (registered r types) with
      | (.ok _, r') => (.ok (), { r' with extensions := r'.extensions ++ [e] })
      | (.error err, r') => (.error err, r') := by
  obtain ⟨bad, hregister, hbad⟩ := registerTypes_exec (distinct_getTypeNames htypes) r ""
  have hbad' : ¬ bad ≠ "" := not_not.mpr (hbad.mpr ⟨rfl, hnew⟩)
  rw [AddExtension, htypes]
  simp only [Method.exec_bind, Method.exec_lift, hregister, if_neg hbad', Method.exec_modify]
  rcases (types.forM (replaceLaunchers n getConstInferImpl place e)).exec (registered r types) with ⟨_ | _, _⟩
  · rfl
  · rfl

theorem addExtension_returns
    (hrenew : ∀ l ∈ r.launchers, n.type l.layer ∈ types → Renewable n getConstInferImpl e r.data l) :
    ∃ r', (AddExtension n getConstInferImpl place (some e)).exec r = (.ok (), r') ∧
      r'.launchers.Perm (r.launchers.map (renew n getConstInferImpl e r.data types)) := by
  have hnodup := nodup_of_distinct (distinct_getTypeNames htypes)
  obtain ⟨launchers, hrun, hperm⟩ := @forM_replaceLaunchers_ok _ _ _ place _ (registered r types) _ hnodup hrenew
  refine ⟨{ registered r types with launchers, extensions := r.extensions ++ [e] }, ?_, hperm⟩
  rw [addExtension_exec htypes hnew, hrun]
  rfl

theorem addExtension_lost
    (hlost : ∃ l ∈ r.launchers, n.type l.layer ∈ types ∧ ¬ Renewable n getConstInferImpl e r.data l) :
    ∃ err r', (AddExtension n getConstInferImpl place (some e)).exec r = (.error err, r') ∧
      r'.allTypes = (registered r types).allTypes ∧
      (types = [""] → r'.extensions = r.extensions ∧
        (FirstFails n getConstInferImpl e r.data "" r.launchers ↔ r'.launchers.Perm r.launchers)) := by
  have hnodup := nodup_of_distinct (distinct_getTypeNames htypes)
  obtain ⟨err, r', hrun, hall⟩ := @forM_replaceLaunchers_error _ _ _ place _ (registered r types) _ hnodup hlost
  refine ⟨err, r', ?_, hall, fun hone => ?_⟩
  · rw [addExtension_exec htypes hnew, hrun]
  · subst hone
    have hlost' : ∃ l ∈ r.launchers, n.type l.layer = "" ∧ ¬ Renewable n getConstInferImpl e r.data l := by
      simpa only [List.mem_singleton] using hlost
    obtain ⟨err', r'', hrun', -, hext, hfirst⟩ := @replaceLaunchers_error _ _ _ place _ (registered r [""]) _ hlost'
    rw [Method.exec_forM_cons, hrun'] at hrun
    obtain ⟨-, rfl⟩ := Prod.ext_iff.mp hrun
    exact ⟨hext, hfirst⟩

end Call

/-- **A failed registration leaves no trace** exactly when it fails before it changes anything; a call that has all
it needs replaces the launchers of the extension's types. -/
theorem addExtension_iff (n : CNNNetwork β) (getConstInferImpl : String → Option (IConstInferImpl β))
    (place : List (Launcher β) → Launcher β → Nat) (extension : Option (IShapeInferExtension β)) (r : Reshaper β) :
    AddExtensionCorrect n getConstInferImpl place extension r ↔
      ∀ e types, extension = some e → getTypeNamesFromExtension e = .ok types →
        FailsBeforeChanges n getConstInferImpl e types r ∨ Accepted n getConstInferImpl e types r := by
  rcases extension with _ | e
  · refine iff_of_true (fun result r' hrun => ?_) fun e types he => by cases he
    cases hrun
    exact ⟨fun _ _ => ⟨rfl, .refl _, rfl⟩, fun h => by cases h⟩
  rcases htypes : getTypeNamesFromExtension e with err | types
  · refine iff_of_true (fun result r' hrun => ?_) fun e' types he htypes' => ?_
    · rw [AddExtension, htypes] at hrun
      cases hrun
      exact ⟨fun _ _ => ⟨rfl, .refl _, rfl⟩, fun h => by cases h⟩
    · rw [← Option.some_inj.mp he, htypes] at htypes'
      cases htypes'
  have hgoal : (∀ e' types', some e = some e' → getTypeNamesFromExtension e' = .ok types' →
      FailsBeforeChanges n getConstInferImpl e' types' r ∨ Accepted n getConstInferImpl e' types' r) ↔
      FailsBeforeChanges n getConstInferImpl e types r ∨ Accepted n getConstInferImpl e types r := by
    refine ⟨fun h => h e types rfl htypes, fun h e' types' he htypes' => ?_⟩
    obtain rfl := Option.some_inj.mp he
    obtain rfl := Except.ok.inj (htypes.symm.trans htypes')
    exact h
  have hsame : (registered r types).allTypes = r.allTypes ↔ ∀ t ∈ types, contains r.allTypes t :=
    foldl_insert_eq_iff
  rw [hgoal]
  have hempty : "" ∈ types → (∀ t ∈ types, t = "") → types = [""] := by
    intro hmem hall
    have hreplicate := List.eq_replicate_of_mem hall
    have hle := List.nodup_replicate.mp (hreplicate ▸ nodup_of_distinct (distinct_getTypeNames htypes))
    have hpos := List.length_pos_of_mem hmem
    rw [hreplicate, show types.length = 1 by omega]
    rfl
  by_cases hnew : ∀ t ∈ types, contains r.allTypes t → t = ""
  · by_cases hrenew : ∀ l ∈ r.launchers, n.type l.layer ∈ types → Renewable n getConstInferImpl e r.data l
    · -- the call returns
      obtain ⟨r', hrun, hperm⟩ := @addExtension_returns _ n getConstInferImpl place _ _ e htypes hnew hrenew
      have hcorrect : AddExtensionCorrect n getConstInferImpl place (some e) r ↔ Replaces n e types r r' := by
        constructor
        · exact fun h => (h _ _ hrun).2 rfl e types rfl htypes
        · intro h result r'' hrun'
          obtain ⟨rfl, rfl⟩ := Prod.ext_iff.mp (hrun.symm.trans hrun')
          refine ⟨fun _ herr => (by cases herr), fun _ e' types' he htypes' => ?_⟩
          obtain rfl := Option.some_inj.mp he
          obtain rfl := Except.ok.inj (htypes.symm.trans htypes')
          exact h
      rw [hcorrect, replaces_iff hperm hrenew]
      constructor
      · exact fun hspelled => .inr ⟨hnew, hrenew, hspelled⟩
      · rintro (⟨hall, ⟨t, ht, hne⟩ | ⟨hmem, l, hfind, hnot⟩⟩ | haccepted)
        · exact absurd (hnew t ht (hall t ht)) hne
        · have htype : n.type l.layer = "" := by simpa using List.find?_some hfind
          exact absurd (hrenew l (List.mem_of_find?_eq_some hfind) (htype ▸ hmem)) hnot
        · exact haccepted.spelled
    · -- the call throws at a launcher
      push Not at hrenew
      obtain ⟨err, r', hrun, hall, hone⟩ := @addExtension_lost _ n getConstInferImpl place _ _ e htypes hnew hrenew
      have hcorrect : AddExtensionCorrect n getConstInferImpl place (some e) r ↔ NoTrace r r' := by
        constructor
        · exact fun h => (h _ _ hrun).1 err rfl
        · intro h result r'' hrun'
          obtain ⟨rfl, rfl⟩ := Prod.ext_iff.mp (hrun.symm.trans hrun')
          exact ⟨fun _ _ => h, fun hok => by cases hok⟩
      obtain ⟨l, hl, htype, hnot⟩ := hrenew
      rw [hcorrect]
      constructor
      · intro htrace
        have hcontains := hsame.mp (hall.symm.trans htrace.allTypes)
        have hnames : ∀ t ∈ types, t = "" := fun t ht => hnew t ht (hcontains t ht)
        have hmem : "" ∈ types := hnames _ htype ▸ htype
        exact .inl ⟨hcontains, .inr ⟨hmem, (hone (hempty hmem hnames)).2.mpr htrace.launchers⟩⟩
      · rintro (⟨hcontains, ⟨t, ht, hne⟩ | ⟨hmem, hfirst⟩⟩ | haccepted)
        · exact absurd (hnew t ht (hcontains t ht)) hne
        · obtain ⟨hext, hperm⟩ := hone (hempty hmem fun t ht => hnew t ht (hcontains t ht))
          exact ⟨hall.trans (hsame.mpr hcontains), hperm.mp hfirst, hext⟩
        · exact absurd (haccepted.renewable l hl htype) hnot
  · -- the call throws at a type
    push Not at hnew
    obtain ⟨err, hrun⟩ := @addExtension_refused _ n getConstInferImpl place _ _ e htypes hnew
    obtain ⟨t, ht, hcontains, hne⟩ := hnew
    have hcorrect : AddExtensionCorrect n getConstInferImpl place (some e) r ↔ NoTrace r (registered r types) := by
      constructor
      · exact fun h => (h _ _ hrun).1 err rfl
      · intro h result r'' hrun'
        obtain ⟨rfl, rfl⟩ := Prod.ext_iff.mp (hrun.symm.trans hrun')
        exact ⟨fun _ _ => h, fun hok => by cases hok⟩
    rw [hcorrect]
    constructor
    · exact fun htrace => .inl ⟨hsame.mp htrace.allTypes, .inl ⟨t, ht, hne⟩⟩
    · rintro (⟨hall, -⟩ | haccepted)
      · exact ⟨hsame.mpr hall, .refl _, rfl⟩
      · exact absurd (haccepted.new t ht hcontains) hne

section Example

/-- The call refuses `Old` when `New` is registered already, and a later call refuses `New`. -/
theorem refused_type_registered :
    ¬ AddExtensionCorrect (chain "New") (fun _ => none) (fun _ _ => 0) (some (copies ["New", "Old"]))
        (chainReshaper .FakeReshapeLauncher .NC) ∧
      ∃ r', ((AddExtension (chain "New") (fun _ => none) (fun _ _ => 0) (some (copies ["New", "Old"]))).exec
          (chainReshaper .FakeReshapeLauncher .NC)) =
          (.error (.exception "Failed to add extension with already registered types:Old"), r') ∧
        ((AddExtension (chain "New") (fun _ => none) (fun _ _ => 0) (some (copies ["New"]))).exec r').1 =
          .error (.exception "Failed to add extension with already registered types:New") := by
  have hfirst : ((AddExtension (chain "New") (fun _ => none) (fun _ _ => 0) (some (copies ["New", "Old"]))).exec
      (chainReshaper .FakeReshapeLauncher .NC)) =
      (.error (.exception "Failed to add extension with already registered types:Old"),
        registered (chainReshaper .FakeReshapeLauncher .NC) ["New", "Old"]) := by
    rfl
  refine ⟨fun h => ?_, _, hfirst, by rfl⟩
  have htypes := ((h _ _ hfirst).1 _ rfl).allTypes
  revert htypes
  decide

end Example

end ShapeInfer.Reshaper

end OpenVino.InferenceEngine
