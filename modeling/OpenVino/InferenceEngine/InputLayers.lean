import OpenVino.InferenceEngine.GraphTools

/-!
# The input layers

`UnorderedDFS` visits what is connected with its first layer, against the direction of the `Data` too
(`Near`): each call of `cycleDFS` makes the queue and the layers that are not visited less (`load_lt`), and
what is next to a visited layer is visited or in the queue (`Exploring`). `mem_inputLayers_iff`: the input layers are
the layers without input `Data` that are connected with the first consumer of a network input.
-/

namespace OpenVino.InferenceEngine.ICNNNetwork

open Relation

/-- The layers and the `Data` point at each other, no `Data` is gone, and names are the layers' own. -/
structure Consistent (n : ICNNNetwork) : Prop where
  names : ∀ l ∈ n.layers, ∀ m ∈ n.layers, n.name l = n.name m → l = m
  alive : ∀ l, none ∉ n.insData l
  consumers : ∀ d l, some l ∈ n.getInputTo d ↔ some d ∈ n.insData l
  creators : ∀ d l, n.getCreatorLayer d = some l ↔ d ∈ n.outData l

variable {n : ICNNNetwork} {s t : ICNNNetwork.QueueState} {l m : CNNLayerPtr} {fuel : Nat}
  {parents : List (Option CNNLayerPtr)} {ks : List CNNLayerPtr}

/-- `m` reads what `l` writes, or writes what `l` reads. -/
def Near (n : ICNNNetwork) (l m : CNNLayerPtr) : Prop :=
  some m ∈ n.outLayers l ∨ ∃ d, some d ∈ n.insData l ∧ n.getCreatorLayer d = some m

/-- The layer is connected with the first consumer of a network input, and has no input `Data`. -/
def InputLayer (n : ICNNNetwork) (l : CNNLayerPtr) : Prop :=
  n.insData l = [] ∧ ∃ d ∈ n.getInputsInfo, ∃ first rest, n.getInputTo d = some first :: rest ∧
    ReflTransGen n.Near first l

/-! ### One layer from the queue -/

theorem creatorLayers_ok (l : CNNLayerPtr) {insData : List (Option DataPtr)} (halive : none ∉ insData) :
    ∃ parents, n.creatorLayers l insData = .ok parents ∧ parents.length ≤ insData.length ∧
      ∀ m, some m ∈ parents ↔ ∃ d, some d ∈ insData ∧ n.getCreatorLayer d = some m := by
  induction insData with
  | nil => exact ⟨[], rfl, Nat.le_refl _, by simp⟩
  | cons input insData ih =>
    rw [List.mem_cons, not_or] at halive
    obtain ⟨parents, hrun, hlength, hmem⟩ := ih halive.2
    obtain ⟨d, rfl⟩ := Option.ne_none_iff_exists'.mp (Ne.symm halive.1)
    rw [creatorLayers, hrun]
    cases hcreator : n.getCreatorLayer d with
    | none =>
      refine ⟨parents, rfl, by rw [List.length_cons]; omega, fun m => ?_⟩
      rw [hmem m]
      constructor
      · rintro ⟨d', hd', hm⟩
        exact ⟨d', List.mem_cons_of_mem _ hd', hm⟩
      · rintro ⟨d', hd', hm⟩
        rcases List.mem_cons.mp hd' with heq | hd'
        · rw [Option.some_inj.mp heq, hcreator] at hm
          cases hm
        · exact ⟨d', hd', hm⟩
    | some creatorLayer =>
      refine ⟨some creatorLayer :: parents, rfl, ?_, fun m => ?_⟩
      · rw [List.length_cons, List.length_cons]
        omega
      · rw [List.mem_cons, hmem m]
        constructor
        · rintro (hm | ⟨d', hd', hm⟩)
          · exact ⟨d, List.mem_cons_self, hcreator.trans hm.symm⟩
          · exact ⟨d', List.mem_cons_of_mem _ hd', hm⟩
        · rintro ⟨d', hd', hm⟩
          rcases List.mem_cons.mp hd' with heq | hd'
          · rw [Option.some_inj.mp heq, hcreator] at hm
            exact .inl hm.symm
          · exact .inr ⟨d', hd', hm⟩

theorem mem_of_mem_insertLayer (h : l ∈ n.insertLayer m ks) : l = m ∨ l ∈ ks := by
  induction ks with
  | nil => exact .inl (List.mem_singleton.mp h)
  | cons k ks ih =>
    rw [insertLayer] at h
    split_ifs at h
    · exact List.mem_cons.mp h
    · rcases List.mem_cons.mp h with heq | h
      · exact .inr (List.mem_cons.mpr (.inl heq))
      · exact (ih h).imp_right (List.mem_cons_of_mem _)
    · exact .inr h

theorem mem_insertLayer_iff (hnames : ∀ k ∈ ks, n.name k = n.name m → k = m) :
    l ∈ n.insertLayer m ks ↔ l = m ∨ l ∈ ks := by
  refine ⟨mem_of_mem_insertLayer, fun h => ?_⟩
  induction ks with
  | nil => exact List.mem_singleton.mpr (h.resolve_right List.not_mem_nil)
  | cons k ks ih =>
    have hrest := ih fun j hj => hnames j (List.mem_cons_of_mem _ hj)
    rw [insertLayer]
    split_ifs with hlt hgt
    · exact List.mem_cons.mpr h
    · rw [List.mem_cons] at h ⊢
      tauto
    · -- the set has a layer of that name, which is the layer itself
      have hk : k = m := hnames k List.mem_cons_self (le_antisymm (not_lt.mp hlt) (not_lt.mp hgt))
      rw [List.mem_cons, hk] at h ⊢
      tauto

theorem nodup_insertLayer (hm : m ∉ ks) (hks : ks.Nodup) : (n.insertLayer m ks).Nodup := by
  induction ks with
  | nil => exact List.nodup_singleton m
  | cons k ks ih =>
    obtain ⟨hk, hrest⟩ := List.nodup_cons.mp hks
    rw [List.mem_cons, not_or] at hm
    rw [insertLayer]
    split_ifs with hlt hgt
    · exact List.nodup_cons.mpr ⟨by rw [List.mem_cons, not_or]; exact hm, hks⟩
    · refine List.nodup_cons.mpr ⟨fun hmem => ?_, ih hm.2 hrest⟩
      exact (mem_of_mem_insertLayer hmem).elim (fun heq => hm.1 heq.symm) hk
    · exact hks

/-! ### The queue -/

/-- The queue, and what the layers that are not visited will still put into it. -/
def load (n : ICNNNetwork) (s : QueueState) : Nat := s.layers.length + ∑ l ∈ n.layers \ s.visited, n.degree l

/-- The search has started at the layers of `Start`. -/
structure Exploring (n : ICNNNetwork) (Start : CNNLayerPtr → Prop) (s : QueueState) : Prop where
  queued : ∀ l, some l ∈ s.layers → l ∈ n.layers
  known : ∀ l ∈ s.visited, l ∈ n.layers
  started : ∀ l, Start l → l ∈ s.visited ∨ some l ∈ s.layers
  closed : ∀ l ∈ s.visited, ∀ m, n.Near l m → m ∈ s.visited ∨ some m ∈ s.layers
  sound : ∀ l, l ∈ s.visited ∨ some l ∈ s.layers → ∃ r, Start r ∧ ReflTransGen n.Near r l
  mem_inputLayers : ∀ l, l ∈ s.inputLayers ↔ l ∈ s.visited ∧ n.insData l = []
  nodup : s.inputLayers.Nodup

variable {Start : CNNLayerPtr → Prop} {first : Option CNNLayerPtr} {layers : List (Option CNNLayerPtr)}

/-- A layer that is visited, or no layer, is taken from the queue. -/
theorem Exploring.pop (hs : n.Exploring Start s) (hlayers : s.layers = first :: layers)
    (hfirst : ∀ l, first = some l → l ∈ s.visited) : n.Exploring Start { s with layers } := by
  have hmove : ∀ l, l ∈ s.visited ∨ some l ∈ s.layers → l ∈ s.visited ∨ some l ∈ layers := by
    intro l hl
    rw [hlayers, List.mem_cons] at hl
    rcases hl with hl | hl | hl
    · exact .inl hl
    · exact .inl (hfirst l hl.symm)
    · exact .inr hl
  have hback : ∀ l, some l ∈ layers → some l ∈ s.layers := by
    intro l hl
    rw [hlayers]
    exact List.mem_cons_of_mem _ hl
  refine ⟨fun l hl => hs.queued l (hback l hl), hs.known, fun l hl => hmove l (hs.started l hl), ?_, ?_,
    hs.mem_inputLayers, hs.nodup⟩
  · exact fun l hl m hm => hmove m (hs.closed l hl m hm)
  · exact fun l hl => hs.sound l (hl.imp_right (hback l))

theorem Exploring.visit (hn : n.Consistent) (hs : n.Exploring Start s) (hlayers : s.layers = some l :: layers)
    (hnew : l ∉ s.visited) (hparents : ∀ m, some m ∈ parents ↔ ∃ d, some d ∈ n.insData l ∧ n.getCreatorLayer d = some m) :
    n.Exploring Start {
      visited := insert l s.visited
      layers := layers ++ (n.outLayers l ++ parents)
      inputLayers := if n.insData l = [] then n.insertLayer l s.inputLayers else s.inputLayers } := by
  have hnear : ∀ m, some m ∈ n.outLayers l ++ parents ↔ n.Near l m := by
    intro m
    rw [List.mem_append, hparents]
    exact Iff.rfl
  have hqueued : l ∈ n.layers := hs.queued l (hlayers ▸ List.mem_cons_self)
  have hmove : ∀ k, k ∈ s.visited ∨ some k ∈ s.layers →
      k ∈ insert l s.visited ∨ some k ∈ layers ++ (n.outLayers l ++ parents) := by
    intro k hk
    rw [hlayers, List.mem_cons] at hk
    rw [Finset.mem_insert, List.mem_append]
    rcases hk with hk | hk | hk
    · exact .inl (.inr hk)
    · exact .inl (.inl (Option.some_inj.mp hk))
    · exact .inr (.inl hk)
  have hnext : ∀ m, n.Near l m → m ∈ n.layers := by
    rintro m (hm | ⟨d, -, hm⟩)
    · obtain ⟨d, -, hd⟩ := List.mem_flatMap.mp hm
      exact n.inputTo_mem d m hd
    · exact n.creator_mem d m hm
  refine ⟨fun k hk => ?_, fun k hk => ?_, fun k hk => hmove k (hs.started k hk), fun k hk m hm => ?_, fun k hk => ?_,
    fun k => ?_, ?_⟩
  · rcases List.mem_append.mp hk with hk | hk
    · exact hs.queued k (hlayers ▸ List.mem_cons_of_mem _ hk)
    · exact hnext k ((hnear k).mp hk)
  · rcases Finset.mem_insert.mp hk with rfl | hk
    · exact hqueued
    · exact hs.known k hk
  · rcases Finset.mem_insert.mp hk with rfl | hk
    · exact .inr (List.mem_append_right _ ((hnear m).mpr hm))
    · exact hmove m (hs.closed k hk m hm)
  · have hl : ∃ r, Start r ∧ ReflTransGen n.Near r l := hs.sound l (.inr (hlayers ▸ List.mem_cons_self))
    rcases hk with hk | hk
    · rcases Finset.mem_insert.mp hk with rfl | hk
      · exact hl
      · exact hs.sound k (.inl hk)
    · rcases List.mem_append.mp hk with hk | hk
      · exact hs.sound k (.inr (hlayers ▸ List.mem_cons_of_mem _ hk))
      · obtain ⟨r, hr, hreach⟩ := hl
        exact ⟨r, hr, hreach.tail ((hnear k).mp hk)⟩
  · have hnames : ∀ k ∈ s.inputLayers, n.name k = n.name l → k = l := by
      intro k hk
      exact hn.names k (hs.known k ((hs.mem_inputLayers k).mp hk).1) l hqueued
    simp only [Finset.mem_insert]
    split_ifs with hins
    · rw [mem_insertLayer_iff hnames, hs.mem_inputLayers]
      constructor
      · rintro (rfl | ⟨hk, hki⟩)
        · exact ⟨.inl rfl, hins⟩
        · exact ⟨.inr hk, hki⟩
      · rintro ⟨rfl | hk, hki⟩
        · exact .inl rfl
        · exact .inr ⟨hk, hki⟩
    · rw [hs.mem_inputLayers]
      constructor
      · exact fun ⟨hk, hki⟩ => ⟨.inr hk, hki⟩
      · rintro ⟨rfl | hk, hki⟩
        · exact absurd hki hins
        · exact ⟨hk, hki⟩
  · have hnot : l ∉ s.inputLayers := fun hl => hnew ((hs.mem_inputLayers l).mp hl).1
    simp only
    split_ifs
    · exact nodup_insertLayer hnot hs.nodup
    · exact hs.nodup

/-- **One call of `cycleDFS`.** -/
theorem cycleDFS_ok (hn : n.Consistent) (hs : n.Exploring Start s) (hlayers : s.layers ≠ []) :
    ∃ t, n.cycleDFS s = .ok t ∧ n.load t < n.load s ∧ n.Exploring Start t := by
  obtain ⟨first, layers, hcons⟩ := List.exists_cons_of_ne_nil hlayers
  have hpop : n.load { s with layers } < n.load s := by
    simp only [load, hcons, List.length_cons]
    omega
  unfold cycleDFS
  rw [hcons]
  cases first with
  | none => exact ⟨_, rfl, hpop, hs.pop hcons fun l hl => by cases hl⟩
  | some l =>
    by_cases hvisited : l ∈ s.visited
    · simp only [if_pos hvisited]
      refine ⟨_, rfl, hpop, hs.pop hcons fun k hk => ?_⟩
      rwa [← Option.some_inj.mp hk]
    · obtain ⟨parents, hrun, hlength, hparents⟩ := creatorLayers_ok l (hn.alive l)
      simp only [if_neg hvisited]
      rw [hrun]
      refine ⟨_, rfl, ?_, hs.visit hn hcons hvisited hparents⟩
      have hmem : l ∈ n.layers \ s.visited :=
        Finset.mem_sdiff.mpr ⟨hs.queued l (hcons ▸ List.mem_cons_self), hvisited⟩
      have hsum := Finset.add_sum_erase _ n.degree hmem
      rw [← Finset.sdiff_insert] at hsum
      simp only [load, hcons, List.length_cons, List.length_append]
      have hdegree : n.degree l = (n.outLayers l).length + (n.insData l).length := rfl
      omega

theorem drainQueue_ok (hn : n.Consistent) (hs : n.Exploring Start s) (hfuel : n.load s ≤ fuel) :
    ∃ t, n.drainQueue fuel s = .ok t ∧ t.layers = [] ∧ n.Exploring Start t := by
  induction fuel generalizing s with
  | zero =>
    have hnil : s.layers = [] := List.length_eq_zero_iff.mp (by unfold load at hfuel; omega)
    rw [drainQueue, if_pos hnil]
    exact ⟨s, rfl, hnil, hs⟩
  | succ fuel ih =>
    rw [drainQueue]
    by_cases hnil : s.layers = []
    · rw [if_pos hnil]
      exact ⟨s, rfl, hnil, hs⟩
    · rw [if_neg hnil]
      obtain ⟨t, hrun, hload, ht⟩ := cycleDFS_ok hn hs hnil
      rw [hrun]
      exact ih ht (by omega)

/-! ### The input layers -/

/-- A search from one more layer. -/
theorem UnorderedDFS_ok (hn : n.Consistent) (hs : n.Exploring Start s) (hempty : s.layers = [])
    (hfirst : ∀ l, first = some l → l ∈ n.layers) : ∃ t, n.UnorderedDFS s first = .ok t ∧ t.layers = [] ∧
      n.Exploring (fun l => Start l ∨ first = some l) t := by
  have hstart : n.Exploring (fun l => Start l ∨ first = some l) { s with layers := s.layers ++ [first] } := by
    have hqueue : ∀ l, some l ∈ s.layers ++ [first] ↔ first = some l := by
      intro l
      rw [hempty, List.nil_append, List.mem_singleton]
      exact eq_comm
    refine ⟨fun l hl => hfirst l ((hqueue l).mp hl), hs.known, fun l hl => ?_, fun l hl m hm => ?_, fun l hl => ?_,
      hs.mem_inputLayers, hs.nodup⟩
    · rcases hl with hl | hl
      · refine .inl ((hs.started l hl).resolve_right ?_)
        rw [hempty]
        exact List.not_mem_nil
      · exact .inr ((hqueue l).mpr hl)
    · refine .inl ((hs.closed l hl m hm).resolve_right ?_)
      rw [hempty]
      exact List.not_mem_nil
    · rcases hl with hl | hl
      · obtain ⟨r, hr, hreach⟩ := hs.sound l (.inl hl)
        exact ⟨r, .inl hr, hreach⟩
      · exact ⟨l, .inr ((hqueue l).mp hl), .refl⟩
  refine drainQueue_ok hn hstart ?_
  have hle : ∑ l ∈ n.layers \ s.visited, n.degree l ≤ ∑ l ∈ n.layers, n.degree l :=
    Finset.sum_le_sum_of_subset Finset.sdiff_subset
  simp only [load, hempty, List.nil_append, List.length_singleton]
  omega

/-- A layer is the first consumer of one of the `Data`. -/
def FirstConsumer (n : ICNNNetwork) (inputs : List DataPtr) (l : CNNLayerPtr) : Prop :=
  ∃ d ∈ inputs, ∃ rest, n.getInputTo d = some l :: rest

/-- One round of the loop over the network inputs. -/
theorem secondLayer_ok (hn : n.Consistent) (d : DataPtr) (hs : n.Exploring Start s) (hempty : s.layers = []) :
    ∃ t, n.secondLayerDFS s d = .ok t ∧ t.layers = [] ∧
      n.Exploring (fun l => Start l ∨ ∃ rest, n.getInputTo d = some l :: rest) t := by
  unfold secondLayerDFS
  cases hinputTo : n.getInputTo d with
  | nil =>
    refine ⟨s, rfl, hempty, ?_⟩
    simpa [hinputTo] using hs
  | cons first rest =>
    have hfirst : ∀ l, first = some l → l ∈ n.layers := by
      rintro l rfl
      exact n.inputTo_mem d l (hinputTo ▸ List.mem_cons_self)
    obtain ⟨t, hrun, hnil, ht⟩ := UnorderedDFS_ok hn hs hempty hfirst
    refine ⟨t, hrun, hnil, ?_⟩
    have heq : (fun l => Start l ∨ ∃ rest', first :: rest = some l :: rest') = fun l => Start l ∨ first = some l := by
      funext l
      simp
    rw [heq]
    exact ht

theorem getAllInputLayers_ok (hn : n.Consistent) : ∃ heads, n.CNNNetGetAllInputLayers = .ok heads ∧ heads.Nodup ∧
    ∀ l, l ∈ heads ↔ n.InputLayer l := by
  have hloop : ∀ (inputs done : List DataPtr) (s : QueueState), n.Exploring (n.FirstConsumer done) s → s.layers = [] →
      ∃ t, inputs.foldlM n.secondLayerDFS s = .ok t ∧ t.layers = [] ∧ n.Exploring (n.FirstConsumer (done ++ inputs)) t := by
    intro inputs
    induction inputs with
    | nil =>
      intro done s hs hempty
      rw [List.append_nil]
      exact ⟨s, rfl, hempty, hs⟩
    | cons d inputs ih =>
      intro done s hs hempty
      obtain ⟨t, hrun, hnil, ht⟩ := secondLayer_ok hn d hs hempty
      have heq : (fun l => n.FirstConsumer done l ∨ ∃ rest, n.getInputTo d = some l :: rest) =
          n.FirstConsumer (done ++ [d]) := by
        funext l
        simp [FirstConsumer, or_and_right, exists_or]
      rw [heq] at ht
      rw [List.foldlM_cons, hrun]
      have hrest := ih (done ++ [d]) t ht hnil
      rwa [List.append_assoc, List.singleton_append] at hrest
  have hstart : n.Exploring (n.FirstConsumer []) {} := by
    refine ⟨by simp, by simp, ?_, by simp, by simp, by simp, .nil⟩
    rintro l ⟨d, hd, -⟩
    exact absurd hd List.not_mem_nil
  obtain ⟨t, hrun, hnil, ht⟩ := hloop n.getInputsInfo [] {} hstart rfl
  rw [List.nil_append] at ht
  unfold CNNNetGetAllInputLayers
  rw [hrun]
  refine ⟨t.inputLayers, rfl, ht.nodup, fun l => ?_⟩
  have hvisited : ∀ k, k ∈ t.visited ∨ some k ∈ t.layers → k ∈ t.visited := by
    intro k hk
    rw [hnil] at hk
    exact hk.resolve_right List.not_mem_nil
  have hmem : l ∈ t.visited ↔ ∃ d ∈ n.getInputsInfo, ∃ first rest, n.getInputTo d = some first :: rest ∧
      ReflTransGen n.Near first l := by
    constructor
    · intro hl
      obtain ⟨r, ⟨d, hd, rest, hrest⟩, hreach⟩ := ht.sound l (.inl hl)
      exact ⟨d, hd, r, rest, hrest, hreach⟩
    · rintro ⟨d, hd, r, rest, hrest, hreach⟩
      have hr : r ∈ t.visited := hvisited r (ht.started r ⟨d, hd, rest, hrest⟩)
      induction hreach with
      | refl => exact hr
      | tail _ hnear ih => exact hvisited _ (ht.closed _ ih _ hnear)
  rw [ht.mem_inputLayers, hmem, and_comm]
  exact Iff.rfl

end OpenVino.InferenceEngine.ICNNNetwork
