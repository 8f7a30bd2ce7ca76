import OpenVino.Vpu.Model.Inject

/-!
# Reverting an injection keeps the counters exact

The three loops of `revertInjection` find the edges of the parent that are tied to the child by their
position: `ScanState` is what `startInd` and `endInd` say about the walked part of the list, and
`revertEdges_run` shows that the edges taken back are exactly those between the two, so that `eraseRange`
leaves the edges that are still there. `revertInput_inv` and `revertOutput_inv` are one round of the loops.
-/

namespace OpenVino.Vpu

/-! ### The scan -/

/-- The edge `q` is tied to an edge of `child`. -/
def Ports.Tied (p : Ports) (child : StageId) (q : EdgeId) : Prop :=
  ∃ rq e r, p.edge q = some rq ∧ rq.childEdge = some e ∧ p.edge e = some r ∧ r.stage = child

theorem Ports.tied_release {p : Ports} {child : StageId} {q e x : EdgeId} {r : PortEdge} (he : p.edge e = some r)
    (h : (p.release q e).Tied child x) : p.Tied child x := by
  have hedge : ∀ y ry, (p.release q e).edge y = some ry →
      ∃ r', p.edge y = some r' ∧ ry.stage = r'.stage ∧ ry.childEdge = r'.childEdge := by
    intro y ry hy
    rw [Ports.edge_release he] at hy
    split_ifs at hy with hyq hye
    · cases hy
      exact ⟨r, hye ▸ he, rfl, rfl⟩
    · exact ⟨ry, hy, rfl, rfl⟩
  obtain ⟨rx, y, ry, hx, hc, hy, hst⟩ := h
  obtain ⟨rx', hx', -, hcx⟩ := hedge x rx hx
  obtain ⟨ry', hy', hsy, -⟩ := hedge y ry hy
  exact ⟨rx', y, ry', hx', hcx ▸ hc, hy', hsy ▸ hst⟩

/-- After the edges `pre`, with the edges `rest` to come and the edges `gone` taken back: the tied edges
have not begun, are being walked, or have ended. -/
inductive ScanState (p : Ports) (child : StageId) :
    (pre rest gone : List EdgeId) → (startInd endInd : Int) → Prop
  | before {pre rest : List EdgeId} (hpre : ∀ x ∈ pre, ¬ p.Tied child x) : ScanState p child pre rest [] (-1) (-1)
  | inside {a b rest : List EdgeId} (hb : b ≠ []) (hrest : rest ≠ []) (ha : ∀ x ∈ a, ¬ p.Tied child x) :
    ScanState p child (a ++ b) rest b.reverse a.length (-1)
  | after {a b c rest : List EdgeId} (hb : b ≠ []) (ha : ∀ x ∈ a, ¬ p.Tied child x)
    (hc : ∀ x ∈ c, ¬ p.Tied child x) :
    ScanState p child (a ++ b ++ c) rest b.reverse a.length (a ++ b).length

namespace ScanState

variable {p p' : Ports} {child : StageId} {pre rest gone : List EdgeId} {q : EdgeId} {startInd endInd : Int}

/-- An edge of the parent itself: nothing may have begun. -/
theorem own (h : ScanState p child pre (q :: rest) gone startInd endInd) (hq : ¬ p.Tied child q)
    (hstart : startInd < 0) : ScanState p child (pre ++ [q]) rest gone startInd endInd := by
  cases h with
  | before hpre => exact .before (List.forall_mem_append.mpr ⟨hpre, by simpa using hq⟩)
  | inside => omega
  | after => omega

/-- An edge tied to another child. -/
theorem other (h : ScanState p child pre (q :: rest) gone startInd endInd) (hq : ¬ p.Tied child q) :
    ScanState p child (pre ++ [q]) rest gone startInd
      (if 0 ≤ startInd ∧ endInd < 0 then (pre.length : Int) else endInd) := by
  cases h with
  | before hpre => exact .before (List.forall_mem_append.mpr ⟨hpre, by simpa using hq⟩)
  | @inside a b _ hb hrest ha =>
    rw [if_pos ⟨by omega, by omega⟩]
    exact .after hb ha (by simpa using hq)
  | @after a b c _ hb ha hc =>
    rw [if_neg (by omega), List.append_assoc]
    exact .after hb ha (List.forall_mem_append.mpr ⟨hc, by simpa using hq⟩)

/-- An edge tied to the child is taken back. -/
theorem mine (h : ScanState p child pre (q :: rest) gone startInd endInd) (hended : ¬ (0 ≤ startInd ∧ 0 ≤ endInd))
    (hkeep : ∀ x, p'.Tied child x → p.Tied child x) :
    ScanState p' child (pre ++ [q]) rest (q :: gone) (if startInd < 0 then (pre.length : Int) else startInd)
      (if rest = [] then (pre.length : Int) + 1 else endInd) := by
  cases h with
  | before hpre =>
    have hpre' : ∀ x ∈ pre, ¬ p'.Tied child x := fun x hx ht => hpre x hx (hkeep x ht)
    rw [if_pos (by omega)]
    split_ifs with hrest
    · have hafter : ScanState p' child (pre ++ [q] ++ []) rest [q] pre.length (pre ++ [q]).length :=
        .after (b := [q]) (by simp) hpre' (by simp)
      simpa using hafter
    · exact ScanState.inside (b := [q]) (by simp) hrest hpre'
  | @inside a b _ hb hrest ha =>
    have ha' : ∀ x ∈ a, ¬ p'.Tied child x := fun x hx ht => ha x hx (hkeep x ht)
    rw [if_neg (by omega), List.append_assoc]
    split_ifs with hlast
    · have hafter : ScanState p' child (a ++ (b ++ [q]) ++ []) rest (b ++ [q]).reverse a.length
          (a ++ (b ++ [q])).length := .after (by simp) ha' (by simp)
      simpa [add_assoc] using hafter
    · have hinside : ScanState p' child (a ++ (b ++ [q])) rest (b ++ [q]).reverse a.length (-1) :=
        .inside (by simp) hlast ha'
      simpa using hinside
  | after => omega

/-- At the end of the list, `eraseRange` leaves what was not taken back, and nothing of it is tied. -/
theorem finish {l : List EdgeId} (h : ScanState p child l [] gone startInd endInd) (hl : l.Nodup)
    (hstart : 0 ≤ startInd) :
    (Model.eraseRange l startInd endInd).Nodup ∧
      (∀ x, x ∈ Model.eraseRange l startInd endInd ↔ x ∈ l ∧ x ∉ gone) ∧
      (∀ x ∈ Model.eraseRange l startInd endInd, ¬ p.Tied child x) ∧ ∀ x ∈ gone, x ∈ l := by
  cases h with
  | before => omega
  | inside _ hrest => exact absurd rfl hrest
  | @after a b c _ hb ha hc =>
    have hrange : Model.eraseRange (a ++ b ++ c) a.length (a ++ b).length = a ++ c := by
      rw [Model.eraseRange, Int.toNat_natCast, Int.toNat_natCast, List.drop_left, List.append_assoc, List.take_left]
    rw [hrange]
    rw [List.append_assoc, List.nodup_append', List.nodup_append', List.disjoint_append_right] at hl
    obtain ⟨hna, ⟨-, hnc, hbc⟩, hab, hac⟩ := hl
    refine ⟨List.nodup_append'.mpr ⟨hna, hnc, hac⟩, fun x => ?_, List.forall_mem_append.mpr ⟨ha, hc⟩, ?_⟩
    · have h₁ : x ∈ a → x ∉ b := fun h h' => hab h h'
      have h₂ : x ∈ c → x ∉ b := fun h h' => hbc h' h
      simp only [List.mem_append, List.mem_reverse]
      tauto
    · intro x hx
      simp only [List.mem_append]
      exact .inl (.inr (List.mem_reverse.mp hx))

end ScanState

namespace Model

variable {m m' : Model} {parent child : StageId} {q e : EdgeId} {rq r : PortEdge} {inj : StageId → Option StageId}
  {goneIn goneOut : List EdgeId} {P : StageId → Prop}

section

variable {ports : Model → Ports} {revertEdge : EdgeId → PortEdge → EdgeId → PortEdge → Model → Result Model}

/-- What every round keeps holds after the loop. -/
theorem revertEdges_induct {J : Model → Prop} {size : Nat}
    {edges : List EdgeId} {startInd endInd startInd' endInd' : Int}
    (hstep : ∀ m q rq e r m', J m → q ∈ edges → (ports m).edge q = some rq → rq.childEdge = some e →
      (ports m).edge e = some r → r.stage = child → revertEdge q rq e r m = .ok m' → J m') (hm : J m)
    (h : revertEdges ports revertEdge child size edges startInd endInd m = .ok (startInd', endInd', m')) : J m' := by
  induction edges generalizing startInd endInd m with
  | nil =>
    cases h
    exact hm
  | cons q edges ih =>
    rw [revertEdges, bind_ok_iff] at h
    obtain ⟨edge, hq, h⟩ := h
    rw [Graph.getEdge_ok_iff] at hq
    have ih' : ∀ {m : Model} {startInd endInd : Int}, J m →
        revertEdges ports revertEdge child size edges startInd endInd m = .ok (startInd', endInd', m') → J m' :=
      ih fun m₁ q₁ rq e r m₂ hm₁ hq₁ => hstep m₁ q₁ rq e r m₂ hm₁ (List.mem_cons_of_mem _ hq₁)
    split at h
    · next e r hc hr =>
      rw [Ports.deref, hc, Option.bind_some] at hr
      rw [ieAssert_bind_ok_iff] at h
      obtain ⟨-, h⟩ := h
      by_cases hchild : r.stage ≠ child
      · rw [if_pos hchild] at h
        exact ih' hm h
      · rw [if_neg hchild] at h
        dsimp only at h
        obtain ⟨m₁, h₁, h⟩ := bind_ok_iff.mp h
        exact ih' (hstep m q edge e r m₁ hm List.mem_cons_self hq hc hr (not_not.mp hchild) h₁) h
    · exact ih' hm (ieAssert_bind_ok_iff.mp h).2

/-- The scan finds the edges that are tied to the child. -/
theorem revertEdges_run (inj : StageId → Option StageId) (parent : StageId) {J : Model → List EdgeId → Prop}
    {l : List EdgeId}
    (hports : ∀ m gone, J m gone → (ports m).InvExcept inj gone ∧ (ports m).ports parent = l)
    (hstep : ∀ m gone q rq e r m', J m gone → (ports m).edge q = some rq → rq.childEdge = some e →
      (ports m).edge e = some r → rq.stage = parent → r.stage = child → revertEdge q rq e r m = .ok m' →
      J m' (q :: gone) ∧ ports m' = (ports m).release q e)
    {pre rest gone : List EdgeId} {startInd endInd startInd' endInd' : Int} (hpre : l = pre ++ rest) (hm : J m gone)
    (hscan : ScanState (ports m) child pre rest gone startInd endInd)
    (h : revertEdges ports revertEdge child l.length rest startInd endInd m = .ok (startInd', endInd', m')) :
    ∃ gone', J m' gone' ∧ ScanState (ports m') child l [] gone' startInd' endInd' := by
  induction rest generalizing pre gone startInd endInd m with
  | nil =>
    cases h
    rw [List.append_nil] at hpre
    exact ⟨gone, hm, hpre ▸ hscan⟩
  | cons q rest ih =>
    have hpre' : l = pre ++ [q] ++ rest := by rw [hpre, List.append_assoc, List.singleton_append]
    rw [revertEdges, bind_ok_iff] at h
    obtain ⟨edge, hq, h⟩ := h
    rw [Graph.getEdge_ok_iff] at hq
    obtain ⟨hinv, hlist⟩ := hports m gone hm
    have hind : edge.portInd = pre.length := by
      refine hinv.portInd parent pre.length q edge ?_ hq
      rw [hlist, hpre, List.getElem?_append_right (Nat.le_refl _), Nat.sub_self]
      rfl
    split at h
    · next e r hc hr =>
      rw [Ports.deref, hc, Option.bind_some] at hr
      rw [ieAssert_bind_ok_iff] at h
      obtain ⟨hended, h⟩ := h
      by_cases hchild : r.stage ≠ child
      · rw [if_pos hchild] at h
        refine ih hpre' hm ?_ h
        rw [hind]
        refine hscan.other ?_
        rintro ⟨rq', e', r', hq', hc', hr', hst⟩
        rw [hq] at hq'
        cases hq'
        rw [hc] at hc'
        cases hc'
        rw [hr] at hr'
        cases hr'
        exact hchild hst
      · rw [if_neg hchild] at h
        dsimp only at h
        obtain ⟨m₁, h₁, h⟩ := bind_ok_iff.mp h
        have hparent : edge.stage = parent := by
          have hgone := ((hinv.mem edge.stage q).mpr ⟨edge, hq, rfl⟩).2
          obtain ⟨r', hr', hst⟩ := (hinv.mem parent q).mp ⟨by rw [hlist, hpre]; simp, hgone⟩
          rw [hq] at hr'
          cases hr'
          exact hst
        obtain ⟨hm₁, hrel⟩ := hstep m gone q edge e r m₁ hm hq hc hr hparent (not_not.mp hchild) h₁
        refine ih hpre' hm₁ ?_ h
        have hlast : edge.portInd = l.length - 1 ↔ rest = [] := by
          rw [hind, hpre, List.length_append, List.length_cons, ← List.length_eq_zero_iff]
          omega
        have hkeep : ∀ x, (ports m₁).Tied child x → (ports m).Tied child x := by
          rw [hrel]
          exact fun x => Ports.tied_release hr
        have hnext := hscan.mine (fun hboth => hended hboth (not_not.mp hchild)) hkeep
        rw [hind] at hlast ⊢
        simpa only [hlast] using hnext
    · next hnone =>
      rw [ieAssert_bind_ok_iff] at h
      refine ih hpre' hm (hscan.own ?_ h.1) h.2
      rintro ⟨rq', e', r', hq', hc', hr', -⟩
      rw [hq] at hq'
      cases hq'
      refine hnone e' r' hc' ?_
      rw [hc', Ports.deref, Option.bind_some, hr']

end

/-! ### One round of each loop -/

theorem revertInput_ok (h : revertInput q rq e r m = .ok m') : ∃ o o',
    m.graph.unlinkInput rq.stage rq.data m.order = .ok o ∧ m.graph.linkInput r.stage r.data o = .ok o' ∧
    m' = ⟨{ (m.graph.eraseConsumer rq.data q).pushConsumer rq.data e with
      inputs := m.graph.inputs.release q e }, o'⟩ := by
  simp only [revertInput, bind_ok_iff, pure_ok_iff] at h
  obtain ⟨o, ho, o', ho', rfl⟩ := h
  exact ⟨o, o', ho, ho', rfl⟩

theorem revertInput_inv (hm : m.InvExcept inj goneIn goneOut P) (h : revertInput q rq e r m = .ok m')
    (hq : m.graph.inputs.edge q = some rq) (hc : rq.childEdge = some e) (he : m.graph.inputs.edge e = some r)
    (hP : ∀ c, P c → m.graph.parentStage c ≠ none) : m'.InvExcept inj (q :: goneIn) goneOut P := by
  obtain ⟨o, o', ho, ho', rfl⟩ := revertInput_ok h
  obtain ⟨r', he', hp, hpq, hdata, -⟩ := hm.wf.inputs.tied hq hc
  rw [he] at he'
  cases he'
  have hne : q ≠ e := by
    rintro rfl
    rw [hq] at he
    cases he
    rw [hp] at hpq
    cases hpq
  refine ⟨Graph.wf_releaseInput hm.wf hq hc, ?_, Graph.linkInput_idle ho' (Graph.unlinkInput_idle ho hm.idle) hP⟩
  have hd : rq.data < m.graph.nextData := hm.wf.inData q rq hq
  have h₁ : o.Counts (m.graph.eraseConsumer rq.data q).dataflow.edges :=
    (Graph.unlinkInput_counts ho hm.counts).congr fun _ _ =>
      Graph.edges_eraseConsumer hd (hm.wf.consumer_of_edge hq hpq) (Graph.consumer_eq hq)
  have hflow : { (m.graph.eraseConsumer rq.data q).pushConsumer rq.data e with
      inputs := m.graph.inputs.release q e }.dataflow =
        ((m.graph.eraseConsumer rq.data q).pushConsumer rq.data e).dataflow := by
    refine Graph.dataflow_inputs fun x y hy => ?_
    replace hy : y ∈ Graph.pushAt (Graph.eraseAt m.graph.consumerEdges rq.data q) rq.data e x := hy
    rw [Graph.mem_pushAt, Graph.mem_eraseAt hm.wf.nodup] at hy
    have hyq : y ≠ q := by
      rintro rfl
      rcases hy with ⟨hy, -⟩ | ⟨hy, hx⟩
      · exact hne hy
      · exact hx rfl (hm.wf.consumer_unique hq hy)
    rw [Ports.edge_release he, if_neg hyq]
    show _ = (m.graph.inputs.edge y).map PortEdge.stage
    by_cases hye : y = e
    · rw [if_pos hye, hye, he, Option.map_some, Option.map_some]
    · rw [if_neg hye]
  refine (Graph.linkInput_counts ho' h₁).congr fun p c => ?_
  rw [hflow, ← hdata]
  exact Graph.edges_pushConsumer (g := m.graph.eraseConsumer rq.data q) hd (Graph.consumer_eq he)

theorem revertOutput_ok (h : revertOutput q rq e r m = .ok m') : ∃ o o',
    m.graph.unlinkConsumers rq.stage rq.data (fun o _ => o) m.order = .ok o ∧
    m.graph.linkConsumers r.stage r.data (fun o _ => o) o = .ok o' ∧
    m' = ⟨{ m.graph.setProducer rq.data (some e) with outputs := m.graph.outputs.release q e }, o'⟩ := by
  simp only [revertOutput, bind_ok_iff, pure_ok_iff] at h
  obtain ⟨o, ho, o', ho', rfl⟩ := h
  exact ⟨o, o', ho, ho', rfl⟩

theorem revertOutput_inv (hm : m.InvExcept inj goneIn goneOut P) (h : revertOutput q rq e r m = .ok m')
    (hq : m.graph.outputs.edge q = some rq) (hc : rq.childEdge = some e) (he : m.graph.outputs.edge e = some r)
    (hP : ∀ c, P c → m.graph.parentStage c ≠ none) : m'.InvExcept inj goneIn (q :: goneOut) P := by
  obtain ⟨o, o', ho, ho', rfl⟩ := revertOutput_ok h
  obtain ⟨r', he', hp, hpq, hdata, -⟩ := hm.wf.outputs.tied hq hc
  rw [he] at he'
  cases he'
  have hne : q ≠ e := by
    rintro rfl
    rw [hq] at he
    cases he
    rw [hp] at hpq
    cases hpq
  refine ⟨Graph.wf_releaseOutput hm.wf hq hc, ?_, ?_⟩
  · have hd : rq.data < m.graph.nextData := hm.wf.outData q rq hq
    have hclear : (m.graph.setProducer rq.data none).setProducer rq.data (some e) =
        m.graph.setProducer rq.data (some e) := by
      simp only [Graph.setProducer, Function.update_idem]
    have h₁ : o.Counts (m.graph.setProducer rq.data none).dataflow.edges :=
      (Graph.unlinkConsumers_counts ho hm.counts fun _ _ _ ho => ho).congr fun _ _ =>
        Graph.edges_clearProducer hd (Graph.producer_eq (hm.wf.producer_of_edge hq hpq).2)
    have hflow : { m.graph.setProducer rq.data (some e) with outputs := m.graph.outputs.release q e }.dataflow =
        (m.graph.setProducer rq.data (some e)).dataflow := by
      refine Graph.dataflow_outputs fun x y hy => ?_
      replace hy : Function.update m.graph.producerEdge rq.data (some e) x = some y := hy
      have hyq : y ≠ q := by
        rintro rfl
        by_cases hx : x = rq.data
        · rw [hx, Function.update_self] at hy
          exact hne (Option.some_inj.mp hy).symm
        · rw [Function.update_of_ne hx] at hy
          obtain ⟨r', hr', hd, -⟩ := hm.wf.producer?_eq hy
          rw [hq] at hr'
          cases hr'
          exact hx hd.symm
      rw [Ports.edge_release he, if_neg hyq]
      show _ = (m.graph.outputs.edge y).map PortEdge.stage
      by_cases hye : y = e
      · rw [if_pos hye, hye, he, Option.map_some, Option.map_some]
      · rw [if_neg hye]
    have hnone : (m.graph.setProducer rq.data none).producer rq.data = none := by
      rw [Graph.producer_eq_none_iff, Graph.producer?_setProducer, if_pos rfl]
      rfl
    refine (Graph.linkConsumers_counts ho' h₁ fun _ _ _ ho => ho).congr fun p c => ?_
    rw [hflow, ← hclear, ← hdata]
    exact Graph.edges_setProducer (g := m.graph.setProducer rq.data none) (r := r) hd hnone he
  · refine Graph.linkConsumers_idle ho' ?_ hP fun _ _ => rfl
    exact Graph.unlinkConsumers_idle ho hm.idle fun _ _ => rfl

/-! ### The loops -/

/-- No edge of the child is redirected any more. -/
theorem released {p : Ports} (hp : p.Inv inj) (hinj : inj child = some parent)
    (hrest : ∀ x ∈ p.ports parent, ¬ p.Tied child x) :
    ∀ e r, p.edge e = some r → r.stage = child → r.parentEdge = none := by
  intro e r he hst
  cases hq : r.parentEdge with
  | none => rfl
  | some q =>
    obtain ⟨rq, hrq, hc, -, -, hpar⟩ := hp.parent e r q he hq
    rw [hst, hinj, Option.some_inj] at hpar
    have hmem := hp.mem_of_edge hrq
    rw [← hpar] at hmem
    exact absurd ⟨rq, e, r, hrq, hc, he, hst⟩ (hrest q hmem)

theorem tied_close {p : Ports} {s : StageId} {l : List EdgeId} (hl : l.Nodup) {x : EdgeId}
    (h : (p.close s l).Tied child x) : p.Tied child x := by
  obtain ⟨rx, y, ry, hx, hc, hy, hst⟩ := h
  obtain ⟨rx', i, hx', rfl⟩ := Ports.edge_close_eq_some hl hx
  obtain ⟨ry', j, hy', rfl⟩ := Ports.edge_close_eq_some hl hy
  exact ⟨rx', y, ry', hx', hc, hy', hst⟩

theorem revertInputs_inv (hm : m.InvExcept inj [] goneOut P) (hinj : inj child = some parent)
    (hP : ∀ c, P c → m.graph.parentStage c ≠ none) (h : m.revertInputs parent child = .ok m') :
    m'.InvExcept inj [] goneOut P ∧ (∀ e r, m'.graph.inputs.edge e = some r → r.stage = child → r.parentEdge = none) ∧
      m'.graph.outputs = m.graph.outputs ∧ m.graph.SameStages m'.graph := by
  simp only [revertInputs, bind_ok_iff, ieAssert_ok_iff, pure_ok_iff] at h
  obtain ⟨⟨startInd, endInd, m₁⟩, h₁, -, ⟨hstart, -, -⟩, rfl⟩ := h
  have hnd := hm.wf.inputs.nodup parent
  obtain ⟨gone, ⟨hinv, hlist, hout, hsame⟩, hscan⟩ := revertEdges_run inj parent (l := m.graph.inputs.ports parent)
    (J := fun m₂ gone => m₂.InvExcept inj gone goneOut P ∧
      m₂.graph.inputs.ports = m.graph.inputs.ports ∧ m₂.graph.outputs = m.graph.outputs ∧
      m.graph.SameStages m₂.graph)
    (fun m₂ gone hJ => ⟨hJ.1.wf.inputs, congrFun hJ.2.1 parent⟩)
    (by
      rintro m₂ gone q rq e r m₃ ⟨hinv, hlist, hout, hsame⟩ hq hc he - - h₂
      have hinv' := revertInput_inv hinv h₂ hq hc he (by rw [hsame.parentStage]; exact hP)
      obtain ⟨o, o', -, -, rfl⟩ := revertInput_ok h₂
      exact ⟨⟨hinv', hlist, hout, hsame.trans ⟨rfl, rfl, rfl, rfl⟩⟩, rfl⟩)
    (List.nil_append _).symm ⟨hm, rfl, rfl, .refl _⟩ (.before (by simp)) h₁
  obtain ⟨hl, hmem, hrest, hgone⟩ := hscan.finish hnd hstart
  have hwf := Graph.wf_closeInput (s := parent) hinv.wf
    (fun x hx t ht => hm.wf.inputs.ports_unique (hgone x hx) (by rw [← hlist]; exact ht)) hl
    (by rw [hlist]; exact hmem)
  refine ⟨⟨hwf, hinv.counts.congr fun p c => ?_, hinv.idle⟩, ?_, hout, hsame.trans ⟨rfl, rfl, rfl, rfl⟩⟩
  · rw [Graph.dataflow_inputs]
    exact fun _ _ _ => Ports.stage_close hl _
  · refine released hwf.inputs hinj fun x hx ht => ?_
    rw [Ports.ports_close, if_pos rfl] at hx
    exact hrest x hx (tied_close hl ht)

theorem revertOutputs_inv (hm : m.InvExcept inj goneIn [] P) (hinj : inj child = some parent)
    (hP : ∀ c, P c → m.graph.parentStage c ≠ none) (h : m.revertOutputs parent child = .ok m') :
    m'.InvExcept inj goneIn [] P ∧ (∀ e r, m'.graph.outputs.edge e = some r → r.stage = child → r.parentEdge = none) ∧
      m'.graph.inputs = m.graph.inputs ∧ m.graph.SameStages m'.graph := by
  simp only [revertOutputs, bind_ok_iff, ieAssert_ok_iff, pure_ok_iff] at h
  obtain ⟨⟨startInd, endInd, m₁⟩, h₁, -, ⟨hstart, -, -⟩, rfl⟩ := h
  have hnd := hm.wf.outputs.nodup parent
  obtain ⟨gone, ⟨hinv, hlist, hin, hsame⟩, hscan⟩ := revertEdges_run inj parent (l := m.graph.outputs.ports parent)
    (J := fun m₂ gone => m₂.InvExcept inj goneIn gone P ∧
      m₂.graph.outputs.ports = m.graph.outputs.ports ∧ m₂.graph.inputs = m.graph.inputs ∧
      m.graph.SameStages m₂.graph)
    (fun m₂ gone hJ => ⟨hJ.1.wf.outputs, congrFun hJ.2.1 parent⟩)
    (by
      rintro m₂ gone q rq e r m₃ ⟨hinv, hlist, hin, hsame⟩ hq hc he - - h₂
      have hinv' := revertOutput_inv hinv h₂ hq hc he (by rw [hsame.parentStage]; exact hP)
      obtain ⟨o, o', -, -, rfl⟩ := revertOutput_ok h₂
      exact ⟨⟨hinv', hlist, hin, hsame.trans ⟨rfl, rfl, rfl, rfl⟩⟩, rfl⟩)
    (List.nil_append _).symm ⟨hm, rfl, rfl, .refl _⟩ (.before (by simp)) h₁
  obtain ⟨hl, hmem, hrest, hgone⟩ := hscan.finish hnd hstart
  have hwf := Graph.wf_closeOutput (s := parent) hinv.wf
    (fun x hx t ht => hm.wf.outputs.ports_unique (hgone x hx) (by rw [← hlist]; exact ht)) hl
    (by rw [hlist]; exact hmem)
  refine ⟨⟨hwf, hinv.counts.congr fun p c => ?_, hinv.idle⟩, ?_, hin, hsame.trans ⟨rfl, rfl, rfl, rfl⟩⟩
  · rw [Graph.dataflow_outputs]
    exact fun _ _ _ => Ports.stage_close hl _
  · refine released hwf.outputs hinj fun x hx ht => ?_
    rw [Ports.ports_close, if_pos rfl] at hx
    exact hrest x hx (tied_close hl ht)

theorem revertTempBuffers_inv (hm : m.InvExcept inj goneIn goneOut P) (h : m.revertTempBuffers parent child = .ok m') :
    m'.InvExcept inj goneIn goneOut P ∧ m'.graph.inputs = m.graph.inputs ∧ m'.graph.outputs = m.graph.outputs ∧
      m.graph.SameStages m'.graph ∧ m'.order = m.order := by
  simp only [revertTempBuffers, bind_ok_iff] at h
  obtain ⟨⟨startInd, endInd, m₁⟩, h₁, h⟩ := h
  have hJ := revertEdges_induct (J := fun m₂ => m₂.InvExcept inj goneIn goneOut P ∧
    m₂.graph.inputs = m.graph.inputs ∧ m₂.graph.outputs = m.graph.outputs ∧ m.graph.SameStages m₂.graph ∧
    m₂.order = m.order) (by
      rintro m₂ q rq e r m₃ ⟨hinv, hin, hout, hsame, horder⟩ - - - - - h₂
      cases h₂
      exact ⟨⟨{ hinv.wf with }, hinv.counts, hinv.idle⟩, hin, hout, hsame.trans ⟨rfl, rfl, rfl, rfl⟩, horder⟩)
    ⟨hm, rfl, rfl, .refl _, rfl⟩ h₁
  obtain ⟨hinv, hin, hout, hsame, horder⟩ := hJ
  split at h
  · simp only [ieAssert_bind_ok_iff, pure_ok_iff] at h
    obtain ⟨-, rfl⟩ := h
    exact ⟨⟨{ hinv.wf with }, hinv.counts, hinv.idle⟩, hin, hout, hsame.trans ⟨rfl, rfl, rfl, rfl⟩, horder⟩
  · rw [pure_ok_iff] at h
    cases h
    exact ⟨hinv, hin, hout, hsame, horder⟩

end Model

/-! ### `revertInjection` -/

namespace Graph

variable {g : Graph} {parent child t : StageId} {i : StageEdgeId}

/-- Only the injected stage loses its parent; other nodes may only list fewer injected stages. -/
theorem stage_unlinkStageEdge {n : StageNode} (h : (g.unlinkStageEdge i parent child).stage t = some n) :
    ∃ n₀, g.stage t = some n₀ ∧ n.parentStageEdge = (if t = child then none else n₀.parentStageEdge) ∧
      (∀ j ∈ n₀.injectedStageEdges, j ≠ i → j ∈ n.injectedStageEdges) := by
  replace h : Function.update (Function.update g.stage parent _) child _ t = some n := h
  by_cases htc : t = child
  · subst htc
    rw [Function.update_self] at h
    obtain ⟨n₁, hn₁, rfl⟩ := Option.map_eq_some_iff.mp h
    by_cases htp : t = parent
    · subst htp
      rw [Function.update_self] at hn₁
      obtain ⟨n₀, hn₀, rfl⟩ := Option.map_eq_some_iff.mp hn₁
      exact ⟨n₀, hn₀, by simp, fun j hj hji => (List.mem_erase_of_ne hji).mpr hj⟩
    · rw [Function.update_of_ne htp] at hn₁
      exact ⟨n₁, hn₁, by simp, fun j hj _ => hj⟩
  · rw [Function.update_of_ne htc] at h
    by_cases htp : t = parent
    · subst htp
      rw [Function.update_self] at h
      obtain ⟨n₀, hn₀, rfl⟩ := Option.map_eq_some_iff.mp h
      exact ⟨n₀, hn₀, by simp [htc], fun j hj hji => (List.mem_erase_of_ne hji).mpr hj⟩
    · rw [Function.update_of_ne htp] at h
      exact ⟨n, h, by simp [htc], fun j hj _ => hj⟩

theorem isSome_unlinkStageEdge (i : StageEdgeId) (parent child t : StageId) :
    ((g.unlinkStageEdge i parent child).stage t).isSome ↔ (g.stage t).isSome := by
  show (Function.update (Function.update g.stage parent _) child _ t).isSome ↔ _
  by_cases htc : t = child
  · subst htc
    by_cases htp : t = parent
    · subst htp
      simp
    · simp [htp]
  · rw [Function.update_of_ne htc]
    by_cases htp : t = parent
    · subst htp
      simp
    · rw [Function.update_of_ne htp]

theorem parentStage_unlinkStageEdge (i : StageEdgeId) (parent : StageId) :
    (g.unlinkStageEdge i parent child).parentStage t = if t = child then none else g.parentStage t := by
  cases hn : (g.unlinkStageEdge i parent child).stage t with
  | none =>
    have hnone : g.stage t = none := by
      rw [← Option.not_isSome_iff_eq_none, ← isSome_unlinkStageEdge i parent child, hn]
      simp
    unfold parentStage
    rw [hn, hnone]
    split_ifs <;> rfl
  | some n =>
    obtain ⟨n₀, hn₀, hp, -⟩ := stage_unlinkStageEdge hn
    unfold parentStage
    rw [hn, hn₀, Option.bind_some, Option.bind_some, hp]
    split_ifs <;> rfl

/-- The injection `i` was the one of `child`: no other stage loses its parent with it. -/
theorem Injections.parentStage_eraseStageEdge {g' : Graph} (h : g.Injections)
    (hi : g.stageEdge i = some ⟨parent, child⟩) (hs : (g.unlinkStageEdge i parent child).SameStages g') :
    (g'.eraseStageEdge i).parentStage = fun t => if t = child then none else g.parentStage t := by
  funext t
  rw [← parentStage_unlinkStageEdge i parent, ← hs.parentStage]
  unfold parentStage
  show ((g'.stage t).bind fun n => n.parentStageEdge.bind (Function.update g'.stageEdge i none)).map _ = _
  cases hn : g'.stage t with
  | none => rfl
  | some n =>
    rw [Option.bind_some, Option.bind_some]
    cases hj : n.parentStageEdge with
    | none => rfl
    | some j =>
      have hji : j ≠ i := by
        rintro rfl
        rw [hs.stage] at hn
        obtain ⟨n₀, hn₀, hp, -⟩ := stage_unlinkStageEdge hn
        rw [hj] at hp
        split_ifs at hp with htc
        obtain ⟨hct, -⟩ := h.child t n₀ j _ hn₀ hp.symm hi
        exact htc hct.symm
      rw [Option.bind_some, Option.bind_some, Function.update_of_ne hji]

theorem Injections.eraseStageEdge {g' : Graph} (h : g.Injections) (hi : g.stageEdge i = some ⟨parent, child⟩)
    (hs : (g.unlinkStageEdge i parent child).SameStages g') : (g'.eraseStageEdge i).Injections := by
  have hedge : ∀ j r, (g'.eraseStageEdge i).stageEdge j = some r → j ≠ i ∧ g.stageEdge j = some r := by
    intro j r hr
    replace hr : Function.update g'.stageEdge i none j = some r := hr
    by_cases hji : j = i
    · subst hji
      rw [Function.update_self] at hr
      cases hr
    · rw [Function.update_of_ne hji, hs.stageEdge] at hr
      exact ⟨hji, hr⟩
  refine ⟨fun c n j r hn hj hr => ?_, fun j r hr => ?_, fun c n j hn hj => ?_, fun c p hcp => ?_⟩
  · obtain ⟨hji, hr⟩ := hedge j r hr
    replace hn : g'.stage c = some n := hn
    rw [hs.stage] at hn
    obtain ⟨n₀, hn₀, hp, -⟩ := stage_unlinkStageEdge hn
    rw [hj] at hp
    split_ifs at hp
    obtain ⟨hrc, np, hnp, hmem⟩ := h.child c n₀ j r hn₀ hp.symm hr
    have hsome := isSome_unlinkStageEdge (g := g) i parent child r.parent
    rw [hnp] at hsome
    obtain ⟨np', hnp'⟩ := Option.isSome_iff_exists.mp (hsome.mpr rfl)
    obtain ⟨np₀, hnp₀, -, hkeep⟩ := stage_unlinkStageEdge hnp'
    rw [hnp] at hnp₀
    cases hnp₀
    refine ⟨hrc, np', ?_, hkeep j hmem hji⟩
    show g'.stage r.parent = some np'
    rw [hs.stage, hnp']
  · rw [show (g'.eraseStageEdge i).nextStageEdge = g'.nextStageEdge from rfl, hs.nextStageEdge]
    exact h.fresh j r (hedge j r hr).2
  · replace hn : g'.stage c = some n := hn
    rw [hs.stage] at hn
    obtain ⟨n₀, hn₀, hp, -⟩ := stage_unlinkStageEdge hn
    rw [hj] at hp
    split_ifs at hp
    rw [show (g'.eraseStageEdge i).nextStageEdge = g'.nextStageEdge from rfl, hs.nextStageEdge]
    exact h.freshParent c n₀ j hn₀ hp.symm
  · rw [h.parentStage_eraseStageEdge hi hs] at hcp ⊢
    simp only at hcp ⊢
    split_ifs at hcp with hcc
    split_ifs
    · rfl
    · exact h.top c p hcp

end Graph

namespace Model

variable {m m' : Model} {i : StageEdgeId}

theorem revertInjection_ok (h : m.revertInjection i = .ok m') : ∃ parent child nc m₁ m₂ m₃,
    m.graph.stageEdge i = some ⟨parent, child⟩ ∧ m.graph.stage child = some nc ∧ nc.parentStageEdge = some i ∧
    revertInputs ⟨(m.listStage child).graph.unlinkStageEdge i parent child, m.order.reset⟩ parent child = .ok m₁ ∧
    m₁.revertOutputs parent child = .ok m₂ ∧ m₂.revertTempBuffers parent child = .ok m₃ ∧
    m' = ⟨m₃.graph.eraseStageEdge i, (m₃.order.updateInitial parent).updateInitial child⟩ := by
  simp only [revertInjection, bind_ok_iff, Graph.getStage_ok_iff, ieAssert_ok_iff, pure_ok_iff] at h
  obtain ⟨⟨parent, child⟩, hi, -, -, nc, hnc, -, hpe, m₁, h₁, m₂, h₂, m₃, h₃, rfl⟩ := h
  refine ⟨parent, child, nc, m₁, m₂, m₃, ?_, hnc, hpe, h₁, h₂, h₃, rfl⟩
  unfold Graph.getStageEdge at hi
  split at hi <;> simp_all

/-- The stages before and after: `child` is listed again and is a part of no stage. -/
theorem revertInjection_inv {parent child : StageId} (hm : m.Inv) (h : m.revertInjection i = .ok m')
    (hedge : m.graph.stageEdge i = some ⟨parent, child⟩) :
    m'.Inv ∧ m.graph.parentStage child = some parent ∧ m'.graph.stagePtrList = m.graph.stagePtrList ++ [child] ∧
      (∀ t, (m'.graph.stage t).isSome ↔ (m.graph.stage t).isSome) ∧
      ∀ t, m'.graph.parentStage t = if t = child then none else m.graph.parentStage t := by
  obtain ⟨parent', child', nc, m₁, m₂, m₃, hi, hnc, hpe, h₁, h₂, h₃, rfl⟩ := revertInjection_ok h
  rw [hedge] at hi
  cases hi
  have hinj : m.graph.parentStage child = some parent :=
    Graph.parentStage_eq_some_iff.mpr ⟨nc, i, ⟨parent, child⟩, hnc, hpe, hedge, rfl⟩
  have hpar : ∀ c, ((m.listStage child).graph.unlinkStageEdge i parent child).parentStage c =
      if c = child then none else m.graph.parentStage c := fun c => Graph.parentStage_unlinkStageEdge ..
  have hP : ∀ c, c ≠ child ∧ m.graph.parentStage c ≠ none →
      ((m.listStage child).graph.unlinkStageEdge i parent child).parentStage c ≠ none := by
    rintro c ⟨hcc, hc⟩
    rw [hpar, if_neg hcc]
    exact hc
  have hinv₀ : InvExcept ⟨(m.listStage child).graph.unlinkStageEdge i parent child, m.order.reset⟩
      m.graph.parentStage [] [] (fun c => c ≠ child ∧ m.graph.parentStage c ≠ none) := by
    refine ⟨{ hm.wf with inStage := ?_, outStage := ?_, stage_lt := ?_ }, hm.counts.reset, ?_⟩
    · exact fun e r hr => (Graph.isSome_unlinkStageEdge ..).mpr (hm.wf.inStage e r hr)
    · exact fun e r hr => (Graph.isSome_unlinkStageEdge ..).mpr (hm.wf.outStage e r hr)
    · exact fun t ht => hm.wf.stage_lt t ((Graph.isSome_unlinkStageEdge ..).mp ht)
    · exact fun c hc => hm.idle c hc.2
  obtain ⟨hinv₁, hin₁, hout₁, hsame₁⟩ := revertInputs_inv hinv₀ hinj hP h₁
  obtain ⟨hinv₂, hout₂, hin₂, hsame₂⟩ := revertOutputs_inv hinv₁ hinj (by
    rw [hsame₁.parentStage]
    exact hP) h₂
  obtain ⟨hinv₃, hin₃, hout₃, hsame₃, -⟩ := revertTempBuffers_inv hinv₂ h₃
  have hsame : ((m.listStage child).graph.unlinkStageEdge i parent child).SameStages m₃.graph :=
    hsame₁.trans (hsame₂.trans hsame₃)
  have hinjs : (m.listStage child).graph.Injections := (listStage_inv hm child).injections
  have hfinal : (m₃.graph.eraseStageEdge i).parentStage =
      fun t => if t = child then none else m.graph.parentStage t := hinjs.parentStage_eraseStageEdge hedge hsame
  refine ⟨⟨⟨?_, hinv₃.counts.order rfl rfl, ?_⟩, hinjs.eraseStageEdge hedge hsame⟩, hinj, hsame.stagePtrList,
    fun t => ?_, congrFun hfinal⟩
  · show (m₃.graph.eraseStageEdge i).WellFormedExcept (m₃.graph.eraseStageEdge i).parentStage [] []
    rw [hfinal]
    refine { hinv₃.wf with inputs := ?_, outputs := ?_ }
    · refine hinv₃.wf.inputs.eject (s := child) (fun t ht => if_neg ht) fun e r hr hst => ?_
      rw [hin₃, hin₂] at hr
      exact hin₁ e r hr hst
    · refine hinv₃.wf.outputs.eject (s := child) (fun t ht => if_neg ht) fun e r hr hst => ?_
      rw [hout₃] at hr
      exact hout₂ e r hr hst
  · intro c hc p
    rw [show (⟨m₃.graph.eraseStageEdge i, (m₃.order.updateInitial parent).updateInitial child⟩ : Model).graph =
      m₃.graph.eraseStageEdge i from rfl, hfinal] at hc
    by_cases hcc : c = child
    · exact absurd (if_pos hcc) hc
    · simp only [if_neg hcc] at hc
      exact hinv₃.idle c ⟨hcc, hc⟩ p
  · show (m₃.graph.stage t).isSome ↔ _
    rw [hsame.stage]
    exact Graph.isSome_unlinkStageEdge ..

end Model

end OpenVino.Vpu
