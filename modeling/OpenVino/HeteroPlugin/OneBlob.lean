import OpenVino.HeteroPlugin.HeteroInferRequest

/-!
# One blob for a name

`updateInOutIfNeeded` visits the names of the sub-requests in order. For a name whose entry in `blobs` differs from
the blob to hand on, the first visit serves its sub-request and sets the entry, and the later ones find nothing to do,
unless the input is pre-processed: then the entry is set to another blob than the one handed on. `Visited` says what
the loop has done after a part of the visits, and `update_held` what each sub-request holds at the end.

`oneBlob_iff` gives, for every session, the condition on the state before the call under which all sub-requests that
share a name hold the same blob after it, the user's own where there is one.
-/

namespace OpenVino.HeteroPlugin

open OpenVino.InferenceEngine

inductive Direction
  | input
  | output
deriving DecidableEq

/-- A name of a sub-request, reached by one of the two inner loops. -/
structure Visit where
  direction : Direction
  request : Nat
  name : String
deriving DecidableEq

def SubRequestDesc.visits (desc : SubRequestDesc) (r : Nat) : List Visit :=
  desc.iNames.map (Visit.mk .input r) ++ desc.oNames.map (Visit.mk .output r)

/-- The blob to hand on for a name in a direction, and the entry of the name afterwards. -/
def source (s : InferRequestInternal) (d : Direction) (name : String) : Option (Blob × Blob) :=
  match d with
  | .input => (s.inputs name).map fun input => ((s.preProcData name).getD input, input)
  | .output => (s.outputs name).map fun output => (output, output)

/-- The first of the visits that reaches the name in the direction. -/
def firstVisit (vs : List Visit) (d : Direction) (name : String) : Option Visit :=
  vs.find? fun v => v.direction = d ∧ v.name = name

/-- The visit hands `b` on: it is the first for its name, or the entry stays different from `b`. -/
def Serves (vs : List Visit) (v : Visit) (b entry : Blob) : Prop :=
  v ∈ vs ∧ (firstVisit vs v.direction v.name = some v ∨ entry ≠ b)

instance (vs : List Visit) (v : Visit) (b entry : Blob) : Decidable (Serves vs v b entry) :=
  inferInstanceAs (Decidable (_ ∧ _))

namespace HeteroInferRequest

variable {accepts : Nat → String → Blob → Result Unit} {s s' s'' : HeteroInferRequest}

/-- The visits of `updateInOutIfNeeded`, in order. -/
def visits (s : HeteroInferRequest) : List Visit := s.inferRequests.zipIdx.flatMap fun desc => desc.1.visits desc.2

def visit (accepts : Nat → String → Blob → Result Unit) (s : HeteroInferRequest) (v : Visit) :
    Except (HeteroInferRequest × IEException) HeteroInferRequest :=
  match v.direction with
  | .input => s.updateInput accepts v.request v.name
  | .output => s.updateOutput accepts v.request v.name

theorem updateInOutIfNeeded_eq : s.updateInOutIfNeeded accepts = s.visits.foldlM (visit accepts) s := by
  rw [visits, foldlM_flatMap, updateInOutIfNeeded]
  congr 1
  funext s desc
  rw [SubRequestDesc.visits, List.foldlM_append, List.foldlM_map]
  simp only [List.foldlM_map]
  rfl

theorem visit_eq (v : Visit) : s.visit accepts v =
    match source s.toInferRequestInternal v.direction v.name with
    | none => .ok s
    | some (b, entry) => s.serve accepts v.request v.name b entry := by
  obtain ⟨d, r, name⟩ := v
  cases d with
  | input =>
    simp only [visit, updateInput, source]
    cases s.inputs name with
    | none => rfl
    | some input => cases s.preProcData name <;> rfl
  | output =>
    simp only [visit, updateOutput, source]
    cases s.outputs name <;> rfl

/-- A blob that the user has set for a name is an input or an output, not both. -/
def Exclusive (s : HeteroInferRequest) : Prop := ∀ name, (s.inputs name).isSome → s.outputs name = none

theorem Exclusive.direction_eq (h : s.Exclusive) {d d' : Direction} {name : String} {p p' : Blob × Blob}
    (hd : source s.toInferRequestInternal d name = some p) (hd' : source s.toInferRequestInternal d' name = some p') :
    d = d' ∧ p = p' := by
  suffices d = d' by
    subst this
    rw [hd] at hd'
    exact ⟨rfl, Option.some_inj.mp hd'⟩
  have hnot : ∀ {p p' : Blob × Blob}, source s.toInferRequestInternal .input name = some p →
      source s.toInferRequestInternal .output name ≠ some p' := by
    intro p p' hin hout
    obtain ⟨input, hinput, -⟩ := Option.map_eq_some_iff.mp hin
    obtain ⟨output, houtput, -⟩ := Option.map_eq_some_iff.mp hout
    rw [h name (by rw [hinput]; rfl)] at houtput
    cases houtput
  cases d <;> cases d' <;> first | rfl | exact absurd hd' (hnot hd) | exact absurd hd (hnot hd')

/-! ### The loop -/

/-- After the visits `vs` of a loop that began in `s`. -/
structure Visited (s : HeteroInferRequest) (vs : List Visit) (s' : HeteroInferRequest) : Prop where
  same : s'.toInferRequestInternal = s.toInferRequestInternal ∧ s'.inferRequests = s.inferRequests
  untouched : ∀ name, (∀ d b entry, source s.toInferRequestInternal d name = some (b, entry) → s.blobs name = some b) →
    s'.blobs name = s.blobs name ∧ ∀ r, s'.held r name = s.held r name
  entry : ∀ name d b entry, source s.toInferRequestInternal d name = some (b, entry) → s.blobs name ≠ some b →
    s'.blobs name = if ∃ v ∈ vs, v.direction = d ∧ v.name = name then some entry else s.blobs name
  served : ∀ name d b entry, source s.toInferRequestInternal d name = some (b, entry) → s.blobs name ≠ some b →
    ∀ r, s'.held r name = if Serves vs ⟨d, r, name⟩ b entry then b else s.held r name

theorem firstVisit_append (vs : List Visit) (v : Visit) (d : Direction) (name : String) :
    firstVisit (vs ++ [v]) d name =
      (firstVisit vs d name).or (if v.direction = d ∧ v.name = name then some v else none) := by
  unfold firstVisit
  rw [List.find?_append, List.find?_singleton]
  by_cases h : v.direction = d ∧ v.name = name <;> simp [h]

theorem mem_of_firstVisit {vs : List Visit} {d : Direction} {name : String} {v : Visit}
    (h : firstVisit vs d name = some v) : v ∈ vs := List.mem_of_find?_eq_some h

theorem firstVisit_isSome {vs : List Visit} {d : Direction} {name : String}
    (h : ∃ v ∈ vs, v.direction = d ∧ v.name = name) : (firstVisit vs d name).isSome := by
  unfold firstVisit
  rw [List.find?_isSome]
  simpa using h

theorem serves_append_of_other {vs : List Visit} {v w : Visit} {b entry : Blob}
    (h : ¬ (v.direction = w.direction ∧ v.name = w.name)) :
    Serves (vs ++ [v]) w b entry ↔ Serves vs w b entry := by
  have hmem : w ∈ vs ++ [v] ↔ w ∈ vs := by
    rw [List.mem_append, List.mem_singleton]
    refine or_iff_left ?_
    rintro rfl
    exact h ⟨rfl, rfl⟩
  rw [Serves, Serves, hmem, firstVisit_append, if_neg h, Option.or_none]

/-- Another sub-request is not served by the visit. -/
theorem serves_append_of_ne {vs : List Visit} {v w : Visit} {b entry : Blob} (h : w ≠ v) :
    Serves (vs ++ [v]) w b entry ↔ Serves vs w b entry := by
  have hmem : w ∈ vs ++ [v] ↔ w ∈ vs := by
    rw [List.mem_append, List.mem_singleton]
    exact or_iff_left h
  rw [Serves, Serves, hmem, firstVisit_append]
  refine and_congr_right fun _ => or_congr_left ?_
  cases hfirst : firstVisit vs w.direction w.name with
  | some u => rfl
  | none =>
    rw [Option.none_or]
    split_ifs with hv
    · simp [h.symm]
    · rfl

/-- Once the name has been reached and its entry is `b`, nobody else is served. -/
theorem serves_append_of_seen {vs : List Visit} {v w : Visit} {b : Blob}
    (h : ∃ u ∈ vs, u.direction = w.direction ∧ u.name = w.name) :
    Serves (vs ++ [v]) w b b ↔ Serves vs w b b := by
  obtain ⟨u, hu⟩ := Option.isSome_iff_exists.mp (firstVisit_isSome h)
  have hfirst : firstVisit (vs ++ [v]) w.direction w.name = some u := by
    rw [firstVisit_append, hu]
    rfl
  rw [Serves, Serves, hfirst, hu]
  constructor
  · rintro ⟨-, hw | hw⟩
    · exact ⟨mem_of_firstVisit (hu.trans hw), .inl hw⟩
    · exact absurd rfl hw
  · rintro ⟨hw, h⟩
    exact ⟨List.mem_append_left _ hw, h⟩

theorem Visited.nil (s : HeteroInferRequest) : s.Visited [] s where
  same := ⟨rfl, rfl⟩
  untouched := fun _ _ => ⟨rfl, fun _ => rfl⟩
  entry := fun name d b entry _ _ => by simp
  served := fun name d b entry _ _ r => by simp [Serves]

theorem seen_append_iff {vs : List Visit} {v : Visit} {d : Direction} {name : String} :
    (∃ w ∈ vs ++ [v], w.direction = d ∧ w.name = name) ↔
      (∃ w ∈ vs, w.direction = d ∧ w.name = name) ∨ (v.direction = d ∧ v.name = name) := by
  simp [or_and_right, exists_or]

/-- A visit that finds nothing to hand on. -/
theorem Visited.skip {vs : List Visit} {v : Visit} (h : s.Visited vs s')
    (hv : ∀ b entry, source s.toInferRequestInternal v.direction v.name = some (b, entry) → s.blobs v.name = some b) :
    s.Visited (vs ++ [v]) s' := by
  have hother : ∀ name d b entry, source s.toInferRequestInternal d name = some (b, entry) → s.blobs name ≠ some b →
      ¬ (v.direction = d ∧ v.name = name) := by
    rintro name d b entry hsrc hne ⟨rfl, rfl⟩
    exact hne (hv b entry hsrc)
  refine ⟨h.same, h.untouched, fun name d b entry hsrc hne => ?_, fun name d b entry hsrc hne r => ?_⟩
  · rw [h.entry name d b entry hsrc hne]
    simp only [seen_append_iff, or_iff_left (hother name d b entry hsrc hne)]
  · rw [h.served name d b entry hsrc hne]
    simp only [serves_append_of_other (w := ⟨d, r, name⟩) (hother name d b entry hsrc hne)]

theorem serve_ok {r : Nat} {name : String} {b entry : Blob} (h : s'.serve accepts r name b entry = .ok s'') :
    s'.blobs name = some b ∧ s'' = s' ∨
      s'.blobs name ≠ some b ∧ s''.toInferRequestInternal = s'.toInferRequestInternal ∧
        s''.inferRequests = s'.inferRequests ∧ s''.blobs = Function.update s'.blobs name (some entry) ∧
        s''.held = Function.update s'.held r (Function.update (s'.held r) name b) := by
  unfold HeteroInferRequest.serve at h
  split_ifs at h with hmark
  · simp only [subSetBlob] at h
    cases haccept : accepts r name b with
    | error e =>
      rw [haccept] at h
      cases h
    | ok u =>
      rw [haccept] at h
      cases h
      exact .inr ⟨hmark, rfl, rfl, rfl, rfl⟩
  · cases h
    exact .inl ⟨not_not.mp hmark, rfl⟩

theorem update_held_of_ne {held : Nat → String → Blob} {r r' : Nat} {name name' : String} {b : Blob} (h : name' ≠ name) :
    Function.update held r (Function.update (held r) name b) r' name' = held r' name' := by
  by_cases hr : r' = r
  · subst hr
    rw [Function.update_self, Function.update_of_ne h]
  · rw [Function.update_of_ne hr]

/-- A visit to a name whose blob has changed. -/
theorem Visited.serve (hex : s.Exclusive) {vs : List Visit} {v : Visit} {b entry : Blob} (h : s.Visited vs s')
    (hsrc : source s.toInferRequestInternal v.direction v.name = some (b, entry)) (hne : s.blobs v.name ≠ some b)
    (hserve : s'.serve accepts v.request v.name b entry = .ok s'') : s.Visited (vs ++ [v]) s'' := by
  have hentry := h.entry v.name v.direction b entry hsrc hne
  have hthis : ∀ {d : Direction} {b' entry' : Blob}, source s.toInferRequestInternal d v.name = some (b', entry') →
      d = v.direction ∧ b' = b ∧ entry' = entry := by
    intro d b' entry' hd
    obtain ⟨hdir, hp⟩ := hex.direction_eq hd hsrc
    exact ⟨hdir, Prod.ext_iff.mp hp⟩
  rcases serve_ok hserve with ⟨hmark, rfl⟩ | ⟨hmark, hsame, hreqs, hblobs, hheld⟩
  · -- the entry is the blob already: an earlier visit has set it
    rw [hmark] at hentry
    split_ifs at hentry with hseen
    · obtain rfl := Option.some_inj.mp hentry
      refine ⟨h.same, h.untouched, fun name d b' entry' hd hne' => ?_, fun name d b' entry' hd hne' r => ?_⟩
      · rw [h.entry name d b' entry' hd hne']
        by_cases hv : v.direction = d ∧ v.name = name
        · obtain ⟨rfl, rfl⟩ := hv
          rw [if_pos hseen, if_pos (seen_append_iff.mpr (.inl hseen))]
        · simp only [seen_append_iff, or_iff_left hv]
      · rw [h.served name d b' entry' hd hne']
        by_cases hv : v.direction = d ∧ v.name = name
        · obtain ⟨rfl, rfl⟩ := hv
          obtain ⟨-, rfl, rfl⟩ := hthis hd
          simp only [serves_append_of_seen (w := ⟨v.direction, r, v.name⟩) hseen]
        · simp only [serves_append_of_other (w := ⟨d, r, name⟩) hv]
    · exact absurd hentry.symm hne
  · -- the sub-request is served
    have hnew : entry = b → firstVisit vs v.direction v.name = none := by
      intro heq
      rw [firstVisit, List.find?_eq_none]
      intro w hw hcond
      rw [if_pos ⟨w, hw, by simpa using hcond⟩, heq] at hentry
      exact hmark hentry
    refine ⟨⟨hsame.trans h.same.1, hreqs.trans h.same.2⟩, fun name hname => ?_, fun name d b' entry' hd hne' => ?_,
      fun name d b' entry' hd hne' r => ?_⟩
    · have hother : name ≠ v.name := by
        rintro rfl
        exact hne (hname _ _ _ hsrc)
      obtain ⟨hblobs', hheld'⟩ := h.untouched name hname
      refine ⟨by rw [hblobs, Function.update_of_ne hother, hblobs'], fun r => ?_⟩
      rw [hheld, update_held_of_ne hother, hheld']
    · by_cases hname : name = v.name
      · subst hname
        obtain ⟨rfl, rfl, rfl⟩ := hthis hd
        rw [hblobs, Function.update_self, if_pos (seen_append_iff.mpr (.inr ⟨rfl, rfl⟩))]
      · rw [hblobs, Function.update_of_ne hname, h.entry name d b' entry' hd hne']
        simp only [seen_append_iff, or_iff_left fun hv : v.direction = d ∧ v.name = name => hname hv.2.symm]
    · by_cases hname : name = v.name
      · subst hname
        obtain ⟨rfl, rfl, rfl⟩ := hthis hd
        by_cases hr : r = v.request
        · subst hr
          rw [hheld, Function.update_self, Function.update_self, if_pos]
          refine ⟨List.mem_append_right vs List.mem_cons_self, ?_⟩
          by_cases heq : entry' = b'
          · left
            rw [firstVisit_append, if_pos ⟨rfl, rfl⟩, hnew heq]
            rfl
          · exact .inr heq
        · rw [hheld, Function.update_of_ne hr, h.served _ _ _ _ hsrc hne]
          have hv : (⟨v.direction, r, v.name⟩ : Visit) ≠ v := fun heq => hr (congrArg Visit.request heq)
          simp only [serves_append_of_ne hv]
      · rw [hheld, update_held_of_ne hname, h.served name d b' entry' hd hne']
        have hother : ¬ (v.direction = d ∧ v.name = name) := fun hv => hname hv.2.symm
        simp only [serves_append_of_other (w := ⟨d, r, name⟩) hother]

/-- One visit of the loop. -/
theorem Visited.step (hex : s.Exclusive) {vs : List Visit} {v : Visit} (h : s.Visited vs s')
    (hvisit : s'.visit accepts v = .ok s'') : s.Visited (vs ++ [v]) s'' := by
  rw [visit_eq, h.same.1] at hvisit
  cases hsrc : source s.toInferRequestInternal v.direction v.name with
  | none =>
    rw [hsrc] at hvisit
    cases hvisit
    refine h.skip fun b entry hb => ?_
    rw [hsrc] at hb
    cases hb
  | some p =>
    obtain ⟨b, entry⟩ := p
    rw [hsrc] at hvisit
    by_cases hne : s.blobs v.name = some b
    · -- nothing has changed for the name
      have huntouched := h.untouched v.name fun d b' entry' hd => by
        obtain ⟨-, hp⟩ := hex.direction_eq hd hsrc
        cases hp
        exact hne
      rcases serve_ok hvisit with ⟨-, rfl⟩ | ⟨hmark, -⟩
      · refine h.skip fun b' entry' hb => ?_
        rw [hsrc] at hb
        cases hb
        exact hne
      · exact absurd (huntouched.1.trans hne) hmark
    · exact h.serve hex hsrc hne hvisit

/-- A visit that throws changes nothing. -/
theorem visit_error {v : Visit} {e : IEException} (h : s.visit accepts v = .error (s', e)) : s' = s := by
  rw [visit_eq] at h
  split at h
  · cases h
  · unfold HeteroInferRequest.serve at h
    split_ifs at h
    split at h
    · cases h
      rfl
    · cases h

/-- **The loop**, whether it ends or throws. -/
theorem foldlM_visit (hex : s.Exclusive) {vs ws : List Visit} (h : s.Visited vs s') :
    (∀ s'', ws.foldlM (visit accepts) s' = .ok s'' → s.Visited (vs ++ ws) s'') ∧
      ∀ s'' e, ws.foldlM (visit accepts) s' = .error (s'', e) → ∃ us, us ⊆ vs ++ ws ∧ s.Visited us s'' := by
  induction ws generalizing vs s' with
  | nil =>
    refine ⟨fun s'' hs => ?_, fun s'' e hs => ?_⟩
    · cases hs
      rw [List.append_nil]
      exact h
    · cases hs
  | cons v ws ih =>
    rw [List.foldlM_cons]
    cases hvisit : s'.visit accepts v with
    | error p =>
      obtain ⟨s₁, e₁⟩ := p
      obtain rfl := visit_error hvisit
      refine ⟨fun s'' hs => (nomatch hs), fun s'' e hs => ?_⟩
      cases hs
      exact ⟨vs, List.subset_append_left _ _, h⟩
    | ok s₁ =>
      have hrest := ih (h.step hex hvisit)
      rw [List.append_assoc, List.singleton_append] at hrest
      exact hrest

theorem updateInOutIfNeeded_visited (hex : s.Exclusive) (h : s.updateInOutIfNeeded accepts = .ok s') :
    s.Visited s.visits s' := by
  rw [updateInOutIfNeeded_eq] at h
  have hrun := (foldlM_visit hex (.nil s)).1 s' h
  rw [List.nil_append] at hrun
  exact hrun

theorem updateInOutIfNeeded_threw {e : IEException} (hex : s.Exclusive)
    (h : s.updateInOutIfNeeded accepts = .error (s', e)) : ∃ vs, s.Visited vs s' := by
  rw [updateInOutIfNeeded_eq] at h
  obtain ⟨us, -, hus⟩ := (foldlM_visit hex (.nil s)).2 s' e h
  exact ⟨us, hus⟩

/-! ### What a sub-request holds -/

/-- Sub-request `r` has the name among its inputs or outputs. -/
def Has (s : HeteroInferRequest) (r : Nat) (name : String) : Prop :=
  ∃ desc, s.inferRequests[r]? = some desc ∧ (name ∈ desc.iNames ∨ name ∈ desc.oNames)

theorem has_iff {r : Nat} {name : String} : s.Has r name ↔ ∃ d, ⟨d, r, name⟩ ∈ s.visits := by
  simp only [visits, List.mem_flatMap, SubRequestDesc.visits, List.mem_append, List.mem_map, Prod.exists,
    List.mk_mem_zipIdx_iff_getElem?]
  constructor
  · rintro ⟨desc, hdesc, hname | hname⟩
    · exact ⟨.input, desc, r, hdesc, .inl ⟨name, hname, rfl⟩⟩
    · exact ⟨.output, desc, r, hdesc, .inr ⟨name, hname, rfl⟩⟩
  · rintro ⟨d, desc, r', hdesc, ⟨name', hname, heq⟩ | ⟨name', hname, heq⟩⟩
    · cases heq
      exact ⟨desc, hdesc, .inl hname⟩
    · cases heq
      exact ⟨desc, hdesc, .inr hname⟩

/-- The next `updateInOutIfNeeded` gives `b` to sub-request `r`: the entry of the name is another blob, and the visit of
the sub-request is the first one for the name or, with pre-processing, any. -/
def Gets (s : HeteroInferRequest) (r : Nat) (name : String) (b : Blob) : Prop :=
  ∃ d entry, source s.toInferRequestInternal d name = some (b, entry) ∧ s.blobs name ≠ some b ∧
    Serves s.visits ⟨d, r, name⟩ b entry

/-- **What each sub-request holds** after `updateInOutIfNeeded`. -/
theorem updateInOutIfNeeded_held (hex : s.Exclusive) (h : s.updateInOutIfNeeded accepts = .ok s') (r : Nat)
    (name : String) :
    (∃ b, s.Gets r name b ∧ s'.held r name = b) ∨ ((∀ b, ¬ s.Gets r name b) ∧ s'.held r name = s.held r name) := by
  have hv := updateInOutIfNeeded_visited hex h
  by_cases hsrc : ∀ d b entry, source s.toInferRequestInternal d name = some (b, entry) → s.blobs name = some b
  · refine .inr ⟨?_, (hv.untouched name hsrc).2 r⟩
    rintro b ⟨d, entry, hd, hne, -⟩
    exact hne (hsrc d b entry hd)
  · push Not at hsrc
    obtain ⟨d, b, entry, hd, hne⟩ := hsrc
    have hheld := hv.served name d b entry hd hne r
    split_ifs at hheld with hserves
    · exact .inl ⟨b, ⟨d, entry, hd, hne, hserves⟩, hheld⟩
    · refine .inr ⟨?_, hheld⟩
      rintro b' ⟨d', entry', hd', -, hserves'⟩
      obtain ⟨rfl, hp⟩ := hex.direction_eq hd hd'
      cases hp
      exact hserves hserves'

theorem Gets.unique (hex : s.Exclusive) {r : Nat} {name : String} {b b' : Blob} (h : s.Gets r name b)
    (h' : s.Gets r name b') : b = b' := by
  obtain ⟨d, entry, hd, -⟩ := h
  obtain ⟨d', entry', hd', -⟩ := h'
  obtain ⟨-, hp⟩ := hex.direction_eq hd hd'
  cases hp
  rfl

/-! ### The constructor -/

/-- After the constructor has asked for the blobs `ps`. -/
structure Constructed (inferRequests : List SubRequestDesc) (ps : List (Nat × String)) (s : HeteroInferRequest) :
    Prop where
  requests : s.inferRequests = inferRequests
  preProcData : s.preProcData = fun _ => none
  shared : ∀ p ∈ ps, s.blobs p.2 = some (s.held p.1 p.2)
  inputs : ∀ name b, s.inputs name = some b → s.blobs name = some b ∧ (s.networkInputs.lookup name).isSome
  outputs : ∀ name b, s.outputs name = some b → s.blobs name = some b ∧ s.networkInputs.lookup name = none

theorem Constructed.step {inferRequests : List SubRequestDesc} {ps : List (Nat × String)}
    (h : Constructed inferRequests ps s) {r : Nat} {e : String} (hreq : requestBlob accepts r s e = .ok s') :
    Constructed inferRequests (ps ++ [(r, e)]) s' := by
  unfold requestBlob at hreq
  cases hblob : s.blobs e with
  | some b =>
    simp only [hblob, subSetBlob, bind_ok_iff, pure_ok_iff] at hreq
    obtain ⟨-, -, rfl⟩ := hreq
    refine ⟨h.requests, h.preProcData, fun p hp => ?_, h.inputs, h.outputs⟩
    obtain ⟨r', e'⟩ := p
    by_cases he : e' = e
    · subst he
      by_cases hr : r' = r
      · subst hr
        simp [hblob]
      · rcases List.mem_append.mp hp with hp | hp
        · simp only [Function.update_of_ne hr]
          exact h.shared _ hp
        · exact absurd (Prod.ext_iff.mp (List.mem_singleton.mp hp)).1 hr
    · rcases List.mem_append.mp hp with hp | hp
      · simp only [update_held_of_ne he]
        exact h.shared _ hp
      · exact absurd (Prod.ext_iff.mp (List.mem_singleton.mp hp)).2 he
  | none =>
    have hshared : ∀ p ∈ ps ++ [(r, e)], Function.update s.blobs e (some (s.held r e)) p.2 = some (s.held p.1 p.2) := by
      intro p hp
      rcases List.mem_append.mp hp with hmem | hmem
      · have hblobs := h.shared p hmem
        have hne : p.2 ≠ e := by
          rintro rfl
          rw [hblobs] at hblob
          cases hblob
        rw [Function.update_of_ne hne, hblobs]
      · obtain rfl := List.mem_singleton.mp hmem
        exact Function.update_self ..
    have hinputs : ∀ name b, s.inputs name = some b →
        Function.update s.blobs e (some (s.held r e)) name = some b ∧ (s.networkInputs.lookup name).isSome := by
      intro name b hb
      obtain ⟨hblobs, hin⟩ := h.inputs name b hb
      refine ⟨?_, hin⟩
      rw [Function.update_of_ne]
      · exact hblobs
      · rintro rfl
        rw [hblob] at hblobs
        cases hblobs
    have houtputs : ∀ name b, s.outputs name = some b →
        Function.update s.blobs e (some (s.held r e)) name = some b ∧ s.networkInputs.lookup name = none := by
      intro name b hb
      obtain ⟨hblobs, hin⟩ := h.outputs name b hb
      refine ⟨?_, hin⟩
      rw [Function.update_of_ne]
      · exact hblobs
      · rintro rfl
        rw [hblob] at hblobs
        cases hblobs
    simp only [hblob] at hreq
    split_ifs at hreq with hin hout
    · cases hreq
      refine ⟨h.requests, h.preProcData, hshared, fun name b hb => ?_, houtputs⟩
      by_cases hname : name = e
      · subst hname
        simp only [Function.update_self] at hb ⊢
        exact ⟨hb, hin⟩
      · simp only [Function.update_of_ne hname] at hb
        exact hinputs name b hb
    · cases hreq
      refine ⟨h.requests, h.preProcData, hshared, hinputs, fun name b hb => ?_⟩
      by_cases hname : name = e
      · subst hname
        rw [Bool.not_eq_true, Option.isSome_eq_false_iff, Option.isNone_iff_eq_none] at hin
        simp only [Function.update_self] at hb ⊢
        exact ⟨hb, hin⟩
      · simp only [Function.update_of_ne hname] at hb
        exact houtputs name b hb
    · cases hreq
      exact ⟨h.requests, h.preProcData, hshared, hinputs, houtputs⟩

theorem construct_ok {networkInputs : List (String × InputInfo)} {networkOutputs : List (String × TensorDesc)}
    {inferRequests : List SubRequestDesc} {defaults : Nat → String → Blob}
    (h : construct accepts networkInputs networkOutputs inferRequests defaults = .ok s) :
    ∃ ps, Constructed inferRequests ps s ∧ ∀ r name, s.Has r name → (r, name) ∈ ps := by
  unfold construct at h
  split_ifs at h
  · exact absurd h throwException_ne_ok
  simp only [bind_ok_iff] at h
  obtain ⟨s₁, hout, hin⟩ := h
  -- each double loop is a loop over the names
  have hloop : ∀ (names : SubRequestDesc → List String) (s : HeteroInferRequest),
      inferRequests.zipIdx.foldlM (fun s desc => (names desc.1).foldlM (requestBlob accepts desc.2) s) s =
        (inferRequests.zipIdx.flatMap fun desc => (names desc.1).map (Prod.mk desc.2)).foldlM
          (fun s p => requestBlob accepts p.1 s p.2) s := by
    intro names s
    rw [foldlM_flatMap]
    simp only [List.foldlM_map]
  rw [hloop SubRequestDesc.oNames] at hout
  rw [hloop SubRequestDesc.iNames] at hin
  have hstart : Constructed inferRequests [] { networkInputs, networkOutputs, inferRequests, held := defaults } :=
    ⟨rfl, rfl, by simp, by simp, by simp⟩
  have hmid := foldlM_ok_induct (I := Constructed inferRequests) hout hstart
    fun pre p post s s' _ hs hreq => hs.step hreq
  have hend := foldlM_ok_induct (I := fun ps => Constructed inferRequests (_ ++ ps)) hin
    (by rw [List.append_nil]; exact hmid) fun pre p post s s' _ hs hreq => by
      rw [← List.append_assoc]
      exact hs.step hreq
  refine ⟨_, hend, fun r name hname => ?_⟩
  obtain ⟨desc, hdesc, hname⟩ := hname
  rw [hend.requests] at hdesc
  simp only [List.mem_append, List.mem_flatMap, List.mem_map, Prod.exists, List.mk_mem_zipIdx_iff_getElem?]
  rcases hname with hname | hname
  · exact .inr ⟨desc, r, hdesc, name, hname, rfl⟩
  · exact .inl ⟨desc, r, hdesc, name, hname, rfl⟩

end HeteroInferRequest

/-! ### Sessions -/

open HeteroInferRequest

/-- What holds between the calls. -/
structure SessionInv (s : Session) : Prop where
  inputs : ∀ name, (s.request.inputs name).isSome → (s.request.networkInputs.lookup name).isSome
  outputs : ∀ name, (s.request.outputs name).isSome → s.request.networkInputs.lookup name = none
  /-- A name that the user has left alone has its entry in `blobs` everywhere. -/
  untouched : ∀ name, s.user name = none →
    (∀ d b entry, source s.request.toInferRequestInternal d name = some (b, entry) →
      s.request.blobs name = some b) ∧
    ∀ r, s.request.Has r name → s.request.blobs name = some (s.request.held r name)

theorem SessionInv.exclusive {s : Session} (h : SessionInv s) : s.request.Exclusive := by
  intro name hin
  by_contra hout
  have hnone := h.outputs name (Option.isSome_iff_ne_none.mpr hout)
  have hsome := h.inputs name hin
  rw [hnone] at hsome
  cases hsome

/-- Serving the sub-requests leaves the names alone that the user has left alone. -/
theorem SessionInv.visited {s : Session} {vs : List Visit} {request : HeteroInferRequest} (h : SessionInv s)
    (hv : s.request.Visited vs request) : SessionInv { s with request } := by
  obtain ⟨hsame, hreqs⟩ := hv.same
  refine ⟨?_, ?_, fun name huser => ?_⟩
  · rw [hsame]
    exact h.inputs
  · rw [hsame]
    exact h.outputs
  · obtain ⟨hsrc, hheld⟩ := h.untouched name huser
    obtain ⟨hblobs', hheld'⟩ := hv.untouched name hsrc
    rw [hsame, hblobs']
    refine ⟨hsrc, fun r hr => ?_⟩
    rw [hheld']
    refine hheld r ?_
    unfold Has at hr ⊢
    rw [← hreqs]
    exact hr

theorem SessionInv.untouched_setBlob {s : Session} (h : SessionInv s) {name : String} {b : Blob}
    {r : InferRequestInternal} (hsrc : ∀ name' ≠ name, ∀ d,
      source r d name' = source s.request.toInferRequestInternal d name') (name' : String)
    (huser : Function.update s.user name (some b) name' = none) :
    (∀ d b entry, source r d name' = some (b, entry) → s.request.blobs name' = some b) ∧
      ∀ r, s.request.Has r name' → s.request.blobs name' = some (s.request.held r name') := by
  have hne : name' ≠ name := by
    rintro rfl
    rw [Function.update_self] at huser
    cases huser
  rw [Function.update_of_ne hne] at huser
  obtain ⟨hblobs, hheld⟩ := h.untouched name' huser
  refine ⟨fun d b entry hd => hblobs d b entry ?_, hheld⟩
  rw [← hsrc name' hne d]
  exact hd

theorem SessionInv.setBlob {isApplicable : Blob → Blob → Result Unit} {s : Session} {name : String} {b : Blob}
    {r : InferRequestInternal} (h : SessionInv s) (hset : s.request.SetBlob isApplicable name (some b) = .ok r) :
    SessionInv { request := { s.request with toInferRequestInternal := r }
                 user := Function.update s.user name (some b) } := by
  obtain ⟨b', hb, hcases⟩ := InferRequestInternal.SetBlob_ok hset
  cases hb
  rcases hcases with ⟨info, hinfo, ⟨rfl, -⟩ | rfl⟩ | ⟨hnone, rfl⟩
  · refine ⟨h.inputs, h.outputs, h.untouched_setBlob fun name' hne d => ?_⟩
    cases d <;> simp [source, Function.update_of_ne hne]
  · refine ⟨fun name' hin => ?_, h.outputs, h.untouched_setBlob fun name' hne d => ?_⟩
    · by_cases hne : name' = name
      · subst hne
        exact Option.isSome_of_eq_some hinfo
      · simp only [Function.update_of_ne hne] at hin
        exact h.inputs name' hin
    · cases d <;> simp [source, Function.update_of_ne hne]
  · refine ⟨h.inputs, fun name' hout => ?_, h.untouched_setBlob fun name' hne d => ?_⟩
    · by_cases hne : name' = name
      · subst hne
        exact hnone
      · simp only [Function.update_of_ne hne] at hout
        exact h.outputs name' hout
    · cases d <;> simp [source, Function.update_of_ne hne]

theorem reachable_sessionInv {isApplicable : Blob → Blob → Result Unit} {accepts : Nat → String → Blob → Result Unit}
    {s : Session} (h : (sessions isApplicable accepts).Reachable s) : SessionInv s := by
  refine h.induct (I := SessionInv) ?_ ?_
  · rintro s ⟨huser, networkInputs, networkOutputs, inferRequests, defaults, hconstruct⟩
    obtain ⟨ps, hs, hps⟩ := construct_ok hconstruct
    refine ⟨fun name hin => ?_, fun name hout => ?_, fun name _ => ⟨fun d b entry hd => ?_, fun r hr => ?_⟩⟩
    · obtain ⟨b, hb⟩ := Option.isSome_iff_exists.mp hin
      exact (hs.inputs name b hb).2
    · obtain ⟨b, hb⟩ := Option.isSome_iff_exists.mp hout
      exact (hs.outputs name b hb).2
    · cases d with
      | input =>
        obtain ⟨input, hinput, hb⟩ := Option.map_eq_some_iff.mp hd
        rw [hs.preProcData] at hb
        cases hb
        exact (hs.inputs name _ hinput).1
      | output =>
        obtain ⟨output, houtput, hb⟩ := Option.map_eq_some_iff.mp hd
        cases hb
        exact (hs.outputs name _ houtput).1
    · exact hs.shared (r, name) (hps r name hr)
  · intro s t _ hs hstep
    cases hstep with
    | setBlob hset => exact hs.setBlob hset
    | update hupdate => exact hs.visited (updateInOutIfNeeded_visited hs.exclusive hupdate)
    | updateThrew hthrew =>
      obtain ⟨vs, hv⟩ := updateInOutIfNeeded_threw hs.exclusive hthrew
      exact hs.visited hv

/-- The sub-requests that have a name hold one blob for it, the user's own if there is one. -/
def OneBlob (s : Session) : Prop := ∀ name,
  (∀ r r', s.request.Has r name → s.request.Has r' name → s.request.held r name = s.request.held r' name) ∧
    ∀ b, s.user name = some b → ∀ r, s.request.Has r name → s.request.held r name = b

/-- Each sub-request with a name for which the user has set a blob gets that blob next, or holds it and gets none. -/
def UserBlobsReach (s : Session) : Prop := ∀ name b, s.user name = some b → ∀ r, s.request.Has r name →
  s.request.Gets r name b ∨ ((∀ b', ¬ s.request.Gets r name b') ∧ s.request.held r name = b)

/-- **One blob for a name**, exactly: after `updateInOutIfNeeded`, in any session. -/
theorem oneBlob_iff {isApplicable : Blob → Blob → Result Unit} {accepts : Nat → String → Blob → Result Unit}
    {s : Session} {request : HeteroInferRequest} (h : (sessions isApplicable accepts).Reachable s)
    (hupdate : s.request.updateInOutIfNeeded accepts = .ok request) :
    OneBlob { s with request } ↔ UserBlobsReach s := by
  have hinv := reachable_sessionInv h
  have hex := hinv.exclusive
  have hv := updateInOutIfNeeded_visited hex hupdate
  have hhas : ∀ r name, request.Has r name ↔ s.request.Has r name := by
    intro r name
    unfold Has
    rw [hv.same.2]
  constructor
  · intro hone name b huser r hr
    have hb := (hone name).2 b huser r ((hhas r name).mpr hr)
    rcases updateInOutIfNeeded_held hex hupdate r name with ⟨b', hgets, hheld⟩ | ⟨hnot, hheld⟩
    · rw [← hb, hheld]
      exact .inl hgets
    · exact .inr ⟨hnot, hheld.symm.trans hb⟩
  · intro hreach name
    have huser : ∀ b, s.user name = some b → ∀ r, request.Has r name → request.held r name = b := by
      intro b huser r hr
      rcases updateInOutIfNeeded_held hex hupdate r name with ⟨b', hgets, hheld⟩ | ⟨hnot, hheld⟩
      · rcases hreach name b huser r ((hhas r name).mp hr) with hgets' | ⟨hnot, -⟩
        · rw [hheld, hgets.unique hex hgets']
        · exact absurd hgets (hnot b')
      · rcases hreach name b huser r ((hhas r name).mp hr) with hgets' | ⟨-, hb⟩
        · exact absurd hgets' (hnot b)
        · rw [hheld, hb]
    refine ⟨fun r r' hr hr' => ?_, huser⟩
    cases hname : s.user name with
    | some b => rw [huser b hname r hr, huser b hname r' hr']
    | none =>
      have hshared := ((hinv.visited hv).untouched name hname).2
      have heq := (hshared r hr).symm.trans (hshared r' hr')
      exact Option.some_inj.mp heq

/-! ### A shared input -/

def blobOf (pointee : Nat) : Blob := { pointee, tensorDesc := { dims := [1] } }

/-- The blob that sub-request `r` starts with, the same for each of its names. -/
def ownBlob (r : Nat) (_ : String) : Blob := blobOf r

def anyAccepts (_ : Nat) (_ : String) (_ : Blob) : Result Unit := .ok ()

def anyApplicable (_ _ : Blob) : Result Unit := .ok ()

/-- Two sub-requests in a row; both read the input when `shared`. -/
def chain (shared : Bool) : List SubRequestDesc :=
  [{ iNames := ["in"], oNames := ["mid"] },
    { iNames := if shared then ["mid", "in"] else ["mid"], oNames := ["out"] }]

/-- The user's blob for the input of the chain reaches its one reader. -/
theorem oneBlob_iff_chain : ∃ s request, (sessions anyApplicable anyAccepts).Reachable s ∧
    s.user "in" = some (blobOf 7) ∧ s.request.updateInOutIfNeeded anyAccepts = .ok request ∧
    OneBlob { s with request } := by
  obtain ⟨s, hs, r, hr, request, hupdate, hvisits, hsrc, hblobs⟩ :
      ∃ s, construct anyAccepts [("in", { tensorDesc := { dims := [1] } })] [("out", { dims := [1] })] (chain false)
        ownBlob = .ok s ∧
      ∃ r, s.SetBlob anyApplicable "in" (some (blobOf 7)) = .ok r ∧
      ∃ request, updateInOutIfNeeded anyAccepts { s with toInferRequestInternal := r } = .ok request ∧
        visits { s with toInferRequestInternal := r } =
          [⟨.input, 0, "in"⟩, ⟨.output, 0, "mid"⟩, ⟨.input, 1, "mid"⟩, ⟨.output, 1, "out"⟩] ∧
        source r .input "in" = some (blobOf 7, blobOf 7) ∧ s.blobs "in" = some (blobOf 0) :=
    ⟨_, rfl, _, rfl, _, rfl, rfl, rfl, rfl⟩
  have hinit : (sessions anyApplicable anyAccepts).Reachable { request := s } := .init ⟨rfl, _, _, _, _, hs⟩
  refine ⟨_, request, hinit.step (.setBlob hr), rfl, hupdate,
    (oneBlob_iff (hinit.step (.setBlob hr)) hupdate).mpr fun name b huser r' hr' => ?_⟩
  have hname : name = "in" := by
    by_contra hne
    simp only [Function.update_of_ne hne] at huser
    cases huser
  subst hname
  simp only [Function.update_self] at huser
  cases huser
  obtain ⟨d, hd⟩ := has_iff.mp hr'
  rw [hvisits] at hd
  obtain ⟨rfl, rfl⟩ : d = .input ∧ r' = 0 := by simpa using hd
  refine .inl ⟨.input, blobOf 7, hsrc, ?_, ?_⟩
  · simp only [hblobs]
    decide
  · rw [hvisits]
    decide

/-- Of two sub-requests that read one input, the second keeps its old blob. -/
theorem not_oneBlob_of_shared : ∃ s request, (sessions anyApplicable anyAccepts).Reachable s ∧
    s.user "in" = some (blobOf 7) ∧ s.request.updateInOutIfNeeded anyAccepts = .ok request ∧
    ¬ OneBlob { s with request } := by
  obtain ⟨s, hs, r, hr, request, hupdate, hfirst, hsecond, hreqs⟩ :
      ∃ s, construct anyAccepts [("in", { tensorDesc := { dims := [1] } })] [("out", { dims := [1] })] (chain true)
        ownBlob = .ok s ∧
      ∃ r, s.SetBlob anyApplicable "in" (some (blobOf 7)) = .ok r ∧
      ∃ request, updateInOutIfNeeded anyAccepts { s with toInferRequestInternal := r } = .ok request ∧
        request.held 0 "in" = blobOf 7 ∧ request.held 1 "in" = blobOf 0 ∧ request.inferRequests = chain true :=
    ⟨_, rfl, _, rfl, _, rfl, rfl, rfl, rfl⟩
  have hinit : (sessions anyApplicable anyAccepts).Reachable { request := s } := .init ⟨rfl, _, _, _, _, hs⟩
  refine ⟨_, request, hinit.step (.setBlob hr), rfl, hupdate, fun hone => ?_⟩
  have hhas : ∀ r, r < 2 → request.Has r "in" := by
    intro r hr
    have hlt : r < request.inferRequests.length := by
      rw [hreqs]
      exact hr
    refine ⟨_, List.getElem?_eq_getElem hlt, ?_⟩
    simp only [hreqs]
    interval_cases r <;> simp [chain]
  have heq := (hone "in").1 0 1 (hhas 0 (by omega)) (hhas 1 (by omega))
  rw [hfirst, hsecond] at heq
  exact absurd heq (by decide)

end OpenVino.HeteroPlugin
