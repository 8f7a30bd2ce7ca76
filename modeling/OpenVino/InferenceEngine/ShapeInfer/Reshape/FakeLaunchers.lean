import OpenVino.InferenceEngine.ShapeInfer.Reshape.Extensions

/-!
# Layers without shape inference

The launcher of a layer without an implementation compares the new shape of each port with the one of the IR by
`std::equal` of one range and a start: a shorter shape passes when it is a prefix, and a longer one is compared with
what is behind the shape of the IR (`stdEqual_eq`). `test_safe_iff` says when the test of one layer reads nothing
else and lets nothing else pass, `fakeLayers_keep` what follows for a run.
-/

namespace OpenVino.InferenceEngine

theorem stdEqual_eq {α : Type} [DecidableEq α] (expression : String) (as bs : List α) :
    stdEqual expression as bs =
      if as <+: bs then .ok true
      else if bs <+: as then .error (.undefinedBehaviour expression)
      else .ok false := by
  induction as generalizing bs with
  | nil => simp [stdEqual, pure, Except.pure]
  | cons a as ih =>
    rcases bs with _ | ⟨b, bs⟩
    · simp [stdEqual]
    · rw [stdEqual, ih]
      by_cases hab : a = b
      · subst hab
        simp only [if_true, List.cons_prefix_cons, true_and]
      · simp [hab, Ne.symm hab, pure, Except.pure]

namespace ShapeInfer.Reshaper

variable {β : Type} {n : CNNNetwork β} {r rf : Reshaper β} {inputShapes : String → Option SizeVector}
  {shapes irShapes : List SizeVector} {type : String} {c : InputController β}

/-! ### The test of one layer -/

/-- The first port whose new shape is not a prefix of the one of the IR, with both shapes. -/
def firstApart (shapes irShapes : List SizeVector) : Option (SizeVector × SizeVector) :=
  (shapes.zip irShapes).find? fun p => ¬ p.1 <+: p.2

/-- The new shapes are those of the IR, or the first of them that is not a prefix has an element at which it differs. -/
def SafelyTested (shapes irShapes : List SizeVector) : Prop :=
  shapes = irShapes ∨ ∃ s ir, firstApart shapes irShapes = some (s, ir) ∧ ¬ ir <+: s

theorem checkShapes_eq (hlength : shapes.length = irShapes.length) :
    checkShapes type shapes irShapes =
      match firstApart shapes irShapes with
      | none => .ok ()
      | some (s, ir) =>
        if ir <+: s then .error (.undefinedBehaviour "*irInShape.end()")
        else throwException ("Failed to infer shapes for layer with type: " ++ type ++
          ". Use @IShapeInferExtension class to register shape infer function for this layer") := by
  induction shapes generalizing irShapes with
  | nil => simp [checkShapes, firstApart, pure, Except.pure]
  | cons s shapes ih =>
    rcases irShapes with _ | ⟨ir, irShapes⟩
    · cases hlength
    · rw [checkShapes, stdEqual_eq, firstApart, List.zip_cons_cons]
      by_cases hprefix : s <+: ir
      · rw [if_pos hprefix, List.find?_cons_of_neg (by simpa using hprefix)]
        exact ih (Nat.succ.inj hlength)
      · rw [if_neg hprefix, List.find?_cons_of_pos (by simpa using hprefix)]
        dsimp only
        split_ifs
        · rfl
        · rfl

/-- The test reads only what is there, and passes only for the shapes of the IR. -/
def TestSafe (type : String) (shapes irShapes : List SizeVector) : Prop :=
  (∀ e, checkShapes type shapes irShapes ≠ .error (.undefinedBehaviour e)) ∧
    (checkShapes type shapes irShapes = .ok () → shapes = irShapes)

theorem test_safe_iff (hlength : shapes.length = irShapes.length) :
    TestSafe type shapes irShapes ↔ SafelyTested shapes irShapes := by
  unfold TestSafe SafelyTested
  rw [checkShapes_eq hlength]
  rcases hapart : firstApart shapes irShapes with _ | ⟨s, ir⟩
  · simp
  · -- equal shapes have no port at which they are apart
    have hne : shapes ≠ irShapes := by
      rintro rfl
      have hmem := List.mem_of_find?_eq_some hapart
      have hs := List.find?_some hapart
      rw [List.zip, List.zipWith_self, List.mem_map] at hmem
      obtain ⟨t, -, ht⟩ := hmem
      obtain ⟨rfl, rfl⟩ := Prod.mk.inj ht
      simp at hs
    dsimp only
    split_ifs with hir
    · simp [hir, hne]
    · simp [hir, throwException]

/-! ### Runs -/

/-- `run` calls `reshape` on the launcher, of a layer without an implementation, when `c` is its input controller. -/
def Tests (n : CNNNetwork β) (inputShapes : String → Option SizeVector) (r : Reshaper β) (launcher : Launcher β)
    (c : InputController β) : Prop :=
  ∃ r₁ r₂ before layer after,
    (resetAll >>= fun _ => setInputShapes n inputShapes : Method (Reshaper β) Unit).exec r = (.ok (), r₁) ∧
      r₁.allSortedLayers = before ++ layer :: after ∧ (inferLayers n before).exec r₁ = (.ok (), r₂) ∧
      find n (n.name layer) r₂.launchers = some launcher ∧ launcher.kind = .FakeReshapeLauncher ∧
      launcher.iController = some c

/-- What the launcher tests, with the count of the shapes before it. -/
def test (type : String) (c : InputController β) : Result Unit := do
  let iShapes ← c.getShapes true
  checkShapes type iShapes c.getIRShapes

theorem getShapes_eq (c : InputController β) :
    c.getShapes true = if c.shapes.length = c.getIRShapes.length then .ok c.shapes else
      throwException ("ReshapeLauncher: Number of data(" ++ toString c.ports.length ++
        ") doesn't match with number of shapes(" ++ toString c.shapes.length ++ ") for layer '" ++ c.layerName ++
        "'!") := by
  have hlength : c.getIRShapes.length = c.ports.length := List.length_map _
  rw [hlength, InputController.getShapes, InputController.checkCorrespondence]
  by_cases h : c.shapes.length = c.ports.length
  · simp [h, bind, Except.bind, pure, Except.pure]
  · simp [h, bind, Except.bind, throwException]

theorem test_ok_of_reshape {launcher : Launcher β} (hc : launcher.iController = some c)
    (h : (FakeReshapeLauncher.reshape n launcher).exec r = (.ok (), rf)) :
    test (n.type launcher.layer) c = .ok () := by
  unfold FakeReshapeLauncher.reshape at h
  obtain ⟨i, r₁, hi, h⟩ := Method.bind_ok h
  obtain ⟨o, r₂, -, h⟩ := Method.bind_ok h
  obtain ⟨iShapes, r₃, hshapes, h⟩ := Method.bind_ok h
  obtain ⟨u, r₄, hcheck, -⟩ := Method.bind_ok h
  rw [hc] at hi
  obtain rfl := Except.ok.inj (Method.lift_ok hi).1
  rw [test, (Method.lift_ok hshapes).1]
  exact (Method.lift_ok hcheck).1

/-- A run that returned has reshaped the layers that it tested. -/
theorem test_ok_of_run {launcher : Launcher β} (htests : Tests n inputShapes r launcher c)
    (h : (run n inputShapes).exec r = (.ok (), rf)) : test (n.type launcher.layer) c = .ok () := by
  obtain ⟨r₁, r₂, before, layer, after, hinputs, hsorted, hbefore, hfind, hkind, hc⟩ := htests
  unfold run at h
  obtain ⟨_, r₀, hreset, hafter⟩ := Method.bind_ok h
  obtain ⟨_, r₁', hset, hloops⟩ := Method.bind_ok hafter
  rw [Method.exec_bind, hreset] at hinputs
  obtain ⟨-, rfl⟩ := Method.ok_unique hinputs hset
  obtain ⟨_, _, hget, hwalk⟩ := Method.bind_ok hloops
  obtain ⟨rfl, rfl⟩ := Method.get_ok hget
  obtain ⟨_, r₃, hinfer, -⟩ := Method.bind_ok hwalk
  unfold inferLayers at hbefore hinfer
  rw [hsorted] at hinfer
  obtain ⟨r₂', hbefore', hrest⟩ := Method.forM_append_ok hinfer
  obtain ⟨-, rfl⟩ := Method.ok_unique hbefore hbefore'
  obtain ⟨r₄, hlayer, -⟩ := Method.forM_cons_ok hrest
  obtain ⟨l, r₅, hfound, hcalls⟩ := Method.bind_ok hlayer
  obtain ⟨_, r₆, hreshape, -⟩ := Method.bind_ok hcalls
  unfold getLauncherByLayerName findLauncher at hfound
  rw [Method.exec_bind, Method.exec_get] at hfound
  dsimp only at hfound
  rw [hfind] at hfound
  obtain ⟨rfl, rfl⟩ := Method.ok_unique (Method.exec_pure _ _) hfound
  rw [reshape, hkind] at hreshape
  exact test_ok_of_reshape hc hreshape

/-- **Layers without shape inference** get the shapes of the IR or make the run fail, and nothing behind a shape is
read, when no test of the run stops at a port where one of the shapes is a prefix of the other one. -/
theorem fakeLayers_keep (n : CNNNetwork β) (inputShapes : String → Option SizeVector) (r : Reshaper β)
    (hsafe : ∀ launcher c, Tests n inputShapes r launcher c → SafelyTested c.shapes c.getIRShapes)
    (launcher : Launcher β) (c : InputController β) (htests : Tests n inputShapes r launcher c) :
    (∀ e, test (n.type launcher.layer) c ≠ .error (.undefinedBehaviour e)) ∧
      (((run n inputShapes).exec r).1 = .ok () → c.shapes = c.getIRShapes) := by
  have hsafe := hsafe launcher c htests
  by_cases hlength : c.shapes.length = c.getIRShapes.length
  · have htest : test (n.type launcher.layer) c = checkShapes (n.type launcher.layer) c.shapes c.getIRShapes := by
      rw [test, getShapes_eq, if_pos hlength]
      rfl
    obtain ⟨hreads, hpasses⟩ := (test_safe_iff hlength).mpr hsafe
    refine ⟨fun e => by rw [htest]; exact hreads e, fun hok => hpasses ?_⟩
    rw [← htest]
    exact test_ok_of_run htests (Prod.ext hok rfl)
  · have htest : ∃ m, test (n.type launcher.layer) c = throwException m := by
      rw [test, getShapes_eq, if_neg hlength]
      exact ⟨_, rfl⟩
    obtain ⟨m, htest⟩ := htest
    refine ⟨fun e => by rw [htest]; simp [throwException], fun hok => ?_⟩
    have hrun := test_ok_of_run htests (Prod.ext hok rfl)
    rw [htest] at hrun
    exact absurd hrun throwException_ne_ok

section Example

/-- The input shape `shape`. -/
def inputOf (shape : SizeVector) (name : String) : Option SizeVector := if name = "10" then some shape else none

/-- The run returns, after a shape that is a prefix of the one of the IR; a longer shape is compared with what is
behind the shape of the IR. -/
theorem prefix_accepted :
    (Tests (chain "New") (inputOf [1]) (chainReshaper .FakeReshapeLauncher .ANY)
        (rowLauncher .FakeReshapeLauncher [1]) (rowController "1" 10 [1]) ∧
      ((run (chain "New") (inputOf [1])).exec (chainReshaper .FakeReshapeLauncher .ANY)).1 = .ok () ∧
      (rowController "1" 10 [1]).shapes ≠ (rowController "1" 10 [1]).getIRShapes) ∧
    Tests (chain "New") (inputOf [1, 8, 5]) (chainReshaper .FakeReshapeLauncher .ANY)
        (rowLauncher .FakeReshapeLauncher [1, 8, 5]) (rowController "1" 10 [1, 8, 5]) ∧
      test "New" (rowController "1" 10 [1, 8, 5]) = .error (.undefinedBehaviour "*irInShape.end()") :=
  ⟨⟨⟨chainAt .FakeReshapeLauncher .ANY [1] [1, 8], chainAt .FakeReshapeLauncher .ANY [1] [1], [0], 1, [],
      rfl, rfl, rfl, rfl, rfl, rfl⟩, rfl, by decide⟩,
    ⟨chainAt .FakeReshapeLauncher .ANY [1, 8, 5] [1, 8], chainAt .FakeReshapeLauncher .ANY [1, 8, 5] [1, 8, 5], [0],
      1, [], rfl, rfl, rfl, rfl, rfl, rfl⟩, rfl⟩

/-- A run that gives the input the shape of the IR. -/
theorem fakeLayers_keep_chain :
    Tests (chain "New") (inputOf [1, 8]) (chainReshaper .FakeReshapeLauncher .NC)
        (rowLauncher .FakeReshapeLauncher [1, 8]) (rowController "1" 10 [1, 8]) ∧
      (((run (chain "New") (inputOf [1, 8])).exec (chainReshaper .FakeReshapeLauncher .NC)).1 = .ok () →
        (rowController "1" 10 [1, 8]).shapes = (rowController "1" 10 [1, 8]).getIRShapes) := by
  have htests : Tests (chain "New") (inputOf [1, 8]) (chainReshaper .FakeReshapeLauncher .NC)
      (rowLauncher .FakeReshapeLauncher [1, 8]) (rowController "1" 10 [1, 8]) :=
    ⟨chainReshaper .FakeReshapeLauncher .NC, chainReshaper .FakeReshapeLauncher .NC, [0], 1, [],
      rfl, rfl, rfl, rfl, rfl, rfl⟩
  refine ⟨htests, (fakeLayers_keep _ _ _ ?_ _ _ htests).2⟩
  rintro launcher c ⟨r₁, r₂, before, layer, after, hinputs, hsorted, hbefore, hfind, hkind, hc⟩
  obtain ⟨-, rfl⟩ := Method.ok_unique (t := _) rfl hinputs
  replace hsorted : [0, 1] = before ++ layer :: after := hsorted
  rcases before with _ | ⟨first, _ | ⟨second, before⟩⟩
  · -- the input layer
    obtain ⟨rfl, -⟩ := List.cons.inj hsorted
    obtain ⟨-, rfl⟩ := Method.ok_unique (t := _) rfl hbefore
    obtain rfl := Option.some_inj.mp hfind
    cases hkind
  · obtain ⟨rfl, htail⟩ := List.cons.inj hsorted
    obtain ⟨rfl, -⟩ := List.cons.inj htail
    obtain ⟨-, rfl⟩ := Method.ok_unique (t := _) rfl hbefore
    obtain rfl := Option.some_inj.mp hfind
    obtain rfl := Option.some_inj.mp hc
    exact .inl rfl
  · simp at hsorted

end Example

end ShapeInfer.Reshaper

end OpenVino.InferenceEngine
