import Blorp.Own.Erasure

/-!
# Labels never change the program

Whatever rows a labelling ends with, they keep every parameter's type, and every
insertion the inference keeps is one of the instance it is kept for.  So a whole
owned program erases to the lowered program it was made from.
-/

namespace Blorp.Own

open Specialize
open Lower (LoweredFunction LoweredProgram)
open Fuel Outcome

/-! ## Rows keep their types -/

/-- The rows pass exactly the function's parameters. -/
def RowsFit (function : LoweredFunction) (rows : List OwnedParameter) : Prop :=
  rows.map (·.parameterType) = function.signature.parameters

variable {layouts : Layouts} {rows current : List OwnedParameter} {function : LoweredFunction}
variable {instances : List Instance} {state : SolveState} {one : Instance} {fuel : Nat} {α : Type}

theorem borrowedRows_types {parameters : List TypeRef}
    (h : borrowedRows parameters layouts = .ok rows) : rows.map (·.parameterType) = parameters := by
  refine map_eq_of_forall₂ ((List.mapM_eq_ok_iff.mp h).imp fun valueType row hrow => ?_)
  obtain ⟨needsOwner, -, hrow⟩ := Except.peel hrow
  cases needsOwner <;> cases hrow <;> rfl

theorem parameterType_owning (row : OwnedParameter) : row.owning.parameterType = row.parameterType := by
  cases row <;> rfl

variable {owned tried : List OwnedParameter} {labels : List (List OwnedParameter)}
variable {program : LoweredProgram}

theorem owningRows_types {owning : List Bool} (h : owningRows rows owning = .ok owned) :
    owned.map (·.parameterType) = rows.map (·.parameterType) := by
  have hall := (List.mapM_eq_ok_iff.mp h).imp
    (S := fun (p : OwnedParameter × Nat) row => row.parameterType = p.1.parameterType)
    fun p row hrow => by
      obtain ⟨flag, -, hrow⟩ := Except.peel hrow
      cases flag
      · cases hrow; rfl
      · cases hrow; exact parameterType_owning p.1
  have hmap : owned.map (·.parameterType) = rows.zipIdx.map fun p => p.1.parameterType := by
    clear h
    generalize rows.zipIdx = pairs at hall
    induction hall with
    | nil => rfl
    | cons hrow _ ih => rw [List.map_cons, List.map_cons, hrow, ih]
  rw [hmap]
  show rows.zipIdx.map (OwnedParameter.parameterType ∘ Prod.fst) = _
  rw [← List.map_map, List.zipIdx_map_fst]

theorem RowsFit.owning {flags : List Bool} (h : RowsFit function rows)
    (ho : owningRows rows flags = .ok owned) : RowsFit function owned :=
  (owningRows_types ho).trans h

/-! ## The inference keeps insertions of its own instances -/

/-- Every row fits its instance, and every kept insertion erases to it. -/
structure LabelsErase (instances : List Instance) (solved : SolvedLabels) : Prop where
  rows : ∀ {i : Nat} {one : Instance} {rows : List OwnedParameter}, instances[i]? = some one →
    solved.labels[i]? = some rows → RowsFit one.function rows
  kept : ∀ {i : Nat} {one : Instance} {inserted : InsertedFunction}, instances[i]? = some one →
    solved.kept[i]? = some (some inserted) →
    eraseFunction inserted.function = some one.function.withoutReads

theorem LabelsErase.drop {solved : SolvedLabels} (h : LabelsErase instances solved) (i : Nat) :
    LabelsErase instances ⟨solved.labels, solved.kept.set i none⟩ := by
  refine ⟨h.rows, fun {j one inserted} hone hkept => ?_⟩
  rw [List.getElem?_set] at hkept
  split at hkept
  · split at hkept
    · cases hkept
    · cases hkept
  · exact h.kept hone hkept

theorem requeueCaller_erases {owned : List Bool} {next : SolveState} {call : CallEdge}
    (h : LabelsErase instances state.toSolvedLabels)
    (hn : requeueCaller instances owned state call = .ok next) :
    LabelsErase instances next.toSolvedLabels := by
  obtain ⟨passes, -, hn⟩ := Except.peel hn
  cases passes <;> cases hn <;> exact h.drop call.caller

theorem publishAnalysis_erases {analysed : Nat} {incoming : List CallEdge} {analysis : Analysis}
    {next : SolveState} (h : LabelsErase instances state.toSolvedLabels)
    (hone : instances[analysed]? = some one)
    (hinserted : eraseFunction analysis.inserted.function = some one.function.withoutReads)
    (hmerged : RowsFit one.function analysis.merged)
    (hn : publishAnalysis instances analysed tried current incoming analysis state = .ok next) :
    LabelsErase instances next.toSolvedLabels := by
  -- Recording the analysis keeps its insertion at its own instance only.
  have hrecorded : ∀ kept, (kept = some analysis.inserted ∨ kept = none) →
      LabelsErase instances ⟨state.labels, state.kept.set analysed kept⟩ := by
    intro kept hkept
    refine ⟨h.rows, fun {j other inserted} hother hj => ?_⟩
    rw [List.getElem?_set] at hj
    split at hj
    · rename_i heq
      subst heq
      rw [hone] at hother
      cases hother
      split at hj
      · rcases hkept with rfl | rfl
        · cases hj; exact hinserted
        · cases hj
      · cases hj
    · exact h.kept hother hj
  unfold publishAnalysis at hn
  simp only at hn
  have hkept : ∀ c : Prop, [Decidable c] →
      (if c then some analysis.inserted else none) = some analysis.inserted ∨
        (if c then some analysis.inserted else none) = none := by
    intro c _
    by_cases hc : c <;> simp [hc]
  split at hn
  · refine Except.foldlM_invariant
      (I := fun _ (state : SolveState) => LabelsErase instances state.toSolvedLabels)
      (fun _ call current next hc hnext => requeueCaller_erases hc hnext)
      incoming [] _ next ?_ hn
    refine ⟨fun {j other rows} hother hj => ?_, (hrecorded _ (hkept _)).kept⟩
    simp only [List.getElem?_set] at hj
    split at hj
    · rename_i heq
      subst heq
      rw [hone] at hother
      cases hother
      split at hj
      · cases hj; exact hmerged
      · cases hj
    · exact h.rows hother hj
  · cases hn
    exact hrecorded _ (hkept _)

theorem analyse_erases (htried : RowsFit function tried) (hcurrent : RowsFit function current) :
    Yields (fun analysis : Analysis =>
        eraseFunction analysis.inserted.function = some function.withoutReads ∧
          RowsFit function analysis.merged)
      (analyse fuel function tried current labels layouts) := by
  refine Yields.bind (insertContractedFunction_erases htried) fun inserted hinserted => ?_
  refine Yields.bind_any fun reached => ?_
  refine Yields.bind (Yields.liftM fun merged hm => hcurrent.owning hm) fun merged hm => ?_
  exact Yields.ok ⟨hinserted, hm⟩

theorem solveInstance_erases {analysed : Nat} {incoming : List CallEdge}
    (h : LabelsErase instances state.toSolvedLabels) (hone : instances[analysed]? = some one)
    (hcurrent : state.labels[analysed]? = some current) :
    Yields (fun next : SolveState => LabelsErase instances next.toSolvedLabels)
      (solveInstance fuel instances layouts analysed one current incoming state) := by
  have hfits := h.rows hone hcurrent
  refine Yields.bind_any fun reaching => ?_
  refine Yields.bind (Yields.liftM fun tried ht => hfits.owning ht) fun tried htried => ?_
  split
  · refine Yields.bind (analyse_erases htried hfits) fun analysis ha => ?_
    refine Yields.liftM fun next hn => ?_
    exact publishAnalysis_erases (by exact h) hone ha.1 ha.2 hn
  · exact Yields.ok h

theorem solveWalk_erases {callers : List (List CallEdge)} : ∀ (fuel : Nat) (state : SolveState),
    LabelsErase instances state.toSolvedLabels →
    Yields (LabelsErase instances) (solveWalk instances callers layouts fuel state)
  | 0, _, _ => Yields.timeout
  | fuel + 1, state, h => by
      rw [solveWalk]
      split
      · exact Yields.ok h
      · rename_i analysed _
        split
        · exact solveWalk_erases fuel { state with cursor := analysed } h
        · rename_i one current incoming _ hone hcurrent _
          exact (solveInstance_erases h hone hcurrent).bind fun next hn =>
            solveWalk_erases fuel next hn
        · exact Yields.err _

/-! ## Gathering the instances -/

theorem gatherFunction_borrowed {state next : GatheredFunctions}
    (h : gatherFunction fuel layouts state function = .ok next) :
    ∃ rows, next.borrowed = state.borrowed ++ [rows] ∧ RowsFit function rows := by
  obtain ⟨found, -, h⟩ := bind_eq_ok.mp h
  obtain ⟨rows, hrows, h⟩ := bind_eq_ok.mp h
  cases h
  exact ⟨rows, rfl, borrowedRows_types (liftM_eq_ok.mp hrows)⟩

theorem gatherFunctions_borrowed :
    ∀ {functions : List LoweredFunction} {state gathered : GatheredFunctions},
      gatherFunctions fuel layouts functions state = .ok (gathered, none) →
      ∃ rows, gathered.borrowed = state.borrowed ++ rows ∧ List.Forall₂ RowsFit functions rows
  | [], state, gathered, h => by
      cases h
      exact ⟨[], (List.append_nil _).symm, .nil⟩
  | function :: functions, state, gathered, h => by
      rw [gatherFunctions] at h
      cases hf : gatherFunction fuel layouts state function with rw [hf] at h
      | ok next =>
        obtain ⟨first, hnext, hfirst⟩ := gatherFunction_borrowed hf
        obtain ⟨rest, hgathered, hrest⟩ := gatherFunctions_borrowed h
        exact ⟨first :: rest, by simp [hgathered, hnext], .cons hfirst hrest⟩
      | err error => cases h
      | timeout => cases h

theorem gatherInstances_fit : Yields (fun gathered : List Instance × List (List OwnedParameter) =>
        gathered.1.map (·.function) = program.functions ∧
          List.Forall₂ RowsFit program.functions gathered.2)
      (gatherInstances fuel program layouts) := by
  intro gathered h
  obtain ⟨⟨found, failed⟩, hfound, h⟩ := bind_eq_ok.mp h
  obtain ⟨⟨state, failure⟩, hloop, h⟩ := bind_eq_ok.mp h
  obtain ⟨instances, hsettle, h⟩ := bind_eq_ok.mp h
  cases h
  rw [settle_eq_ok.mp hsettle, loop_eq_ok_none] at hloop
  simp only at hloop
  rw [hloop.1] at hfound
  have hinstances := Yields.foldlM
    (I := fun passed (instances : List Instance) => instances.map (·.function) = passed.map Prod.fst)
    (fun passed function instances hs => Yields.liftM fun next hn => by
      obtain ⟨facts, -, hn⟩ := Except.peel hn
      obtain ⟨pinned, -, hn⟩ := Except.peel hn
      cases hn
      simp [hs])
    program.functions.zipIdx [] [] rfl instances hloop.2
  rw [List.nil_append, List.zipIdx_map_fst] at hinstances
  obtain ⟨rows, hborrowed, hfit⟩ := gatherFunctions_borrowed hfound
  exact ⟨hinstances, hborrowed ▸ hfit⟩

/-! ## Every labelling -/

theorem forall₂_getElem? {β : Type} {R : α → β → Prop} {as : List α} {bs : List β}
    (h : List.Forall₂ R as bs) {i : Nat} {a : α} {b : β} (ha : as[i]? = some a)
    (hb : bs[i]? = some b) : R a b := by
  induction h generalizing i with
  | nil => simp at ha
  | cons hab _ ih =>
    cases i with
    | zero =>
      simp only [List.getElem?_cons_zero, Option.some.injEq] at ha hb
      rwa [← ha, ← hb]
    | succ i => exact ih (by simpa using ha) (by simpa using hb)

theorem getElem?_of_growsed {passed xs : List α} {x : α} (h : passed ++ [x] <+: xs) :
    xs[passed.length]? = some x := by
  obtain ⟨rest, rfl⟩ := h
  simp

theorem labelsErase_of_rows (h : List.Forall₂ RowsFit (instances.map (·.function)) labels)
    (count : Nat) : LabelsErase instances ⟨labels, List.replicate count none⟩ := by
  refine ⟨fun {i one rows} hone hrows => ?_, fun {i one inserted} _ hkept => ?_⟩
  · have hfunction : (instances.map (·.function))[i]? = some one.function := by simp [hone]
    exact forall₂_getElem? h hfunction hrows
  · simp only [List.getElem?_replicate] at hkept
    split at hkept <;> cases hkept

theorem solvedLabels_erase {labelling : Labelling} {borrowed : List (List OwnedParameter)}
    (h : List.Forall₂ RowsFit (instances.map (·.function)) borrowed) :
    Yields (fun solved : SolvedLabels × Option Diagnostic =>
        solved.2 = none → LabelsErase instances solved.1)
      (solvedLabels fuel labelling instances borrowed layouts) := by
  cases labelling with
  | inferredLabels =>
    refine Yields.bind (Q := LabelsErase instances) ?_ fun solved hs => Yields.ok fun _ => hs
    refine Yields.bind_any fun callers => ?_
    exact solveWalk_erases fuel _ (labelsErase_of_rows h _)
  | allBorrowed => exact Yields.ok fun _ => labelsErase_of_rows h _
  | allOwnedExceptPinned =>
    refine Yields.bind (fun owned ho => ho) fun owned ho => Yields.ok fun hnone => ?_
    obtain ⟨labels, failure⟩ := owned
    simp only at hnone
    rw [hnone, loop_eq_ok_none] at ho
    -- The rows of each instance are read at its own position.
    have hlabels := Yields.foldlM_within
      (I := fun passed (owned : List (List OwnedParameter)) =>
        List.Forall₂ RowsFit (passed.map (·.function)) owned)
      (fun passed one owned hone hs => Yields.liftM fun next hn => by
        obtain ⟨rows, hrows, hn⟩ := Except.peel hn
        obtain ⟨allOwned, hall, hn⟩ := Except.peel hn
        cases hn
        have hlength : owned.length = passed.length := by simpa using hs.length_eq.symm
        have hfunction : (instances.map (·.function))[owned.length]? = some one.function := by
          simp [hlength, getElem?_of_growsed hone]
        have hfits : RowsFit one.function rows :=
          forall₂_getElem? h hfunction (orInternalError_eq_ok.mp hrows)
        rw [List.map_append]
        exact List.rel_append hs (.cons (hfits.owning hall) .nil))
      List.Forall₂.nil labels ho.2
    exact labelsErase_of_rows hlabels _

/-! ## Programs -/

theorem insertInstance_erases {solved : SolvedLabels} {functions : List InsertedFunction}
    {index : Nat} (h : LabelsErase instances solved) (hone : instances[index]? = some one) :
    Yields (fun next : List InsertedFunction => ∃ inserted, next = functions ++ [inserted] ∧
        eraseFunction inserted.function = some one.function.withoutReads)
      (insertInstance fuel layouts solved functions (one, index)) := by
  refine Yields.bind (Yields.liftM fun kept hk => orInternalError_eq_ok.mp hk) fun kept hk => ?_
  cases kept with
  | some inserted => exact Yields.ok ⟨inserted, rfl, h.kept hone hk⟩
  | none =>
    refine Yields.bind (Yields.liftM fun rows hr => orInternalError_eq_ok.mp hr) fun rows hr => ?_
    refine Yields.bind (insertContractedFunction_erases (h.rows hone hr)) fun inserted hi => ?_
    exact Yields.ok ⟨inserted, rfl, hi⟩

theorem insertedInstances_erase {labelling : Labelling} :
    Yields (fun inserted : List InsertedFunction =>
        inserted.map (fun one => eraseFunction one.function) =
          program.functions.map fun function => some function.withoutReads)
      (insertedInstances fuel program labelling) := by
  refine Yields.bind gatherInstances_fit fun gathered hgathered => ?_
  obtain ⟨instances, borrowed⟩ := gathered
  obtain ⟨hinstances, hborrowed⟩ := hgathered
  rw [← hinstances] at hborrowed
  refine Yields.bind (solvedLabels_erase hborrowed) fun solved hsolved => ?_
  obtain ⟨solved, failure⟩ := solved
  cases failure with
  | some error => exact Yields.bind_any fun _ => Yields.err _
  | none =>
    refine (Yields.foldlM_within
      (I := fun passed (functions : List InsertedFunction) =>
        functions.map (fun one => eraseFunction one.function) =
          passed.map fun p : Instance × Nat => some p.1.function.withoutReads)
      (fun passed one functions hone hs => ?_) rfl).mono fun functions hfunctions => ?_
    · have hat : instances[one.2]? = some one.1 := by
        have hmem : one ∈ instances.zipIdx := hone.subset (by simp)
        simpa using List.mem_zipIdx_iff_getElem?.mp hmem
      refine (insertInstance_erases (hsolved rfl) hat).mono fun next hnext => ?_
      obtain ⟨inserted, rfl, hinserted⟩ := hnext
      simp [hs, hinserted]
    · rw [hfunctions, ← hinstances, List.map_map]
      show instances.zipIdx.map ((fun one : Instance => some one.function.withoutReads) ∘ Prod.fst)
        = _
      rw [← List.map_map, List.zipIdx_map_fst]
      rfl

theorem mapM_eq_some_of_map {β : Type} {f : α → Option β} : ∀ {as : List α} {bs : List β},
    as.map f = bs.map some → as.mapM f = some bs
  | [], [], _ => rfl
  | [], b :: bs, h => by simp at h
  | a :: as, [], h => by simp at h
  | a :: as, b :: bs, h => by
      simp only [List.map_cons, List.cons.injEq] at h
      simp [List.mapM_cons, h.1, mapM_eq_some_of_map h.2]

/-- Labels never change behaviour: under every labelling, taking the ownership
out of the inserted program gives back the lowered program, its values, steps,
selections, arms, loop headers and exits all in place. -/
theorem insertOwnership_erases (fuel : Nat) (program : LoweredProgram) (labelling : Labelling)
    (owned : OwnershipProgram) (h : insertOwnership fuel program labelling = .ok owned) :
    eraseProgram owned = some program.withoutReads := by
  obtain ⟨inserted, hinserted, h⟩ := bind_eq_ok.mp h
  cases h
  have hall := insertedInstances_erase inserted hinserted
  have hfunctions : (inserted.map (·.function)).mapM eraseFunction =
      some (program.functions.map LoweredFunction.withoutReads) := by
    apply mapM_eq_some_of_map
    rw [List.map_map, List.map_map]
    exact hall
  simp only [eraseProgram, hfunctions]
  rfl

/-! A caller passes a fresh text to `shout`, which appends to it in one arm of a
match and returns it in the other: its first parameter is inferred owned.  -/

private def shoutSpan : Check.Span := ⟨1, 0, 0⟩

private def shoutArms : List Lower.JoinArm :=
  [⟨0, [],
      [.define ⟨3, .stringType, .stringValue "!", shoutSpan⟩,
        .define ⟨4, .stringType, .callValue (.runtimeFunction .stringConcat) [0, 3], shoutSpan⟩],
      .yield ⟨4, []⟩⟩,
    ⟨1, [], [], .yield ⟨0, []⟩⟩]

private def shoutSelection : Lower.LoweredSelection :=
  ⟨1, [.testVariant ⟨.unionType 0, .matchRoot⟩ ⟨0, 0⟩ 1 2, .enterArm ⟨0, [], []⟩,
    .enterArm ⟨1, [], []⟩], 0⟩

private def shout : LoweredFunction :=
  { label := "shout"
    signature := ⟨[.stringType, .unionType 0], .stringType⟩
    steps :=
      [.define ⟨0, .stringType, .parameterValue 0, shoutSpan⟩,
        .define ⟨1, .unionType 0, .parameterValue 1, shoutSpan⟩,
        .join ⟨⟨2, .stringType, shoutSpan⟩, [], shoutSelection, shoutArms, [1, 0, 0]⟩]
    result := 2 }

private def shoutCaller : LoweredFunction :=
  { label := "main"
    signature := ⟨[], .stringType⟩
    steps :=
      [.define ⟨0, .stringType, .stringValue "hey", shoutSpan⟩,
        .define ⟨1, .unionType 0, .constructValue ⟨0, 0⟩ [], shoutSpan⟩,
        .define ⟨2, .stringType, .callValue (.userFunction 1) [0, 1], shoutSpan⟩]
    result := 2 }

private def shoutProgram : LoweredProgram :=
  ⟨[], [.plainCases [[], []]], [shoutCaller, shout], .noArguments 0 .successfulExit⟩

theorem insertOwnership_erases_shout : ∃ owned,
    insertOwnership 30 shoutProgram .inferredLabels = .ok owned ∧
      owned.functions.map (fun function => function.parameters.map (·.parameterOwned)) =
        [[], [true, false]] ∧
      eraseProgram owned = some shoutProgram.withoutReads := by
  have hrun : (match insertOwnership 30 shoutProgram .inferredLabels with
      | .ok owned => some (owned.functions.map fun function =>
          function.parameters.map (·.parameterOwned))
      | _ => none) = some [[], [true, false]] := by decide +kernel
  split at hrun
  · rename_i owned h
    exact ⟨owned, h, Option.some.inj hrun,
      insertOwnership_erases 30 shoutProgram .inferredLabels owned h⟩
  · cases hrun

end Blorp.Own
