import Blorp.Check.Unification

/-!
# Receiver overlap is unification

`solve_overlap` returns slots with the same solutions as the given slots and the equality,
or none when there is no such solution.
-/

namespace Blorp.Check

open Fuel Triangular

/-! ## Actions -/

namespace InferenceType

variable {type : InferenceType}

theorem inferenceShape_leaf {leaf : TypeRef} (h : type.inferenceShape = .acceptedType leaf) :
    type.isAccepted = true ∧ leaf.shape = .atom leaf := by
  cases type with
  | acceptedType valueType =>
    refine ⟨rfl, ?_⟩
    cases valueType <;> simp_all [inferenceShape, TypeRef.shape]
    all_goals (subst h; rfl)
  | _ => simp [inferenceShape] at h

/-- Under some values, two types that are not variables are equal iff their shapes are and
their children are, pair by pair. -/
theorem solved_eq_iff {left right : InferenceType} (hleft : ¬ left.IsVariable)
    (hright : ¬ right.IsVariable) (values : Values) :
    left.solved values = right.solved values ↔ left.shape = right.shape ∧
      left.inferenceShape.children.map (·.solved values) =
        right.inferenceShape.children.map (·.solved values) := by
  rw [TypeRef.eq_iff_shape, solved_shape hleft, solved_shape hright, solved_parts hleft,
    solved_parts hright]

theorem not_isVariable_inferenceShape (h : ¬ type.IsVariable) :
    ¬ type.inferenceShape.IsVariable := by
  cases type with
  | acceptedType valueType => cases valueType <;> exact id
  | callVariable id => exact absurd trivial h
  | _ => exact id

theorem shape_inferenceShape (h : ¬ type.IsVariable) : type.inferenceShape.shape = type.shape := by
  cases type with
  | acceptedType valueType => cases valueType <;> simp [inferenceShape, shape, TypeRef.shape]
  | callVariable id => exact absurd trivial h
  | _ => rfl

end InferenceType

/-- What an action on two heads that are not variables says of them. -/
def ActionFits (left right : InferenceType) : InferenceAction → Prop
  | .sameInference => left = right
  | .inferenceMismatch => ∀ values, left.solved values ≠ right.solved values
  | .listEquality first second =>
      left.shape = right.shape ∧ left.inferenceShape.children = [first] ∧
        right.inferenceShape.children = [second]
  | .nominalEquality _ first second | .tupleEquality first second =>
      left.shape = right.shape ∧ left.inferenceShape.children = first ∧
        right.inferenceShape.children = second ∧ first.length = second.length
  | .callableEquality _ parameters others result other =>
      left.shape = right.shape ∧ left.inferenceShape.children = parameters ++ [result] ∧
        right.inferenceShape.children = others ++ [other] ∧ parameters.length = others.length
  | .bindInference _ _ | .mergeInference _ _ => False

theorem inferenceShapeAction_spec {left right : InferenceType} (hleft : ¬ left.IsVariable)
    (hright : ¬ right.IsVariable) (hopen : left.isAccepted = false ∨ right.isAccepted = false) :
    ActionFits left right
      (inferenceShapeAction left.inferenceShape right.inferenceShape) := by
  have hdiffer : left.shape ≠ right.shape → ∀ values, left.solved values ≠ right.solved values :=
    fun hne values heq => hne ((InferenceType.solved_eq_iff hleft hright values).mp heq).1
  have hl := InferenceType.shape_inferenceShape hleft
  have hr := InferenceType.shape_inferenceShape hright
  rw [← hl, ← hr] at hdiffer
  unfold inferenceShapeAction
  split
  · next purity parameters result otherPurity others other hleft' hright' =>
    rw [hleft', hright'] at hdiffer
    split
    · next hsame =>
      refine ⟨?_, by rw [hleft']; rfl, by rw [hright']; rfl, hsame.2⟩
      rw [← hl, ← hr, hleft', hright']
      simp [InferenceType.shape, hsame]
    · next hnot =>
      refine hdiffer fun heq => hnot ?_
      simpa [InferenceType.shape] using heq
  · next first second hleft' hright' =>
    refine ⟨?_, by rw [hleft']; rfl, by rw [hright']; rfl⟩
    rw [← hl, ← hr, hleft', hright']
    rfl
  · next elements others hleft' hright' =>
    rw [hleft', hright'] at hdiffer
    split
    · next hsame =>
      refine ⟨?_, by rw [hleft']; rfl, by rw [hright']; rfl, hsame⟩
      rw [← hl, ← hr, hleft', hright']
      simp [InferenceType.shape, hsame]
    · next hnot =>
      refine hdiffer fun heq => hnot ?_
      simpa [InferenceType.shape] using heq
  · next leftOwner first rightOwner second hleft' hright' =>
    rw [hleft', hright'] at hdiffer
    split
    · next hsame =>
      refine ⟨?_, by rw [hleft']; rfl, by rw [hright']; rfl, hsame.2⟩
      rw [← hl, ← hr, hleft', hright']
      simp [InferenceType.shape, hsame]
    · next hnot =>
      refine hdiffer fun heq => hnot ?_
      simpa [InferenceType.shape] using heq
  · next hcallable hlist htuple hnominal =>
    refine hdiffer fun heq => ?_
    have hopened := InferenceType.not_isVariable_inferenceShape hleft
    have hopened' := InferenceType.not_isVariable_inferenceShape hright
    cases hleft' : left.inferenceShape with
    | callVariable id =>
      rw [hleft'] at hopened
      exact hopened trivial
    | acceptedType leaf =>
      obtain ⟨haccepted, hleaf⟩ := InferenceType.inferenceShape_leaf hleft'
      cases hright' : right.inferenceShape with
      | callVariable id =>
        rw [hright'] at hopened'
        exact hopened' trivial
      | acceptedType other =>
        obtain ⟨haccepted', -⟩ := InferenceType.inferenceShape_leaf hright'
        simp [haccepted, haccepted'] at hopen
      | _ => simp [hleft', hright', InferenceType.shape, hleaf] at heq
    | _ =>
      cases hright' : right.inferenceShape with
      | callVariable id =>
        rw [hright'] at hopened'
        exact hopened' trivial
      | acceptedType other =>
        obtain ⟨-, hother⟩ := InferenceType.inferenceShape_leaf hright'
        simp [hleft', hright', InferenceType.shape, hother] at heq
      | _ =>
        rw [hleft', hright'] at heq
        first
          | exact hcallable _ _ _ _ _ _ hleft' hright'
          | exact hlist _ _ hleft' hright'
          | exact htuple _ _ hleft' hright'
          | exact hnominal _ _ _ _ hleft' hright'
          | exact absurd heq (by simp [InferenceType.shape])

theorem inferenceAction_spec {left right : InferenceType} (hleft : ¬ left.IsVariable)
    (hright : ¬ right.IsVariable) : ActionFits left right (inferenceAction left right) := by
  unfold inferenceAction
  split
  iterate 2 · exact absurd trivial hleft
  · exact absurd trivial hright
  · split
    · next heq => exact congrArg _ heq
    · next hne => exact fun values heq => hne heq
  · next hnot =>
    refine inferenceShapeAction_spec hleft hright ?_
    cases left with
    | acceptedType first =>
      cases right with
      | acceptedType second => exact (hnot first second rfl rfl).elim
      | _ => exact .inr rfl
    | _ => exact .inl rfl

/-! ## Updates -/

section

variable {slots : List InferenceSlot}

def unboundCount (slots : List InferenceSlot) : Nat :=
  slots.countP fun slot => slot.binding.isNone

/-- The answer to an equation: slots whose solutions are the old ones that satisfy it, or none
when no solution does. -/
def Answers (slots : List InferenceSlot) (equation : Values → Prop) :
    Option (List InferenceSlot) → Prop
  | none => ∀ values, Solution slots values → ¬ equation values
  | some next =>
      WellBound next ∧ next.length = slots.length ∧
        (∀ values, Solution next values ↔ Solution slots values ∧ equation values) ∧
        (next = slots ∨ unboundCount next < unboundCount slots)

theorem Answers.same (hslots : WellBound slots) {equation : Values → Prop}
    (h : ∀ values, Solution slots values → equation values) :
    Answers slots equation (some slots) :=
  ⟨hslots, rfl, fun values => ⟨fun hvalues => ⟨hvalues, h values hvalues⟩, And.left⟩, .inl rfl⟩

theorem Answers.congr {first second : Values → Prop} {answer : Option (List InferenceSlot)}
    (h : Answers slots first answer)
    (hsame : ∀ values, Solution slots values → (first values ↔ second values)) :
    Answers slots second answer := by
  cases answer with
  | none => exact fun values hvalues hsecond => h values hvalues ((hsame values hvalues).mpr hsecond)
  | some next =>
    obtain ⟨hnext, hlength, hsolves, hprogress⟩ := h
    refine ⟨hnext, hlength, fun values => ?_, hprogress⟩
    rw [hsolves values]
    constructor
    · rintro ⟨hvalues, hfirst⟩
      exact ⟨hvalues, (hsame values hvalues).mp hfirst⟩
    · rintro ⟨hvalues, hsecond⟩
      exact ⟨hvalues, (hsame values hvalues).mpr hsecond⟩

variable {id : InferenceVariableId}

theorem unboundCount_set_lt (hid : id < slots.length) (hunbound : bindings slots id = none)
    {slot : InferenceSlot} {value : InferenceType} (hslot : slot.binding = some value) :
    unboundCount (slots.set id slot) < unboundCount slots := by
  have hold : slots[id].binding = none := by
    simpa [bindings, List.getElem?_eq_getElem hid] using hunbound
  have hpos : 0 < unboundCount slots :=
    List.countP_pos_iff.mpr ⟨slots[id], List.getElem_mem hid, by simp [hold]⟩
  unfold unboundCount at hpos ⊢
  rw [List.countP_set hid]
  simp only [hold, hslot, Option.isNone_none, Option.isNone_some, ↓reduceIte,
    Bool.false_eq_true]
  omega

theorem Answers.bind (hslots : WellBound slots) (hid : id < slots.length)
    (hunbound : bindings slots id = none) {value : InferenceType} (hvalue : value.Within slots)
    (hoccurs : ¬ value.Reaches slots id) {slot : InferenceSlot}
    (hslot : slot.binding = some value) :
    Answers slots (fun values => values id = value.solved values) (some (slots.set id slot)) := by
  have hset := bindings_set hid slot
  rw [hslot] at hset
  refine ⟨⟨?_, ?_⟩, List.length_set, fun values => ?_,
    .inr (unboundCount_set_lt hid hunbound hslot)⟩
  · intro other bound hbound
    unfold InferenceType.Within
    rw [List.length_set]
    rw [hset] at hbound
    by_cases heq : other = id
    · subst heq
      rw [Function.update_self] at hbound
      cases hbound
      exact hvalue
    · rw [Function.update_of_ne heq] at hbound
      exact hslots.within other bound hbound
  · rw [hset]
    exact hslots.layered.bind hoccurs
  · unfold Solution
    rw [hset]
    exact solves_update hunbound

theorem sizeOf_mentioned_le (values : Values) : ∀ (size : Nat) (type : InferenceType),
    sizeOf (type.solved values) = size → ∀ id ∈ type.mentions,
      sizeOf (values id) ≤ size ∧ (¬ type.IsVariable → sizeOf (values id) < size) := by
  intro size
  induction size using Nat.strong_induction_on with
  | _ size ih =>
    rintro type rfl id hid
    by_cases hvariable : type.IsVariable
    · cases type with
      | callVariable other =>
        obtain rfl : id = other := by simpa [InferenceType.mentions] using hid
        exact ⟨Nat.le_refl _, fun h => absurd trivial h⟩
      | _ => exact hvariable.elim
    · obtain ⟨child, hchild, hid⟩ := (InferenceType.mem_mentions_shape hvariable).mp hid
      have hpart : child.solved values ∈ (type.solved values).parts := by
        rw [InferenceType.solved_parts hvariable]
        exact List.mem_map_of_mem hchild
      have hlt := TypeRef.sizeOf_part_lt hpart
      have hle := (ih _ hlt child rfl id hid).1
      exact ⟨by omega, fun _ => by omega⟩

theorem sizeOf_reached_lt {type : InferenceType} (hnode : ¬ type.IsVariable) {values : Values}
    (hvalues : Solution slots values) (h : type.Reaches slots id) :
    sizeOf (values id) < sizeOf (type.solved values) := by
  obtain ⟨start, hstart, hreach⟩ := h
  have hlt := (sizeOf_mentioned_le values _ type rfl start hstart).2 hnode
  suffices hle : sizeOf (values id) ≤ sizeOf (values start) by omega
  induction hreach with
  | refl => exact Nat.le_refl _
  | tail _ hedge ih =>
    obtain ⟨term, hterm, hmem⟩ := hedge
    have hle := (sizeOf_mentioned_le values _ term rfl _ hmem).1
    have hvalue : values _ = term.solved values := hvalues _ term hterm
    rw [← hvalue] at hle
    omega

end

/-! ## One equality -/

def InferenceEquality.Holds (equality : InferenceEquality) (values : Values) : Prop :=
  equality.expected.solved values = equality.actual.solved values

section

variable (slots : List InferenceSlot) (equality : InferenceEquality)

structure InferenceEquality.Within : Prop where
  expected : equality.expected.Within slots
  actual : equality.actual.Within slots

/-- The children of an equality are smaller, and its equation is theirs. -/
structure Decomposes (left right : List InferenceType) : Prop where
  length : left.length = right.length
  within : ∀ type ∈ left ++ right, type.Within slots
  holds : ∀ values, Solution slots values →
    (left.map (·.solved values) = right.map (·.solved values) ↔ equality.Holds values)
  smaller : ∀ values, Solution slots values → ∀ type ∈ left,
    sizeOf (type.solved values) < sizeOf (equality.expected.solved values)

/-- What a step says of the equality it inspected. -/
def StepFits : InferenceStep → Prop
  | .incompatibleResult => Answers slots equality.Holds none
  | .completeEquality => Answers slots equality.Holds (some slots)
  | .updateInferenceSlots updates =>
      Answers slots equality.Holds (some (applyUpdates slots updates))
  | .expandInferenceList child =>
      child.span = equality.span ∧ Decomposes slots equality [child.expected] [child.actual]
  | .expandInferenceArguments _ left right => Decomposes slots equality left right

end

section

variable {slots : List InferenceSlot} {equality : InferenceEquality}
  {left right : InferenceType}
  (hslots : WellBound slots) (hleft : HeadOf slots equality.expected left)
  (hright : HeadOf slots equality.actual right)

include hleft hright

theorem holds_iff_heads (values : Values) (hvalues : Solution slots values) :
    equality.Holds values ↔ left.solved values = right.solved values := by
  unfold InferenceEquality.Holds
  rw [hleft.same values hvalues, hright.same values hvalues]

theorem decomposes_of_heads (first second : List InferenceType) (hl : ¬ left.IsVariable)
    (hr : ¬ right.IsVariable) (hshape : left.shape = right.shape)
    (hfirst : left.inferenceShape.children = first)
    (hsecond : right.inferenceShape.children = second)
    (hlength : first.length = second.length) : Decomposes slots equality first second := by
  refine ⟨hlength, fun type htype => ?_, fun values hvalues => ?_, fun values hvalues type htype => ?_⟩
  · rcases List.mem_append.mp htype with hmem | hmem
    · rw [← hfirst] at hmem
      exact fun id hid => hleft.within id ((InferenceType.mem_mentions_shape hl).mpr ⟨type, hmem, hid⟩)
    · rw [← hsecond] at hmem
      exact fun id hid => hright.within id ((InferenceType.mem_mentions_shape hr).mpr ⟨type, hmem, hid⟩)
  · rw [holds_iff_heads hleft hright values hvalues, InferenceType.solved_eq_iff hl hr, hfirst, hsecond]
    exact ⟨fun h => ⟨hshape, h⟩, And.right⟩
  · have hpart : type.solved values ∈ (left.solved values).parts := by
      rw [InferenceType.solved_parts hl, hfirst]
      exact List.mem_map_of_mem htype
    rw [← hleft.same values hvalues]
    exact TypeRef.sizeOf_part_lt hpart

end

section

variable {slots : List InferenceSlot}

variable {id : InferenceVariableId}

theorem bindInference_settles (hslots : WellBound slots) (span : Span) (hid : id < slots.length)
    (hunbound : bindings slots id = none) {value : InferenceType} (hnode : ¬ value.IsVariable)
    (hvalue : value.Within slots) :
    ∃ step, Outcome.Settles (fun n => (do
        let slot ← liftM (orCheckerInvariant slots[id]? span (.invalidInferenceVariable id))
        let occurs ← inferenceOccurs n id value slots span
        if occurs then .ok .incompatibleResult
        else .ok (.updateInferenceSlots [⟨id, { slot with state := .boundVariable value }⟩]) :
          Outcome CheckError InferenceStep)) (.ok step) ∧
      (step = .incompatibleResult ∧
          Answers slots (fun values => values id = value.solved values) none ∨
        ∃ updates, step = .updateInferenceSlots updates ∧
          Answers slots (fun values => values id = value.solved values)
            (some (applyUpdates slots updates))) := by
  obtain ⟨found, hsettles, hfound⟩ := inferenceOccurs_spec hslots span hunbound hvalue
  have hslot : slots[id]? = some slots[id] := List.getElem?_eq_getElem hid
  simp only [hslot, orCheckerInvariant, Outcome.liftM_ok, Outcome.ok_bind]
  cases found with
  | true =>
    have hreach := hfound.mp rfl
    refine ⟨.incompatibleResult, Outcome.Settles.bind_ok hsettles ?_, .inl ⟨rfl, ?_⟩⟩
    · exact Outcome.Settles.ok
    · intro values hvalues heq
      have hlt := sizeOf_reached_lt hnode hvalues hreach
      rw [heq] at hlt
      exact Nat.lt_irrefl _ hlt
  | false =>
    have hoccurs : ¬ value.Reaches slots id := fun hreach => Bool.false_ne_true (hfound.mpr hreach)
    refine ⟨_, Outcome.Settles.bind_ok hsettles Outcome.Settles.ok, .inr ⟨_, rfl, ?_⟩⟩
    exact Answers.bind hslots hid hunbound hvalue hoccurs rfl

theorem state_of_unbound (hid : id < slots.length) (hunbound : bindings slots id = none) :
    ∃ rank, slots[id].state = .unboundVariable rank := by
  have hbinding : slots[id].binding = none := by
    simpa [bindings, List.getElem?_eq_getElem hid] using hunbound
  cases hstate : slots[id].state with
  | unboundVariable rank => exact ⟨rank, rfl⟩
  | boundVariable value => simp [InferenceSlot.binding, hstate] at hbinding
  | linkedVariable next => simp [InferenceSlot.binding, hstate] at hbinding

theorem bindings_raise (hid : id < slots.length) (hunbound : bindings slots id = none)
    {slot : InferenceSlot} (hslot : slot.binding = none) :
    bindings (slots.set id slot) = bindings slots := by
  rw [bindings_set hid, hslot]
  funext other
  by_cases heq : other = id
  · subst heq
    rw [Function.update_self, hunbound]
  · rw [Function.update_of_ne heq]

theorem Answers.raise {equation : Values → Prop} {next : List InferenceSlot}
    (h : Answers slots equation (some next)) (hfewer : unboundCount next < unboundCount slots)
    (hid : id < next.length) (hunbound : bindings next id = none) {slot : InferenceSlot}
    (hslot : slot.binding = none) : Answers slots equation (some (next.set id slot)) := by
  have hsame := bindings_raise hid hunbound hslot
  obtain ⟨hnext, hlength, hsolves, -⟩ := h
  refine ⟨hnext.of_bindings hsame List.length_set.ge, ?_, fun values => ?_, .inr ?_⟩
  · rw [List.length_set, hlength]
  · unfold Solution
    rw [hsame]
    exact hsolves values
  · have hold : next[id].binding = none := by
      simpa [bindings, List.getElem?_eq_getElem hid] using hunbound
    have hcount : unboundCount (next.set id slot) = unboundCount next := by
      have hpos : 0 < unboundCount next :=
        List.countP_pos_iff.mpr ⟨next[id], List.getElem_mem hid, by simp [hold]⟩
      unfold unboundCount at hpos ⊢
      rw [List.countP_set hid]
      simp only [hold, hslot, Option.isNone_none, ↓reduceIte]
      omega
    omega

theorem linkInferenceVariables_spec (hslots : WellBound slots) (span : Span)
    {left right : InferenceVariableId} (hne : left ≠ right) (hleft : left < slots.length)
    (hright : right < slots.length) (hunbound : bindings slots left = none)
    (hunbound' : bindings slots right = none) :
    ∃ updates, linkInferenceVariables left right slots span = .ok updates ∧
      Answers slots (fun values => values left = values right)
        (some (applyUpdates slots updates)) := by
  obtain ⟨leftRank, hleftState⟩ := state_of_unbound hleft hunbound
  obtain ⟨rightRank, hrightState⟩ := state_of_unbound hright hunbound'
  -- Neither variable leads to the other.
  have hapart : ∀ first second : InferenceVariableId, first ≠ second →
      bindings slots first = none →
      ¬ (InferenceType.callVariable first).Reaches slots second := by
    rintro first second hdiffer hnone ⟨start, hstart, hreach⟩
    obtain rfl : start = first := by simpa [InferenceType.mentions] using hstart
    exact hdiffer (eq_of_unbound hreach hnone)
  have hwithin : ∀ id : InferenceVariableId, id < slots.length →
      (InferenceType.callVariable id).Within slots := by
    intro id hid other hother
    obtain rfl : other = id := by simpa [InferenceType.mentions] using hother
    exact hid
  have hlink : linkInferenceVariables left right slots span =
      if leftRank < rightRank then
        .ok [⟨left, { slots[left] with state := .linkedVariable right }⟩]
      else if leftRank = rightRank then
        .ok [⟨right, { slots[right] with state := .linkedVariable left }⟩,
          ⟨left, { slots[left] with state := .unboundVariable (leftRank + 1) }⟩]
      else .ok [⟨right, { slots[right] with state := .linkedVariable left }⟩] := by
    simp only [linkInferenceVariables, List.getElem?_eq_getElem hleft,
      List.getElem?_eq_getElem hright, orCheckerInvariant, bind, Except.bind, hleftState,
      hrightState, InferenceVariableState.inferenceRank]
    rfl
  rw [hlink]
  have hvalue : ({ slots[right] with state := .linkedVariable left } : InferenceSlot).binding =
      some (.callVariable left) := rfl
  have hlinked := Answers.bind hslots hright hunbound' (hwithin left hleft)
    (hapart left right hne hunbound) hvalue
  have hswap : ∀ values : Values, values right = values left ↔ values left = values right :=
    fun values => eq_comm
  by_cases hlower : leftRank < rightRank
  · refine ⟨_, by rw [if_pos hlower], ?_⟩
    exact Answers.bind hslots hleft hunbound (hwithin right hright)
      (hapart right left (Ne.symm hne) hunbound') rfl
  · by_cases hsame : leftRank = rightRank
    · refine ⟨_, by rw [if_neg hlower, if_pos hsame], ?_⟩
      have hkept : bindings (slots.set right { slots[right] with state := .linkedVariable left })
          left = none := by
        rw [bindings_set hright, Function.update_of_ne hne, hunbound]
      refine (Answers.raise hlinked (unboundCount_set_lt hright hunbound' rfl) ?_ hkept rfl).congr
        fun values _ => hswap values
      rwa [List.length_set]
    · refine ⟨_, by rw [if_neg hlower, if_neg hsame], ?_⟩
      exact hlinked.congr fun values _ => hswap values

theorem inspectInferenceEquality_spec (hslots : WellBound slots) {equality : InferenceEquality}
    (hwithin : equality.Within slots) :
    ∃ step, Outcome.Settles (fun n => inspectInferenceEquality n equality slots) (.ok step) ∧
      StepFits slots equality step := by
  obtain ⟨left, hleftSettles, hleft⟩ := inferenceHead_spec hslots equality.span hwithin.expected
  obtain ⟨right, hrightSettles, hright⟩ := inferenceHead_spec hslots equality.span hwithin.actual
  refine Exists.imp (fun step => And.imp_left fun hsettles =>
    Outcome.Settles.bind_ok hleftSettles (Outcome.Settles.bind_ok hrightSettles hsettles)) ?_
  have hheads := holds_iff_heads hleft hright
  -- A bound variable, on either side.
  have hbind : ∀ (id : InferenceVariableId) (value : InferenceType),
      id < slots.length → bindings slots id = none → ¬ value.IsVariable → value.Within slots →
      (∀ values, Solution slots values →
        (values id = value.solved values ↔ equality.Holds values)) →
      ∃ step, Outcome.Settles (fun n => (do
          let slot ← liftM (orCheckerInvariant slots[id]? equality.span
            (.invalidInferenceVariable id))
          let occurs ← inferenceOccurs n id value slots equality.span
          if occurs then .ok .incompatibleResult
          else .ok (.updateInferenceSlots [⟨id, { slot with state := .boundVariable value }⟩]) :
            Outcome CheckError InferenceStep)) (.ok step) ∧ StepFits slots equality step := by
    intro id value hid hunbound hnode hvalue hsame
    obtain ⟨step, hsettles, hstep⟩ :=
      bindInference_settles hslots equality.span hid hunbound hnode hvalue
    refine ⟨step, hsettles, ?_⟩
    rcases hstep with ⟨rfl, hanswers⟩ | ⟨updates, rfl, hanswers⟩
    all_goals exact hanswers.congr hsame
  have hslot : ∀ {id : InferenceVariableId} {value : InferenceType},
      HeadOf slots value (.callVariable id) → id < slots.length :=
    fun h => h.within _ (by simp [InferenceType.mentions])
  by_cases hl : left.IsVariable
  · cases left with
    | callVariable l =>
      by_cases hr : right.IsVariable
      · cases right with
        | callVariable r =>
          by_cases hsame : l = r
          · subst hsame
            refine ⟨.completeEquality, ?_, Answers.same hslots fun values hvalues => ?_⟩
            · simpa [inferenceAction] using Outcome.Settles.ok
            · exact (hheads values hvalues).mpr rfl
          · obtain ⟨updates, hlink, hanswers⟩ := linkInferenceVariables_spec hslots equality.span
              hsame (hslot hleft) (hslot hright) (hleft.unbound l rfl) (hright.unbound r rfl)
            refine ⟨.updateInferenceSlots updates, ?_, ?_⟩
            · simpa [inferenceAction, hsame, hlink] using Outcome.Settles.ok
            · exact hanswers.congr fun values hvalues => (hheads values hvalues).symm
        | _ => exact hr.elim
      · have haction : inferenceAction (.callVariable l) right = .bindInference l right := by
          cases right with
          | callVariable r => exact absurd trivial hr
          | _ => rfl
        rw [haction]
        exact hbind l right (hslot hleft) (hleft.unbound l rfl) hr hright.within
          (fun values hvalues => (hheads values hvalues).symm)
    | _ => exact hl.elim
  · by_cases hr : right.IsVariable
    · cases right with
      | callVariable r =>
        have haction : inferenceAction left (.callVariable r) = .bindInference r left := by
          cases left with
          | callVariable l => exact absurd trivial hl
          | _ => rfl
        rw [haction]
        exact hbind r left (hslot hright) (hright.unbound r rfl) hl hleft.within
          (fun values hvalues => eq_comm.trans (hheads values hvalues).symm)
      | _ => exact hr.elim
    · have haction := inferenceAction_spec hl hr
      have hdecompose := fun first second hshape hfirst hsecond hlength =>
        decomposes_of_heads hleft hright first second hl hr hshape hfirst hsecond hlength
      cases hact : inferenceAction left right with rw [hact] at haction
      | sameInference =>
        refine ⟨_, Outcome.Settles.ok, Answers.same hslots fun values hvalues => ?_⟩
        rw [hheads values hvalues, show left = right from haction]
      | inferenceMismatch =>
        refine ⟨_, Outcome.Settles.ok, fun values hvalues hholds => ?_⟩
        exact haction values ((hheads values hvalues).mp hholds)
      | listEquality first second =>
        obtain ⟨hshape, hfirst, hsecond⟩ := haction
        exact ⟨_, Outcome.Settles.ok, rfl, hdecompose _ _ hshape hfirst hsecond rfl⟩
      | nominalEquality owner first second | tupleEquality first second =>
        obtain ⟨hshape, hfirst, hsecond, hlength⟩ := haction
        exact ⟨_, Outcome.Settles.ok,
          hdecompose _ _ hshape hfirst hsecond hlength⟩
      | callableEquality purity parameters others result other =>
        obtain ⟨hshape, hfirst, hsecond, hlength⟩ := haction
        refine ⟨_, Outcome.Settles.ok, hdecompose _ _ hshape hfirst hsecond ?_⟩
        rw [List.length_append, List.length_append, hlength]
        rfl
      | bindInference id value | mergeInference first second => exact haction.elim

/-! ## The whole equality -/

def Solvable (slots : List InferenceSlot) (equality : InferenceEquality) : Prop :=
  ∃ answer, Outcome.Settles (fun n => solveOverlap n equality slots) (.ok answer) ∧
    Answers slots equality.Holds answer

def ArgumentsHold (left right : List InferenceType) (position : Nat) (values : Values) : Prop :=
  (left.drop position).map (·.solved values) = (right.drop position).map (·.solved values)

theorem Answers.trans {first second : Values → Prop} {between : List InferenceSlot}
    {answer : Option (List InferenceSlot)} (h : Answers slots first (some between))
    (hrest : Answers between second answer) :
    Answers slots (fun values => first values ∧ second values) answer := by
  obtain ⟨-, hlength, hsolves, hprogress⟩ := h
  cases answer with
  | none =>
    rintro values hvalues ⟨hfirst, hsecond⟩
    exact hrest values ((hsolves values).mpr ⟨hvalues, hfirst⟩) hsecond
  | some next =>
    obtain ⟨hnext, hlength', hsolves', hprogress'⟩ := hrest
    refine ⟨hnext, hlength'.trans hlength, fun values => ?_, ?_⟩
    · rw [hsolves' values, hsolves values, and_assoc]
    · rcases hprogress with rfl | hfewer
      · exact hprogress'
      · rcases hprogress' with rfl | hfewer'
        · exact .inr hfewer
        · exact .inr (Nat.lt_trans hfewer' hfewer)

theorem InferenceEquality.Within.grow {next : List InferenceSlot} {equality : InferenceEquality}
    (h : equality.Within slots) (hlength : next.length = slots.length) : equality.Within next :=
  ⟨fun id hid => hlength ▸ h.expected id hid, fun id hid => hlength ▸ h.actual id hid⟩

/-- Solving pairs from a position on, when each pair can be solved under the slots that the
pairs before it leave: the given ones, or ones with fewer unbound variables. -/
theorem solveOverlapArguments_settles (hslots : WellBound slots) (parent : InferenceEquality)
    {left right : List InferenceType} (hlength : left.length = right.length)
    (hpairs : ∀ between, WellBound between → between.length = slots.length →
      (between = slots ∨ unboundCount between < unboundCount slots) →
      ∀ pair ∈ left.zip right, Solvable between ⟨pair.1, pair.2, parent.span⟩) :
    ∀ (count position : Nat), position + count = left.length → ∀ between, WellBound between →
      between.length = slots.length →
      (between = slots ∨ unboundCount between < unboundCount slots) →
      ∃ answer, Outcome.Settles
          (fun n => solveOverlapArguments n parent left right position between) (.ok answer) ∧
        Answers between (ArgumentsHold left right position) answer := by
  intro count
  induction count with
  | zero =>
    intro position hposition between hbetween _ _
    have hend : position = left.length := by omega
    refine ⟨some between, ?_, Answers.same hbetween fun values _ => ?_⟩
    · refine Outcome.Settles.succ (g := fun _ => .ok (some between)) (fun n => ?_)
        Outcome.Settles.ok
      simp [solveOverlapArguments, hend]
    · unfold ArgumentsHold
      rw [List.drop_eq_nil_of_le (by omega), List.drop_eq_nil_of_le (by omega)]
  | succ count ih =>
    intro position hposition between hbetween hsize hfewer
    have hl : position < left.length := by omega
    have hr : position < right.length := by omega
    have hchild : inferenceChild parent left right position =
        .ok ⟨left[position], right[position], parent.span⟩ := by
      rw [inferenceChild, inferencePair_ok hl hr]
      rfl
    have hpair : (left[position], right[position]) ∈ left.zip right := by
      have hzip : position < (left.zip right).length := by
        rw [List.length_zip]
        omega
      have hget : (left.zip right)[position] = (left[position], right[position]) :=
        List.getElem_zip
      exact hget ▸ List.getElem_mem hzip
    obtain ⟨answer, hsettles, hanswers⟩ := hpairs between hbetween hsize hfewer _ hpair
    have hsplit : ∀ values, ArgumentsHold left right position values ↔
        left[position].solved values = right[position].solved values ∧
          ArgumentsHold left right (position + 1) values := by
      intro values
      unfold ArgumentsHold
      rw [List.drop_eq_getElem_cons hl, List.drop_eq_getElem_cons hr, List.map_cons, List.map_cons,
        List.cons.injEq]
    have hunfold : ∀ n, solveOverlapArguments (n + 1) parent left right position between =
        (do match ← solveOverlap n ⟨left[position], right[position], parent.span⟩ between with
            | none => .ok none
            | some next => solveOverlapArguments n parent left right (position + 1) next :
              Outcome CheckError (Option (List InferenceSlot))) := by
      intro n
      have hne : ¬ position = left.length := by omega
      rw [solveOverlapArguments, if_neg hne, hchild]
      rfl
    cases answer with
    | none =>
      refine ⟨none, Outcome.Settles.succ hunfold ?_, fun values hvalues hholds => ?_⟩
      · refine Outcome.Settles.bind_ok (a := none) hsettles ?_
        exact Outcome.Settles.ok
      exact hanswers values hvalues ((hsplit values).mp hholds).1
    | some next =>
      obtain ⟨hnext, hlength', -, hprogress⟩ := id hanswers
      obtain ⟨last, hlast, hrest⟩ := ih (position + 1) (by omega) next hnext
        (hlength'.trans hsize) (by
          rcases hprogress with rfl | hless
          · exact hfewer
          · rcases hfewer with rfl | hless'
            · exact .inr hless
            · exact .inr (Nat.lt_trans hless hless'))
      refine ⟨last, Outcome.Settles.succ hunfold (Outcome.Settles.bind_ok hsettles hlast), ?_⟩
      exact (Answers.trans hanswers hrest).congr fun values _ => (hsplit values).symm

/-- **The unifier is exact**: solving an equality ends with slots that have exactly the solutions
of the given slots and the equality, or with none when there is no such solution.  Fewer unbound
variables first, then smaller types under any solution of the slots. -/
theorem solveOverlap_spec : ∀ (unbound size : Nat) (slots : List InferenceSlot)
    (equality : InferenceEquality) (values : Values), WellBound slots →
    unboundCount slots = unbound → Solution slots values → equality.Within slots →
    sizeOf (equality.expected.solved values) = size → Solvable slots equality := by
  intro unbound
  induction unbound using Nat.strong_induction_on with
  | _ unbound ihUnbound =>
  intro size
  induction size using Nat.strong_induction_on with
  | _ size ihSize =>
  intro slots equality values hslots hunbound hvalues hwithin hsize
  obtain ⟨step, hsettles, hfits⟩ := inspectInferenceEquality_spec hslots hwithin
  -- The children of a decomposition, under the given slots or under fewer unbound variables.
  have hchildren : ∀ left right, Decomposes slots equality left right →
      ∀ (span : Span) (between : List InferenceSlot), WellBound between →
      between.length = slots.length →
      (between = slots ∨ unboundCount between < unboundCount slots) →
      ∀ pair ∈ left.zip right, Solvable between ⟨pair.1, pair.2, span⟩ := by
    intro left right hdecomposes span between hbetween hlength hprogress pair hpair
    have hfirst := (List.of_mem_zip (a := pair.1) (b := pair.2) hpair).1
    have hsecond := (List.of_mem_zip (a := pair.1) (b := pair.2) hpair).2
    have hpairWithin : InferenceEquality.Within slots ⟨pair.1, pair.2, span⟩ :=
      ⟨hdecomposes.within _ (List.mem_append_left _ hfirst),
        hdecomposes.within _ (List.mem_append_right _ hsecond)⟩
    rcases hprogress with rfl | hfewer
    · refine ihSize _ ?_ between ⟨pair.1, pair.2, span⟩ values hslots hunbound hvalues
        hpairWithin rfl
      have hlt := hdecomposes.smaller values hvalues pair.1 hfirst
      show sizeOf (pair.1.solved values) < size
      omega
    · obtain ⟨others, hothers⟩ := hbetween.solvable
      exact ihUnbound _ (hunbound ▸ hfewer) _ between ⟨pair.1, pair.2, span⟩ others hbetween rfl
        hothers (hpairWithin.grow hlength) rfl
  cases step with
  | incompatibleResult =>
    refine ⟨none, Outcome.Settles.succ (fun _ => rfl) (Outcome.Settles.bind_ok hsettles ?_), hfits⟩
    exact Outcome.Settles.ok
  | completeEquality =>
    refine ⟨some slots, Outcome.Settles.succ (fun _ => rfl)
      (Outcome.Settles.bind_ok hsettles ?_), hfits⟩
    exact Outcome.Settles.ok
  | updateInferenceSlots updates =>
    refine ⟨some (applyUpdates slots updates), Outcome.Settles.succ (fun _ => rfl)
      (Outcome.Settles.bind_ok hsettles ?_), hfits⟩
    exact Outcome.Settles.ok
  | expandInferenceList child =>
    obtain ⟨hspan, hdecomposes⟩ := hfits
    obtain ⟨answer, hanswer, hanswers⟩ := hchildren _ _ hdecomposes child.span slots hslots rfl
      (.inl rfl) (child.expected, child.actual) (by simp)
    refine ⟨answer, Outcome.Settles.succ (fun _ => rfl)
      (Outcome.Settles.bind_ok hsettles hanswer), hanswers.congr fun values hvalues => ?_⟩
    rw [← hdecomposes.holds values hvalues]
    show child.expected.solved values = child.actual.solved values ↔ _
    simp
  | expandInferenceArguments parent left right =>
    obtain ⟨answer, hanswer, hanswers⟩ := solveOverlapArguments_settles hslots parent hfits.length
      (hchildren _ _ hfits parent.span) left.length 0 (Nat.zero_add _) slots hslots rfl (.inl rfl)
    refine ⟨answer, Outcome.Settles.succ (fun _ => rfl)
      (Outcome.Settles.bind_ok hsettles hanswer), hanswers.congr fun values hvalues => ?_⟩
    exact hfits.holds values hvalues

end

/-! ## Declarations' types -/

def IsFlexible (parameters : List TypeParameterId) (parameter : TypeParameterId) : Prop :=
  parameters[parameter.position]? = some parameter

instance (parameters : List TypeParameterId) (parameter : TypeParameterId) :
    Decidable (IsFlexible parameters parameter) :=
  inferInstanceAs (Decidable (_ = _))

/-- A substitution of the flexible parameters; every other parameter stays. -/
def SubstitutesOnly (parameters : List TypeParameterId) (image : TypeParameterId → TypeRef) :
    Prop :=
  ∀ parameter, ¬ IsFlexible parameters parameter → image parameter = .parameterType parameter

/-- The substitution that the values of a call's variables make. -/
def variableImage (parameters : List TypeParameterId) (start : Nat) (values : Values)
    (parameter : TypeParameterId) : TypeRef :=
  if IsFlexible parameters parameter then values (start + parameter.position)
  else .parameterType parameter

theorem variableImage_substitutesOnly (parameters : List TypeParameterId) (start : Nat)
    (values : Values) : SubstitutesOnly parameters (variableImage parameters start values) :=
  fun _ h => if_neg h

mutual

theorem TypeRef.instantiate_parameterType : ∀ type : TypeRef, type.instantiate .parameterType = type
  | .parameterType _ | .voidType | .intType | .floatType | .stringType => rfl
  | .listType element => by rw [TypeRef.instantiate, TypeRef.instantiate_parameterType element]
  | .tupleType elements => by rw [TypeRef.instantiate, instantiateAll_parameterType elements]
  | .nominalType owner arguments => by
      rw [TypeRef.instantiate, instantiateAll_parameterType arguments]
  | .callableType purity parameters result => by
      rw [TypeRef.instantiate, instantiateAll_parameterType parameters,
        TypeRef.instantiate_parameterType result]

theorem instantiateAll_parameterType : ∀ types : List TypeRef,
    instantiateAll .parameterType types = types
  | [] => rfl
  | type :: rest => by
      rw [instantiateAll, TypeRef.instantiate_parameterType type,
        instantiateAll_parameterType rest]

end

section

variable (parameters : List TypeParameterId) (start : Nat)

theorem inferenceType_accepted {type : TypeRef}
    (h : (inferenceType parameters start type).isAccepted = true) :
    inferenceType parameters start type = .acceptedType type := by
  cases type with
  | parameterType parameter =>
    unfold inferenceType at h ⊢
    split at h
    · cases h
    · next hrigid => rw [if_neg hrigid]
  | voidType | intType | floatType | stringType => rfl
  | _ =>
    unfold inferenceType at h ⊢
    simp only at h ⊢
    split at h
    · next hkept => rw [if_pos hkept]
    · cases h

theorem solvedAll_accepted (values : Values) : ∀ {types : List TypeRef},
    (inferenceTypes parameters start types).all (·.isAccepted) = true →
      solvedAll values (inferenceTypes parameters start types) = types := by
  intro types
  induction types with
  | nil => intro _; rfl
  | cons type rest ih =>
    intro h
    rw [inferenceTypes, List.all_cons, Bool.and_eq_true] at h
    rw [inferenceTypes, solvedAll, inferenceType_accepted parameters start h.1, ih h.2]
    rfl

theorem variableImage_nil {parameters : List TypeParameterId} (h : parameters.isEmpty = true)
    (start : Nat) (values : Values) :
    variableImage parameters start values = .parameterType := by
  obtain rfl := List.isEmpty_iff.mp h
  funext parameter
  exact if_neg (by simp [IsFlexible])

mutual

/-- The inference type of a declared type is the type under a substitution of the call's
parameters. -/
theorem inferenceType_solved (values : Values) : ∀ type : TypeRef,
    (inferenceType parameters start type).solved values =
      type.instantiate (variableImage parameters start values)
  | .voidType | .intType | .floatType | .stringType => rfl
  | .parameterType parameter => by
      rw [inferenceType, TypeRef.instantiate, variableImage]
      by_cases hflexible : IsFlexible parameters parameter
      · rw [if_pos hflexible, if_pos (show parameters[parameter.position]? = _ from hflexible)]
        rfl
      · rw [if_neg hflexible, if_neg (show ¬ parameters[parameter.position]? = _ from hflexible)]
        rfl
  | .listType element => by
      have ih := inferenceType_solved values element
      rw [TypeRef.instantiate, ← ih]
      rw [inferenceType]
      by_cases hnone : parameters.isEmpty = true
      · rw [variableImage_nil hnone, TypeRef.instantiate_parameterType] at ih
        simp [hnone, InferenceType.solved, ih]
      · by_cases hkept : (inferenceType parameters start element).isAccepted = true
        · simp only [hkept, Bool.or_true, ↓reduceIte, InferenceType.solved]
          rw [inferenceType_accepted parameters start hkept, InferenceType.solved]
        · simp [hnone, hkept, InferenceType.solved]
  | .tupleType elements => by
      have ih := inferenceTypes_solved values elements
      rw [TypeRef.instantiate, ← ih]
      rw [inferenceType]
      by_cases hnone : parameters.isEmpty = true
      · rw [variableImage_nil hnone, instantiateAll_parameterType] at ih
        simp [hnone, InferenceType.solved, ih]
      · by_cases hkept : (inferenceTypes parameters start elements).all (·.isAccepted) = true
        · simp [hkept, InferenceType.solved, solvedAll_accepted parameters start values hkept]
        · simp [hnone, hkept, InferenceType.solved]
  | .nominalType owner arguments => by
      have ih := inferenceTypes_solved values arguments
      rw [TypeRef.instantiate, ← ih]
      rw [inferenceType]
      by_cases hnone : parameters.isEmpty = true
      · rw [variableImage_nil hnone, instantiateAll_parameterType] at ih
        simp [hnone, InferenceType.solved, ih]
      · by_cases hkept : (inferenceTypes parameters start arguments).all (·.isAccepted) = true
        · simp [hkept, InferenceType.solved, solvedAll_accepted parameters start values hkept]
        · simp [hnone, hkept, InferenceType.solved]
  | .callableType purity inputs result => by
      have ih := inferenceTypes_solved values inputs
      have ihResult := inferenceType_solved values result
      rw [TypeRef.instantiate, ← ih, ← ihResult]
      rw [inferenceType]
      by_cases hnone : parameters.isEmpty = true
      · rw [variableImage_nil hnone, instantiateAll_parameterType] at ih
        rw [variableImage_nil hnone, TypeRef.instantiate_parameterType] at ihResult
        simp [hnone, InferenceType.solved, ih, ihResult]
      · by_cases hkept : ((inferenceTypes parameters start inputs).all (·.isAccepted) &&
            (inferenceType parameters start result).isAccepted) = true
        · obtain ⟨hinputs, hresult⟩ := Bool.and_eq_true_iff.mp hkept
          simp only [hkept, Bool.or_true, ↓reduceIte, InferenceType.solved]
          rw [solvedAll_accepted parameters start values hinputs,
            inferenceType_accepted parameters start hresult, InferenceType.solved]
        · simp [hnone, hkept, InferenceType.solved]

theorem inferenceTypes_solved (values : Values) : ∀ types : List TypeRef,
    solvedAll values (inferenceTypes parameters start types) =
      instantiateAll (variableImage parameters start values) types
  | [] => rfl
  | type :: rest => by
      rw [inferenceTypes, solvedAll, instantiateAll, inferenceType_solved values type,
        inferenceTypes_solved values rest]

end

mutual

theorem inferenceType_mentions : ∀ type : TypeRef,
    ∀ id ∈ (inferenceType parameters start type).mentions, id < start + parameters.length
  | .voidType | .intType | .floatType | .stringType => by
      simp [inferenceType, InferenceType.mentions]
  | .parameterType parameter => by
      intro id hid
      unfold inferenceType at hid
      split at hid
      · next hflexible =>
        have hlt := (List.getElem?_eq_some_iff.mp hflexible).1
        obtain rfl : id = start + parameter.position := by
          simpa [InferenceType.mentions] using hid
        exact Nat.add_lt_add_left hlt start
      · simp [InferenceType.mentions] at hid
  | .listType element => by
      intro id hid
      unfold inferenceType at hid
      simp only at hid
      split at hid
      · simp [InferenceType.mentions] at hid
      · exact inferenceType_mentions element id hid
  | .tupleType elements => by
      intro id hid
      unfold inferenceType at hid
      simp only at hid
      split at hid
      · simp [InferenceType.mentions] at hid
      · exact inferenceTypes_mentions elements id hid
  | .nominalType owner arguments => by
      intro id hid
      unfold inferenceType at hid
      simp only at hid
      split at hid
      · simp [InferenceType.mentions] at hid
      · exact inferenceTypes_mentions arguments id hid
  | .callableType purity inputs result => by
      intro id hid
      unfold inferenceType at hid
      simp only at hid
      split at hid
      · simp [InferenceType.mentions] at hid
      · rcases List.mem_append.mp hid with hinput | hresult
        · exact inferenceTypes_mentions inputs id hinput
        · exact inferenceType_mentions result id hresult

theorem inferenceTypes_mentions : ∀ types : List TypeRef,
    ∀ id ∈ mentionsOf (inferenceTypes parameters start types), id < start + parameters.length
  | [] => by simp [inferenceTypes, mentionsOf]
  | type :: rest => by
      intro id hid
      rw [inferenceTypes, mentionsOf] at hid
      rcases List.mem_append.mp hid with hfirst | hrest
      · exact inferenceType_mentions type id hfirst
      · exact inferenceTypes_mentions rest id hrest

end

end

/-! ## Overlap -/

section

variable (left : TypeRef) (leftParameters : List TypeParameterId) (right : TypeRef)
  (rightParameters : List TypeParameterId) (span : Span)

def overlapSlots : List InferenceSlot :=
  (leftParameters ++ rightParameters).map fun parameter => ⟨parameter, span, none, .unboundVariable 0⟩

def overlapEquality : InferenceEquality :=
  ⟨inferenceType leftParameters 0 left, inferenceType rightParameters leftParameters.length right,
    span⟩

/-- Substitutions of either side's flexible parameters that make the two types equal. -/
def Unifiable : Prop :=
  ∃ first second, SubstitutesOnly leftParameters first ∧ SubstitutesOnly rightParameters second ∧
    left.instantiate first = right.instantiate second

theorem bindings_overlapSlots :
    bindings (overlapSlots leftParameters rightParameters span) = fun _ => none := by
  funext id
  unfold bindings overlapSlots
  rw [List.getElem?_map]
  cases (leftParameters ++ rightParameters)[id]? <;> rfl

theorem unifiable_iff : Unifiable left leftParameters right rightParameters ↔
    ∃ values, (overlapEquality left leftParameters right rightParameters span).Holds values := by
  unfold Unifiable InferenceEquality.Holds overlapEquality
  simp only [inferenceType_solved]
  constructor
  · rintro ⟨first, second, hfirst, hsecond, heq⟩
    let image : Values := fun id =>
      if h : id < leftParameters.length then first leftParameters[id]
      else ((rightParameters[id - leftParameters.length]?).map second).getD .voidType
    refine ⟨image, ?_⟩
    have hleft : variableImage leftParameters 0 image = first := by
      funext parameter
      unfold variableImage
      by_cases hflexible : IsFlexible leftParameters parameter
      · obtain ⟨hlt, hget⟩ := List.getElem?_eq_some_iff.mp hflexible
        rw [if_pos hflexible]
        show image (0 + parameter.position) = _
        simp [image, hlt, ↓reduceDIte, hget]
      · rw [if_neg hflexible, hfirst parameter hflexible]
    have hright : variableImage rightParameters leftParameters.length image = second := by
      funext parameter
      unfold variableImage
      by_cases hflexible : IsFlexible rightParameters parameter
      · rw [if_pos hflexible]
        have hnot : ¬ leftParameters.length + parameter.position < leftParameters.length := by omega
        have hsub : leftParameters.length + parameter.position - leftParameters.length
            = parameter.position := by omega
        show image (leftParameters.length + parameter.position) = _
        simp only [image, hnot, ↓reduceDIte, hsub]
        rw [show rightParameters[parameter.position]? = some parameter from hflexible]
        rfl
      · rw [if_neg hflexible, hsecond parameter hflexible]
    rw [hleft, hright, heq]
  · rintro ⟨values, heq⟩
    exact ⟨_, _, variableImage_substitutesOnly _ _ _, variableImage_substitutesOnly _ _ _, heq⟩

theorem solveOverlap_unifies : ∃ unified, Outcome.Settles (fun n => solveOverlap n
      (overlapEquality left leftParameters right rightParameters span)
      (overlapSlots leftParameters rightParameters span)) (.ok unified) ∧
    (unified.isSome = true ↔ Unifiable left leftParameters right rightParameters) := by
  have hbindings := bindings_overlapSlots leftParameters rightParameters span
  have hlength : (overlapSlots leftParameters rightParameters span).length =
      leftParameters.length + rightParameters.length := by
    simp [overlapSlots]
  have hslots : WellBound (overlapSlots leftParameters rightParameters span) := by
    refine ⟨?_, ?_⟩
    · rw [hbindings]
      rintro id value ⟨⟩
    · rw [hbindings]
      exact layered_unbound
  have hsolution : ∀ values, Solution (overlapSlots leftParameters rightParameters span) values := by
    intro values id term hterm
    rw [hbindings] at hterm
    cases hterm
  have hwithin : (overlapEquality left leftParameters right rightParameters span).Within
      (overlapSlots leftParameters rightParameters span) := by
    refine ⟨fun id hid => ?_, fun id hid => ?_⟩
    · have hlt := inferenceType_mentions leftParameters 0 left id hid
      rw [Nat.zero_add] at hlt
      exact Nat.lt_of_lt_of_le hlt (hlength ▸ Nat.le_add_right _ _)
    · exact hlength ▸ inferenceType_mentions rightParameters leftParameters.length right id hid
  obtain ⟨unified, hsettles, hanswers⟩ := solveOverlap_spec _ _ _ _ (fun _ => .voidType) hslots rfl
    (hsolution _) hwithin rfl
  refine ⟨unified, hsettles, ?_⟩
  rw [unifiable_iff left leftParameters right rightParameters span]
  cases unified with
  | none =>
    constructor
    · rintro ⟨⟩
    · rintro ⟨values, hholds⟩
      exact absurd hholds (hanswers values (hsolution values))
  | some next =>
    obtain ⟨hnext, -, hsolves, -⟩ := hanswers
    obtain ⟨values, hvalues⟩ := hnext.solvable
    exact ⟨fun _ => ⟨values, ((hsolves values).mp hvalues).2⟩, fun _ => rfl⟩

theorem not_unifiable_of_disjointHeads (h : disjointHeads left right = true) :
    ¬ Unifiable left leftParameters right rightParameters := by
  rintro ⟨first, second, -, -, heq⟩
  unfold disjointHeads at h
  cases hleft : left.typeHead with
  | none => simp [hleft] at h
  | some leftHead =>
    cases hright : right.typeHead with
    | none => simp [hleft, hright] at h
    | some rightHead =>
      have hne : leftHead ≠ rightHead := by simpa [hleft, hright] using h
      have hfirst : (left.instantiate first).typeHead = some leftHead :=
        TypeRef.typeHead_instantiate hleft
      have hsecond : (right.instantiate second).typeHead = some rightHead :=
        TypeRef.typeHead_instantiate hright
      rw [heq, hsecond] at hfirst
      exact hne (Option.some.inj hfirst).symm

theorem unifiable_rigid (span : Span) (hleft : leftParameters.isEmpty = true)
    (hright : rightParameters.isEmpty = true) :
    Unifiable left leftParameters right rightParameters ↔ left = right := by
  rw [unifiable_iff left leftParameters right rightParameters span]
  unfold InferenceEquality.Holds overlapEquality
  simp only [inferenceType_solved, variableImage_nil hleft, variableImage_nil hright,
    TypeRef.instantiate_parameterType]
  exact ⟨fun ⟨_, heq⟩ => heq, fun heq => ⟨fun _ => .voidType, heq⟩⟩

/-- **Receiver overlap is unification.**  `types_overlap` ends on all types and parameters, and
answers true exactly when substitutions of the two sides' flexible parameters, apart from each
other, make the types equal; what the full solver ends with says the same, so neither the
comparison of rigid types nor the one of heads answers differently. -/
theorem typesOverlap_unification : ∃ overlap unified,
    Outcome.Settles (fun n => typesOverlap n left leftParameters right rightParameters span)
      (.ok overlap) ∧
    (overlap = true ↔ Unifiable left leftParameters right rightParameters) ∧
    Outcome.Settles (fun n => solveOverlap n
      (overlapEquality left leftParameters right rightParameters span)
      (overlapSlots leftParameters rightParameters span)) (.ok unified) ∧
    overlap = unified.isSome := by
  obtain ⟨unified, hsettles, hunified⟩ :=
    solveOverlap_unifies left leftParameters right rightParameters span
  refine ⟨unified.isSome, unified, ?_, hunified, hsettles, rfl⟩
  unfold typesOverlap
  by_cases hrigid : (leftParameters.isEmpty && rightParameters.isEmpty) = true
  · obtain ⟨hleft, hright⟩ := Bool.and_eq_true_iff.mp hrigid
    rw [unifiable_rigid left leftParameters right rightParameters span hleft hright] at hunified
    have hanswer : decide (left = right) = unified.isSome := by
      rw [Bool.eq_iff_iff, hunified, decide_eq_true_iff]
    simp only [hrigid, ↓reduceIte, hanswer]
    exact Outcome.Settles.ok
  · by_cases hdisjoint : disjointHeads left right = true
    · have hnone : unified.isSome = false := by
        rw [Bool.eq_false_iff]
        exact fun hsome => not_unifiable_of_disjointHeads left leftParameters right rightParameters
          hdisjoint (hunified.mp hsome)
      simp only [hrigid, hdisjoint, Bool.false_eq_true, ↓reduceIte, hnone]
      exact Outcome.Settles.ok
    · simp only [hrigid, hdisjoint, Bool.false_eq_true, ↓reduceIte]
      exact Outcome.Settles.bind_ok hsettles Outcome.Settles.ok

end

end Blorp.Check
