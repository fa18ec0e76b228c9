import Blorp.Check.Inference
import Blorp.Check.TraitProofs
import Blorp.Lib.Triangular

/-!
# Bindings of the unifier and their solutions

A type under values for its variables is its `solved` type; slots are the bindings that the
values must solve.
-/

namespace Blorp.Check

open Fuel Triangular

/-! ## Types under values -/

abbrev Values := InferenceVariableId → TypeRef

mutual

def InferenceType.solved (values : Values) : InferenceType → TypeRef
  | .acceptedType valueType => valueType
  | .callVariable id => values id
  | .inferredCallable purity parameters result =>
      .callableType purity (solvedAll values parameters) (result.solved values)
  | .inferredTuple elements => .tupleType (solvedAll values elements)
  | .inferredList element => .listType (element.solved values)
  | .inferredNominal owner arguments => .nominalType owner (solvedAll values arguments)

def solvedAll (values : Values) : List InferenceType → List TypeRef
  | [] => []
  | first :: rest => first.solved values :: solvedAll values rest

end

theorem solvedAll_eq_map (values : Values) (types : List InferenceType) :
    solvedAll values types = types.map (·.solved values) := by
  induction types with
  | nil => rfl
  | cons first rest ih => simp [solvedAll, ih]

mutual

def InferenceType.mentions : InferenceType → List InferenceVariableId
  | .acceptedType _ => []
  | .callVariable id => [id]
  | .inferredCallable _ parameters result => mentionsOf parameters ++ result.mentions
  | .inferredTuple elements => mentionsOf elements
  | .inferredList element => element.mentions
  | .inferredNominal _ arguments => mentionsOf arguments

def mentionsOf : List InferenceType → List InferenceVariableId
  | [] => []
  | first :: rest => first.mentions ++ mentionsOf rest

end

theorem mem_mentionsOf {types : List InferenceType} {id : InferenceVariableId} :
    id ∈ mentionsOf types ↔ ∃ type ∈ types, id ∈ type.mentions := by
  induction types with
  | nil => simp [mentionsOf]
  | cons first rest ih => simp [mentionsOf, ih]

mutual

theorem solved_congr (first second : Values) : ∀ type : InferenceType,
    (∀ id ∈ type.mentions, first id = second id) → type.solved first = type.solved second
  | .acceptedType _, _ => rfl
  | .callVariable id, h => h id (by simp [InferenceType.mentions])
  | .inferredCallable purity parameters result, h => by
      simp only [InferenceType.solved]
      rw [solvedAll_congr first second parameters fun id hid =>
          h id (by simp [InferenceType.mentions, hid]),
        solved_congr first second result fun id hid => h id (by simp [InferenceType.mentions, hid])]
  | .inferredTuple elements, h => by
      simp only [InferenceType.solved]
      rw [solvedAll_congr first second elements h]
  | .inferredList element, h => by
      simp only [InferenceType.solved]
      rw [solved_congr first second element h]
  | .inferredNominal owner arguments, h => by
      simp only [InferenceType.solved]
      rw [solvedAll_congr first second arguments h]

theorem solvedAll_congr (first second : Values) : ∀ types : List InferenceType,
    (∀ id ∈ mentionsOf types, first id = second id) →
      solvedAll first types = solvedAll second types
  | [], _ => rfl
  | type :: rest, h => by
      simp only [solvedAll]
      rw [solved_congr first second type fun id hid => h id (by simp [mentionsOf, hid]),
        solvedAll_congr first second rest fun id hid => h id (by simp [mentionsOf, hid])]

end

/-! ## Shapes

Two types are equal iff they have one shape and equal parts. -/

inductive TypeShape where
  | atom (valueType : TypeRef)
  | list
  | tuple (arity : Nat)
  | nominal (owner : NominalId) (arity : Nat)
  | callable (purity : Purity) (arity : Nat)

def TypeRef.shape : TypeRef → TypeShape
  | .listType _ => .list
  | .tupleType elements => .tuple elements.length
  | .nominalType owner arguments => .nominal owner arguments.length
  | .callableType purity parameters _ => .callable purity parameters.length
  | other => .atom other

def TypeRef.parts : TypeRef → List TypeRef
  | .listType element => [element]
  | .tupleType elements => elements
  | .nominalType _ arguments => arguments
  | .callableType _ parameters result => parameters ++ [result]
  | _ => []

theorem TypeRef.eq_iff_shape {left right : TypeRef} :
    left = right ↔ left.shape = right.shape ∧ left.parts = right.parts := by
  refine ⟨fun h => ⟨by rw [h], by rw [h]⟩, fun ⟨hshape, hparts⟩ => ?_⟩
  cases left with
  | callableType purity parameters result => cases right with
    | callableType other others last =>
      simp only [shape, TypeShape.callable.injEq] at hshape
      obtain ⟨hparameters, hlast⟩ := List.append_inj' hparts rfl
      obtain ⟨rfl, -⟩ := hshape
      cases hlast
      rw [hparameters]
    | _ => simp [shape] at hshape
  | _ => cases right <;> simp_all [shape, parts]

theorem TypeRef.sum_parts_lt (type : TypeRef) : (type.parts.map sizeOf).sum < sizeOf type := by
  have hsum : ∀ types : List TypeRef, (types.map sizeOf).sum < sizeOf types := by
    intro types
    induction types with
    | nil => simp
    | cons first rest ih =>
      simp only [List.map_cons, List.sum_cons, List.cons.sizeOf_spec]
      omega
  cases type with
  | listType element => simp [parts]
  | tupleType elements =>
    have := hsum elements
    simp only [parts, tupleType.sizeOf_spec]
    omega
  | nominalType owner arguments =>
    have := hsum arguments
    simp only [parts, nominalType.sizeOf_spec]
    omega
  | callableType purity parameters result =>
    have := hsum parameters
    simp only [parts, callableType.sizeOf_spec, List.map_append, List.sum_append, List.map_cons,
      List.map_nil, List.sum_cons, List.sum_nil]
    omega
  | parameterType id =>
    simp only [parts, parameterType.sizeOf_spec, List.map_nil, List.sum_nil]
    omega
  | _ => simp [parts]

theorem TypeRef.sizeOf_part_lt {part type : TypeRef} (h : part ∈ type.parts) :
    sizeOf part < sizeOf type := by
  have hsum := type.sum_parts_lt
  have hle : sizeOf part ≤ (type.parts.map sizeOf).sum :=
    List.le_sum_of_mem (List.mem_map_of_mem h)
  omega

namespace InferenceType

def IsVariable : InferenceType → Prop
  | .callVariable _ => True
  | _ => False

def shape : InferenceType → TypeShape
  | .acceptedType valueType => valueType.shape
  | .callVariable id => .tuple id
  | .inferredCallable purity parameters _ => .callable purity parameters.length
  | .inferredTuple elements => .tuple elements.length
  | .inferredList _ => .list
  | .inferredNominal owner arguments => .nominal owner arguments.length

variable {type : InferenceType} (h : ¬ type.IsVariable)

include h

theorem solved_shape (values : Values) : (type.solved values).shape = type.shape := by
  cases type with
  | callVariable id => exact absurd trivial h
  | _ => simp [solved, shape, TypeRef.shape, solvedAll_eq_map]

theorem solved_parts (values : Values) :
    (type.solved values).parts = type.inferenceShape.children.map (·.solved values) := by
  cases type with
  | callVariable id => exact absurd trivial h
  | acceptedType valueType =>
    cases valueType <;> simp [solved, TypeRef.parts, inferenceShape, children, Function.comp_def]
  | _ => simp [solved, TypeRef.parts, inferenceShape, children, solvedAll_eq_map]

theorem mem_mentions {id : InferenceVariableId} :
    id ∈ type.mentions ↔ ∃ child ∈ type.children, id ∈ child.mentions := by
  cases type with
  | callVariable other => exact absurd trivial h
  | inferredCallable purity parameters result =>
    simp [mentions, children, mem_mentionsOf, or_and_right, exists_or]
  | _ => simp [mentions, children, mem_mentionsOf]

theorem mem_mentions_shape {id : InferenceVariableId} :
    id ∈ type.mentions ↔ ∃ child ∈ type.inferenceShape.children, id ∈ child.mentions := by
  cases type with
  | callVariable other => exact absurd trivial h
  | acceptedType valueType => cases valueType <;> simp [mentions, inferenceShape, children]
  | _ => exact mem_mentions h

theorem sum_children_lt (values : Values) :
    (type.children.map fun child => sizeOf (child.solved values)).sum <
      sizeOf (type.solved values) := by
  have hparts := (type.solved values).sum_parts_lt
  rw [solved_parts h, List.map_map] at hparts
  cases type with
  | acceptedType valueType => exact Nat.lt_of_le_of_lt (Nat.zero_le _) hparts
  | _ => exact hparts

end InferenceType

/-! ## Slots -/

def InferenceSlot.binding (slot : InferenceSlot) : Option InferenceType :=
  match slot.state with
  | .unboundVariable _ => none
  | .boundVariable value => some value
  | .linkedVariable next => some (.callVariable next)

def bindings (slots : List InferenceSlot) (id : InferenceVariableId) : Option InferenceType :=
  slots[id]?.bind InferenceSlot.binding

def InferenceType.Within (slots : List InferenceSlot) (type : InferenceType) : Prop :=
  ∀ id ∈ type.mentions, id < slots.length

/-- Bindings stay within the slots and lead to no variable again. -/
structure WellBound (slots : List InferenceSlot) : Prop where
  within : ∀ id value, bindings slots id = some value → value.Within slots
  layered : Layered InferenceType.mentions (bindings slots)

theorem WellBound.of_bindings {slots next : List InferenceSlot} (h : WellBound slots)
    (hsame : bindings next = bindings slots) (hlength : slots.length ≤ next.length) :
    WellBound next :=
  ⟨fun id value hvalue other hother =>
    Nat.lt_of_lt_of_le (h.within id value (hsame ▸ hvalue) other hother) hlength, hsame ▸ h.layered⟩

abbrev Solution (slots : List InferenceSlot) (values : Values) : Prop :=
  Solves (fun values type => InferenceType.solved values type) (bindings slots) values

theorem WellBound.solvable {slots : List InferenceSlot} (h : WellBound slots) :
    ∃ values, Solution slots values :=
  h.layered.solvable (fun type first second hsame => solved_congr first second type hsame)
    fun _ => .voidType

theorem bindings_set {slots : List InferenceSlot} {id : InferenceVariableId}
    (hid : id < slots.length) (slot : InferenceSlot) :
    bindings (slots.set id slot) = Function.update (bindings slots) id slot.binding := by
  funext other
  unfold bindings
  by_cases h : other = id
  · subst h
    rw [Function.update_self, List.getElem?_set_self hid]
    rfl
  · rw [Function.update_of_ne h, List.getElem?_set_ne (Ne.symm h)]

/-- A variable of the type leads to another through the bindings. -/
abbrev InferenceType.Reaches (slots : List InferenceSlot) (type : InferenceType)
    (id : InferenceVariableId) : Prop :=
  Triangular.Reaches InferenceType.mentions (bindings slots) type id

/-! ## Heads -/

/-- What the head of a type is: no solved variable, and the same type under every solution. -/
structure HeadOf (slots : List InferenceSlot) (value head : InferenceType) : Prop where
  within : head.Within slots
  unbound : ∀ id, head = .callVariable id → bindings slots id = none
  same : ∀ values, Solution slots values → head.solved values = value.solved values
  reaches : ∀ id, bindings slots id = none → (value.Reaches slots id ↔ head.Reaches slots id)

section

variable {slots : List InferenceSlot} (hslots : WellBound slots) (span : Span)

theorem HeadOf.of_binding {id : InferenceVariableId} {value head : InferenceType}
    (hbinding : bindings slots id = some value) (h : HeadOf slots value head) :
    HeadOf slots (.callVariable id) head where
  within := h.within
  unbound := h.unbound
  same := fun values hvalues => by
    rw [h.same values hvalues]
    exact (hvalues id value hbinding).symm
  reaches := by
    intro sought hsought
    rw [← h.reaches sought hsought]
    constructor
    · rintro ⟨start, hstart, hreach⟩
      obtain rfl : start = id := by simpa [InferenceType.mentions] using hstart
      exact reaches_of_bound hreach hbinding hsought
    · rintro ⟨next, hnext, hreach⟩
      exact ⟨id, by simp [InferenceType.mentions], .head ⟨value, hbinding, hnext⟩ hreach⟩

theorem HeadOf.self {value : InferenceType} (hwithin : value.Within slots)
    (hunbound : ∀ id, value = .callVariable id → bindings slots id = none) :
    HeadOf slots value value :=
  ⟨hwithin, hunbound, fun _ _ => rfl, fun _ _ => Iff.rfl⟩

include hslots

/-- Following bindings ends, by the levels of the variables. -/
theorem inferenceHead_spec {value : InferenceType} (hvalue : value.Within slots) :
    ∃ head, Outcome.Settles (fun n => inferenceHead slots span n value) (.ok head) ∧
      HeadOf slots value head := by
  obtain ⟨level, hlevel⟩ := hslots.layered
  suffices hall : ∀ bound (value : InferenceType), value.Within slots →
      (∀ id ∈ value.mentions, level id < bound) →
      ∃ head, Outcome.Settles (fun n => inferenceHead slots span n value) (.ok head) ∧
        HeadOf slots value head by
    obtain ⟨top, htop⟩ := (value.mentions.map level).toFinset.exists_le
    refine hall (top + 1) value hvalue fun id hid => Nat.lt_succ_of_le (htop _ ?_)
    rw [List.mem_toFinset]
    exact List.mem_map_of_mem hid
  intro bound
  induction bound with intro value hvalue hlow
  | zero =>
    cases value with
    | callVariable id =>
      exact absurd (hlow id (by simp [InferenceType.mentions])) (Nat.not_lt_zero _)
    | _ =>
      exact ⟨_, Outcome.Settles.succ (fun _ => rfl) Outcome.Settles.ok,
        HeadOf.self hvalue (by simp)⟩
  | succ bound ih =>
    cases value with
    | callVariable id =>
      have hid : id < slots.length := hvalue id (by simp [InferenceType.mentions])
      have hlow : level id < bound + 1 := hlow id (by simp [InferenceType.mentions])
      have hslot : slots[id]? = some slots[id] := List.getElem?_eq_getElem hid
      -- The slot's own binding, one level down.
      have hnext : ∀ next, bindings slots id = some next →
          ∃ head, Outcome.Settles (fun n => inferenceHead slots span n next) (.ok head) ∧
            HeadOf slots next head := by
        intro next hnext
        refine ih next (hslots.within id next hnext) fun other hother => ?_
        have hlt := hlevel id other ⟨next, hnext, hother⟩
        omega
      cases hstate : slots[id].state with
      | unboundVariable rank =>
        refine ⟨.callVariable id, ?_, HeadOf.self hvalue fun other hother => ?_⟩
        · refine Outcome.Settles.succ (fun n => ?_) Outcome.Settles.ok
          simp [inferenceHead, hslot, hstate]
        · cases hother
          simp [bindings, hslot, InferenceSlot.binding, hstate]
      | boundVariable next =>
        have hbinding : bindings slots id = some next := by
          simp [bindings, hslot, InferenceSlot.binding, hstate]
        obtain ⟨head, hsettles, hhead⟩ := hnext next hbinding
        refine ⟨head, Outcome.Settles.succ (fun n => ?_) hsettles, hhead.of_binding hbinding⟩
        simp [inferenceHead, hslot, hstate]
      | linkedVariable next =>
        have hbinding : bindings slots id = some (.callVariable next) := by
          simp [bindings, hslot, InferenceSlot.binding, hstate]
        obtain ⟨head, hsettles, hhead⟩ := hnext _ hbinding
        refine ⟨head, Outcome.Settles.succ (fun n => ?_) hsettles, hhead.of_binding hbinding⟩
        simp [inferenceHead, hslot, hstate]
    | _ =>
      exact ⟨_, Outcome.Settles.succ (fun _ => rfl) Outcome.Settles.ok,
        HeadOf.self hvalue (by simp)⟩

/-! ## The occurs check -/

theorem inferenceOccurs_spec {sought : InferenceVariableId} (hsought : bindings slots sought = none)
    {value : InferenceType} (hvalue : value.Within slots) :
    ∃ found : Bool, Outcome.Settles (fun n => inferenceOccurs n sought value slots span)
        (.ok found) ∧ (found = true ↔ value.Reaches slots sought) := by
  obtain ⟨values, hvalues⟩ := hslots.solvable
  -- The pending types shrink under any solution.
  suffices hall : ∀ bound (pending : List InferenceType), (∀ type ∈ pending, type.Within slots) →
      (pending.map fun type => sizeOf (type.solved values)).sum < bound →
      ∃ found : Bool, Outcome.Settles (fun n => occursPending sought slots span n pending)
        (.ok found) ∧ (found = true ↔ ∃ type ∈ pending, type.Reaches slots sought) by
    obtain ⟨found, hsettles, hfound⟩ := hall _ [value] (by simpa using hvalue) (Nat.lt_succ_self _)
    exact ⟨found, hsettles, by simpa using hfound⟩
  intro bound
  induction bound with
  | zero =>
    intro pending _ hlt
    exact absurd hlt (Nat.not_lt_zero _)
  | succ bound ih =>
    intro pending hpending hlt
    cases pending with
    | nil =>
      refine ⟨false, Outcome.Settles.succ (fun _ => rfl) Outcome.Settles.ok, ?_⟩
      simp
    | cons value pending =>
      obtain ⟨hvalue, hpending⟩ := List.forall_mem_cons.mp hpending
      rw [List.map_cons, List.sum_cons] at hlt
      obtain ⟨head, hsettles, hhead⟩ := inferenceHead_spec hslots span hvalue
      have hsize := (value.solved values).sum_parts_lt
      by_cases hvariable : ∃ id, head = .callVariable id
      · obtain ⟨id, rfl⟩ := hvariable
        have hunbound := hhead.unbound id rfl
        have hreaches : value.Reaches slots sought ↔ id = sought := by
          rw [hhead.reaches sought hsought]
          constructor
          · rintro ⟨start, hstart, hreach⟩
            obtain rfl : start = id := by simpa [InferenceType.mentions] using hstart
            exact eq_of_unbound hreach hunbound
          · rintro rfl
            exact ⟨id, by simp [InferenceType.mentions], .refl⟩
        by_cases hid : id = sought
        · refine ⟨true, Outcome.Settles.succ (fun n => rfl) (Outcome.Settles.bind_ok hsettles ?_), ?_⟩
          · simpa only [hid, ↓reduceIte] using Outcome.Settles.ok
          · simp [hreaches, hid]
        · obtain ⟨found, hrest, hfound⟩ := ih pending hpending (by omega)
          refine ⟨found, Outcome.Settles.succ (fun n => rfl)
            (Outcome.Settles.bind_ok hsettles ?_), ?_⟩
          · simpa only [hid, ↓reduceIte] using hrest
          · simp [hfound, hreaches, hid]
      · have hnode : ¬ head.IsVariable := by
          cases head with
          | callVariable id => exact absurd ⟨id, rfl⟩ hvariable
          | _ => exact id
        have hchildren : ∀ id, (∃ child ∈ head.children, child.Reaches slots id) ↔
            head.Reaches slots id := by
          intro id
          simp only [InferenceType.Reaches, Triangular.Reaches, InferenceType.mem_mentions hnode]
          tauto
        obtain ⟨found, hrest, hfound⟩ := ih (head.children.reverse ++ pending) (by
          intro type htype
          rcases List.mem_append.mp htype with hchild | hold
          · exact fun id hid => hhead.within id ((InferenceType.mem_mentions hnode).mpr
              ⟨type, List.mem_reverse.mp hchild, hid⟩)
          · exact hpending type hold) (by
          have hless := InferenceType.sum_children_lt hnode values
          rw [hhead.same values hvalues] at hless
          rw [List.map_append, List.sum_append, List.map_reverse, List.sum_reverse]
          omega)
        refine ⟨found, Outcome.Settles.succ (fun n => rfl)
          (Outcome.Settles.bind_ok hsettles ?_), ?_⟩
        · cases head with
          | callVariable id => exact absurd ⟨id, rfl⟩ hvariable
          | _ => exact hrest
        · simp [hfound, or_and_right, exists_or, hchildren, hhead.reaches sought hsought]

end

end Blorp.Check
