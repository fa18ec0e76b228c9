import Blorp.Emit.Aggregates
import Blorp.Verify.LayoutReferences

/-!
# Aggregates are defined in a valid order

`append_aggregate_definitions` and `verify_layout_graph` walk one relation, storage by value.
So on the layouts that the verifier accepts the emitter meets no cycle.
-/

namespace Blorp.Emit

open Check (Span compilerSpan)
open Specialize Verify
open Fuel DepthFirst

variable {records : List ConcreteRecord} {unions : List ConcreteUnion}

/-! ## The two relations -/

def AggregateDefinition.node : AggregateDefinition → LayoutNode
  | .recordDefinition index => .record index
  | .unionDefinition index => .union index

def definitionOf : LayoutNode → AggregateDefinition
  | .record index => .recordDefinition index
  | .union index => .unionDefinition index

@[simp] theorem node_definitionOf (node : LayoutNode) : (definitionOf node).node = node := by
  cases node <;> rfl

@[simp] theorem definitionOf_node (definition : AggregateDefinition) :
    definitionOf definition.node = definition := by
  cases definition <;> rfl

theorem storedByValue_eq (type : TypeRef) :
    storedByValue type records unions = (storedLayout records unions type).map definitionOf := by
  cases type with
  | recordType id =>
    simp only [storedByValue, storedLayout]
    cases records[id]? with
    | none => rfl
    | some layout => cases layout <;> rfl
  | unionType id =>
    simp only [storedByValue, storedLayout]
    cases unions[id]? with
    | none => rfl
    | some layout => cases layout <;> rfl
  | _ => rfl

variable {type : TypeRef} {α : Type} {x : Except Diagnostic α}

/-- **One relation.**  Where the verifier's walk passes a field, it goes on with the layout
that the emitter asks to be defined first, and with no other. -/
theorem visitStoredType_eq {walk next : LayoutWalk}
    (h : visitStoredType records unions walk type = .ok next) : next = { walk with pending :=
      ((storedByValue type records unions).toList.map fun definition => definition.node.visit) ++
        walk.pending } := by
  cases type with
  | recordType id =>
    simp only [storedByValue, visitStoredType] at h ⊢
    cases hlayout : records[id]? with rw [hlayout] at h
    | none => cases h
    | some layout => cases layout <;> cases h <;> rfl
  | unionType id =>
    simp only [storedByValue, visitStoredType] at h ⊢
    cases hlayout : unions[id]? with rw [hlayout] at h
    | none => cases h
    | some layout => cases layout <;> cases h <;> rfl
  | listType element | callableType parameters result =>
    obtain ⟨_, -, h⟩ := Except.peel h
    cases h
    rfl
  | _ =>
    cases h
    rfl

/-! ## Texts -/

abbrev Succeeds {α : Type} (x : Except Diagnostic α) : Prop :=
  Except.ErrorsIn (fun _ => False) x

theorem Succeeds.exists_ok (h : Succeeds x) : ∃ a, x = .ok a := by
  cases x with
  | ok a => exact ⟨a, rfl⟩
  | error e => exact h.elim

theorem Succeeds.bind {β : Type} {f : α → Except Diagnostic β} (hx : Succeeds x)
    (hf : ∀ a, Succeeds (f a)) : Succeeds (x >>= f) :=
  Except.Meets.bind hx fun a _ => hf a

theorem Succeeds.foldlM {σ : Type} {f : σ → α → Except Diagnostic σ} : ∀ {xs : List α},
    (∀ x ∈ xs, ∀ s, Succeeds (f s x)) → ∀ s, Succeeds (xs.foldlM f s) := by
  intro xs
  induction xs with
  | nil => exact fun _ _ => trivial
  | cons x xs ih =>
    intro h s
    obtain ⟨hfirst, hrest⟩ := List.forall_mem_cons.mp h
    exact (hfirst s).bind fun between => ih hrest between

abbrev FieldsWithin (records : List ConcreteRecord) (unions : List ConcreteUnion)
    (fields : List TypeRef) : Prop :=
  ∀ field ∈ fields, RefersWithin records unions field

theorem appendTypeName_succeeds (h : RefersWithin records unions type) (output : String)
    (span : Span) : Succeeds (appendTypeName output type unions span) := by
  cases type with
  | unionType id =>
    have hlt : id < unions.length := h
    simp only [appendTypeName, List.getElem?_eq_getElem hlt]
    trivial
  | _ => trivial

theorem storageHelper_succeeds (h : RefersWithin records unions type) (action : OwnershipAction)
    (span : Span) : Succeeds (storageHelper type action unions span) := by
  cases type with
  | unionType id =>
    have hlt : id < unions.length := h
    simp only [storageHelper, List.getElem?_eq_getElem hlt]
    cases unions[id] <;> trivial
  | stringType => cases action <;> trivial
  | _ => trivial

theorem appendStorageOperation_succeeds (h : RefersWithin records unions type) (output : String)
    (action : OwnershipAction) (expression : String) (span : Span) :
    Succeeds (appendStorageOperation output type action expression unions span) := by
  refine (storageHelper_succeeds h action span).bind fun helper => ?_
  cases helper <;> trivial

theorem fields_of_zipIdx {variants : List (List TypeRef)} {entry : List TypeRef × Nat}
    (hentry : entry ∈ variants.zipIdx) {field : TypeRef × Nat} (hfield : field ∈ entry.1.zipIdx)
    (h : FieldsWithin records unions variants.flatten) : RefersWithin records unions field.1 := by
  refine h field.1 (List.mem_flatten.mpr ⟨entry.1, ?_, ?_⟩)
  · exact List.fst_mem_of_mem_zipIdx hentry
  · exact List.fst_mem_of_mem_zipIdx hfield

theorem appendUnionArms_succeeds {layout : ConcreteUnion}
    (hfields : FieldsWithin records unions layout.unionVariants.flatten) (output : String)
    (index : Nat) {field : Nat → Nat → String → TypeRef → Except Diagnostic String}
    (h : ∀ type, RefersWithin records unions type → ∀ position fieldPosition result,
      Succeeds (field position fieldPosition result type)) :
    Succeeds (appendUnionArms output layout index field) := by
  refine Succeeds.foldlM (fun entry hentry result => ?_) output
  refine Succeeds.bind ?_ fun arm => trivial
  refine Succeeds.foldlM (fun payload hpayload arm => ?_) _
  exact h _ (fields_of_zipIdx hentry hpayload hfields) _ _ arm

theorem appendUnionOwnership_succeeds {layout : ConcreteUnion}
    (hfields : FieldsWithin records unions layout.unionVariants.flatten) (output : String)
    (index : Nat) : Succeeds (appendUnionOwnership output layout index unions) := by
  have haction : ∀ output action, Succeeds (appendUnionAction output layout index unions action) := by
    intro output action
    refine (appendUnionArms_succeeds hfields _ index ?_).bind fun arms => trivial
    intro type htype position fieldPosition result
    exact appendStorageOperation_succeeds htype _ _ _ _
  cases layout with
  | plainCases variants => trivial
  | owningCases variants =>
    exact (haction output .duplicateValue).bind fun duplicated => haction duplicated .destroyValue
  | boxedCases variants =>
    refine (appendUnionArms_succeeds hfields _ index ?_).bind fun arms => trivial
    intro type htype position fieldPosition result
    by_cases hself : type = .unionType index
    · simp only [if_pos hself]
      trivial
    · simp only [if_neg hself]
      exact appendStorageOperation_succeeds htype _ _ _ _

theorem appendRecord_succeeds {layout : ConcreteRecord}
    (hfields : FieldsWithin records unions layout.recordFields) (output : String) (index : Nat) :
    Succeeds (appendRecord output layout index unions) := by
  refine Succeeds.bind ?_ fun body => trivial
  refine Succeeds.foldlM (fun entry hentry result => ?_) _
  have htype := hfields entry.1 (List.fst_mem_of_mem_zipIdx hentry)
  obtain ⟨field, position⟩ := entry
  cases field with
  | voidType => trivial
  | _ => exact (appendTypeName_succeeds htype "" compilerSpan).bind fun name => trivial

theorem appendUnion_succeeds {declaration : ConcreteUnion}
    (hfields : FieldsWithin records unions declaration.unionVariants.flatten) (output : String)
    (index : Nat) : Succeeds (appendUnion output declaration index unions) := by
  unfold appendUnion
  by_cases hpayload : hasPayload declaration = true
  · simp only [hpayload, if_true]
    refine Succeeds.bind ?_ fun members => appendUnionOwnership_succeeds hfields _ index
    refine Succeeds.foldlM (fun entry hentry result => ?_) _
    by_cases hempty : entry.1.isEmpty = true
    · simp only [hempty, if_true]
      trivial
    · simp only [hempty]
      refine Succeeds.bind ?_ fun members => trivial
      refine Succeeds.foldlM (fun field hfield result => ?_) _
      exact (appendTypeName_succeeds (fields_of_zipIdx hentry hfield hfields) "" compilerSpan).bind
        fun name => trivial
  · simp only [hpayload]
    trivial

/-- **Texts.**  Every aggregate of the catalogues has a definition. -/
theorem text_ok (hrefs : ReferencesWithin records unions) {definition : AggregateDefinition}
    (h : InCatalogue records unions definition.node) :
    ∃ text, definition.text records unions = .ok text := by
  cases definition with
  | recordDefinition index =>
    have hlt : index < records.length := h
    simp only [AggregateDefinition.text, List.getElem?_eq_getElem hlt]
    have hfields : FieldsWithin records unions records[index].recordFields := fun field hfield =>
      hrefs (.record index) field (by simpa [layoutFields, hlt] using hfield)
    exact (appendRecord_succeeds hfields "" index).exists_ok
  | unionDefinition index =>
    have hlt : index < unions.length := h
    simp only [AggregateDefinition.text, List.getElem?_eq_getElem hlt]
    have hfields : FieldsWithin records unions unions[index].unionVariants.flatten :=
      fun field hfield => hrefs (.union index) field (by simpa [layoutFields, hlt] using hfield)
    exact (appendUnion_succeeds hfields "" index).exists_ok

/-! ## The walk as a depth-first search -/

def AggregateVisit.mark : AggregateVisit → Mark
  | .unvisitedAggregate => .unvisited
  | .visitingAggregate => .visiting
  | .emittedAggregate => .complete

def AggregateWalk.mark (walk : AggregateWalk) (node : LayoutNode) : Mark :=
  match walk.status (definitionOf node) with
  | some visit => visit.mark
  | none => .unvisited

def AggregateVisitStep.item : AggregateVisitStep → Item LayoutNode
  | .prepareAggregate definition => .enter definition.node
  | .emitAggregate definition => .leave definition.node

def AggregateVisitStep.definition : AggregateVisitStep → AggregateDefinition
  | .prepareAggregate definition | .emitAggregate definition => definition

/-- What the walk knows between two steps: the definitions written are those of the complete
layouts, in order. -/
structure EmitSound (records : List ConcreteRecord) (unions : List ConcreteUnion)
    (walk : AggregateWalk) (path order : List LayoutNode) : Prop where
  records_length : walk.recordVisits.length = records.length
  unions_length : walk.unionVisits.length = unions.length
  within : ∀ step ∈ walk.pending, InCatalogue records unions step.definition.node
  sound : Sound (StoredIn records unions) (InCatalogue records unions) walk.mark
    (walk.pending.map AggregateVisitStep.item) path
  ordered : Ordered (StoredIn records unions) walk.mark order
  texts : List.Forall₂ (fun node text => (definitionOf node).text records unions = .ok text)
    order walk.fragments
  catalogued : ∀ node ∈ order, InCatalogue records unions node

/-- The steps left: those pending, and those that unvisited aggregates will push. -/
def emitWeight (records : List ConcreteRecord) (unions : List ConcreteUnion)
    (walk : AggregateWalk) : Nat :=
  ((layoutNodes records unions).map (unvisitedWeight records unions walk.mark)).sum +
    walk.pending.length

section

variable {walk : AggregateWalk} {definition : AggregateDefinition}

theorem mark_node (visit : AggregateVisit) (h : walk.status definition = some visit) :
    walk.mark definition.node = visit.mark := by
  unfold AggregateWalk.mark
  rw [definitionOf_node, h]

theorem mark_withPending (pending : List AggregateVisitStep) :
    AggregateWalk.mark { walk with pending := pending } = walk.mark := by
  funext node
  cases node <;> rfl

theorem emitWeight_withPending (records : List ConcreteRecord) (unions : List ConcreteUnion)
    (walk : AggregateWalk) (pending : List AggregateVisitStep) :
    emitWeight records unions { walk with pending := pending } =
      ((layoutNodes records unions).map (unvisitedWeight records unions walk.mark)).sum +
        pending.length := by
  unfold emitWeight
  rw [mark_withPending]

variable {old : AggregateVisit}

theorem status_setVisit (h : walk.status definition = some old) (visit : AggregateVisit)
    (other : AggregateDefinition) :
    (walk.setVisit definition visit).status other =
      if other = definition then some visit else walk.status other := by
  cases definition with
  | recordDefinition index =>
    have hlt : index < walk.recordVisits.length := (List.getElem?_eq_some_iff.mp h).1
    cases other with
    | recordDefinition id =>
      by_cases heq : id = index
      · subst heq
        simp [AggregateWalk.setVisit, AggregateWalk.status, hlt]
      · simp [AggregateWalk.setVisit, AggregateWalk.status, heq, Ne.symm heq]
    | unionDefinition id => simp [AggregateWalk.setVisit, AggregateWalk.status]
  | unionDefinition index =>
    have hlt : index < walk.unionVisits.length := (List.getElem?_eq_some_iff.mp h).1
    cases other with
    | recordDefinition id => simp [AggregateWalk.setVisit, AggregateWalk.status]
    | unionDefinition id =>
      by_cases heq : id = index
      · subst heq
        simp [AggregateWalk.setVisit, AggregateWalk.status, hlt]
      · simp [AggregateWalk.setVisit, AggregateWalk.status, heq, Ne.symm heq]

theorem mark_setVisit (h : walk.status definition = some old) (visit : AggregateVisit) :
    (walk.setVisit definition visit).mark =
      Function.update walk.mark definition.node visit.mark := by
  funext node
  unfold AggregateWalk.mark
  rw [status_setVisit h]
  by_cases heq : node = definition.node
  · subst heq
    simp
  · have hne : definitionOf node ≠ definition := by
      rintro rfl
      exact heq (node_definitionOf node).symm
    rw [if_neg hne, Function.update_of_ne heq]

theorem exists_status (hrecords : walk.recordVisits.length = records.length)
    (hunions : walk.unionVisits.length = unions.length)
    (h : InCatalogue records unions definition.node) : ∃ visit, walk.status definition = some visit := by
  cases definition with
  | recordDefinition index =>
    have hlt : index < walk.recordVisits.length := hrecords ▸ h
    exact ⟨_, List.getElem?_eq_getElem hlt⟩
  | unionDefinition index =>
    have hlt : index < walk.unionVisits.length := hunions ▸ h
    exact ⟨_, List.getElem?_eq_getElem hlt⟩

theorem storedTypes_ok (h : InCatalogue records unions definition.node) :
    definition.storedTypes records unions = .ok (layoutFields records unions definition.node) := by
  cases definition with
  | recordDefinition index =>
    have hlt : index < records.length := h
    simp [AggregateDefinition.storedTypes, AggregateDefinition.node, layoutFields, hlt]
  | unionDefinition index =>
    have hlt : index < unions.length := h
    simp [AggregateDefinition.storedTypes, AggregateDefinition.node, layoutFields, hlt]

theorem lengths_setVisit (walk : AggregateWalk) (definition : AggregateDefinition)
    (visit : AggregateVisit) :
    (walk.setVisit definition visit).recordVisits.length = walk.recordVisits.length ∧
      (walk.setVisit definition visit).unionVisits.length = walk.unionVisits.length ∧
      (walk.setVisit definition visit).fragments = walk.fragments := by
  cases definition <;> simp [AggregateWalk.setVisit]

end

theorem inCatalogue_of_stored {inner outer : LayoutNode} (h : StoredIn records unions inner outer) :
    InCatalogue records unions inner := by
  obtain ⟨field, -, hfield⟩ := h
  cases field with
  | recordType id | unionType id =>
    simp only [storedLayout] at hfield
    split at hfield
    iterate 2
      · next hget =>
        cases hfield
        exact (List.getElem?_eq_some_iff.mp hget).1
    · cases hfield
  | _ => cases hfield

theorem node_dependencies (fields : List TypeRef) :
    (fields.filterMap (storedByValue · records unions)).map AggregateDefinition.node =
      fields.filterMap (storedLayout records unions) := by
  rw [List.map_filterMap]
  congr 1
  funext field
  rw [storedByValue_eq, Option.map_map]
  cases storedLayout records unions field <;> simp

section

variable {walk : AggregateWalk} {definition : AggregateDefinition}
  {pending : List AggregateVisitStep} {path order : List LayoutNode}

theorem prepare_emitted
    (h : EmitSound records unions { walk with pending := .prepareAggregate definition :: pending }
      path order)
    (hvisit : walk.status definition = some .emittedAggregate) :
    EmitSound records unions { walk with pending := pending } path order ∧
      emitWeight records unions { walk with pending := pending } <
        emitWeight records unions
          { walk with pending := .prepareAggregate definition :: pending } := by
  have hsound := h.sound
  have hordered := h.ordered
  constructor
  · refine ⟨h.records_length, h.unions_length,
      fun other hother => h.within other (List.mem_cons_of_mem _ hother), ?_, ?_, h.texts,
      h.catalogued⟩
    · exact hsound.skip (mark_node .emittedAggregate hvisit)
    · exact hordered
  · rw [emitWeight_withPending, emitWeight_withPending, List.length_cons]
    omega

theorem prepare_unvisited
    (h : EmitSound records unions { walk with pending := .prepareAggregate definition :: pending }
      path order)
    (hvisit : walk.status definition = some .unvisitedAggregate) {next : AggregateWalk}
    (hnext : next = { walk.setVisit definition .visitingAggregate with
      pending := ((layoutFields records unions definition.node).filterMap
        (storedByValue · records unions)).map .prepareAggregate ++
          .emitAggregate definition :: pending }) :
    EmitSound records unions next (definition.node :: path) order ∧
      emitWeight records unions next < emitWeight records unions
        { walk with pending := .prepareAggregate definition :: pending } := by
  have hsound := h.sound
  have hordered := h.ordered
  have hnode : InCatalogue records unions definition.node := h.within _ List.mem_cons_self
  have hmark := mark_node .unvisitedAggregate hvisit
  obtain ⟨hrecords, hunions, hfragments⟩ :=
    lengths_setVisit walk definition .visitingAggregate
  have hmarks : next.mark = Function.update walk.mark definition.node .visiting := by
    rw [hnext, mark_withPending, mark_setVisit hvisit]
    rfl
  have hitems : next.pending.map AggregateVisitStep.item =
      ((layoutFields records unions definition.node).filterMap (storedLayout records unions)).map
        .enter ++ .leave definition.node :: pending.map AggregateVisitStep.item := by
    rw [hnext, ← node_dependencies, List.map_append, List.map_map, List.map_map]
    rfl
  constructor
  · refine ⟨?_, ?_, ?_, ?_, ?_, ?_, h.catalogued⟩
    · rw [hnext]
      exact hrecords.trans h.records_length
    · rw [hnext]
      exact hunions.trans h.unions_length
    · intro step hstep
      rw [hnext] at hstep
      rcases List.mem_append.mp hstep with hchild | hrest
      · obtain ⟨dependency, hdependency, rfl⟩ := List.mem_map.mp hchild
        have hmem := List.mem_map_of_mem (f := AggregateDefinition.node) hdependency
        rw [node_dependencies, ← storedIn_iff] at hmem
        exact inCatalogue_of_stored hmem
      · rcases List.mem_cons.mp hrest with rfl | hmem
        · exact hnode
        · exact h.within step (List.mem_cons_of_mem _ hmem)
    · rw [hmarks, hitems]
      exact hsound.enter hmark fun _ => storedIn_iff
    · rw [hmarks]
      exact hordered.enter hmark
    · rw [hnext]
      show List.Forall₂ _ order (walk.setVisit definition .visitingAggregate).fragments
      rw [hfragments]
      exact h.texts
  · have hdrop := unvisited_drop hnode hmark
    have hlength : next.pending.length ≤
        (layoutFields records unions definition.node).length + 1 + pending.length := by
      rw [hnext]
      simp only [List.length_append, List.length_map, List.length_cons]
      have := List.length_filterMap_le (storedByValue · records unions)
        (layoutFields records unions definition.node)
      omega
    have hold := emitWeight_withPending records unions walk
      (.prepareAggregate definition :: pending)
    rw [List.length_cons] at hold
    rw [hold]
    unfold emitWeight
    rw [hmarks]
    omega

theorem emit_sound
    (h : EmitSound records unions { walk with pending := .emitAggregate definition :: pending }
      path order) {text : String} (htext : definition.text records unions = .ok text)
    {visit : AggregateVisit} (hvisit : walk.status definition = some visit) {next : AggregateWalk}
    (hnext : next = { walk.setVisit definition .emittedAggregate with
      fragments := walk.fragments ++ [text], pending := pending }) :
    EmitSound records unions next path.tail (order ++ [definition.node]) ∧
      emitWeight records unions next < emitWeight records unions
        { walk with pending := .emitAggregate definition :: pending } := by
  have hsound := h.sound
  have hordered := h.ordered
  have hnode : InCatalogue records unions definition.node := h.within _ List.mem_cons_self
  obtain ⟨hrecords, hunions, -⟩ :=
    lengths_setVisit walk definition .emittedAggregate
  have hmarks : next.mark = Function.update walk.mark definition.node .complete := by
    have hset := mark_setVisit hvisit .emittedAggregate
    rw [hnext]
    exact hset
  constructor
  · refine ⟨?_, ?_, ?_, ?_, ?_, ?_, ?_⟩
    · rw [hnext]
      exact hrecords.trans h.records_length
    · rw [hnext]
      exact hunions.trans h.unions_length
    · rw [hnext]
      exact fun other hother => h.within other (List.mem_cons_of_mem _ hother)
    · rw [hmarks, hnext]
      exact hsound.leave
    · rw [hmarks]
      exact hordered.leave hsound
    · rw [hnext]
      refine List.rel_append h.texts (.cons ?_ .nil)
      rw [definitionOf_node]
      exact htext
    · intro node hmem
      rcases List.mem_append.mp hmem with hold | hnew
      · exact h.catalogued node hold
      · rw [List.mem_singleton.mp hnew]
        exact hnode
  · have hkeep := unvisited_keep records unions walk.mark definition.node
    have hlength : next.pending.length = pending.length := by rw [hnext]
    have hold := emitWeight_withPending records unions walk
      (.emitAggregate definition :: pending)
    rw [List.length_cons] at hold
    rw [hold]
    unfold emitWeight
    rw [hmarks, hlength]
    omega

/-- **One step.**  Where no layout is stored inside itself, the walk goes on soundly with less
to do. -/
theorem visitAggregate_sound (hrefs : ReferencesWithin records unions)
    (hacyclic : ¬ ∃ node, Relation.TransGen (StoredIn records unions) node node)
    {step : AggregateVisitStep}
    (h : EmitSound records unions { walk with pending := step :: pending } path order) :
    ∃ next path order,
      visitAggregate records unions { walk with pending := pending } step = .ok next ∧
      EmitSound records unions next path order ∧
      emitWeight records unions next <
        emitWeight records unions { walk with pending := step :: pending } := by
  have hnode := h.within step List.mem_cons_self
  obtain ⟨visit, hfound⟩ := exists_status h.records_length h.unions_length hnode
  have hvisit : walk.status step.definition = some visit := by
    rw [← hfound]
    cases step.definition <;> rfl
  have hstatus : AggregateWalk.status { walk with pending := pending } step.definition =
      some visit := by
    rw [← hvisit]
    cases step.definition <;> rfl
  cases step with
  | prepareAggregate definition =>
    cases visit with
    | emittedAggregate =>
      obtain ⟨hnext, hless⟩ := prepare_emitted h hvisit
      refine ⟨_, path, order, ?_, hnext, hless⟩
      simp [visitAggregate, show AggregateWalk.status _ definition = _ from hstatus]
    | visitingAggregate =>
      have hsound := h.sound
      exact absurd ⟨_, hsound.cycle (mark_node .visitingAggregate hvisit)⟩ hacyclic
    | unvisitedAggregate =>
      obtain ⟨hnext, hless⟩ := prepare_unvisited h hvisit rfl
      have hstored : definition.storedTypes records unions =
          .ok (layoutFields records unions definition.node) := storedTypes_ok hnode
      refine ⟨_, _, order, ?_, hnext, hless⟩
      simp only [visitAggregate, show AggregateWalk.status _ definition = _ from hstatus, hstored]
      cases definition <;> rfl
  | emitAggregate definition =>
    obtain ⟨text, htext⟩ : ∃ text, definition.text records unions = .ok text :=
      text_ok hrefs hnode
    obtain ⟨hnext, hless⟩ := emit_sound h htext hvisit rfl
    refine ⟨_, _, _, ?_, hnext, hless⟩
    simp only [visitAggregate, htext]
    cases definition <;> rfl

theorem walkAggregates_settles (hrefs : ReferencesWithin records unions)
    (hacyclic : ¬ ∃ node, Relation.TransGen (StoredIn records unions) node node) :
    ∀ (weight : Nat) (walk : AggregateWalk) (path order : List LayoutNode),
      EmitSound records unions walk path order → emitWeight records unions walk < weight →
      ∃ last path order, last.pending = [] ∧ EmitSound records unions last path order ∧
        Outcome.Settles (fun n => walkAggregates records unions n walk) (.ok last.fragments) := by
  intro weight
  induction weight with
  | zero => exact fun _ _ _ _ hlt => absurd hlt (Nat.not_lt_zero _)
  | succ weight ih =>
    intro walk path order h hlt
    cases hpending : walk.pending with
    | nil =>
      refine ⟨walk, path, order, hpending, h, Outcome.Settles.succ (fun n => ?_)
        Outcome.Settles.ok⟩
      rw [walkAggregates, hpending]
    | cons step pending =>
      have hwalk : walk = { walk with pending := step :: pending } := by rw [← hpending]
      rw [hwalk] at h hlt
      obtain ⟨next, path, order, hstep, hnext, hless⟩ := visitAggregate_sound hrefs hacyclic h
      obtain ⟨last, path, order, hlast, hsound, hrun⟩ := ih next path order hnext (by omega)
      refine ⟨last, path, order, hlast, hsound, Outcome.Settles.succ (fun n => ?_) hrun⟩
      rw [walkAggregates, hpending]
      simp [hstep, Outcome.liftM_ok, Outcome.ok_bind]

end

/-! ## The whole walk -/

def aggregateStart (records : List ConcreteRecord) (unions : List ConcreteUnion) : AggregateWalk where
  recordVisits := records.map fun _ => .unvisitedAggregate
  unionVisits := unions.map fun _ => .unvisitedAggregate
  fragments := []
  pending := (List.range records.length).map (.prepareAggregate <| .recordDefinition ·) ++
    (List.range unions.length).map (.prepareAggregate <| .unionDefinition ·)

theorem emitSound_start (records : List ConcreteRecord) (unions : List ConcreteUnion) :
    EmitSound records unions (aggregateStart records unions) [] [] := by
  have hmark : (aggregateStart records unions).mark = fun _ => .unvisited := by
    funext node
    cases node with
    | record id =>
      simp only [AggregateWalk.mark, definitionOf, AggregateWalk.status, aggregateStart,
        List.getElem?_map]
      cases records[id]? <;> rfl
    | union id =>
      simp only [AggregateWalk.mark, definitionOf, AggregateWalk.status, aggregateStart,
        List.getElem?_map]
      cases unions[id]? <;> rfl
  have hitems : (aggregateStart records unions).pending.map AggregateVisitStep.item =
      (layoutNodes records unions).map .enter := by
    simp only [aggregateStart, layoutNodes, List.map_append, List.map_map]
    rfl
  refine ⟨by simp [aggregateStart], by simp [aggregateStart], ?_, ?_, ?_, .nil, by simp⟩
  · intro step hstep
    rcases List.mem_append.mp hstep with hrecord | hunion
    · obtain ⟨index, hindex, rfl⟩ := List.mem_map.mp hrecord
      exact List.mem_range.mp hindex
    · obtain ⟨index, hindex, rfl⟩ := List.mem_map.mp hunion
      exact List.mem_range.mp hindex
  · rw [hmark, hitems]
    exact sound_start fun node hnode => mem_layoutNodes.mpr hnode
  · rw [hmark]
    exact ordered_start

def AggregateDefinition.InCatalogue (records : List ConcreteRecord) (unions : List ConcreteUnion) :
    AggregateDefinition → Prop
  | .recordDefinition index => index < records.length
  | .unionDefinition index => index < unions.length

/-- The outer aggregate stores a value of the inner one by value. -/
def StoresByValue (records : List ConcreteRecord) (unions : List ConcreteUnion)
    (inner outer : AggregateDefinition) : Prop :=
  ∃ fields, outer.storedTypes records unions = .ok fields ∧
    ∃ field ∈ fields, storedByValue field records unions = some inner

theorem storedIn_of_storesByValue {inner outer : AggregateDefinition}
    (h : StoresByValue records unions inner outer) :
    StoredIn records unions inner.node outer.node := by
  obtain ⟨fields, hfields, field, hfield, hstored⟩ := h
  have hlayout : fields = layoutFields records unions outer.node := by
    cases outer with simp only [AggregateDefinition.storedTypes] at hfields
    | recordDefinition index =>
      simp only [AggregateDefinition.node, layoutFields]
      cases hget : records[index]? with rw [hget] at hfields
      | none => cases hfields
      | some layout =>
        cases hfields
        rfl
    | unionDefinition index =>
      simp only [AggregateDefinition.node, layoutFields]
      cases hget : unions[index]? with rw [hget] at hfields
      | none => cases hfields
      | some layout =>
        cases hfields
        rfl
  rw [storedByValue_eq] at hstored
  obtain ⟨node, hnode, rfl⟩ := Option.map_eq_some_iff.mp hstored
  rw [node_definitionOf]
  exact ⟨field, hlayout ▸ hfield, hnode⟩

/-- **Definitions in order.**  On the layouts that the verifier accepts the emitter's walk
ends without an error: it writes the definition of every record and union once, after the
definitions of what that one stores by value.  The verifier's walk follows a field exactly to
the aggregate that the emitter asks for first. -/
theorem appendAggregateDefinitions_exact (records : List ConcreteRecord)
    (unions : List ConcreteUnion)
    (haccepted : Outcome.Settles (fun n => verifyLayoutGraph n records unions) (.ok ())) :
    (∀ (walk next : LayoutWalk) (type : TypeRef),
      visitStoredType records unions walk type = .ok next →
      next = { walk with pending := ((storedByValue type records unions).toList.map
        fun definition => definition.node.visit) ++ walk.pending }) ∧
      ∃ (order : List AggregateDefinition) (texts : List String),
        Outcome.Settles (fun n => appendAggregateDefinitions records unions n)
          (.ok ("\n".intercalate texts)) ∧
        List.Forall₂ (fun definition text => definition.text records unions = .ok text)
          order texts ∧
        order.Nodup ∧ (∀ definition, definition ∈ order ↔ definition.InCatalogue records unions) ∧
        ∀ before outer after, order = before ++ outer :: after →
          ∀ inner, StoresByValue records unions inner outer → inner ∈ before := by
  refine ⟨fun walk next type h => visitStoredType_eq h, ?_⟩
  have hrefs : ReferencesWithin records unions := by
    obtain ⟨-, least, hleast⟩ := haccepted
    exact referencesWithin_of_accepted (hleast least (Nat.le_refl _))
  have hacyclic : ¬ ∃ node, Relation.TransGen (StoredIn records unions) node node := by
    obtain ⟨outcome, hsettles, hspec⟩ := verifyLayoutGraph_settles records unions hrefs
    cases hsettles.unique haccepted
    rcases hspec with ⟨-, hwell, -⟩ | ⟨⟨_, hrejected⟩, -⟩
    · exact not_cycle_of_wellFounded hwell
    · cases hrejected
  obtain ⟨last, path, order, hpending, hsound, hrun⟩ := walkAggregates_settles hrefs hacyclic _ _ _ _
    (emitSound_start records unions) (Nat.lt_succ_self _)
  have hcomplete := hsound.sound
  rw [hpending] at hcomplete
  refine ⟨order.map definitionOf, last.fragments, ?_, ?_, ?_, fun definition => ?_, ?_⟩
  · exact Outcome.Settles.bind_ok hrun Outcome.Settles.ok
  · exact List.forall₂_map_left_iff.mpr hsound.texts
  · refine hsound.ordered.nodup.map fun first second heq => ?_
    rw [← node_definitionOf first, heq, node_definitionOf]
  · have hmem : definition ∈ order.map definitionOf ↔ definition.node ∈ order := by
      constructor
      · intro h
        obtain ⟨node, hnode, rfl⟩ := List.mem_map.mp h
        rwa [node_definitionOf]
      · intro h
        exact List.mem_map.mpr ⟨definition.node, h, definitionOf_node definition⟩
    have hcatalogue : definition.InCatalogue records unions ↔
        Verify.InCatalogue records unions definition.node := by
      cases definition <;> exact Iff.rfl
    rw [hmem, hcatalogue]
    constructor
    · exact hsound.catalogued definition.node
    · intro h
      exact (hsound.ordered.complete definition.node).mpr
        (hcomplete.roots_complete definition.node h)
  · intro before outer after hsplit inner hinner
    obtain ⟨first, rest, rfl, rfl, hrest⟩ := List.map_eq_append_iff.mp hsplit
    obtain ⟨node, second, rfl, hnode, rfl⟩ := List.map_eq_cons_iff.mp hrest
    have hstored := storedIn_of_storesByValue hinner
    rw [← hnode, node_definitionOf] at hstored
    have hbefore := hsound.ordered.children_first first node second rfl inner.node hstored
    exact List.mem_map.mpr ⟨inner.node, hbefore, definitionOf_node inner⟩

/-- A record of two scalar unions comes after the union. -/
theorem appendAggregateDefinitions_exact_pair :
    Outcome.Settles (fun n => verifyLayoutGraph n [.inlineFields [.unionType 0, .unionType 0]]
        [.plainCases [[.intType], []]]) (.ok ()) ∧
      ∃ (order : List AggregateDefinition) (texts : List String),
        Outcome.Settles (fun n => appendAggregateDefinitions
          [.inlineFields [.unionType 0, .unionType 0]] [.plainCases [[.intType], []]] n)
          (.ok ("\n".intercalate texts)) ∧
        ∀ before outer after, order = before ++ outer :: after →
          ∀ inner, StoresByValue [.inlineFields [.unionType 0, .unionType 0]]
            [.plainCases [[.intType], []]] inner outer → inner ∈ before := by
  obtain ⟨-, order, texts, hrun, -, -, -, hbefore⟩ :=
    appendAggregateDefinitions_exact _ _ pair_accepted
  exact ⟨pair_accepted, order, texts, hrun, hbefore⟩

end Blorp.Emit
