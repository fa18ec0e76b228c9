import Blorp.Lib.DepthFirst
import Blorp.Verify.Layouts

/-!
# Storage by value

The relation between layouts that a value of one is stored by value inside the other, and
the sizes it gives: `verify_layout_graph` walks it depth first, so that on catalogues
whose references exist

    it accepts  iff  no layout is stored inside itself, and inline records have only
                     fields that may lie inline        (verifyLayoutGraph_accepts_iff)
-/

namespace Blorp.Verify

open Specialize
open Fuel DepthFirst

/-! ## Layouts inside layouts -/

inductive LayoutNode where
  | record (id : RecordInstanceId)
  | union (id : UnionInstanceId)
  deriving DecidableEq

section

variable (records : List ConcreteRecord) (unions : List ConcreteUnion)

/-- The layout whose value a field of the type holds in place; any other field holds a
scalar or a pointer. -/
def storedLayout : TypeRef → Option LayoutNode
  | .recordType id =>
      match records[id]? with
      | some (.inlineFields _) | some (.valueFields _) => some (.record id)
      | _ => none
  | .unionType id =>
      match unions[id]? with
      | some (.plainCases _) | some (.owningCases _) => some (.union id)
      | _ => none
  | _ => none

def layoutFields : LayoutNode → List TypeRef
  | .record id =>
      match records[id]? with
      | some layout => layout.recordFields
      | none => []
  | .union id =>
      match unions[id]? with
      | some layout => layout.unionVariants.flatten
      | none => []

/-- A value of the inner layout is stored by value inside the outer one. -/
def StoredIn (inner outer : LayoutNode) : Prop :=
  ∃ field ∈ layoutFields records unions outer, storedLayout records unions field = some inner

def InCatalogue : LayoutNode → Prop
  | .record id => id < records.length
  | .union id => id < unions.length

mutual

def RefersWithin : TypeRef → Prop
  | .recordType id => id < records.length
  | .unionType id => id < unions.length
  | .listType element => RefersWithin element
  | .callableType parameters result => ReferAllWithin parameters ∧ RefersWithin result
  | .voidType | .intType | .floatType | .stringType => True

def ReferAllWithin : List TypeRef → Prop
  | [] => True
  | type :: rest => RefersWithin type ∧ ReferAllWithin rest

end

def ReferencesWithin : Prop :=
  ∀ node, ∀ field ∈ layoutFields records unions node, RefersWithin records unions field

/-- A value of the type may lie in an inline record: it has no managed part. -/
def LiesInline : TypeRef → Prop
  | .intType | .floatType => True
  | .unionType id => ∃ variants, unions[id]? = some (.plainCases variants)
  | .recordType id => ∃ fields, records[id]? = some (.inlineFields fields)
  | _ => False

def SummaryFits (id : RecordInstanceId) : Prop :=
  ∀ fields, records[id]? = some (.inlineFields fields) →
    ∀ field ∈ fields, LiesInline records unions field

/-! ## Sizes -/

/-- The cells of a field: those of the value it holds in place, or one. -/
def fieldCells (cells : LayoutNode → Nat) (field : TypeRef) : Nat :=
  match storedLayout records unions field with
  | some node => cells node
  | none => 1

/-- The cells of a layout: a record's fields after each other, a union's variants over each
other under a tag. -/
def layoutCells (cells : LayoutNode → Nat) : LayoutNode → Nat
  | .record id => ((layoutFields records unions (.record id)).map
      (fieldCells records unions cells)).sum
  | .union id =>
      match unions[id]? with
      | some layout => 1 + (layout.unionVariants.map fun fields =>
          (fields.map (fieldCells records unions cells)).sum).foldr max 0
      | none => 0

theorem layoutCells_congr (first second : LayoutNode → Nat) (node : LayoutNode)
    (h : ∀ inner, StoredIn records unions inner node → first inner = second inner) :
    layoutCells records unions first node = layoutCells records unions second node := by
  have hfields : ∀ field ∈ layoutFields records unions node,
      fieldCells records unions first field = fieldCells records unions second field := by
    intro field hfield
    unfold fieldCells
    cases hstored : storedLayout records unions field with
    | none => rfl
    | some inner => exact h inner ⟨field, hfield, hstored⟩
  cases node with simp only [layoutCells]
  | record id => rw [List.map_congr_left hfields]
  | union id =>
    simp only [layoutFields] at hfields
    cases hget : unions[id]? with
    | none => rfl
    | some layout =>
      rw [hget] at hfields
      have hvariants : ∀ fields ∈ layout.unionVariants,
          (fields.map (fieldCells records unions first)).sum =
            (fields.map (fieldCells records unions second)).sum := by
        intro fields hmem
        rw [List.map_congr_left fun field hfield =>
          hfields field (List.mem_flatten.mpr ⟨fields, hmem, hfield⟩)]
      simp only
      rw [List.map_congr_left hvariants]

end

/-! ## Types whose layouts exist -/

section

variable {records : List ConcreteRecord} {unions : List ConcreteUnion}

mutual

theorem verifyTypeMembership_within (span : Check.Span) : ∀ {type : TypeRef},
    RefersWithin records unions type → verifyTypeMembership unions records span type = .ok ()
  | .voidType, _ | .intType, _ | .floatType, _ | .stringType, _ => rfl
  | .listType element, h => by
      rw [verifyTypeMembership]
      exact verifyTypeMembership_within span h
  | .callableType parameters result, h => by
      rw [verifyTypeMembership, verifyTypesMembership_within span h.1]
      exact verifyTypeMembership_within span h.2
  | .recordType id, h => by
      have hlt : id < records.length := h
      simp only [verifyTypeMembership, TypeRef.valueNeedsOwnership, List.getElem?_eq_getElem hlt]
      cases records[id] <;> rfl
  | .unionType id, h => by
      have hlt : id < unions.length := h
      simp only [verifyTypeMembership, TypeRef.valueNeedsOwnership, List.getElem?_eq_getElem hlt]
      cases unions[id] <;> rfl

theorem verifyTypesMembership_within (span : Check.Span) : ∀ {types : List TypeRef},
    ReferAllWithin records unions types → verifyTypesMembership unions records span types = .ok ()
  | [], _ => rfl
  | type :: rest, h => by
      rw [verifyTypesMembership, verifyTypeMembership_within span h.1]
      exact verifyTypesMembership_within span h.2

end

theorem listTerminal_within : ∀ {type : TypeRef}, RefersWithin records unions type →
    RefersWithin records unions (listTerminal type)
  | .listType element, h => by
      rw [listTerminal]
      exact listTerminal_within (show RefersWithin records unions element from h)
  | .voidType, h | .intType, h | .floatType, h | .stringType, h | .callableType _ _, h
  | .recordType _, h | .unionType _, h => by simpa [listTerminal] using h

theorem listTerminalPresence_within {element : TypeRef} (h : RefersWithin records unions element) :
    listTerminalPresence element records unions = .ok () := by
  have hterminal := listTerminal_within h
  unfold listTerminalPresence
  split
  · next parameters result heq =>
    rw [heq] at hterminal
    exact verifyTypeMembership_within _ hterminal
  · next id heq =>
    rw [heq] at hterminal
    rw [List.getElem?_eq_getElem (show id < records.length from hterminal)]
  · next id heq =>
    rw [heq] at hterminal
    rw [List.getElem?_eq_getElem (show id < unions.length from hterminal)]
  · rfl

theorem inlineField_within {field : TypeRef} (h : RefersWithin records unions field)
    (inlined : Bool) :
    ∃ result, inlineField records unions inlined field = .ok result ∧
      (result = true ↔ inlined = true ∧ LiesInline records unions field) := by
  cases field with
  | intType | floatType => exact ⟨inlined, rfl, by simp [LiesInline]⟩
  | recordType id =>
    have hlt : id < records.length := h
    simp only [inlineField, LiesInline, List.getElem?_eq_getElem hlt]
    cases records[id] with
    | inlineFields fields => exact ⟨inlined, rfl, by simp⟩
    | valueFields fields | countedFields fields => exact ⟨false, rfl, by simp⟩
  | unionType id =>
    have hlt : id < unions.length := h
    simp only [inlineField, LiesInline, List.getElem?_eq_getElem hlt]
    cases unions[id] with
    | plainCases variants => exact ⟨inlined, rfl, by simp⟩
    | owningCases variants | boxedCases variants => exact ⟨false, rfl, by simp⟩
  | _ => exact ⟨false, rfl, by simp [LiesInline]⟩

theorem inlineFields_within : ∀ {fields : List TypeRef},
    (∀ field ∈ fields, RefersWithin records unions field) → ∀ inlined : Bool,
    ∃ result, fields.foldlM (inlineField records unions) inlined = .ok result ∧
      (result = true ↔ inlined = true ∧ ∀ field ∈ fields, LiesInline records unions field) := by
  intro fields
  induction fields with
  | nil => exact fun _ inlined => ⟨inlined, rfl, by simp⟩
  | cons field rest ih =>
    intro h inlined
    obtain ⟨hfirst, hrest⟩ := List.forall_mem_cons.mp h
    obtain ⟨between, hbetween, hiff⟩ := inlineField_within hfirst inlined
    obtain ⟨result, hresult, hiff'⟩ := ih hrest between
    refine ⟨result, ?_, ?_⟩
    · rw [List.foldlM_cons, hbetween]
      exact hresult
    · rw [hiff', hiff, List.forall_mem_cons, and_assoc]

end

/-! ## The walk as a depth-first search -/

def LayoutVisit.mark : LayoutVisit → Mark
  | .unvisitedLayout => .unvisited
  | .visitingLayout => .visiting
  | .completeLayout => .complete

def LayoutWalk.mark (walk : LayoutWalk) : LayoutNode → Mark
  | .record id =>
      match walk.recordVisits[id]? with
      | some visit => visit.mark
      | none => .unvisited
  | .union id =>
      match walk.unionVisits[id]? with
      | some visit => visit.mark
      | none => .unvisited

section

variable (records : List ConcreteRecord) (unions : List ConcreteUnion)

def LayoutVisitStep.item : LayoutVisitStep → Option (Item LayoutNode)
  | .visitRecordLayout index => some (.enter (.record index))
  | .visitUnionLayout index => some (.enter (.union index))
  | .visitStoredType type => (storedLayout records unions type).map .enter
  | .finishRecordLayout index => some (.leave (.record index))
  | .finishUnionLayout index => some (.leave (.union index))

/-- What the step names exists. -/
def LayoutVisitStep.Within : LayoutVisitStep → Prop
  | .visitRecordLayout index | .finishRecordLayout index => index < records.length
  | .visitUnionLayout index | .finishUnionLayout index => index < unions.length
  | .visitStoredType type => RefersWithin records unions type

/-- What the walk knows between two steps. -/
structure WalkSound (walk : LayoutWalk) (path : List LayoutNode) : Prop where
  records_length : walk.recordVisits.length = records.length
  unions_length : walk.unionVisits.length = unions.length
  within : ∀ step ∈ walk.pending, step.Within records unions
  sound : Sound (StoredIn records unions) (InCatalogue records unions) walk.mark
    (walk.pending.filterMap (LayoutVisitStep.item records unions)) path
  fits : ∀ id, walk.mark (.record id) = .complete → SummaryFits records unions id

/-- The steps left: those pending, and those that unvisited layouts will push. -/
def stepWeight : LayoutVisitStep → Nat
  | .visitStoredType _ => 2
  | _ => 1

def layoutNodes : List LayoutNode :=
  (List.range records.length).map .record ++ (List.range unions.length).map .union

def unvisitedWeight (mark : LayoutNode → Mark) (node : LayoutNode) : Nat :=
  if mark node = .unvisited then 2 * (layoutFields records unions node).length + 1 else 0

def walkWeight (walk : LayoutWalk) : Nat :=
  ((layoutNodes records unions).map (unvisitedWeight records unions walk.mark)).sum +
    (walk.pending.map stepWeight).sum

end

section

variable {records : List ConcreteRecord} {unions : List ConcreteUnion}

theorem mem_layoutNodes {node : LayoutNode} :
    node ∈ layoutNodes records unions ↔ InCatalogue records unions node := by
  unfold layoutNodes
  cases node with
  | record id => simp [InCatalogue]
  | union id => simp [InCatalogue]

theorem mark_setRecord {walk : LayoutWalk} {index : Nat} (hlt : index < walk.recordVisits.length)
    (visit : LayoutVisit) (pending : List LayoutVisitStep) :
    LayoutWalk.mark ⟨walk.recordVisits.set index visit, walk.unionVisits, pending⟩ =
      Function.update walk.mark (.record index) visit.mark := by
  funext node
  cases node with
  | record id =>
    by_cases heq : id = index
    · subst heq
      simp [LayoutWalk.mark, hlt]
    · rw [Function.update_of_ne (by simpa using heq)]
      simp [LayoutWalk.mark, Ne.symm heq]
  | union id => rfl

theorem mark_setUnion {walk : LayoutWalk} {index : Nat} (hlt : index < walk.unionVisits.length)
    (visit : LayoutVisit) (pending : List LayoutVisitStep) :
    LayoutWalk.mark ⟨walk.recordVisits, walk.unionVisits.set index visit, pending⟩ =
      Function.update walk.mark (.union index) visit.mark := by
  funext node
  cases node with
  | record id => rfl
  | union id =>
    by_cases heq : id = index
    · subst heq
      simp [LayoutWalk.mark, hlt]
    · rw [Function.update_of_ne (by simpa using heq)]
      simp [LayoutWalk.mark, Ne.symm heq]

theorem sum_map_drop {α : Type} {first second : α → Nat} {x : α} {less : Nat} :
    ∀ {xs : List α}, (∀ y ∈ xs, first y ≤ second y) → x ∈ xs → first x + less ≤ second x →
      (xs.map first).sum + less ≤ (xs.map second).sum := by
  intro xs
  induction xs with
  | nil => intro _ hx; cases hx
  | cons y rest ih =>
    intro h hx hless
    obtain ⟨hy, hrest⟩ := List.forall_mem_cons.mp h
    have hle := List.sum_le_sum hrest
    simp only [List.map_cons, List.sum_cons]
    rcases List.mem_cons.mp hx with rfl | hmem
    · omega
    · have := ih hrest hmem hless
      omega

theorem unvisited_drop {mark : LayoutNode → Mark} {node : LayoutNode}
    (hnode : InCatalogue records unions node) (hmark : mark node = .unvisited) :
    ((layoutNodes records unions).map (unvisitedWeight records unions
        (Function.update mark node .visiting))).sum +
        (2 * (layoutFields records unions node).length + 1) ≤
      ((layoutNodes records unions).map (unvisitedWeight records unions mark)).sum := by
  refine sum_map_drop (x := node) (fun other _ => ?_) (mem_layoutNodes.mpr hnode) ?_
  · unfold unvisitedWeight
    by_cases heq : other = node
    · subst heq
      simp
    · rw [Function.update_of_ne heq]
  · simp [unvisitedWeight, hmark]

variable (records unions) in
theorem unvisited_keep (mark : LayoutNode → Mark) (node : LayoutNode) :
    ((layoutNodes records unions).map (unvisitedWeight records unions
        (Function.update mark node .complete))).sum ≤
      ((layoutNodes records unions).map (unvisitedWeight records unions mark)).sum := by
  refine List.sum_le_sum fun other _ => ?_
  unfold unvisitedWeight
  by_cases heq : other = node
  · subst heq
    simp
  · rw [Function.update_of_ne heq]

/-! ## One step -/

theorem storedIn_iff {inner outer : LayoutNode} : StoredIn records unions inner outer ↔
    inner ∈ (layoutFields records unions outer).filterMap (storedLayout records unions) := by
  rw [List.mem_filterMap]
  rfl

theorem items_of_fields (fields : List TypeRef) (last : LayoutVisitStep)
    (pending : List LayoutVisitStep) {node : LayoutNode}
    (hlast : last.item records unions = some (.leave node)) :
    (fields.map LayoutVisitStep.visitStoredType ++ last :: pending).filterMap
        (LayoutVisitStep.item records unions) =
      (fields.filterMap (storedLayout records unions)).map .enter ++
        .leave node :: pending.filterMap (LayoutVisitStep.item records unions) := by
  rw [List.filterMap_append, List.filterMap_map, List.filterMap_cons, hlast, List.map_filterMap]
  rfl

theorem sum_weights_fields (fields : List TypeRef) (pending : List LayoutVisitStep) :
    ((fields.map LayoutVisitStep.visitStoredType ++ pending).map stepWeight).sum =
      2 * fields.length + (pending.map stepWeight).sum := by
  induction fields with
  | nil => simp
  | cons field rest ih =>
    simp only [List.map_cons, List.cons_append, List.sum_cons, List.length_cons, ih, stepWeight]
    omega

variable {walk : LayoutWalk} {path : List LayoutNode} {pending : List LayoutVisitStep}

theorem mark_pending (first second : List LayoutVisitStep) :
    LayoutWalk.mark { walk with pending := first } =
      LayoutWalk.mark { walk with pending := second } := by
  funext node
  cases node <;> rfl

/-- What a step of the walk does: it goes on soundly with less to do, or it has found a layout
inside itself or a record whose summary does not fit. -/
def StepSound (records : List ConcreteRecord) (unions : List ConcreteUnion) (weight : Nat)
    (result : Except Diagnostic LayoutWalk) : Prop :=
  match result with
  | .ok next => (∃ path, WalkSound records unions next path) ∧ walkWeight records unions next < weight
  | .error _ => (∃ node, Relation.TransGen (StoredIn records unions) node node) ∨
      ∃ id, ¬ SummaryFits records unions id

theorem storedType_sound {type : TypeRef}
    (h : WalkSound records unions { walk with pending := .visitStoredType type :: pending } path) :
    StepSound records unions
      (walkWeight records unions { walk with pending := .visitStoredType type :: pending })
      (visitStoredType records unions { walk with pending := pending } type) := by
  have htype : RefersWithin records unions type := h.within _ List.mem_cons_self
  have hrest : ∀ step ∈ pending, step.Within records unions :=
    fun step hstep => h.within step (List.mem_cons_of_mem _ hstep)
  have hsound := h.sound
  rw [List.filterMap_cons] at hsound
  -- A field that holds no layout in place is done; another waits as the visit of its layout.
  have hdone : storedLayout records unions type = none →
      StepSound records unions
        (walkWeight records unions { walk with pending := .visitStoredType type :: pending })
        (.ok { walk with pending := pending }) := by
    intro hnone
    rw [show LayoutVisitStep.item records unions (.visitStoredType type) = none by
      simp [LayoutVisitStep.item, hnone]] at hsound
    refine ⟨⟨path, h.records_length, h.unions_length, hrest, hsound, h.fits⟩, ?_⟩
    simp only [walkWeight, List.map_cons, List.sum_cons, stepWeight]
    rw [mark_pending pending (.visitStoredType type :: pending)]
    omega
  have hvisit : ∀ (node : LayoutNode) (step : LayoutVisitStep),
      storedLayout records unions type = some node →
      step.item records unions = some (.enter node) → step.Within records unions →
      stepWeight step = 1 → StepSound records unions
        (walkWeight records unions { walk with pending := .visitStoredType type :: pending })
        (.ok { walk with pending := step :: pending }) := by
    intro node step hstored hitem hwithin hweight
    rw [show LayoutVisitStep.item records unions (.visitStoredType type) = some (.enter node) by
      simp [LayoutVisitStep.item, hstored]] at hsound
    refine ⟨⟨path, h.records_length, h.unions_length, List.forall_mem_cons.mpr ⟨hwithin, hrest⟩,
      ?_, h.fits⟩, ?_⟩
    · rw [List.filterMap_cons, hitem]
      exact hsound
    · have hpopped : stepWeight (.visitStoredType type) = 2 := rfl
      simp only [walkWeight, List.map_cons, List.sum_cons, hweight, hpopped]
      rw [mark_pending (step :: pending) (.visitStoredType type :: pending)]
      omega
  cases type with
  | voidType | intType | floatType | stringType => exact hdone rfl
  | listType element =>
    have helement : RefersWithin records unions element := htype
    rw [visitStoredType, listTerminalPresence_within helement]
    exact hdone rfl
  | callableType parameters result =>
    rw [visitStoredType, verifyTypeMembership_within _ htype]
    exact hdone rfl
  | recordType id =>
    have hlt : id < records.length := htype
    rw [visitStoredType, List.getElem?_eq_getElem hlt]
    cases hlayout : records[id] with
    | inlineFields fields | valueFields fields =>
      exact hvisit (.record id) _ (by simp [storedLayout, hlt, hlayout]) rfl hlt rfl
    | countedFields fields => exact hdone (by simp [storedLayout, hlt, hlayout])
  | unionType id =>
    have hlt : id < unions.length := htype
    rw [visitStoredType, List.getElem?_eq_getElem hlt]
    cases hlayout : unions[id] with
    | plainCases variants | owningCases variants =>
      exact hvisit (.union id) _ (by simp [storedLayout, hlt, hlayout]) rfl hlt rfl
    | boxedCases variants => exact hdone (by simp [storedLayout, hlt, hlayout])

section

variable {node : LayoutNode} {step : LayoutVisitStep}
  (h : WalkSound records unions { walk with pending := step :: pending } path)
  (hitem : step.item records unions = some (.enter node)) (hweight : stepWeight step = 1)

include h hitem

theorem enter_cycle (hmark : walk.mark node = .visiting) (error : Diagnostic) (weight : Nat) :
    StepSound records unions weight (.error error) := by
  have hsound := h.sound
  rw [List.filterMap_cons, hitem] at hsound
  exact .inl ⟨node, hsound.cycle ((congrFun (mark_pending _ walk.pending) node).trans hmark)⟩

include hweight

theorem enter_complete (hmark : walk.mark node = .complete) :
    StepSound records unions (walkWeight records unions { walk with pending := step :: pending })
      (.ok { walk with pending := pending }) := by
  have hsound := h.sound
  rw [List.filterMap_cons, hitem] at hsound
  refine ⟨⟨path, h.records_length, h.unions_length,
    fun other hother => h.within other (List.mem_cons_of_mem _ hother),
    hsound.skip ((congrFun (mark_pending _ walk.pending) node).trans hmark), h.fits⟩, ?_⟩
  simp only [walkWeight, List.map_cons, List.sum_cons, hweight]
  rw [mark_pending pending (step :: pending)]
  omega

/-- The walk that visits the layout: its fields are pending, above the step that finishes it. -/
theorem enter_unvisited (hrefs : ReferencesWithin records unions)
    (hmark : walk.mark node = .unvisited) (hnode : InCatalogue records unions node)
    {next : LayoutWalk} (last : LayoutVisitStep)
    (hrecords : next.recordVisits.length = walk.recordVisits.length)
    (hunions : next.unionVisits.length = walk.unionVisits.length)
    (hmarks : next.mark = Function.update walk.mark node .visiting)
    (hnext : next.pending = (layoutFields records unions node).map .visitStoredType ++
      last :: pending)
    (hlast : last.item records unions = some (.leave node)) (hwithin : last.Within records unions)
    (hlastWeight : stepWeight last = 1) :
    StepSound records unions (walkWeight records unions { walk with pending := step :: pending })
      (.ok next) := by
  have hsound := h.sound
  rw [List.filterMap_cons, hitem] at hsound
  have hsame : LayoutWalk.mark { walk with pending := step :: pending } = walk.mark :=
    mark_pending _ walk.pending
  have hmark' := (congrFun hsame node).trans hmark
  have hentered := hsound.enter hmark' (fun _ => storedIn_iff)
  refine ⟨⟨node :: path, hrecords.trans h.records_length, hunions.trans h.unions_length, ?_, ?_,
    fun id hid => h.fits id ?_⟩, ?_⟩
  · rw [hnext]
    intro other hother
    rcases List.mem_append.mp hother with hfield | hrest
    · obtain ⟨field, hmem, rfl⟩ := List.mem_map.mp hfield
      exact hrefs node field hmem
    · rcases List.mem_cons.mp hrest with rfl | hmem
      · exact hwithin
      · exact h.within other (List.mem_cons_of_mem _ hmem)
  · rw [hmarks, hnext, items_of_fields _ _ _ hlast, ← hsame]
    exact hentered
  · rw [hmarks] at hid
    by_cases heq : LayoutNode.record id = node
    · rw [heq, Function.update_self] at hid
      cases hid
    · rwa [Function.update_of_ne heq] at hid
  · have hdrop := unvisited_drop hnode hmark
    simp only [walkWeight, hmarks, hnext, hsame, sum_weights_fields, List.map_cons, List.sum_cons,
      hlastWeight, hweight]
    omega

end

theorem leave_sound {node : LayoutNode} {step : LayoutVisitStep}
    (h : WalkSound records unions { walk with pending := step :: pending } path)
    (hitem : step.item records unions = some (.leave node)) (hweight : stepWeight step = 1)
    {next : LayoutWalk} (hrecords : next.recordVisits.length = walk.recordVisits.length)
    (hunions : next.unionVisits.length = walk.unionVisits.length)
    (hmarks : next.mark = Function.update walk.mark node .complete)
    (hnext : next.pending = pending)
    (hfits : ∀ id, node = .record id → SummaryFits records unions id) :
    StepSound records unions (walkWeight records unions { walk with pending := step :: pending })
      (.ok next) := by
  have hsound := h.sound
  rw [List.filterMap_cons, hitem] at hsound
  have hsame : LayoutWalk.mark { walk with pending := step :: pending } = walk.mark :=
    mark_pending _ walk.pending
  refine ⟨⟨path.tail, hrecords.trans h.records_length, hunions.trans h.unions_length, ?_, ?_,
    fun id hid => ?_⟩, ?_⟩
  · rw [hnext]
    exact fun other hother => h.within other (List.mem_cons_of_mem _ hother)
  · rw [hmarks, hnext, ← hsame]
    exact hsound.leave
  · by_cases heq : node = .record id
    · exact hfits id heq
    · rw [hmarks, Function.update_of_ne (Ne.symm heq)] at hid
      exact h.fits id (hsame ▸ hid)
  · have hkeep := unvisited_keep records unions walk.mark node
    simp only [walkWeight, hmarks, hnext, hsame, List.map_cons, List.sum_cons, hweight]
    omega

/-- **One step.**  Where references exist each step goes on soundly, or has found what makes
the catalogues unacceptable. -/
theorem visitLayoutStep_sound (hrefs : ReferencesWithin records unions) {step : LayoutVisitStep}
    (h : WalkSound records unions { walk with pending := step :: pending } path) :
    StepSound records unions (walkWeight records unions { walk with pending := step :: pending })
      (visitLayoutStep records unions { walk with pending := pending } step) := by
  have hwithin := h.within step List.mem_cons_self
  cases step with
  | visitStoredType type => exact storedType_sound h
  | visitRecordLayout index =>
    have hlt : index < records.length := hwithin
    have hvisits : index < walk.recordVisits.length := h.records_length ▸ hlt
    rw [visitLayoutStep, List.getElem?_eq_getElem hvisits]
    have hmark : walk.mark (.record index) = walk.recordVisits[index].mark := by
      simp [LayoutWalk.mark, hvisits]
    cases hvisit : walk.recordVisits[index] with
    | completeLayout => exact enter_complete h rfl rfl (by rw [hmark, hvisit]; rfl)
    | visitingLayout => exact enter_cycle h rfl (by rw [hmark, hvisit]; rfl) _ _
    | unvisitedLayout =>
      simp only [List.getElem?_eq_getElem hlt]
      refine enter_unvisited h rfl rfl hrefs (by rw [hmark, hvisit]; rfl) hlt
        (.finishRecordLayout index) List.length_set rfl (mark_setRecord hvisits _ _) ?_ rfl
        hlt rfl
      simp [layoutFields, hlt]
  | visitUnionLayout index =>
    have hlt : index < unions.length := hwithin
    have hvisits : index < walk.unionVisits.length := h.unions_length ▸ hlt
    rw [visitLayoutStep, List.getElem?_eq_getElem hvisits]
    have hmark : walk.mark (.union index) = walk.unionVisits[index].mark := by
      simp [LayoutWalk.mark, hvisits]
    cases hvisit : walk.unionVisits[index] with
    | completeLayout => exact enter_complete h rfl rfl (by rw [hmark, hvisit]; rfl)
    | visitingLayout => exact enter_cycle h rfl (by rw [hmark, hvisit]; rfl) _ _
    | unvisitedLayout =>
      simp only [List.getElem?_eq_getElem hlt]
      refine enter_unvisited h rfl rfl hrefs (by rw [hmark, hvisit]; rfl) hlt
        (.finishUnionLayout index) rfl List.length_set (mark_setUnion hvisits _ _) ?_ rfl
        hlt rfl
      simp [layoutFields, hlt]
  | finishUnionLayout index =>
    have hvisits : index < walk.unionVisits.length := h.unions_length ▸ hwithin
    exact leave_sound h rfl rfl rfl List.length_set (mark_setUnion hvisits _ _) rfl
      (fun _ heq => by cases heq)
  | finishRecordLayout index =>
    have hlt : index < records.length := hwithin
    have hvisits : index < walk.recordVisits.length := h.records_length ▸ hlt
    have hfields : ∀ field ∈ records[index].recordFields, RefersWithin records unions field :=
      fun field hfield => hrefs (.record index) field (by simpa [layoutFields, hlt] using hfield)
    obtain ⟨inlined, hinlined, hiff⟩ := inlineFields_within hfields true
    rw [visitLayoutStep, List.getElem?_eq_getElem hlt]
    simp only [hinlined, bind, Except.bind]
    have hleave : SummaryFits records unions index → StepSound records unions
        (walkWeight records unions { walk with pending := .finishRecordLayout index :: pending })
        (.ok ⟨walk.recordVisits.set index .completeLayout, walk.unionVisits, pending⟩) :=
      fun hfits => leave_sound h rfl rfl List.length_set rfl (mark_setRecord hvisits _ _) rfl
        (fun id heq => by cases heq; exact hfits)
    have hplain : ∀ fields, records[index]? = some (.valueFields fields) ∨
        records[index]? = some (.countedFields fields) → SummaryFits records unions index := by
      intro fields hlayout inlineFields hinline
      rcases hlayout with hvalue | hcounted
      · rw [hvalue] at hinline
        cases hinline
      · rw [hcounted] at hinline
        cases hinline
    cases hlayout : records[index] with
    | valueFields fields => exact hleave (hplain fields (.inl (by simp [hlt, hlayout])))
    | countedFields fields => exact hleave (hplain fields (.inr (by simp [hlt, hlayout])))
    | inlineFields fields =>
      have hget : records[index]? = some (.inlineFields fields) := by simp [hlt, hlayout]
      rw [hlayout] at hiff
      by_cases hall : inlined = true
      · simp only [hall, ↓reduceIte]
        refine hleave fun fields' hfields' => ?_
        obtain rfl : fields = fields' := by simpa [hget] using hfields'
        exact (hiff.mp hall).2
      · simp only [hall, Bool.false_eq_true, ↓reduceIte]
        exact .inr ⟨index, fun hfits => hall (hiff.mpr ⟨rfl, hfits fields hget⟩)⟩

/-! ## The whole walk -/

/-- No layout is stored inside itself, and every record's summary fits. -/
def Storable (records : List ConcreteRecord) (unions : List ConcreteUnion) : Prop :=
  (¬ ∃ node, Relation.TransGen (StoredIn records unions) node node) ∧
    ∀ id, SummaryFits records unions id

theorem inCatalogue_of_storedIn {inner outer : LayoutNode} (h : StoredIn records unions inner outer) :
    InCatalogue records unions outer := by
  obtain ⟨field, hfield, -⟩ := h
  cases outer with
  | record id | union id =>
    by_contra hout
    rw [layoutFields, List.getElem?_eq_none (Nat.le_of_not_lt hout)] at hfield
    cases hfield

theorem storable_of_complete (h : WalkSound records unions walk path)
    (hpending : walk.pending = []) :
    WellFounded (StoredIn records unions) ∧ ∀ id, SummaryFits records unions id := by
  have hsound := h.sound
  rw [hpending] at hsound
  have hcomplete := hsound.roots_complete
  refine ⟨⟨fun node => Acc.intro node fun inner hinner => ?_⟩, fun id => ?_⟩
  · exact (hsound.accessible node (hcomplete node (inCatalogue_of_storedIn hinner))).inv hinner
  · by_cases hlt : id < records.length
    · exact h.fits id (hcomplete (.record id) hlt)
    · intro fields hfields
      rw [List.getElem?_eq_none (Nat.le_of_not_lt hlt)] at hfields
      cases hfields

theorem not_cycle_of_wellFounded (h : WellFounded (StoredIn records unions)) :
    ¬ ∃ node, Relation.TransGen (StoredIn records unions) node node := by
  rintro ⟨node, hcycle⟩
  exact h.transGen.irrefl.irrefl node hcycle

/-- The walk ends: with nothing left to do, or with what makes the catalogues unacceptable. -/
theorem walkLayouts_settles (hrefs : ReferencesWithin records unions) :
    ∀ (weight : Nat) (walk : LayoutWalk) (path : List LayoutNode),
      WalkSound records unions walk path → walkWeight records unions walk < weight →
      ∃ outcome, Outcome.Settles (fun n => walkLayouts records unions n walk) outcome ∧
        ((outcome = .ok () ∧ WellFounded (StoredIn records unions) ∧
            ∀ id, SummaryFits records unions id) ∨
          (∃ error, outcome = .err error) ∧ ¬ Storable records unions) := by
  intro weight
  induction weight with
  | zero => exact fun _ _ _ hlt => absurd hlt (Nat.not_lt_zero _)
  | succ weight ih =>
    intro walk path h hlt
    cases hpending : walk.pending with
    | nil =>
      obtain ⟨hwell, hfits⟩ := storable_of_complete h hpending
      refine ⟨.ok (), ?_, .inl ⟨rfl, hwell, hfits⟩⟩
      refine Outcome.Settles.succ (g := fun _ => .ok ()) (fun n => ?_)
        Outcome.Settles.ok
      rw [walkLayouts, hpending]
    | cons step pending =>
      have hwalk : walk = { walk with pending := step :: pending } := by rw [← hpending]
      rw [hwalk] at h hlt
      have hstep := visitLayoutStep_sound hrefs h
      have hturn : ∀ n, walkLayouts records unions (n + 1) walk =
          (liftM (visitLayoutStep records unions { walk with pending := pending } step) >>=
            walkLayouts records unions n) := by
        intro n
        rw [walkLayouts, hpending]
      cases hresult : visitLayoutStep records unions { walk with pending := pending } step with
      | error error =>
        rw [hresult] at hstep hturn
        refine ⟨.err error, Outcome.Settles.succ (g := fun _ => .err error) hturn
          Outcome.Settles.err, .inr ⟨⟨error, rfl⟩, fun hstorable => ?_⟩⟩
        rcases hstep with hcycle | ⟨id, hunfit⟩
        · exact hstorable.1 hcycle
        · exact hunfit (hstorable.2 id)
      | ok next =>
        rw [hresult] at hstep hturn
        obtain ⟨⟨path, hnext⟩, hless⟩ := hstep
        obtain ⟨outcome, hrun, hspec⟩ := ih next path hnext (by omega)
        exact ⟨outcome, Outcome.Settles.succ hturn hrun, hspec⟩

end

section

variable (records : List ConcreteRecord) (unions : List ConcreteUnion)

theorem walkSound_start : WalkSound records unions
    { recordVisits := records.map fun _ => .unvisitedLayout
      unionVisits := unions.map fun _ => .unvisitedLayout
      pending := (List.range records.length).map .visitRecordLayout ++
        (List.range unions.length).map .visitUnionLayout } [] := by
  have hmark : LayoutWalk.mark ⟨records.map fun _ => .unvisitedLayout,
      unions.map fun _ => .unvisitedLayout, (List.range records.length).map .visitRecordLayout ++
        (List.range unions.length).map .visitUnionLayout⟩ = fun _ => .unvisited := by
    funext node
    cases node with simp only [LayoutWalk.mark, List.getElem?_map]
    | record id => cases records[id]? <;> rfl
    | union id => cases unions[id]? <;> rfl
  have hitems : ((List.range records.length).map LayoutVisitStep.visitRecordLayout ++
      (List.range unions.length).map LayoutVisitStep.visitUnionLayout).filterMap
        (LayoutVisitStep.item records unions) = (layoutNodes records unions).map .enter := by
    unfold layoutNodes
    rw [List.filterMap_append, List.filterMap_map, List.filterMap_map, List.map_append,
      List.map_map, List.map_map, ← List.filterMap_eq_map, ← List.filterMap_eq_map]
    rfl
  refine ⟨by simp, by simp, ?_, ?_, fun id hid => ?_⟩
  · intro step hstep
    rcases List.mem_append.mp hstep with hrecord | hunion
    · obtain ⟨index, hindex, rfl⟩ := List.mem_map.mp hrecord
      exact List.mem_range.mp hindex
    · obtain ⟨index, hindex, rfl⟩ := List.mem_map.mp hunion
      exact List.mem_range.mp hindex
  · rw [hmark, hitems]
    exact sound_start fun node hnode => mem_layoutNodes.mpr hnode
  · rw [hmark] at hid
    cases hid

theorem verifyLayoutGraph_settles (hrefs : ReferencesWithin records unions) :
    ∃ outcome, Outcome.Settles (fun n => verifyLayoutGraph n records unions) outcome ∧
      ((outcome = .ok () ∧ WellFounded (StoredIn records unions) ∧
          ∀ id, SummaryFits records unions id) ∨
        (∃ error, outcome = .err error) ∧ ¬ Storable records unions) :=
  walkLayouts_settles hrefs _ _ [] (walkSound_start records unions) (Nat.lt_succ_self _)

/-- **Layouts are accepted exactly when they can be stored.**  Where references exist the walk
ends, and accepts the catalogues if and only if no layout is stored by value inside itself and
the fields of inline records may lie inline.  The layouts it accepts have sizes: exactly one
way to count cells adds up. -/
theorem verifyLayoutGraph_accepts_iff (hrefs : ReferencesWithin records unions) :
    ∃ outcome, Outcome.Settles (fun n => verifyLayoutGraph n records unions) outcome ∧
      (outcome = .ok () ↔
        (¬ ∃ node, Relation.TransGen (StoredIn records unions) node node) ∧
          ∀ id, SummaryFits records unions id) ∧
      (outcome = .ok () → ∃! cells : LayoutNode → Nat,
        ∀ node, cells node = layoutCells records unions cells node) := by
  obtain ⟨outcome, hrun, hspec⟩ := verifyLayoutGraph_settles records unions hrefs
  refine ⟨outcome, hrun, ?_⟩
  rcases hspec with ⟨rfl, hwell, hfits⟩ | ⟨⟨error, rfl⟩, hnot⟩
  · exact ⟨⟨fun _ => ⟨not_cycle_of_wellFounded hwell, hfits⟩, fun _ => rfl⟩,
      fun _ => exists_unique_values hwell (layoutCells records unions)
        (layoutCells_congr records unions)⟩
  · exact ⟨⟨by simp, fun hstorable => absurd hstorable hnot⟩, by simp⟩

end

/-- A record of two unions, each a scalar or nothing. -/
def pairRecords : List ConcreteRecord := [.inlineFields [.unionType 0, .unionType 0]]

def pairUnions : List ConcreteUnion := [.plainCases [[.intType], []]]

theorem pairReferences : ReferencesWithin pairRecords pairUnions := by
  have hall : ∀ type ∈ [TypeRef.unionType 0, TypeRef.unionType 0, TypeRef.intType],
      RefersWithin pairRecords pairUnions type := by
    simp [RefersWithin, pairRecords, pairUnions]
  intro node field hfield
  rcases node with (_ | id) | (_ | id)
  · exact hall field (List.mem_append_left [TypeRef.intType] hfield)
  · cases hfield
  · exact hall field (List.mem_append_right [TypeRef.unionType 0, TypeRef.unionType 0] hfield)
  · cases hfield

theorem pair_accepted :
    Outcome.Settles (fun n => verifyLayoutGraph n pairRecords pairUnions) (.ok ()) :=
  .closed 12 (by simp) fun _ => rfl

theorem verifyLayoutGraph_accepts_iff_pair :
    Outcome.Settles (fun n => verifyLayoutGraph n pairRecords pairUnions) (.ok ()) ∧
      (¬ ∃ node, Relation.TransGen (StoredIn pairRecords pairUnions) node node) ∧
      (∀ id, SummaryFits pairRecords pairUnions id) ∧
      ∃! cells : LayoutNode → Nat,
        ∀ node, cells node = layoutCells pairRecords pairUnions cells node := by
  obtain ⟨outcome, hsettles, hstored, hcells⟩ := verifyLayoutGraph_accepts_iff _ _ pairReferences
  obtain rfl := hsettles.unique pair_accepted
  exact ⟨pair_accepted, (hstored.mp rfl).1, (hstored.mp rfl).2, hcells rfl⟩
/-- An inline record of a string is rejected, though nothing is stored inside itself. -/
theorem verifyLayoutGraph_rejects_acyclic :
    ¬ ∀ (records : List ConcreteRecord) (unions : List ConcreteUnion),
      ReferencesWithin records unions →
      (Outcome.Settles (fun n => verifyLayoutGraph n records unions) (.ok ()) ↔
        ¬ ∃ node, Relation.TransGen (StoredIn records unions) node node) := by
  intro hiff
  have hfields : ∀ node, ∀ field ∈ layoutFields [.inlineFields [.stringType]] [] node,
      field = .stringType := by
    intro node field hfield
    rcases node with (_ | id) | id
    · exact List.mem_singleton.mp hfield
    · cases hfield
    · cases hfield
  have hrefs : ReferencesWithin [.inlineFields [.stringType]] [] := by
    intro node field hfield
    rw [hfields node field hfield]
    trivial
  have hnone : ¬ ∃ node, Relation.TransGen (StoredIn [.inlineFields [.stringType]] []) node node := by
    rintro ⟨node, hcycle⟩
    obtain ⟨outer, ⟨field, hfield, hstored⟩, -⟩ := Relation.TransGen.head'_iff.mp hcycle
    rw [hfields outer field hfield] at hstored
    cases hstored
  have hrejected : Outcome.Settles (fun n => verifyLayoutGraph n [.inlineFields [.stringType]] [])
      (.err (verificationError Check.compilerSpan
        "record storage summary does not match its fields")) :=
    .closed 4 (by simp) fun _ => rfl
  have haccepted := (hiff _ _ hrefs).mpr hnone
  have hsame := hrejected.unique haccepted
  simp at hsame

end Blorp.Verify
