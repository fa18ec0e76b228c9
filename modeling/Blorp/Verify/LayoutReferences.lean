import Blorp.Verify.LayoutStorage

/-!
# References of accepted layouts

`verify_layout_graph` walks every layout as a root and visits each field of what it walks, so
that the layouts it accepts name only layouts that exist.
-/

namespace Blorp.Verify

open Specialize
open Fuel DepthFirst

variable {records : List ConcreteRecord} {unions : List ConcreteUnion}

/-! ## Types that pass -/

mutual

theorem refersWithin_of_membership (span : Check.Span) : ∀ {type : TypeRef},
    verifyTypeMembership unions records span type = .ok () → RefersWithin records unions type
  | .voidType, _ | .intType, _ | .floatType, _ | .stringType, _ => trivial
  | .listType element, h => by
      rw [verifyTypeMembership] at h
      show RefersWithin records unions element
      exact refersWithin_of_membership span h
  | .callableType parameters result, h => by
      rw [verifyTypeMembership] at h
      obtain ⟨_, hparameters, hresult⟩ := Except.peel h
      exact ⟨referAllWithin_of_membership span hparameters, refersWithin_of_membership span hresult⟩
  | .recordType id, h => by
      show id < records.length
      by_contra hout
      simp only [verifyTypeMembership, TypeRef.valueNeedsOwnership,
        List.getElem?_eq_none (Nat.le_of_not_lt hout)] at h
      cases h
  | .unionType id, h => by
      show id < unions.length
      by_contra hout
      simp only [verifyTypeMembership, TypeRef.valueNeedsOwnership,
        List.getElem?_eq_none (Nat.le_of_not_lt hout)] at h
      cases h

theorem referAllWithin_of_membership (span : Check.Span) : ∀ {types : List TypeRef},
    verifyTypesMembership unions records span types = .ok () → ReferAllWithin records unions types
  | [], _ => trivial
  | type :: rest, h => by
      rw [verifyTypesMembership] at h
      obtain ⟨_, htype, hrest⟩ := Except.peel h
      exact ⟨refersWithin_of_membership span htype, referAllWithin_of_membership span hrest⟩

end

theorem listTerminal_ne_list : ∀ (type inner : TypeRef), listTerminal type ≠ .listType inner
  | .listType element, inner => by
      rw [listTerminal]
      exact listTerminal_ne_list element inner
  | .voidType, _ | .intType, _ | .floatType, _ | .stringType, _ | .callableType _ _, _
  | .recordType _, _ | .unionType _, _ => by simp [listTerminal]

theorem refersWithin_of_terminal : ∀ {type : TypeRef},
    RefersWithin records unions (listTerminal type) → RefersWithin records unions type
  | .listType element, h => by
      show RefersWithin records unions element
      exact refersWithin_of_terminal h
  | .voidType, h | .intType, h | .floatType, h | .stringType, h | .callableType _ _, h
  | .recordType _, h | .unionType _, h => h

theorem refersWithin_of_presence {element : TypeRef}
    (h : listTerminalPresence element records unions = .ok ()) :
    RefersWithin records unions element := by
  apply refersWithin_of_terminal
  unfold listTerminalPresence at h
  cases hterminal : listTerminal element with
  | callableType parameters result =>
    rw [hterminal] at h
    exact refersWithin_of_membership _ h
  | recordType id =>
    rw [hterminal] at h
    show id < records.length
    by_contra hout
    simp only [List.getElem?_eq_none (Nat.le_of_not_lt hout)] at h
    cases h
  | unionType id =>
    rw [hterminal] at h
    show id < unions.length
    by_contra hout
    simp only [List.getElem?_eq_none (Nat.le_of_not_lt hout)] at h
    cases h
  | listType inner =>
    rw [hterminal] at h
    exact absurd hterminal (listTerminal_ne_list element inner)
  | _ => trivial

/-! ## The walk -/

def LayoutNode.visit : LayoutNode → LayoutVisitStep
  | .record index => .visitRecordLayout index
  | .union index => .visitUnionLayout index

def LayoutNode.finish : LayoutNode → LayoutVisitStep
  | .record index => .finishRecordLayout index
  | .union index => .finishUnionLayout index

/-- Every layout is walked or waits to be; a field of a layout walked refers within the
catalogues or waits; only walked layouts wait to be finished. -/
structure Walked (records : List ConcreteRecord) (unions : List ConcreteUnion) (walk : LayoutWalk) :
    Prop where
  layouts : ∀ node, InCatalogue records unions node →
    walk.mark node ≠ .unvisited ∨ node.visit ∈ walk.pending
  fields : ∀ node, walk.mark node ≠ .unvisited → ∀ field ∈ layoutFields records unions node,
    RefersWithin records unions field ∨ .visitStoredType field ∈ walk.pending
  finishing : ∀ node : LayoutNode, node.finish ∈ walk.pending → walk.mark node ≠ .unvisited

variable {walk next : LayoutWalk} {pending : List LayoutVisitStep}

theorem visitStoredType_ok {type : TypeRef}
    (h : visitStoredType records unions walk type = .ok next) :
    RefersWithin records unions type ∧ next.mark = walk.mark ∧ walk.pending ⊆ next.pending := by
  have hkept : walk.mark = walk.mark ∧ walk.pending ⊆ walk.pending := ⟨rfl, fun _ h => h⟩
  cases type with
  | recordType id =>
    by_cases hid : id < records.length
    · rw [visitStoredType, List.getElem?_eq_getElem hid] at h
      refine ⟨hid, ?_⟩
      cases hlayout : records[id] with rw [hlayout] at h
      | countedFields fields =>
        cases h
        exact hkept
      | _ =>
        cases h
        exact ⟨mark_pending _ _, List.subset_cons_self _ _⟩
    · rw [visitStoredType, List.getElem?_eq_none (Nat.le_of_not_lt hid)] at h
      cases h
  | unionType id =>
    by_cases hid : id < unions.length
    · rw [visitStoredType, List.getElem?_eq_getElem hid] at h
      refine ⟨hid, ?_⟩
      cases hlayout : unions[id] with rw [hlayout] at h
      | boxedCases variants =>
        cases h
        exact hkept
      | _ =>
        cases h
        exact ⟨mark_pending _ _, List.subset_cons_self _ _⟩
    · rw [visitStoredType, List.getElem?_eq_none (Nat.le_of_not_lt hid)] at h
      cases h
  | listType element =>
    obtain ⟨_, hpresent, h⟩ := Except.peel h
    cases h
    exact ⟨refersWithin_of_presence hpresent, hkept⟩
  | callableType parameters result =>
    obtain ⟨_, hmember, h⟩ := Except.peel h
    cases h
    exact ⟨refersWithin_of_membership _ hmember, hkept⟩
  | _ =>
    cases h
    exact ⟨trivial, hkept⟩

variable {node : LayoutNode} {step : LayoutVisitStep}

theorem finish_of_visitStoredType {type : TypeRef}
    (h : visitStoredType records unions { walk with pending := pending } type = .ok next)
    (hmem : node.finish ∈ next.pending) : node.finish ∈ pending := by
  have hcons : ∀ other : LayoutNode, node.finish ∈ other.visit :: pending → node.finish ∈ pending := by
    intro other hmem
    rcases List.mem_cons.mp hmem with heq | hrest
    · cases node <;> cases other <;> cases heq
    · exact hrest
  unfold visitStoredType at h
  cases type with
  | recordType id =>
    simp only at h
    split at h
    · cases h
    iterate 2
      · cases h
        exact hcons (.record id) hmem
    · cases h
      exact hmem
  | unionType id =>
    simp only at h
    split at h
    · cases h
    iterate 2
      · cases h
        exact hcons (.union id) hmem
    · cases h
      exact hmem
  | listType element | callableType parameters result =>
    obtain ⟨_, -, h⟩ := Except.peel h
    cases h
    exact hmem
  | _ =>
    cases h
    exact hmem

theorem Walked.keep (h : Walked records unions { walk with pending := step :: pending })
    (hmarks : ∀ node, walk.mark node ≠ .unvisited ↔ next.mark node ≠ .unvisited)
    (hpending : pending ⊆ next.pending)
    (hlayout : ∀ node, step = node.visit → next.mark node ≠ .unvisited)
    (hfield : ∀ field, step = .visitStoredType field → RefersWithin records unions field)
    (hnew : ∀ node : LayoutNode, node.finish ∈ next.pending → node.finish ∈ pending) :
    Walked records unions next := by
  have hsame : LayoutWalk.mark { walk with pending := step :: pending } = walk.mark :=
    mark_pending _ walk.pending
  refine ⟨?_, ?_, fun node hmem => (hmarks node).mp ?_⟩
  · intro node hnode
    rcases h.layouts node hnode with hmark | hmem
    · rw [hsame] at hmark
      exact .inl ((hmarks node).mp hmark)
    · rcases List.mem_cons.mp hmem with heq | hrest
      · exact .inl (hlayout node heq.symm)
      · exact .inr (hpending hrest)
  · intro node hmark field hmem
    have hold := (hmarks node).mpr hmark
    rw [← hsame] at hold
    rcases h.fields node hold field hmem with hwithin | hwaits
    · exact .inl hwithin
    · rcases List.mem_cons.mp hwaits with heq | hrest
      · exact .inl (hfield field heq.symm)
      · exact .inr (hpending hrest)
  · rw [← hsame]
    exact h.finishing node (List.mem_cons_of_mem _ (hnew node hmem))

theorem Walked.visit (h : Walked records unions { walk with pending := node.visit :: pending })
    (hmarks : next.mark = Function.update walk.mark node .visiting)
    (hnext : next.pending = (layoutFields records unions node).map .visitStoredType ++ node.finish
      :: pending) : Walked records unions next := by
  have hsame : LayoutWalk.mark { walk with pending := node.visit :: pending } = walk.mark :=
    mark_pending _ walk.pending
  have hrest : ∀ step ∈ pending, step ∈ next.pending := by
    intro step hstep
    rw [hnext]
    exact List.mem_append_right _ (List.mem_cons_of_mem _ hstep)
  have hvisit : ∀ other : LayoutNode, other.visit = node.visit → other = node := by
    intro other heq
    cases other <;> cases node <;> cases heq <;> rfl
  have hfinish : ∀ other : LayoutNode, other.finish = node.finish → other = node := by
    intro other heq
    cases other <;> cases node <;> cases heq <;> rfl
  refine ⟨?_, ?_, ?_⟩
  · intro other hother
    by_cases heq : other = node
    · subst heq
      rw [hmarks, Function.update_self]
      exact .inl (by simp)
    · rw [hmarks, Function.update_of_ne heq]
      rcases h.layouts other hother with hmark | hmem
      · rw [hsame] at hmark
        exact .inl hmark
      · rcases List.mem_cons.mp hmem with hfirst | hmem
        · exact absurd (hvisit other hfirst) heq
        · exact .inr (hrest _ hmem)
  · intro other hmark field hfield
    by_cases heq : other = node
    · subst heq
      rw [hnext]
      exact .inr (List.mem_append_left _ (List.mem_map_of_mem hfield))
    · rw [hmarks, Function.update_of_ne heq, ← hsame] at hmark
      rcases h.fields other hmark field hfield with hwithin | hmem
      · exact .inl hwithin
      · rcases List.mem_cons.mp hmem with hfirst | hmem
        · cases node <;> cases hfirst
        · exact .inr (hrest _ hmem)
  · intro other hmem
    by_cases heq : other = node
    · subst heq
      rw [hmarks, Function.update_self]
      simp
    · rw [hmarks, Function.update_of_ne heq, ← hsame]
      rw [hnext] at hmem
      apply h.finishing
      rcases List.mem_append.mp hmem with hfield | hmem
      · obtain ⟨field, -, hfield⟩ := List.mem_map.mp hfield
        cases other <;> cases hfield
      · rcases List.mem_cons.mp hmem with hlast | hmem
        · exact absurd (hfinish other hlast) heq
        · exact List.mem_cons_of_mem _ hmem

theorem Walked.finish (h : Walked records unions { walk with pending := node.finish :: pending })
    (hmarks : next.mark = Function.update walk.mark node .complete)
    (hnext : next.pending = pending) : Walked records unions next := by
  have hsame : LayoutWalk.mark { walk with pending := node.finish :: pending } = walk.mark :=
    mark_pending _ walk.pending
  have hmarked : walk.mark node ≠ .unvisited := by
    rw [← hsame]
    exact h.finishing node List.mem_cons_self
  refine h.keep (fun other => ?_) ?_ ?_ ?_ ?_
  · rw [hmarks]
    by_cases heq : other = node
    · subst heq
      rw [Function.update_self]
      exact ⟨fun _ => by simp, fun _ => hmarked⟩
    · rw [Function.update_of_ne heq]
  · rw [hnext]
    exact fun _ h => h
  · intro other heq
    cases other <;> cases node <;> cases heq
  · intro field heq
    cases node <;> cases heq
  · rw [hnext]
    exact fun _ h => h

/-- **One step** of an accepted walk. -/
theorem visitLayoutStep_walked (h : Walked records unions { walk with pending := step :: pending })
    (hstep : visitLayoutStep records unions { walk with pending := pending } step = .ok next) :
    Walked records unions next := by
  have hsame : LayoutWalk.mark { walk with pending := pending } = walk.mark :=
    mark_pending _ walk.pending
  -- A layout that is complete is left alone.
  have hcomplete : ∀ node : LayoutNode, step = node.visit → walk.mark node = .complete →
      next = { walk with pending := pending } → Walked records unions next := by
    rintro node rfl hmark rfl
    refine h.keep (fun other => by rw [hsame]) (fun _ h => h) ?_ ?_ fun _ h => h
    · intro other heq
      have hother : other = node := by cases other <;> cases node <;> cases heq <;> rfl
      rw [hother, hsame, hmark]
      simp
    · intro field heq
      cases node <;> cases heq
  cases step with
  | visitStoredType type =>
    obtain ⟨hwithin, hmarks, hsub⟩ := visitStoredType_ok hstep
    refine h.keep (fun other => by rw [hmarks, hsame]) hsub ?_ ?_ ?_
    · intro node heq
      cases node <;> cases heq
    · intro field heq
      cases heq
      exact hwithin
    · intro node hmem
      exact finish_of_visitStoredType hstep hmem
  | visitRecordLayout index =>
    unfold visitLayoutStep at hstep
    cases hvisit : walk.recordVisits[index]? with
    | none =>
      simp only [hvisit] at hstep
      cases hstep
    | some visit =>
      have hlt : index < walk.recordVisits.length := (List.getElem?_eq_some_iff.mp hvisit).1
      have hmark : walk.mark (.record index) = visit.mark := by simp [LayoutWalk.mark, hvisit]
      simp only [hvisit] at hstep
      cases visit with
      | completeLayout =>
        cases hstep
        exact hcomplete (.record index) rfl hmark rfl
      | visitingLayout => cases hstep
      | unvisitedLayout =>
        cases hlayout : records[index]? with simp only [hlayout] at hstep
        | none => cases hstep
        | some layout =>
          cases hstep
          refine Walked.visit h (mark_setRecord hlt _ _) ?_
          simp [layoutFields, hlayout, LayoutNode.finish]
  | visitUnionLayout index =>
    unfold visitLayoutStep at hstep
    cases hvisit : walk.unionVisits[index]? with
    | none =>
      simp only [hvisit] at hstep
      cases hstep
    | some visit =>
      have hlt : index < walk.unionVisits.length := (List.getElem?_eq_some_iff.mp hvisit).1
      have hmark : walk.mark (.union index) = visit.mark := by simp [LayoutWalk.mark, hvisit]
      simp only [hvisit] at hstep
      cases visit with
      | completeLayout =>
        cases hstep
        exact hcomplete (.union index) rfl hmark rfl
      | visitingLayout => cases hstep
      | unvisitedLayout =>
        cases hlayout : unions[index]? with simp only [hlayout] at hstep
        | none => cases hstep
        | some layout =>
          cases hstep
          refine Walked.visit h (mark_setUnion hlt _ _) ?_
          simp [layoutFields, hlayout, LayoutNode.finish]
  | finishUnionLayout index =>
    cases hstep
    have hlt : index < walk.unionVisits.length := by
      have hmark := h.finishing (.union index) List.mem_cons_self
      by_contra hout
      simp [LayoutWalk.mark, Nat.le_of_not_lt hout] at hmark
    exact Walked.finish h (mark_setUnion hlt _ _) rfl
  | finishRecordLayout index =>
    have hlt : index < walk.recordVisits.length := by
      have hmark := h.finishing (.record index) List.mem_cons_self
      by_contra hout
      simp [LayoutWalk.mark, Nat.le_of_not_lt hout] at hmark
    unfold visitLayoutStep at hstep
    cases hlayout : records[index]? with simp only [hlayout] at hstep
    | none => cases hstep
    | some layout =>
      obtain ⟨inlined, -, hstep⟩ := Except.peel hstep
      have hnext : next = ⟨walk.recordVisits.set index .completeLayout, walk.unionVisits, pending⟩ := by
        cases layout with
        | inlineFields fields =>
          by_cases hinlined : inlined = true
          · rw [if_pos hinlined] at hstep
            cases hstep
            rfl
          · rw [if_neg hinlined] at hstep
            cases hstep
        | _ =>
          cases hstep
          rfl
      subst hnext
      exact Walked.finish h (mark_setRecord hlt _ _) rfl

/-! ## Accepted catalogues -/

theorem referencesWithin_of_walked (h : Walked records unions walk) (hpending : walk.pending = []) :
    ReferencesWithin records unions := by
  have hnone : ∀ step, step ∉ walk.pending := by
    intro step hmem
    rw [hpending] at hmem
    cases hmem
  have hwalked : ∀ node, InCatalogue records unions node →
      ∀ field ∈ layoutFields records unions node,
      RefersWithin records unions field := fun node hnode field hfield =>
    (h.fields node ((h.layouts node hnode).resolve_right (hnone _)) field hfield).resolve_right
      (hnone _)
  intro node field hfield
  refine hwalked node ?_ field hfield
  -- A layout outside the catalogues has no fields.
  cases node with
  | record id =>
    show id < records.length
    by_contra hout
    rw [layoutFields, List.getElem?_eq_none (Nat.le_of_not_lt hout)] at hfield
    cases hfield
  | union id =>
    show id < unions.length
    by_contra hout
    rw [layoutFields, List.getElem?_eq_none (Nat.le_of_not_lt hout)] at hfield
    cases hfield

theorem referencesWithin_of_walkLayouts : ∀ (n : Nat) (walk : LayoutWalk),
    Walked records unions walk → walkLayouts records unions n walk = .ok () →
      ReferencesWithin records unions := by
  intro n
  induction n with
  | zero =>
    intro walk _ hrun
    cases hrun
  | succ n ih =>
    intro walk h hrun
    cases hpending : walk.pending with
    | nil => exact referencesWithin_of_walked h hpending
    | cons step pending =>
      rw [walkLayouts, hpending] at hrun
      obtain ⟨next, hstep, hrun⟩ := Outcome.peel hrun
      have hwalk : walk = { walk with pending := step :: pending } := by rw [← hpending]
      rw [hwalk] at h
      exact ih next (visitLayoutStep_walked h (Outcome.liftM_eq_ok.mp hstep)) hrun

/-- **Accepted layouts name layouts.**  Whatever a field of theirs names exists. -/
theorem referencesWithin_of_accepted {n : Nat} (h : verifyLayoutGraph n records unions = .ok ()) :
    ReferencesWithin records unions := by
  refine referencesWithin_of_walkLayouts n _ ⟨?_, ?_, ?_⟩ h
  · intro node hnode
    refine .inr ?_
    cases node with
    | record id =>
      refine List.mem_append_left _ (List.mem_map_of_mem ?_)
      exact List.mem_range.mpr hnode
    | union id =>
      refine List.mem_append_right _ (List.mem_map_of_mem ?_)
      exact List.mem_range.mpr hnode
  · intro node hmark
    refine absurd ?_ hmark
    cases node with simp only [LayoutWalk.mark, List.getElem?_map]
    | record id => cases records[id]? <;> rfl
    | union id => cases unions[id]? <;> rfl
  · intro node hmem
    rcases List.mem_append.mp hmem with hrecord | hunion
    · obtain ⟨id, -, heq⟩ := List.mem_map.mp hrecord
      cases node <;> cases heq
    · obtain ⟨id, -, heq⟩ := List.mem_map.mp hunion
      cases node <;> cases heq

end Blorp.Verify
