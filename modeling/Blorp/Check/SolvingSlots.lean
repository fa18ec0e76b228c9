import Blorp.Check.Overlap
import Blorp.Check.Solving

/-!
# Slots while equalities are solved

The invariant of the slots is `WellBound`: what a variable is bound to stays within the slots
and never leads back to it.  Nothing is asked of a submitted type; one that names a variable
without a slot is an error where the variable is followed.
-/

namespace Blorp.Check.Solver

open Fuel Triangular

variable {slots : List InferenceSlot}

theorem shared_ends {α : Type} {Q : α → Prop} {f : Nat → Outcome CheckError α}
    (h : Outcome.Ends f Q) :
    Outcome.Ends (fun n => shared (f n)) Q := by
  obtain ⟨outcome, ⟨hne, least, hleast⟩, hQ⟩ := h
  refine ⟨shared outcome, ⟨?_, least, fun fuel hle => ?_⟩, fun a ha => hQ a ?_⟩
  · cases outcome with
    | timeout => exact absurd rfl hne
    | ok value => simp [shared]
    | err error => simp [shared]
  · show shared (f fuel) = shared outcome
    rw [hleast fuel hle]
  · cases outcome with
    | ok value =>
      cases ha
      rfl
    | err error => cases ha
    | timeout => cases ha

theorem orInvariant_ends {α : Type} {value : Option α} (span : Span)
    (invariant : CheckerInvariant) :
    Outcome.Ends (fun _ => orInvariant value span invariant) fun a => value = some a := by
  cases value with
  | some a => exact Outcome.Ends.ok rfl
  | none => exact Outcome.Ends.err _

/-! ## Links -/

/-- Following links from one variable leads to the other. -/
abbrev LinksTo (slots : List InferenceSlot) : InferenceVariableId → InferenceVariableId → Prop :=
  Relation.ReflTransGen fun id next => bindings slots id = some (.callVariable next)

/-- The links end at a variable bound to a type that is no variable. -/
def SolvedAs (slots : List InferenceSlot) (id : InferenceVariableId) (value : InferenceType) :
    Prop :=
  ∃ last, LinksTo slots id last ∧ bindings slots last = some value ∧ ¬ value.IsVariable

def UnsolvedAt (slots : List InferenceSlot) (id root : InferenceVariableId) : Prop :=
  LinksTo slots id root ∧ bindings slots root = none

variable {id first second sought : InferenceVariableId} {value head : InferenceType}
variable {values : Values}

theorem LinksTo.chain (hfirst : LinksTo slots id first) (hsecond : LinksTo slots id second) :
    LinksTo slots first second ∨ LinksTo slots second first :=
  Relation.ReflTransGen.total_of_right_unique (fun a b c hb hc => by
    have heq : some (InferenceType.callVariable b) = some (.callVariable c) := hb.symm.trans hc
    cases heq
    rfl) hfirst hsecond

variable {other : InferenceVariableId} {publication : InferencePublication}

theorem LinksTo.eq_of_end (h : LinksTo slots id other)
    (hend : ∀ next, bindings slots id ≠ some (.callVariable next)) : id = other := by
  rcases Relation.ReflTransGen.cases_head h with heq | ⟨next, hnext, -⟩
  · exact heq
  · exact absurd hnext (hend next)

theorem end_of_unbound (h : bindings slots id = none) :
    ∀ next, bindings slots id ≠ some (.callVariable next) := by
  intro next hnext
  rw [h] at hnext
  cases hnext

theorem end_of_solved (h : bindings slots id = some value) (hvalue : ¬ value.IsVariable) :
    ∀ next, bindings slots id ≠ some (.callVariable next) := by
  intro next hnext
  rw [h] at hnext
  cases hnext
  exact hvalue trivial

theorem LinksTo.end_unique (hfirst : LinksTo slots id first) (hsecond : LinksTo slots id second)
    (hend : ∀ next, bindings slots first ≠ some (.callVariable next))
    (hend' : ∀ next, bindings slots second ≠ some (.callVariable next)) : first = second := by
  rcases hfirst.chain hsecond with h | h
  · exact h.eq_of_end hend
  · exact (h.eq_of_end hend').symm

/-! ## Heads -/

/-- What a head is of a type: the type itself, the variable its links end at, or what that
variable is bound to. -/
def IsHead (slots : List InferenceSlot) (value head : InferenceType) : Prop :=
  ¬ value.IsVariable ∧ head = value ∨ ∃ id, value = .callVariable id ∧
    ((∃ root, head = .callVariable root ∧ root < slots.length ∧ UnsolvedAt slots id root) ∨
      SolvedAs slots id head)

theorem IsHead.follow {next : InferenceType} (hbinding : bindings slots id = some next)
    (h : IsHead slots next head) : IsHead slots (.callVariable id) head := by
  refine .inr ⟨id, rfl, ?_⟩
  rcases h with ⟨hnode, rfl⟩ | ⟨other, rfl, ⟨root, rfl, hroot, hlinks, hunbound⟩ |
    ⟨last, hlinks, hlast, hnode⟩⟩
  · exact .inr ⟨id, .refl, hbinding, hnode⟩
  · exact .inl ⟨root, rfl, hroot, .head hbinding hlinks, hunbound⟩
  · exact .inr ⟨last, .head hbinding hlinks, hlast, hnode⟩

theorem isHead_of_inferenceHead {span : Span} :
    ∀ (n : Nat) (value : InferenceType), inferenceHead slots span n value = .ok head →
      IsHead slots value head := by
  intro n
  induction n with
  | zero =>
    intro value h
    cases h
  | succ n ih =>
    intro value h
    cases value with
    | callVariable id =>
      cases hslot : slots[id]? with
      | none =>
        simp only [inferenceHead, hslot] at h
        cases h
      | some slot =>
        have hid : id < slots.length := (List.getElem?_eq_some_iff.mp hslot).1
        simp only [inferenceHead, hslot] at h
        cases hstate : slot.state with rw [hstate] at h
        | unboundVariable rank =>
          cases h
          refine .inr ⟨id, rfl, .inl ⟨id, rfl, hid, .refl, ?_⟩⟩
          simp [bindings, hslot, InferenceSlot.binding, hstate]
        | boundVariable next =>
          refine IsHead.follow ?_ (ih next h)
          simp [bindings, hslot, InferenceSlot.binding, hstate]
        | linkedVariable next =>
          refine IsHead.follow ?_ (ih _ h)
          simp [bindings, hslot, InferenceSlot.binding, hstate]
    | _ =>
      cases h
      exact .inl ⟨fun h => h.elim, rfl⟩

/-- What solving needs of a head. -/
structure Follows (slots : List InferenceSlot) (value head : InferenceType) : Prop where
  isHead : IsHead slots value head
  unbound : ∀ id, head = .callVariable id → id < slots.length ∧ bindings slots id = none
  same : ∀ values, Solution slots values → head.solved values = value.solved values
  within : head.Within slots → value.Within slots
  reaches : ∀ id, bindings slots id = none → (value.Reaches slots id ↔ head.Reaches slots id)

/-- Following any type ends, also one that names a variable without a slot. -/
theorem inferenceHead_ends (hslots : WellBound slots) (span : Span) (value : InferenceType) :
    Outcome.Ends (fun n => inferenceHead slots span n value) (Follows slots value) := by
  by_cases hvariable : value.IsVariable
  · obtain ⟨id, rfl⟩ : ∃ id, value = .callVariable id := by
      cases value with
      | callVariable id => exact ⟨id, rfl⟩
      | _ => exact hvariable.elim
    by_cases hid : id < slots.length
    · have hwithin : (InferenceType.callVariable id).Within slots := by
        intro other hother
        obtain rfl : other = id := by simpa [InferenceType.mentions] using hother
        exact hid
      obtain ⟨head, hsettles, hhead⟩ := inferenceHead_spec hslots span hwithin
      refine ⟨.ok head, hsettles, fun found hfound => ?_⟩
      cases hfound
      obtain ⟨-, least, hleast⟩ := hsettles
      have hisHead := isHead_of_inferenceHead least _ (hleast least (Nat.le_refl _))
      refine ⟨hisHead, fun other hother => ⟨?_, hhead.unbound other hother⟩, hhead.same,
        fun _ => hwithin, hhead.reaches⟩
      exact hhead.within other (by simp [hother, InferenceType.mentions])
    · have hslot : slots[id]? = none := List.getElem?_eq_none (Nat.le_of_not_lt hid)
      refine Outcome.Ends.succ (fun n => ?_)
        (Outcome.Ends.err (checkerInvariant span (.invalidInferenceVariable id)))
      simp [inferenceHead, hslot]
  · refine Outcome.Ends.succ (g := fun _ => .ok value) (fun n => ?_) (Outcome.Ends.ok ?_)
    · cases value with
      | callVariable id => exact absurd trivial hvariable
      | _ => rfl
    · refine ⟨.inl ⟨hvariable, rfl⟩, ?_, fun _ _ => rfl, id, fun _ _ => Iff.rfl⟩
      rintro id rfl
      exact absurd trivial hvariable

/-! ## Published types -/

/-- The parameter a placeholder shows. -/
def InferencePublication.placeholder (publication : InferencePublication)
    (root : InferenceVariableId) (parameter : TypeParameterId) : TypeParameterId :=
  match publication with
  | .occursInference sought other => if sought = root then other else parameter
  | _ => parameter

/-- Each solved variable has its solution for a value. -/
def ReadsSolved (slots : List InferenceSlot) (values : Values) : Prop :=
  ∀ id value, SolvedAs slots id value → values id = value.solved values

/-- Each unsolved variable has the placeholder of its own slot for a value. -/
def ReadsUnsolved (slots : List InferenceSlot) (publication : InferencePublication)
    (values : Values) : Prop :=
  ∀ id root slot, UnsolvedAt slots id root → slots[id]? = some slot →
    values id = .parameterType (publication.placeholder root slot.parameter)

/-- What a complete publication reads: solved variables alone. -/
def Reads (slots : List InferenceSlot) (publication : InferencePublication) (values : Values) :
    Prop :=
  ReadsSolved slots values ∧
    (publication = .completeInference ∨ ReadsUnsolved slots publication values)

theorem SolvedAs.unique {first second : InferenceType} (hfirst : SolvedAs slots id first)
    (hsecond : SolvedAs slots id second) : first = second := by
  obtain ⟨last, hlinks, hlast, hnode⟩ := hfirst
  obtain ⟨last', hlinks', hlast', hnode'⟩ := hsecond
  obtain rfl : last = last' := hlinks.end_unique hlinks' (end_of_solved hlast hnode)
    (end_of_solved hlast' hnode')
  rw [hlast] at hlast'
  cases hlast'
  rfl

theorem UnsolvedAt.unique (hfirst : UnsolvedAt slots id first)
    (hsecond : UnsolvedAt slots id second) : first = second :=
  hfirst.1.end_unique hsecond.1 (end_of_unbound hfirst.2) (end_of_unbound hsecond.2)

theorem UnsolvedAt.not_solvedAs {root : InferenceVariableId} (h : UnsolvedAt slots id root) :
    ¬ SolvedAs slots id value := by
  rintro ⟨last, hlinks, hlast, hnode⟩
  obtain rfl : root = last := h.1.end_unique hlinks (end_of_unbound h.2) (end_of_solved hlast hnode)
  rw [h.2] at hlast
  cases hlast

theorem transGen_of_solvedAs (h : SolvedAs slots id value) (hother : other ∈ value.mentions) :
    Relation.TransGen (Edge InferenceType.mentions (bindings slots)) id other := by
  obtain ⟨last, hlinks, hlast, -⟩ := h
  have hedges : Relation.ReflTransGen (Edge InferenceType.mentions (bindings slots)) id last := by
    refine hlinks.lift (fun id => id) fun a b hab => ?_
    exact ⟨.callVariable b, hab, by simp [InferenceType.mentions]⟩
  exact .tail' hedges ⟨value, hlast, hother⟩

/-- The placeholder of an unsolved variable. -/
def ShownAs (slots : List InferenceSlot) (publication : InferencePublication)
    (id : InferenceVariableId) (type : TypeRef) : Prop :=
  ∃ root slot, UnsolvedAt slots id root ∧ slots[id]? = some slot ∧
    type = .parameterType (publication.placeholder root slot.parameter)

theorem ShownAs.unique {first second : TypeRef} (hfirst : ShownAs slots publication id first)
    (hsecond : ShownAs slots publication id second) : first = second := by
  obtain ⟨root, slot, h, hslot, rfl⟩ := hfirst
  obtain ⟨root', slot', h', hslot', rfl⟩ := hsecond
  rw [h.unique h', Option.some.inj (hslot.symm.trans hslot')]

theorem exists_reads (hslots : WellBound slots) (publication : InferencePublication) :
    ∃ values, ReadsSolved slots values ∧ ReadsUnsolved slots publication values := by
  classical
  let solution : InferenceVariableId → Option InferenceType := fun id =>
    if h : ∃ value, SolvedAs slots id value then some h.choose else none
  let free : Values := fun id =>
    if h : ∃ type, ShownAs slots publication id type then h.choose else .voidType
  have hsolved : ∀ id value, SolvedAs slots id value → solution id = some value := by
    intro id value h
    have hex : ∃ value, SolvedAs slots id value := ⟨value, h⟩
    exact (dif_pos hex).trans (congrArg some (hex.choose_spec.unique h))
  have hlayered : Layered InferenceType.mentions solution := by
    obtain ⟨level, hlevel⟩ := hslots.layered
    refine ⟨level, fun id other hedge => ?_⟩
    obtain ⟨value, hvalue, hother⟩ := hedge
    by_cases hex : ∃ value, SolvedAs slots id value
    · rw [hsolved id hex.choose hex.choose_spec] at hvalue
      cases hvalue
      exact Layered.level_lt hlevel (transGen_of_solvedAs hex.choose_spec hother)
    · rw [show solution id = none from dif_neg hex] at hvalue
      cases hvalue
  obtain ⟨values, hvalues, hfree⟩ := hlayered.solvable_on
    (fun type first second hsame => solved_congr first second type hsame) free
  refine ⟨values, fun id value h => hvalues id value (hsolved id value h), ?_⟩
  intro id root slot h hslot
  have hnone : solution id = none := dif_neg fun hex => h.not_solvedAs hex.choose_spec
  have hshown : ShownAs slots publication id
      (.parameterType (publication.placeholder root slot.parameter)) := ⟨root, slot, h, hslot, rfl⟩
  have hex : ∃ type, ShownAs slots publication id type := ⟨_, hshown⟩
  exact (hfree id hnone).trans ((dif_pos hex).trans (hex.choose_spec.unique hshown))

theorem IsHead.solved_eq (h : IsHead slots value head) (hnode : ¬ head.IsVariable)
    (hvalues : ReadsSolved slots values) : value.solved values = head.solved values := by
  rcases h with ⟨-, rfl⟩ | ⟨id, rfl, ⟨root, rfl, -⟩ | hsolved⟩
  · rfl
  · exact absurd trivial hnode
  · exact hvalues id head hsolved

/-- A published type is the type under every values it reads. -/
abbrev PublishedAs (slots : List InferenceSlot) (publication : InferencePublication)
    (value : InferenceType) (type : TypeRef) : Prop :=
  ∀ values, Reads slots publication values → type = value.solved values

theorem solvedAll_of_published (hvalues : Reads slots publication values)
    {arguments : List InferenceType} {types : List TypeRef}
    (h : List.Forall₂ (PublishedAs slots publication) arguments types) :
    types = solvedAll values arguments := by
  induction h with
  | nil => rfl
  | cons hfirst _ ih =>
    unfold solvedAll
    rw [hfirst values hvalues, ih]

theorem publishVariable_ends {original : InferenceVariableId} {slot : InferenceSlot}
    (hslot : slots[original]? = some slot) (h : UnsolvedAt slots original id)
    (publication : InferencePublication) :
    Outcome.Ends (fun _ => publishVariable slot id publication)
      (PublishedAs slots publication (.callVariable original)) := by
  cases publication with
  | completeInference => exact Outcome.Ends.err _
  | diagnosticInference =>
    refine Outcome.Ends.ok fun values hvalues => ?_
    exact (hvalues.2.resolve_left (by simp) original id slot h hslot).symm
  | occursInference sought other =>
    have hread : ∀ values, Reads slots (.occursInference sought other) values →
        values original = .parameterType (if sought = id then other else slot.parameter) :=
      fun values hvalues => hvalues.2.resolve_left (by simp) original id slot h hslot
    unfold publishVariable
    by_cases heq : sought = id
    · simp only [if_pos heq]
      refine Outcome.Ends.ok fun values hvalues => ?_
      show _ = values original
      rw [hread values hvalues, if_pos heq]
    · simp only [if_neg heq]
      refine Outcome.Ends.ok fun values hvalues => ?_
      show _ = values original
      rw [hread values hvalues, if_neg heq]

/-- **Publication.**  It ends for every type; what it publishes reads each solved variable as
its solution, and no other variable unless the publication shows placeholders. -/
theorem publishInferenceType_ends (hslots : WellBound slots) (publication : InferencePublication)
    (span : Span) (value : InferenceType) :
    Outcome.Ends (fun n => publishInferenceType slots publication span n value)
      (PublishedAs slots publication value) := by
  obtain ⟨solution, hsolution⟩ := hslots.solvable
  -- Children are smaller under any solution.
  suffices hall : ∀ bound (value : InferenceType), sizeOf (value.solved solution) < bound →
      Outcome.Ends (fun n => publishInferenceType slots publication span n value)
        (PublishedAs slots publication value) from hall _ value (Nat.lt_succ_self _)
  intro bound
  induction bound with
  | zero =>
    intro value hlt
    exact absurd hlt (Nat.not_lt_zero _)
  | succ bound ih =>
    intro value hlt
    refine Outcome.Ends.succ (fun n => rfl)
      ((shared_ends (inferenceHead_ends hslots span value)).bind ?_)
    intro head hhead
    have hsize : sizeOf (head.solved solution) < bound + 1 := by
      rw [hhead.same solution hsolution]
      exact hlt
    have hread : ¬ head.IsVariable → ∀ {type : TypeRef}, PublishedAs slots publication head type →
        PublishedAs slots publication value type := by
      intro hnode type htype values hvalues
      rw [hhead.isHead.solved_eq hnode hvalues.1]
      exact htype values hvalues
    -- A head's children are published as they are.
    have hchild : ¬ head.IsVariable → ∀ child ∈ head.children,
        Outcome.Ends (fun n => publishInferenceType slots publication span n child)
          (PublishedAs slots publication child) := by
      intro hnode child hchild
      refine ih child ?_
      have hsum := InferenceType.sum_children_lt hnode solution
      have hle : sizeOf (child.solved solution) ≤
          (head.children.map fun child => sizeOf (child.solved solution)).sum :=
        List.le_sum_of_mem (List.mem_map_of_mem hchild)
      omega
    cases head with
    | acceptedType type => exact Outcome.Ends.ok (hread id fun _ _ => rfl)
    | callVariable id =>
      rcases hhead.isHead with ⟨hnode, rfl⟩ | ⟨original, rfl, ⟨root, hroot, -, hunsolved⟩ | hsolved⟩
      · exact absurd trivial hnode
      · cases hroot
        refine (orInvariant_ends span _).bind fun slot hslot => ?_
        exact publishVariable_ends hslot hunsolved publication
      · obtain ⟨-, -, -, hnode⟩ := hsolved
        exact absurd trivial hnode
    | inferredCallable purity parameters result =>
      refine (Outcome.Ends.mapM parameters fun child hmem => hchild id child ?_).bind
        fun types htypes => ?_
      · exact List.mem_append_left _ hmem
      · refine (hchild id result ?_).bind fun type htype =>
          Outcome.Ends.ok (hread id fun values hvalues => ?_)
        · exact List.mem_append_right _ List.mem_cons_self
        · show TypeRef.callableType purity types type = _
          rw [solvedAll_of_published hvalues htypes, htype values hvalues]
          rfl
    | inferredTuple arguments =>
      refine (Outcome.Ends.mapM arguments fun child hmem => hchild id child hmem).bind
        fun types htypes => ?_
      refine Outcome.Ends.ok (hread id fun values hvalues => ?_)
      exact congrArg TypeRef.tupleType (solvedAll_of_published hvalues htypes)
    | inferredList element =>
      refine (hchild id element List.mem_cons_self).bind fun type htype => ?_
      refine Outcome.Ends.ok (hread id fun values hvalues => ?_)
      exact congrArg TypeRef.listType (htype values hvalues)
    | inferredNominal owner arguments =>
      refine (Outcome.Ends.mapM arguments fun child hmem => hchild id child hmem).bind
        fun types htypes => ?_
      refine Outcome.Ends.ok (hread id fun values hvalues => ?_)
      exact congrArg (TypeRef.nominalType owner) (solvedAll_of_published hvalues htypes)

/-! ## The occurs check -/

def SafeFor (slots : List InferenceSlot) (sought : InferenceVariableId) (value : InferenceType) :
    Prop :=
  value.Within slots ∧ ¬ value.Reaches slots sought

theorem SafeFor.of_head (hsought : bindings slots sought = none) (hhead : Follows slots value head)
    (h : SafeFor slots sought head) : SafeFor slots sought value :=
  ⟨hhead.within h.1, fun hreach => h.2 ((hhead.reaches sought hsought).mp hreach)⟩

theorem safeFor_variable (hid : id < slots.length) (hunbound : bindings slots id = none)
    (hne : id ≠ sought) : SafeFor slots sought (.callVariable id) := by
  constructor
  · intro other hother
    obtain rfl : other = id := by simpa [InferenceType.mentions] using hother
    exact hid
  · rintro ⟨start, hstart, hreach⟩
    obtain rfl : start = id := by simpa [InferenceType.mentions] using hstart
    exact hne (eq_of_unbound hreach hunbound)

theorem safeFor_children (hnode : ¬ head.IsVariable)
    (h : ∀ child ∈ head.children, SafeFor slots sought child) : SafeFor slots sought head := by
  constructor
  · intro id hid
    obtain ⟨child, hchild, hid⟩ := (InferenceType.mem_mentions hnode).mp hid
    exact (h child hchild).1 id hid
  · rintro ⟨start, hstart, hreach⟩
    obtain ⟨child, hchild, hstart⟩ := (InferenceType.mem_mentions hnode).mp hstart
    exact (h child hchild).2 ⟨start, hstart, hreach⟩

theorem occursPending_ends (hslots : WellBound slots) (sought : InferenceVariableId) (span : Span)
    (hvalues : Solution slots values) :
    ∀ bound (pending : List InferenceType),
      (pending.map fun type => sizeOf (type.solved values)).sum < bound →
      Outcome.Ends (fun n => occursPending sought slots span n pending) fun found =>
        found = false → bindings slots sought = none →
          ∀ type ∈ pending, SafeFor slots sought type := by
  intro bound
  induction bound with
  | zero =>
    intro pending hlt
    exact absurd hlt (Nat.not_lt_zero _)
  | succ bound ih =>
    intro pending hlt
    cases pending with
    | nil =>
      refine Outcome.Ends.succ (g := fun _ => .ok false) (fun _ => rfl) (Outcome.Ends.ok ?_)
      simp
    | cons value pending =>
      rw [List.map_cons, List.sum_cons] at hlt
      refine Outcome.Ends.succ (fun n => rfl) ((inferenceHead_ends hslots span value).bind ?_)
      intro head hhead
      have hpositive : 0 < sizeOf (value.solved values) :=
        Nat.lt_of_le_of_lt (Nat.zero_le _) (value.solved values).sum_parts_lt
      by_cases hvariable : head.IsVariable
      · obtain ⟨id, rfl⟩ : ∃ id, head = .callVariable id := by
          cases head with
          | callVariable id => exact ⟨id, rfl⟩
          | _ => exact hvariable.elim
        obtain ⟨hid, hunbound⟩ := hhead.unbound id rfl
        by_cases heq : id = sought
        · simp only [if_pos heq]
          exact Outcome.Ends.ok fun h => Bool.noConfusion h
        · simp only [if_neg heq]
          refine (ih pending (by omega)).mono fun found hfound hfalse hsought => ?_
          refine List.forall_mem_cons.mpr ⟨?_, hfound hfalse hsought⟩
          exact (safeFor_variable hid hunbound heq).of_head hsought hhead
      · have hless := InferenceType.sum_children_lt hvariable values
        rw [hhead.same values hvalues] at hless
        have hrest := ih (head.children.reverse ++ pending) (by
          rw [List.map_append, List.sum_append, List.map_reverse, List.sum_reverse]
          omega)
        have hsafe : ∀ found : Bool, (found = false → bindings slots sought = none →
            ∀ type ∈ head.children.reverse ++ pending, SafeFor slots sought type) →
            found = false → bindings slots sought = none →
              ∀ type ∈ value :: pending, SafeFor slots sought type := by
          intro found hfound hfalse hsought
          have hall := hfound hfalse hsought
          refine List.forall_mem_cons.mpr ⟨?_, fun type htype => ?_⟩
          · refine (safeFor_children hvariable fun child hchild => ?_).of_head hsought hhead
            exact hall child (List.mem_append_left _ (List.mem_reverse.mpr hchild))
          · exact hall type (List.mem_append_right _ htype)
        cases head with
        | callVariable id => exact absurd trivial hvariable
        | _ => exact hrest.mono hsafe

/-- **The occurs check.**  It ends for every type, and what it passes may be bound. -/
theorem inferenceOccurs_ends (hslots : WellBound slots) (sought : InferenceVariableId)
    (value : InferenceType) (span : Span) :
    Outcome.Ends (fun n => inferenceOccurs n sought value slots span) fun found =>
      found = false → bindings slots sought = none → SafeFor slots sought value := by
  obtain ⟨values, hvalues⟩ := hslots.solvable
  refine (occursPending_ends hslots sought span hvalues _ [value] (Nat.lt_succ_self _)).mono ?_
  intro found hfound hfalse hsought
  exact hfound hfalse hsought value List.mem_cons_self

end Blorp.Check.Solver
