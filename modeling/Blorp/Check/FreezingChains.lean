import Blorp.Check.Freezing

/-!
# The chain loop is the recursion

A link of a chain freezes its first argument before anything else it can fail on, as long
as its call has a parameter for it.  So handing the link that argument frozen changes
nothing, and a whole chain freezes as the recursion freezes it:

    freezeCallLink link none = freeze first >>= fun below => freezeCallLink link (some below)
-/

namespace Blorp.Check.Freezing

open Fuel

/-! ## The values a value freezes -/

def PendingOperation.children : PendingOperation → List PendingValue
  | .pendingInvocation _ values => values
  | .acceptedTupleElement _ | .acceptedField _ => []

def PendingBase.children (context : FreezeContext) : PendingBase → List PendingValue
  | .pendingContext id =>
      match context.constructions[id]? with
      | some (.completedContext completed) => [completed]
      | _ => []
  | .pendingConstructOpaque _ operand => [operand]
  | .pendingProjectOpaque _ operand => [operand]
  | .pendingConstructRecord _ fields => fields.map (·.value)
  | .pendingUpdateRecord _ base _ fields _ => base :: fields.map (·.value)
  | .pendingConstructVariant _ values => values
  | .pendingInterpolatedString values => values
  | .pendingConstructTuple values => values
  | .pendingConstructList _ values => values
  | .pendingDirectCall _ arguments => arguments
  | _ => []

def PendingValue.children (context : FreezeContext) (value : PendingValue) : List PendingValue :=
  value.base.children context ++ value.operations.steps.flatMap (·.operation.children)

/-- A link whose first argument is a link has a parameter for it. -/
def LinkHasParameter (value : PendingValue) : Prop :=
  ∀ call arguments first, value.base = .pendingDirectCall call arguments →
    chainedArgument arguments = some first → call.signature.parameters ≠ []

/-- Every value frozen on the way has its parameters. -/
def Supplied (context : FreezeContext) (value : PendingValue) : Prop :=
  ∀ part, Relation.ReflTransGen (fun whole part => part ∈ whole.children context) value part →
    LinkHasParameter part

variable {context : FreezeContext} {value : PendingValue}

theorem Supplied.here (h : Supplied context value) : LinkHasParameter value :=
  h value .refl

theorem Supplied.child {child : PendingValue} (h : Supplied context value)
    (hchild : child ∈ value.children context) : Supplied context child :=
  fun part hpart => h part (.head hchild hpart)

theorem supplied_of_children (hhere : LinkHasParameter value)
    (hchildren : ∀ child ∈ value.children context, Supplied context child) :
    Supplied context value := by
  intro part hpart
  rcases hpart.cases_head with rfl | ⟨child, hchild, hpart⟩
  · exact hhere
  · exact hchildren child hchild part hpart

/-! ## Freezing follows its recursive call -/

section
variable {context : FreezeContext} {errors : Prop}
  {freeze : PendingValue → Outcome FreezeError CheckedExpr}
  {run : Nat → PendingValue → Outcome FreezeError CheckedExpr}

def FollowsOn (errors : Prop) (freeze : PendingValue → Outcome FreezeError CheckedExpr)
    (run : Nat → PendingValue → Outcome FreezeError CheckedExpr) (values : List PendingValue) :
    Prop :=
  ∀ value ∈ values, Outcome.Follows errors (freeze value) (fun fuel => run fuel value)

variable {value : PendingValue}

theorem freezeCallableChoice_follows
    (h : Outcome.Follows errors (freeze value) (fun fuel => run fuel value)) :
    Outcome.Follows errors (freezeCallableChoice context freeze value)
      (fun fuel => freezeCallableChoice context (run fuel) value) := by
  unfold freezeCallableChoice
  split
  case h_5 => exact h.bind fun frozen => Outcome.Follows.refl _
  all_goals exact Outcome.Follows.refl _

theorem argumentValue_follows (frozen : Option CheckedExpr)
    (h : Outcome.Follows errors (freeze value) (fun fuel => run fuel value)) :
    Outcome.Follows errors (argumentValue freeze frozen value)
      (fun fuel => argumentValue (run fuel) frozen value) := by
  cases frozen with
  | some first => exact Outcome.Follows.refl _
  | none => exact h

theorem argumentChoice_follows (frozen : Option CheckedExpr)
    (h : Outcome.Follows errors (freeze value) (fun fuel => run fuel value)) :
    Outcome.Follows errors (argumentChoice context freeze frozen value)
      (fun fuel => argumentChoice context (run fuel) frozen value) := by
  cases frozen with
  | some first => exact Outcome.Follows.refl _
  | none => exact freezeCallableChoice_follows h

theorem freezeOperand_follows (call : PendingCall) (operand : FrozenOperand)
    {argument : PendingValue × Nat}
    (h : Outcome.Follows errors (freeze argument.1) (fun fuel => run fuel argument.1)) :
    Outcome.Follows errors (freezeOperand context freeze call operand argument)
      (fun fuel => freezeOperand context (run fuel) call operand argument) := by
  unfold freezeOperand
  refine (Outcome.Follows.refl _).bind fun parameter => ?_
  split
  · exact (argumentChoice_follows _ h).bind fun choice => Outcome.Follows.refl _
  · exact (argumentValue_follows _ h).bind fun frozen => Outcome.Follows.refl _

theorem freezePendingCall_follows (call : PendingCall) {values : List PendingValue}
    (operand : FrozenOperand) (h : FollowsOn errors freeze run values) :
    Outcome.Follows errors (freezePendingCall context freeze call values operand)
      (fun fuel => freezePendingCall context (run fuel) call values operand) := by
  unfold freezePendingCall
  refine (Outcome.Follows.refl _).bind fun receiver => ?_
  refine (Outcome.Follows.mapM _ fun argument hmem => ?_).bind fun arguments =>
    Outcome.Follows.refl _
  exact freezeOperand_follows call operand (h _ (List.fst_mem_of_mem_zipIdx hmem))

theorem freezeOpaqueOperand_follows {operand : PendingValue} (operandType : InferenceType)
    (site : Solver.ExpectedTypeSite)
    (h : Outcome.Follows errors (freeze operand) (fun fuel => run fuel operand)) :
    Outcome.Follows errors (freezeOpaqueOperand context freeze operand operandType site)
      (fun fuel => freezeOpaqueOperand context (run fuel) operand operandType site) :=
  h.bind fun _ => Outcome.Follows.refl _

theorem freezeRecordFields_follows {fields : List PendingRecordField}
    (h : FollowsOn errors freeze run (fields.map (·.value))) :
    Outcome.Follows errors (freezeRecordFields context freeze fields)
      (fun fuel => freezeRecordFields context (run fuel) fields) := by
  unfold freezeRecordFields
  refine (Outcome.Follows.mapM _ fun field hmem => ?_).bind fun frozen => Outcome.Follows.refl _
  exact (h _ (List.mem_map_of_mem hmem)).bind fun value => Outcome.Follows.refl _

theorem freezeInterpolated_follows {parts : List PendingValue} (span : Span)
    (h : FollowsOn errors freeze run parts) :
    Outcome.Follows errors (freezeInterpolated freeze parts span)
      (fun fuel => freezeInterpolated (run fuel) parts span) := by
  unfold freezeInterpolated
  refine (Outcome.Follows.mapM _ fun part hmem => ?_).bind fun values => Outcome.Follows.refl _
  exact (h part hmem).bind fun value => Outcome.Follows.refl _

theorem freezePendingForm_follows (h : FollowsOn errors freeze run (value.base.children context)) :
    Outcome.Follows errors (freezePendingForm context freeze value)
      (fun fuel => freezePendingForm context (run fuel) value) := by
  obtain ⟨span, base, baseType, baseSpan, operations⟩ := value
  cases base with
  | pendingContext id =>
    simp only [freezePendingForm, PendingBase.children] at h ⊢
    generalize context.constructions[id]? = work at h ⊢
    rcases work with _ | _ | completed
    iterate 2 · exact Outcome.Follows.refl _
    · exact (h completed (by simp)).bind fun frozen => Outcome.Follows.refl _
  | pendingConstructOpaque conversion operand | pendingProjectOpaque conversion operand =>
    exact (freezeOpaqueOperand_follows _ _ (h operand (by simp [PendingBase.children]))).bind
      fun frozen => Outcome.Follows.refl _
  | pendingConstructRecord owner fields =>
    exact (freezeRecordFields_follows h).bind fun frozen => Outcome.Follows.refl _
  | pendingUpdateRecord owner base expressionSpan fields inherited =>
    have hbase := h base (by simp [PendingBase.children])
    have hfields : FollowsOn errors freeze run (fields.map (·.value)) :=
      fun part hmem => h part (List.mem_cons_of_mem _ hmem)
    refine Outcome.Follows.bind (hbase.bind fun frozenBase => ?_) fun update =>
      Outcome.Follows.refl _
    exact (freezeRecordFields_follows hfields).bind fun replacements => Outcome.Follows.refl _
  | pendingConstructVariant contract values | pendingConstructTuple values
  | pendingConstructList source values =>
    exact (Outcome.Follows.mapM _ h).bind fun frozen => Outcome.Follows.refl _
  | pendingInterpolatedString values =>
    exact (freezeInterpolated_follows _ h).bind fun joined => Outcome.Follows.refl _
  | pendingDirectCall call arguments =>
    exact (freezePendingCall_follows call _ h).bind fun resolved => Outcome.Follows.refl _
  | _ => exact Outcome.Follows.refl _

theorem freezePendingStep_follows (receiver : CheckedExpr) {step : PendingStep}
    (h : FollowsOn errors freeze run step.operation.children) :
    Outcome.Follows errors (freezePendingStep context freeze receiver step)
      (fun fuel => freezePendingStep context (run fuel) receiver step) := by
  obtain ⟨operation, valueType, span⟩ := step
  cases operation with
  | acceptedTupleElement position => exact Outcome.Follows.refl _
  | acceptedField field => exact Outcome.Follows.refl _
  | pendingInvocation call values =>
    have hvalues : FollowsOn errors freeze run values := h
    exact (freezePendingCall_follows call _ hvalues).bind fun resolved => Outcome.Follows.refl _

theorem finishPendingValue_follows (base : CheckedForm)
    (h : FollowsOn errors freeze run (value.operations.steps.flatMap (·.operation.children))) :
    Outcome.Follows errors (finishPendingValue context freeze value base)
      (fun fuel => finishPendingValue context (run fuel) value base) := by
  unfold finishPendingValue
  refine (Outcome.Follows.refl _).bind fun baseType => ?_
  refine (Outcome.Follows.refl _).bind fun proved => ?_
  refine Outcome.Follows.foldlM _ _ fun step hmem receiver => ?_
  refine freezePendingStep_follows receiver fun part hpart => h part ?_
  exact List.mem_flatMap.mpr ⟨step, List.mem_reverse.mp hmem, hpart⟩

section

variable (h : FollowsOn errors freeze run (value.children context))

include h

theorem FollowsOn.base : FollowsOn errors freeze run (value.base.children context) :=
  fun part hmem => h part (List.mem_append_left _ hmem)

theorem FollowsOn.steps :
    FollowsOn errors freeze run (value.operations.steps.flatMap (·.operation.children)) :=
  fun part hmem => h part (List.mem_append_right _ hmem)

theorem freezeWholeValue_follows : Outcome.Follows errors (freezeWholeValue context freeze value)
      (fun fuel => freezeWholeValue context (run fuel) value) :=
  (freezePendingForm_follows h.base).bind fun form => finishPendingValue_follows form h.steps

end

theorem freezeCallLink_follows {call : PendingCall} {arguments : List PendingValue}
    (hbase : value.base = .pendingDirectCall call arguments) (below : Option CheckedExpr)
    (h : FollowsOn errors freeze run (value.children context)) :
    Outcome.Follows errors (freezeCallLink context freeze ⟨value, call, arguments⟩ below)
      (fun fuel => freezeCallLink context (run fuel) ⟨value, call, arguments⟩ below) := by
  have harguments : FollowsOn errors freeze run arguments := by
    have := h.base
    rw [hbase] at this
    exact this
  exact (freezePendingCall_follows call _ harguments).bind fun resolved =>
    finishPendingValue_follows _ h.steps

end

/-! ## A link and its first argument -/

section
variable {context : FreezeContext} {freeze : PendingValue → Outcome FreezeError CheckedExpr}

variable {arguments : List PendingValue} {link : PendingCallLink} {value : PendingValue}
variable {call : PendingCall}

theorem chainedArgument_some (h : chainedArgument arguments = some link) :
    (∃ rest, arguments = link.value :: rest) ∧
      link.value.base = .pendingDirectCall link.call link.arguments := by
  cases arguments with
  | nil => cases h
  | cons first rest =>
    obtain ⟨span, base, baseType, baseSpan, operations⟩ := first
    cases base with
    | pendingDirectCall call inner =>
      cases h
      exact ⟨⟨rest, rfl⟩, rfl⟩
    | _ => cases h

theorem freezeCallableChoice_call (hbase : value.base = .pendingDirectCall call arguments) :
    freezeCallableChoice context freeze value =
      (freeze value >>= fun frozen => .ok (.storedCallable frozen)) := by
  unfold freezeCallableChoice
  rw [hbase]

theorem freezeOperand_first {inner : PendingCall}
    (hbase : value.base = .pendingDirectCall inner arguments)
    (hparameters : call.signature.parameters ≠ []) :
    freezeOperand context freeze call .noFrozenOperand (value, 0) =
      (freeze value >>= fun first =>
        freezeOperand context freeze call (.frozenFirstArgument first) (value, 0)) := by
  obtain ⟨parameter, others, hparameter⟩ := List.exists_cons_of_ne_nil hparameters
  have hget : call.signature.parameters[0]? = some parameter := by
    rw [hparameter]
    rfl
  unfold freezeOperand
  simp only [hget, present, Outcome.ok_bind, FrozenOperand.argumentAt, ↓reduceIte, argumentChoice,
    argumentValue, freezeCallableChoice_call hbase]
  split
  · rw [Outcome.bind_assoc]
    rfl
  · rfl

theorem freezeOperand_later (call : PendingCall) (first : CheckedExpr)
    {argument : PendingValue × Nat} (hposition : argument.2 ≠ 0) :
    freezeOperand context freeze call (.frozenFirstArgument first) argument =
      freezeOperand context freeze call .noFrozenOperand argument := by
  unfold freezeOperand
  simp [FrozenOperand.argumentAt, hposition]

theorem mapM_congr {α β ε : Type} {f g : α → Outcome ε β} :
    ∀ xs : List α, (∀ x ∈ xs, f x = g x) → xs.mapM f = xs.mapM g := by
  intro xs
  induction xs with
  | nil =>
    intro _
    rfl
  | cons x xs ih =>
    intro h
    rw [List.mapM_cons, List.mapM_cons, h x (by simp),
      ih fun y hy => h y (List.mem_cons_of_mem _ hy)]

variable {rest : List PendingValue} {first next : PendingCallLink} {links : List PendingCallLink}

/-- **Handing a link its first argument changes nothing**, as the link freezes it first. -/
theorem freezePendingCall_first {inner : PendingCall}
    (hbase : value.base = .pendingDirectCall inner arguments)
    (hparameters : call.signature.parameters ≠ []) :
    freezePendingCall context freeze call (value :: rest) .noFrozenOperand =
      (freeze value >>= fun first =>
        freezePendingCall context freeze call (value :: rest) (.frozenFirstArgument first)) := by
  have hlater : ∀ first, (rest.zipIdx 1).mapM
        (freezeOperand context freeze call (.frozenFirstArgument first)) =
      (rest.zipIdx 1).mapM (freezeOperand context freeze call .noFrozenOperand) := by
    intro first
    refine mapM_congr _ fun argument hmem => freezeOperand_later call first ?_
    have := List.le_snd_of_mem_zipIdx hmem
    omega
  unfold freezePendingCall
  simp only [receiverOperands, Outcome.ok_bind, FrozenOperand.firstPosition, List.zipIdx_cons,
    Nat.zero_add, List.mapM_cons, Outcome.bind_assoc, freezeOperand_first hbase hparameters,
    hlater]
  rfl

theorem freezePendingCall_unsupplied {operand : FrozenOperand} (hfirst : operand.firstPosition = 0)
    (hreceiver : receiverOperands call operand = .ok [])
    (hparameters : call.signature.parameters = []) :
    freezePendingCall context freeze call (value :: rest) operand =
      .err (.missingCallParameter value.span 0) := by
  unfold freezePendingCall
  simp only [hreceiver, Outcome.ok_bind, hfirst, List.zipIdx_cons, List.mapM_cons]
  unfold freezeOperand
  simp [hparameters, present, Outcome.err_bind]

/-! ## Chains -/

theorem freezeWholeValue_call (hbase : value.base = .pendingDirectCall call arguments) :
    freezeWholeValue context freeze value =
      freezeCallLink context freeze ⟨value, call, arguments⟩ none := by
  unfold freezeWholeValue freezePendingForm freezeCallLink
  rw [hbase]
  simp only [Outcome.bind_assoc, Outcome.ok_bind, frozenBelow]

theorem freezeCallLink_first (hfirst : chainedArgument link.arguments = some first)
    (hparameters : link.call.signature.parameters ≠ []) :
    freezeCallLink context freeze link none =
      (freeze first.value >>= fun below => freezeCallLink context freeze link (some below)) := by
  obtain ⟨⟨rest, hrest⟩, hbase⟩ := chainedArgument_some hfirst
  unfold freezeCallLink
  rw [hrest]
  simp only [frozenBelow, freezePendingCall_first hbase hparameters, Outcome.bind_assoc]

theorem freezeCallLink_unsupplied (hfirst : chainedArgument link.arguments = some first)
    (hparameters : link.call.signature.parameters = []) (below : Option CheckedExpr) :
    freezeCallLink context freeze link below = .err (.missingCallParameter first.value.span 0) := by
  obtain ⟨⟨rest, hrest⟩, -⟩ := chainedArgument_some hfirst
  unfold freezeCallLink
  rw [hrest]
  cases below with
  | none | some first => rw [freezePendingCall_unsupplied rfl rfl hparameters, Outcome.err_bind]

theorem collectLinks_none (h : chainedArgument link.arguments = none) :
    collectLinks links link = (links, link) := by
  rw [collectLinks]
  split
  · rfl
  · rename_i next hnext
    rw [h] at hnext
    cases hnext

theorem collectLinks_some (h : chainedArgument link.arguments = some next) :
    collectLinks links link = collectLinks (links ++ [link]) next := by
  rw [collectLinks]
  split
  · rename_i hnone
    rw [h] at hnone
    cases hnone
  · rename_i other hother
    rw [h] at hother
    cases hother
    rfl

theorem collectLinks_append (link : PendingCallLink) : ∀ links : List PendingCallLink,
    collectLinks links link =
      (links ++ (collectLinks [] link).1, (collectLinks [] link).2) := by
  generalize hsize : sizeOf link.arguments = size
  induction size using Nat.strong_induction_on generalizing link with
  | _ size ih =>
    intro links
    cases hnext : chainedArgument link.arguments with
    | none => rw [collectLinks_none hnext, collectLinks_none hnext, List.append_nil]
    | some next =>
      have hless := sizeOf_chainedArgument hnext
      have hrest := ih (sizeOf next.arguments) (by omega) next rfl
      rw [collectLinks_some hnext, collectLinks_some hnext, hrest (links ++ [link]),
        hrest ([] ++ [link])]
      simp

variable (context freeze) in
/-- What the loop has frozen when it comes to the link above. -/
def freezeBelow (link : PendingCallLink) : Outcome FreezeError CheckedExpr :=
  freezeCallLink context freeze (collectLinks [] link).2 none >>= fun current =>
    (collectLinks [] link).1.reverse.foldlM
      (fun below link => freezeCallLink context freeze link (some below)) current

theorem freezeBelow_none (h : chainedArgument link.arguments = none) :
    freezeBelow context freeze link = freezeCallLink context freeze link none := by
  unfold freezeBelow
  rw [collectLinks_none h]
  cases freezeCallLink context freeze link none with
  | ok current => rfl
  | err error => rfl
  | timeout => rfl

theorem freezeBelow_some (h : chainedArgument link.arguments = some next) :
    freezeBelow context freeze link =
      (freezeBelow context freeze next >>= fun below =>
        freezeCallLink context freeze link (some below)) := by
  have hlinks := collectLinks_append next ([] ++ [link])
  unfold freezeBelow
  rw [collectLinks_some h, hlinks]
  simp only [List.nil_append, List.singleton_append, List.reverse_cons, List.foldlM_append,
    Outcome.bind_assoc, List.foldlM_cons, List.foldlM_nil]
  congr 1
  funext current
  congr 1
  funext below
  cases freezeCallLink context freeze link (some below) with
  | ok value => rfl
  | err error => rfl
  | timeout => rfl

theorem freezeCallChain_eq (link first : PendingCallLink) :
    freezeCallChain context freeze link first =
      (freezeBelow context freeze first >>= fun below =>
        freezeCallLink context freeze link (some below)) := by
  unfold freezeCallChain freezeBelow
  rw [Outcome.bind_assoc]

theorem freezeLinkedValue_call (hbase : value.base = .pendingDirectCall call arguments) :
    freezeLinkedValue context freeze value =
      freezeBelow context freeze ⟨value, call, arguments⟩ := by
  unfold freezeLinkedValue
  rw [hbase]
  cases hfirst : chainedArgument arguments with
  | none =>
    simp only [hfirst]
    rw [freezeWholeValue_call hbase, freezeBelow_none hfirst]
  | some first =>
    simp only [hfirst]
    rw [freezeCallChain_eq]
    exact (freezeBelow_some hfirst).symm

theorem freezeLinkedValue_whole
    (h : ∀ call arguments, value.base = .pendingDirectCall call arguments →
      chainedArgument arguments = none) :
    freezeLinkedValue context freeze value = freezeWholeValue context freeze value := by
  unfold freezeLinkedValue
  split
  · rename_i call arguments hbase
    rw [h call arguments hbase]
  · rfl

end

/-! ## The two recursions -/

section
variable {context : FreezeContext} {errors : Prop}

theorem chain_or_whole (value : PendingValue) :
    (∃ call arguments first, value.base = .pendingDirectCall call arguments ∧
      chainedArgument arguments = some first) ∨
    ∀ call arguments, value.base = .pendingDirectCall call arguments →
      chainedArgument arguments = none := by
  by_cases h : ∃ call arguments first, value.base = .pendingDirectCall call arguments ∧
      chainedArgument arguments = some first
  · exact .inl h
  · refine .inr fun call arguments hbase => ?_
    cases hfirst : chainedArgument arguments with
    | none => rfl
    | some first => exact absurd ⟨call, arguments, first, hbase, hfirst⟩ h

theorem chained_child {call : PendingCall} {arguments : List PendingValue} {first : PendingCallLink}
    (hbase : value.base = .pendingDirectCall call arguments)
    (hfirst : chainedArgument arguments = some first) : first.value ∈ value.children context := by
  obtain ⟨⟨rest, hrest⟩, -⟩ := chainedArgument_some hfirst
  refine List.mem_append_left _ ?_
  rw [hbase]
  show first.value ∈ arguments
  rw [hrest]
  exact List.mem_cons_self

/-- What the recursion ends with, the loop settles in. -/
theorem freezeRecursively_follows : ∀ (bound : Nat) (value : PendingValue),
    (errors → Supplied context value) →
    Outcome.Follows errors (freezeRecursively context bound value)
      (fun fuel => freezePendingValue context fuel value) := by
  intro bound
  induction bound with
  | zero =>
    intro value _
    exact Outcome.Follows.timeout _
  | succ bound ih =>
    intro value hsupplied
    have hchildren : FollowsOn errors (freezeRecursively context bound)
        (freezePendingValue context) (value.children context) :=
      fun child hchild => ih child fun he => (hsupplied he).child hchild
    refine Outcome.Follows.succ (fun fuel => rfl) ?_
    show Outcome.Follows errors
      (freezeWholeValue context (freezeRecursively context bound) value)
      (fun fuel => freezeLinkedValue context (freezePendingValue context fuel) value)
    rcases chain_or_whole value with ⟨call, arguments, first, hbase, hfirst⟩ | hwhole
    · rw [freezeWholeValue_call hbase]
      by_cases hparameters : call.signature.parameters = []
      · have herrors : ¬ errors := fun he =>
          (hsupplied he).here call arguments first hbase hfirst hparameters
        have hnone : freezeCallLink context (freezeRecursively context bound)
            ⟨value, call, arguments⟩ none = .err (.missingCallParameter first.value.span 0) :=
          freezeCallLink_unsupplied hfirst hparameters none
        rw [hnone]
        exact Outcome.Follows.err_of_not herrors _ _
      · have hlink : freezeCallLink context (freezeRecursively context bound)
            ⟨value, call, arguments⟩ none = _ := freezeCallLink_first hfirst hparameters
        rw [hlink]
        have hbelow : Outcome.Follows errors (freezeRecursively context bound first.value)
            (fun fuel => freezeBelow context (freezePendingValue context fuel) first) := by
          have hfirstbase := (chainedArgument_some hfirst).2
          have hshift := (hchildren first.value (chained_child hbase hfirst)).shift
          have hstep : ∀ fuel, freezePendingValue context (fuel + 1) first.value =
              freezeBelow context (freezePendingValue context fuel) first := fun fuel =>
            freezeLinkedValue_call hfirstbase
          simpa only [hstep] using hshift
        have hrun : ∀ fuel, freezeLinkedValue context (freezePendingValue context fuel) value =
            (freezeBelow context (freezePendingValue context fuel) first >>= fun below =>
              freezeCallLink context (freezePendingValue context fuel) ⟨value, call, arguments⟩
                (some below)) := by
          intro fuel
          rw [freezeLinkedValue_call hbase]
          exact freezeBelow_some hfirst
        simp only [hrun]
        exact hbelow.bind fun below => freezeCallLink_follows hbase (some below) hchildren
    · simp only [freezeLinkedValue_whole hwhole]
      exact freezeWholeValue_follows hchildren

/-- What the loop ends with, the recursion settles in: by induction on the chain. -/
theorem freezeBelow_follows {freeze : PendingValue → Outcome FreezeError CheckedExpr}
    (hfreeze : ∀ value, (errors → Supplied context value) →
      Outcome.Follows errors (freeze value) (fun fuel => freezeRecursively context fuel value)) :
    ∀ (link : PendingCallLink), link.value.base = .pendingDirectCall link.call link.arguments →
      (errors → Supplied context link.value) →
      Outcome.Follows errors (freezeBelow context freeze link)
        (fun fuel => freezeRecursively context fuel link.value) := by
  intro link
  generalize hsize : sizeOf link.arguments = size
  induction size using Nat.strong_induction_on generalizing link with
  | _ size ih =>
    intro hbase hsupplied
    have hchildren : FollowsOn errors freeze (freezeRecursively context)
        (link.value.children context) :=
      fun child hchild => hfreeze child fun he => (hsupplied he).child hchild
    have hstep : ∀ fuel, freezeRecursively context (fuel + 1) link.value =
        freezeCallLink context (freezeRecursively context fuel) link none := fun fuel =>
      freezeWholeValue_call hbase
    refine Outcome.Follows.succ hstep ?_
    cases hfirst : chainedArgument link.arguments with
    | none =>
      rw [freezeBelow_none hfirst]
      exact freezeCallLink_follows hbase none hchildren
    | some first =>
      have hless := sizeOf_chainedArgument hfirst
      have hfirstbase := (chainedArgument_some hfirst).2
      have hbelow := ih (sizeOf first.arguments) (by omega) first rfl hfirstbase fun he =>
        (hsupplied he).child (chained_child hbase hfirst)
      rw [freezeBelow_some hfirst]
      by_cases hparameters : link.call.signature.parameters = []
      · have herrors : ¬ errors := fun he =>
          (hsupplied he).here link.call link.arguments first hbase hfirst hparameters
        simp only [freezeCallLink_unsupplied hfirst hparameters]
        cases freezeBelow context freeze first with
        | ok below => exact Outcome.Follows.err_of_not herrors _ _
        | err error => exact Outcome.Follows.err_of_not herrors _ _
        | timeout => exact Outcome.Follows.timeout _
      · simp only [freezeCallLink_first hfirst hparameters]
        exact hbelow.bind fun below => freezeCallLink_follows hbase (some below) hchildren

theorem freezePendingValue_follows : ∀ (bound : Nat) (value : PendingValue),
    (errors → Supplied context value) →
    Outcome.Follows errors (freezePendingValue context bound value)
      (fun fuel => freezeRecursively context fuel value) := by
  intro bound
  induction bound with
  | zero =>
    intro value _
    exact Outcome.Follows.timeout _
  | succ bound ih =>
    intro value hsupplied
    show Outcome.Follows errors
      (freezeLinkedValue context (freezePendingValue context bound) value) _
    rcases chain_or_whole value with ⟨call, arguments, first, hbase, hfirst⟩ | hwhole
    · rw [freezeLinkedValue_call hbase]
      exact freezeBelow_follows ih ⟨value, call, arguments⟩ hbase hsupplied
    · rw [freezeLinkedValue_whole hwhole]
      refine Outcome.Follows.succ (fun fuel => rfl) (freezeWholeValue_follows ?_)
      exact fun child hchild => ih child fun he => (hsupplied he).child hchild

end

end Blorp.Check.Freezing
