import Blorp.Check.EqualityBodies
import Blorp.Check.Evaluation

/-!
# Automatic equality is structural

A template compares the fields of two values in declaration order and stops at the first
that differ; values of different variants are unequal before any field is read.  What a
field's `equals` answers and does is whatever the call of its method means (`fieldEquals`),
so the result (`equalityTemplate_structural`) is about every effect and every outcome.
-/

namespace Blorp.Check

open NodeGraph

variable {World : Type}

/-! ## Structural comparison -/

/-- What the equality of a type answers on two values. -/
def fieldEquals (context : BodyContext World) (method : TraitMethodId)
    (boolean : DesignatedBoolean VariantId) (type : TypeRef) (left right : BodyValue)
    (world : World) : Option (Bool × World) := do
  let (answer, after) ← context.call (methodCallee context.traits ⟨method, type⟩) [left, right] world
  let same ← isTrue boolean answer
  some (same, after)

/-- Pairs in order, up to the first that is unequal. -/
def compareAll (equals : TypeRef → BodyValue → BodyValue → World → Option (Bool × World)) :
    List (TypeRef × BodyValue × BodyValue) → World → Option (Bool × World)
  | [], world => some (true, world)
  | (type, left, right) :: pairs, world => do
      let (same, after) ← equals type left right world
      if same then compareAll equals pairs after else some (false, after)

/-- A value of a declaration: its tag, and its fields at their declared types. -/
inductive AggregateValue (records : List CheckedRecord) (unions : List CheckedUnion) :
    AggregateId → BodyValue → Option VariantId → List (TypeRef × BodyValue) → Prop where
  | record {id : RecordId} {row : CheckedRecord} {values : List BodyValue}
      (declared : records[id]? = some row) (complete : values.length = row.fields.length) :
      AggregateValue records unions (.recordAggregate id) (.scalar (.record id values)) none
        ((row.fields.map (·.valueType.valueType)).zip values)
  | variant {id : UnionId} {row : CheckedUnion} {variant : CheckedVariant} {values : List BodyValue}
      (declared : unions[id]? = some row) (listed : variant ∈ row.variants)
      (complete : values.length = variant.fields.length) :
      AggregateValue records unions (.unionAggregate id) (.variant variant.id values)
        (some variant.id) ((variant.fields.map (·.valueType)).zip values)

def correspondingFields (left right : List (TypeRef × BodyValue)) :
    List (TypeRef × BodyValue × BodyValue) :=
  left.zipWith (fun first second => (first.1, first.2, second.2)) right

/-- Fields and variants are numbered as they are declared. -/
structure NumberedDeclarations (records : List CheckedRecord) (unions : List CheckedUnion) :
    Prop where
  fields : ∀ (id : RecordId) (row : CheckedRecord), records[id]? = some row →
    ∀ (position : Nat) (field : CheckedField), row.fields[position]? = some field →
      field.id = ⟨id, position⟩
  variants : ∀ (id : UnionId) (row : CheckedUnion), unions[id]? = some row →
    ∀ (position : Nat) (variant : CheckedVariant), row.variants[position]? = some variant →
      variant.id = ⟨id, position⟩

theorem compareAll_append (equals : TypeRef → BodyValue → BodyValue → World → Option (Bool × World))
    (pairs more : List (TypeRef × BodyValue × BodyValue)) (world : World) :
    compareAll equals (pairs ++ more) world =
      (compareAll equals pairs world).bind fun answer =>
        if answer.1 then compareAll equals more answer.2 else some (false, answer.2) := by
  induction pairs generalizing world with
  | nil => rfl
  | cons pair pairs ih =>
    obtain ⟨type, left, right⟩ := pair
    simp only [List.cons_append, compareAll]
    rcases equals type left right world with _ | ⟨same, after⟩
    · rfl
    · cases same with
      | false => rfl
      | true => exact ih after

theorem compareAll_pure {equals : TypeRef → BodyValue → BodyValue → World → Option (Bool × World)}
    {same : TypeRef → BodyValue → BodyValue → Bool}
    {pairs : List (TypeRef × BodyValue × BodyValue)}
    (hpure : ∀ pair ∈ pairs, ∀ world,
      equals pair.1 pair.2.1 pair.2.2 world = some (same pair.1 pair.2.1 pair.2.2, world))
    (world : World) :
    compareAll equals pairs world =
      some (pairs.all fun pair => same pair.1 pair.2.1 pair.2.2, world) := by
  induction pairs with
  | nil => rfl
  | cons pair pairs ih =>
    obtain ⟨type, left, right⟩ := pair
    have hfirst := hpure _ List.mem_cons_self world
    have hrest := ih fun other hother => hpure other (List.mem_cons_of_mem _ hother)
    simp only [compareAll, hfirst, List.all_cons]
    cases hsame : same type left right with
    | false => rfl
    | true => exact hrest

/-! ## Comparisons in order -/

section

variable (context : BodyContext World) (boolean : DesignatedBoolean VariantId)

/-- A truth value computed in a frame whose bindings stay. -/
def answerIn (frame : Frame World) (answer : Bool × World) :
    Except Escape BodyValue × Frame World :=
  (.ok (.variant (booleanVariant answer.1 boolean) []), { frame with world := answer.2 })

variable {frame : Frame World} {value : BodyValue} {bindings : BindingId → Option BodyValue}
variable {left right values : List BodyValue} {position base : Nat} {id : BindingId} {span : Span}
variable {method : SignedTraitMethod} {type : TypeRef} {variant : VariantId} {fields : List TypeUse}
variable {payload : CapturedPayload} {root : CheckedPatternPlace}

theorem eval_compare {left right : CheckedExpr} {l r : BodyValue} (method : SignedTraitMethod)
    (hleft : evalExpr context left frame = some (.ok l, frame))
    (hright : evalExpr context right frame = some (.ok r, frame)) :
    evalExpr context (compare left right method) frame =
      invoke context (methodCallee context.traits ⟨method.id, left.valueType⟩) [l, r] frame := by
  simp only [compare, evalExpr, evalForm, evalCall, evalTarget, evalOperands, evalOperand]
  simp [bind, pure, hleft, hright]

/-- Two arms, the second of which is entered on one tag. -/
theorem enterSelection_tag (type : TypeRef) (tag id : VariantId) (fields : List BodyValue)
    (arguments : List CheckedPatternArgument) :
    enterSelection (.variant id fields) ⟨[.enterArm 0 [], .enterArm 1 arguments,
        .testVariant (.mk type .matchRoot) tag 1 0], 2⟩ =
      if id = tag then
        (arguments.mapM (readArgument (.variant id fields))).map fun values => (1, values)
      else some (0, []) := by
  by_cases hid : id = tag
  · have hwalk : walk (σ := Scalar) (.variant id fields) ⟨[.enterArm 0 [], .enterArm 1 arguments,
        .testVariant (.mk type .matchRoot) tag 1 0], 2⟩ 3 = some (1, arguments) := by
      simp [walk, run, decide1, readPlace, readRoute, hid]
    rw [if_pos hid]
    show (walk _ _ 3).bind _ = _
    rw [hwalk]
    show (arguments.mapM (readArgument (.variant id fields))).bind _ = _
    cases arguments.mapM (readArgument (.variant id fields)) <;> rfl
  · have hwalk : walk (σ := Scalar) (.variant id fields) ⟨[.enterArm 0 [], .enterArm 1 arguments,
        .testVariant (.mk type .matchRoot) tag 1 0], 2⟩ 3 = some (0, []) := by
      simp [walk, run, decide1, readPlace, readRoute, hid]
    rw [if_neg hid]
    show (walk _ _ 3).bind _ = _
    rw [hwalk]
    rfl

theorem eval_andThen {comparison : CheckedExpr} (following : CheckedExpr) {after : Frame World}
    (h : evalExpr context comparison frame = some (.ok value, after)) :
    evalExpr context (andThen comparison following boolean) frame =
      (isTrue boolean value).bind fun same =>
        if same then evalExpr context following after
        else some (answerIn boolean after (false, after.world)) := by
  simp only [andThen, evalExpr, evalForm, evalJoin]
  simp only [bind, h, present]
  cases value with
  | variant id fields =>
    rw [enterSelection_tag]
    by_cases hid : id = boolean.trueVariant
    · simp only [isTrue, hid]
      rfl
    · simp only [isTrue, hid]
      rfl
  | _ => rfl

theorem eval_compareThen {left right : CheckedExpr} {l r : BodyValue} (method : SignedTraitMethod)
    (following : CheckedExpr) (hleft : evalExpr context left frame = some (.ok l, frame))
    (hright : evalExpr context right frame = some (.ok r, frame)) :
    evalExpr context (andThen (compare left right method) following boolean) frame =
      (fieldEquals context method.id boolean left.valueType l r frame.world).bind fun answer =>
        if answer.1 then evalExpr context following { frame with world := answer.2 }
        else some (answerIn boolean frame (false, answer.2)) := by
  have hcompare := eval_compare context method hleft hright
  unfold fieldEquals
  cases hcall : context.call (methodCallee context.traits ⟨method.id, left.valueType⟩) [l, r]
      frame.world with
  | none =>
    have hstuck : evalExpr context (compare left right method) frame = none := by
      rw [hcompare]
      unfold invoke
      rw [hcall]
      rfl
    simp only [andThen, evalExpr, evalForm, evalJoin]
    simp only [bind, hstuck]
    rfl
  | some result =>
    obtain ⟨value, world⟩ := result
    have hvalue : evalExpr context (compare left right method) frame =
        some (.ok value, { frame with world := world }) := by
      rw [hcompare]
      unfold invoke
      rw [hcall]
      rfl
    rw [eval_andThen context boolean following hvalue]
    cases hsame : isTrue boolean value with
    | none => simp [hsame]
    | some same => simp [hsame]; rfl

section

variable (equals : TypeRef → BodyValue → BodyValue → World → Option (Bool × World))
    (pairs : List (TypeRef × BodyValue × BodyValue)) (step : Nat → CheckedExpr → CheckedExpr)
    (hstep : ∀ (position : Nat) (pair : TypeRef × BodyValue × BodyValue), pairs[position]? =
      some pair → ∀ following world, evalExpr context (step position following) ⟨bindings, world⟩ =
      (equals pair.1 pair.2.1 pair.2.2 world).bind fun answer => if answer.1 then evalExpr context
      following ⟨bindings, answer.2⟩ else some (answerIn boolean ⟨bindings, world⟩ (false,
      answer.2)))

include hstep

theorem eval_comparisons (following : CheckedExpr) (world : World) : ∀ count, count ≤ pairs.length →
      evalExpr context (count.foldRev (fun position _ result => step position result) following)
          ⟨bindings, world⟩ =
        (compareAll equals (pairs.take count) world).bind fun answer =>
          if answer.1 then evalExpr context following ⟨bindings, answer.2⟩
          else some (answerIn boolean ⟨bindings, world⟩ (false, answer.2)) := by
  intro count
  induction count generalizing following with
  | zero =>
    intro _
    rfl
  | succ count ih =>
    intro hcount
    have hlt : count < pairs.length := by omega
    have hpair : pairs[count]? = some pairs[count] := List.getElem?_eq_getElem hlt
    have htake : pairs.take (count + 1) = pairs.take count ++ [pairs[count]] := by
      rw [List.take_add_one, hpair]
      rfl
    rw [Nat.foldRev_succ, ih (step count following) (by omega), htake, compareAll_append]
    rcases compareAll equals (pairs.take count) world with _ | ⟨same, after⟩
    · rfl
    · cases same with
      | false => rfl
      | true =>
        show evalExpr context (step count following) ⟨bindings, after⟩ = _
        rw [hstep count _ hpair following after]
        obtain ⟨type, left, right⟩ := pairs[count]
        show _ = (compareAll equals [(type, left, right)] after).bind _
        simp only [compareAll]
        rcases equals type left right after with _ | ⟨same, last⟩
        · rfl
        · cases same <;> rfl

theorem eval_allComparisons (span : Span) (world : World) :
    evalExpr context (pairs.length.foldRev (fun position _ result => step position result)
        (booleanValue true boolean span)) ⟨bindings, world⟩ =
      (compareAll equals pairs world).map (answerIn boolean ⟨bindings, world⟩) := by
  rw [eval_comparisons context boolean equals pairs step hstep _ world _ (Nat.le_refl _),
    List.take_length]
  rcases compareAll equals pairs world with _ | ⟨same, after⟩
  · rfl
  · cases same <;> rfl

end

/-! ## Records -/

theorem getElem?_correspondingFields {types : List TypeRef} {pair : TypeRef × BodyValue × BodyValue}
    (h : (correspondingFields (types.zip left) (types.zip right))[position]? = some pair) :
    types[position]? = some pair.1 ∧ left[position]? = some pair.2.1 ∧
      right[position]? = some pair.2.2 := by
  unfold correspondingFields at h
  rw [List.getElem?_zipWith_eq_some] at h
  obtain ⟨first, second, hfirst, hsecond, rfl⟩ := h
  have hleft := List.getElem?_zip_eq_some.mp hfirst
  have hright := List.getElem?_zip_eq_some.mp hsecond
  exact ⟨hleft.1, hleft.2, hright.2⟩

theorem length_correspondingFields {types : List TypeRef} (hleft : left.length = types.length)
    (hright : right.length = types.length) :
    (correspondingFields (types.zip left) (types.zip right)).length = types.length := by
  simp [correspondingFields, hleft, hright]

theorem eval_readBinding {valueType : TypeRef} (h : frame.bindings id = some value) :
    evalExpr context ⟨.readBinding id, valueType, span⟩ frame = some (.ok value, frame) := by
  show (frame.bindings id).map _ = _
  rw [h]
  rfl

theorem eval_readField {receiver : TypeRef} {field : CheckedField} {id : RecordId}
    (hrecord : frame.bindings position = some (.scalar (.record id values)))
    (hvalue : values[field.id.position]? = some value) :
    evalExpr context (readField position receiver field span) frame = some (.ok value, frame) := by
  have hread : evalExpr context (readParameter position receiver span) frame =
      some (.ok (.scalar (.record id values)), frame) := eval_readBinding context hrecord
  simp only [readField, evalExpr, evalForm]
  simp only [bind, hread, present, BodyValue.field, hvalue]
  rfl

theorem eval_recordValue {row : CheckedRecord} {receiver : TypeRef} {id : RecordId}
    (hnumbered : ∀ (position : Nat) (field : CheckedField), row.fields[position]? =
      some field → field.id = ⟨id, position⟩)
    (hleft : bindings 0 = some (.scalar (.record id left))) (hl : left.length = row.fields.length)
    (hright : bindings 1 = some (.scalar (.record id right)))
    (hr : right.length = row.fields.length) (world : World) :
    evalExpr context (recordValue row receiver method boolean span) ⟨bindings, world⟩ =
      (compareAll (fieldEquals context method.id boolean) (correspondingFields
        ((row.fields.map (·.valueType.valueType)).zip left)
        ((row.fields.map (·.valueType.valueType)).zip right)) world).map
          (answerIn boolean ⟨bindings, world⟩) := by
  let pairs := correspondingFields ((row.fields.map (·.valueType.valueType)).zip left)
    ((row.fields.map (·.valueType.valueType)).zip right)
  have hlength : pairs.length = row.fields.length := by
    have hpairs : pairs.length = (row.fields.map (·.valueType.valueType)).length :=
      length_correspondingFields (by simp [hl]) (by simp [hr])
    rw [hpairs, List.length_map]
  unfold recordValue
  rw [← hlength]
  refine eval_allComparisons context boolean _ pairs _ ?_ span world
  intro position pair hpair following world
  obtain ⟨htype, hleftValue, hrightValue⟩ := getElem?_correspondingFields hpair
  rw [List.getElem?_map] at htype
  obtain ⟨field, hfield, htype⟩ := Option.map_eq_some_iff.mp htype
  have hid : field.id.position = position := by rw [hnumbered position field hfield]
  simp only [hfield]
  rw [eval_compareThen context boolean method following
    (eval_readField context hleft (by rw [hid]; exact hleftValue))
    (eval_readField context hright (by rw [hid]; exact hrightValue))]
  rw [← htype]
  rfl

/-! ## Inputs of an arm -/

theorem bindInputs_other (inputs : List (BindingId × BodyValue)) (frame : Frame World)
    (h : ∀ value, (id, value) ∉ inputs) :
    (inputs.foldl (fun frame input => frame.bind input.1 input.2) frame).bindings id =
      frame.bindings id := by
  induction inputs generalizing frame with
  | nil => rfl
  | cons input inputs ih =>
    have hid : id ≠ input.1 := by
      rintro rfl
      exact h input.2 List.mem_cons_self
    rw [List.foldl_cons, ih _ fun value hvalue => h value (List.mem_cons_of_mem _ hvalue)]
    simp [Frame.bind, if_neg hid]

theorem bindInputs_world (inputs : List (BindingId × BodyValue)) (frame : Frame World) :
    (inputs.foldl (fun frame input => frame.bind input.1 input.2) frame).world = frame.world := by
  induction inputs generalizing frame with
  | nil => rfl
  | cons input inputs ih => rw [List.foldl_cons, ih]; rfl

theorem bindInputs_at {ids : List BindingId} (frame : Frame World) (hdistinct : ids.Nodup)
    (hid : ids[position]? = some id) (hvalue : values[position]? = some value) :
    ((ids.zip values).foldl (fun frame input => frame.bind input.1 input.2) frame).bindings id =
      some value := by
  induction ids generalizing values frame position with
  | nil => cases hid
  | cons first ids ih =>
    cases values with
    | nil => cases hvalue
    | cons head values =>
      rw [List.nodup_cons] at hdistinct
      rw [List.zip_cons_cons, List.foldl_cons]
      cases position with
      | zero =>
        cases hid
        cases hvalue
        rw [bindInputs_other _ _ fun other hother =>
          hdistinct.1 (List.of_mem_zip hother).1]
        simp [Frame.bind]
      | succ position => exact ih _ hdistinct.2 hid hvalue

/-! ## Payloads -/

/-- The payload of a variant is captured in two interleaved runs of bindings, the left one
first, and read at its positions. -/
structure Captured (root : CheckedPatternPlace) (variant : VariantId) (fields : List TypeUse)
    (base : Nat) (payload : CapturedPayload) : Prop where
  left : payload.leftInputs = (List.range fields.length).map fun position => base + 2 * position
  right : payload.rightInputs =
    (List.range fields.length).map fun position => base + 2 * position + 1
  bindings : payload.bindings.length = base + 2 * fields.length
  position : payload.position = fields.length
  arguments : payload.arguments = fields.mapIdx fun position field =>
    .borrowPlace (.mk field.valueType (.unionField root variant position))

theorem captureFields_captured (root : CheckedPatternPlace) (variant : VariantId)
    (fields : List TypeUse) (bindings : List BindingDefinition) :
    Captured root variant fields bindings.length
      (fields.foldl (captureField root variant) ⟨[], [], [], bindings, 0⟩) := by
  induction fields using List.reverseRecOn with
  | nil => exact ⟨rfl, rfl, rfl, rfl, rfl⟩
  | append_singleton fields field ih =>
    rw [List.foldl_append]
    generalize fields.foldl (captureField root variant) ⟨[], [], [], bindings, 0⟩ = payload at ih
    show Captured _ _ _ _ (captureField root variant payload field)
    constructor
    · simp [captureField, ih.left, ih.bindings, List.range_succ]
    · simp [captureField, ih.right, ih.bindings, List.range_succ]
    · simp [captureField, ih.bindings]
      omega
    · simp [captureField, ih.position]
    · simp [captureField, ih.arguments, ih.position, List.mapIdx_append]

theorem readArguments_payload (type : TypeRef) (variant : VariantId) (all : List BodyValue)
    (fields : List TypeUse) : ∀ (values : List BodyValue) (offset : Nat),
      all.drop offset = values → values.length = fields.length →
      (fields.mapIdx fun position (field : TypeUse) => CheckedPatternArgument.borrowPlace
          (.mk field.valueType (.unionField (.mk type .matchRoot) variant
            (offset + position)))).mapM (readArgument (.variant variant all)) = some values := by
  induction fields with
  | nil =>
    intro values offset _ hlength
    obtain rfl := List.length_eq_zero_iff.mp hlength
    rfl
  | cons field fields ih =>
    intro values offset hdrop hlength
    cases values with
    | nil => cases hlength
    | cons value values =>
      have hvalue : all[offset]? = some value := by
        rw [← List.head?_drop, hdrop]
        rfl
      have hread : readArgument (.variant variant all) (.borrowPlace (.mk field.valueType
          (.unionField (.mk type .matchRoot) variant (offset + 0)))) = some value := by
        simp [readArgument, readPlace, readRoute, hvalue]
      have hrest := ih values (offset + 1) (by rw [← List.drop_drop, hdrop]; rfl)
        (Nat.succ.inj hlength)
      rw [List.mapIdx_cons, List.mapM_cons, hread]
      simp only [Nat.add_assoc, Nat.add_comm 1] at hrest
      rw [hrest]
      rfl

theorem Captured.readArguments (h : Captured (.mk type .matchRoot) variant fields base payload)
    (hlength : values.length = fields.length) :
    payload.arguments.mapM (readArgument (.variant variant values)) = some values := by
  have hread := readArguments_payload type variant values fields values 0 List.drop_zero hlength
  simp only [Nat.zero_add] at hread
  rw [h.arguments, hread]

section

variable (h : Captured root variant fields base payload)

include h

theorem Captured.leftInput (hlt : position < fields.length) :
    payload.leftInputs[position]? = some (base + 2 * position) := by
  rw [h.left, List.getElem?_map, List.getElem?_range hlt]
  rfl

theorem Captured.rightInput (hlt : position < fields.length) :
    payload.rightInputs[position]? = some (base + 2 * position + 1) := by
  rw [h.right, List.getElem?_map, List.getElem?_range hlt]
  rfl

theorem Captured.leftDistinct : payload.leftInputs.Nodup := by
  rw [h.left]
  refine List.Nodup.map ?_ List.nodup_range
  intro first second heq
  have hsum : base + 2 * first = base + 2 * second := heq
  omega

theorem Captured.rightDistinct : payload.rightInputs.Nodup := by
  rw [h.right]
  refine List.Nodup.map ?_ List.nodup_range
  intro first second heq
  have hsum : base + 2 * first + 1 = base + 2 * second + 1 := heq
  omega

end

theorem eval_equalValue {variant : CheckedVariant}
    (hcaptured : Captured root variant.id variant.fields base payload)
    (hl : left.length = variant.fields.length) (hr : right.length = variant.fields.length)
    (hleft : ∀ (position : Nat) (value : BodyValue), left[position]? = some value →
      bindings (base + 2 * position) = some value)
    (hright : ∀ (position : Nat) (value : BodyValue), right[position]? = some value →
      bindings (base + 2 * position + 1) = some value) (world : World) :
    evalExpr context (equalValue variant payload method boolean span) ⟨bindings, world⟩ =
      (compareAll (fieldEquals context method.id boolean) (correspondingFields
        ((variant.fields.map (·.valueType)).zip left)
        ((variant.fields.map (·.valueType)).zip right)) world).map
          (answerIn boolean ⟨bindings, world⟩) := by
  let pairs := correspondingFields ((variant.fields.map (·.valueType)).zip left)
    ((variant.fields.map (·.valueType)).zip right)
  have hlength : pairs.length = payload.position := by
    have hpairs : pairs.length = (variant.fields.map (·.valueType)).length :=
      length_correspondingFields (by simp [hl]) (by simp [hr])
    rw [hpairs, List.length_map, hcaptured.position]
  unfold equalValue
  rw [← hlength]
  refine eval_allComparisons context boolean _ pairs _ ?_ span world
  intro position pair hpair following world
  obtain ⟨htype, hleftValue, hrightValue⟩ := getElem?_correspondingFields hpair
  rw [List.getElem?_map] at htype
  obtain ⟨field, hfield, htype⟩ := Option.map_eq_some_iff.mp htype
  have hlt : position < variant.fields.length := (List.getElem?_eq_some_iff.mp hfield).1
  simp only [hfield, hcaptured.leftInput hlt, hcaptured.rightInput hlt]
  rw [eval_compareThen context boolean method following
    (eval_readBinding context (hleft position _ hleftValue))
    (eval_readBinding context (hright position _ hrightValue))]
  rw [← htype]

/-! ## The match of the right value -/

/-- An expression ends with a truth value, in some bindings. -/
def YieldsTruth (value : CheckedExpr) (frame : Frame World) (outcome : Option (Bool × World)) : Prop :=
  ∃ bindings, evalExpr context value frame = outcome.map (answerIn boolean ⟨bindings, frame.world⟩)

theorem eval_boundRight {variant : CheckedVariant}
    (hcaptured : Captured (.mk type .matchRoot) variant.id variant.fields base payload)
    (hl : left.length = variant.fields.length) (hr : right.length = variant.fields.length)
    (hleft : ∀ (position : Nat) (value : BodyValue), left[position]? = some value →
      frame.bindings (base + 2 * position) = some value) :
    YieldsTruth context boolean (equalValue variant payload method boolean span)
      ((payload.rightInputs.zip right).foldl (fun frame input => frame.bind input.1 input.2) frame)
      (compareAll (fieldEquals context method.id boolean) (correspondingFields
        ((variant.fields.map (·.valueType)).zip left)
        ((variant.fields.map (·.valueType)).zip right)) frame.world) := by
  have hworld := bindInputs_world (payload.rightInputs.zip right) frame
  have hother : ∀ (position : Nat) (value : BodyValue), left[position]? = some value →
      ((payload.rightInputs.zip right).foldl (fun frame input => frame.bind input.1 input.2)
        frame).bindings (base + 2 * position) = some value := by
    intro position value hvalue
    rw [bindInputs_other, hleft position value hvalue]
    intro other hmem
    have hmem := (List.of_mem_zip hmem).1
    rw [hcaptured.right, List.mem_map] at hmem
    obtain ⟨second, -, heq⟩ := hmem
    have hsum : base + 2 * second + 1 = base + 2 * position := heq
    omega
  have hat : ∀ (position : Nat) (value : BodyValue), right[position]? = some value →
      ((payload.rightInputs.zip right).foldl (fun frame input => frame.bind input.1 input.2)
        frame).bindings (base + 2 * position + 1) = some value := by
    intro position value hvalue
    have hlt : position < variant.fields.length := by
      have hlt := (List.getElem?_eq_some_iff.mp hvalue).1
      omega
    exact bindInputs_at frame hcaptured.rightDistinct (hcaptured.rightInput hlt) hvalue
  generalize (payload.rightInputs.zip right).foldl (fun frame input => frame.bind input.1 input.2)
    frame = bound at hworld hother hat
  obtain ⟨bindings, world⟩ := bound
  obtain rfl : world = frame.world := hworld
  exact ⟨bindings, eval_equalValue context boolean hcaptured hl hr hother hat _⟩

theorem eval_match {scrutinee : CheckedExpr} {selection : CheckedSelection}
    {arms : List CheckedJoinArm} {carried : List BindingId} {subject : BodyValue}
    {entered : MatchArmId}
    (hscrutinee : evalExpr context scrutinee frame = some (.ok subject, frame))
    (hselection : enterSelection subject selection = some (entered, values)) :
    evalExpr context ⟨.matchJoin ⟨scrutinee, selection, arms, carried⟩, type, span⟩ frame =
      evalJoinArms context entered values arms frame := by
  simp only [evalExpr, evalForm, evalJoin]
  simp only [bind, hscrutinee, present, hselection]
  rfl

theorem evalJoinArms_at {id : MatchArmId} {inputs : List BindingId} {value : CheckedExpr} :
    ∀ {arms : List CheckedJoinArm} {position : Nat}, arms[position]? = some ⟨id, inputs, [], value⟩ →
      (∀ (earlier : Nat) (other : CheckedJoinArm), earlier < position →
        arms[earlier]? = some other → id ≠ other.id) →
      evalJoinArms context id values arms frame =
        evalExpr context value ((inputs.zip values).foldl
          (fun frame input => frame.bind input.1 input.2) frame) := by
  intro arms
  induction arms with
  | nil => intro position h; cases h
  | cons first arms ih =>
    intro position h hearlier
    cases position with
    | zero =>
      cases h
      simp only [evalJoinArms, if_true]
      rfl
    | succ position =>
      obtain ⟨other, otherInputs, otherStatements, otherValue⟩ := first
      have hid : id ≠ other := hearlier 0 _ (by omega) rfl
      simp only [evalJoinArms, if_neg hid]
      exact ih h fun earlier next hlt hnext => hearlier (earlier + 1) next (by omega) hnext

theorem eval_rightMatch_same {result : TypeRef} {variant : CheckedVariant}
    (hcaptured : Captured (.mk type .matchRoot) variant.id variant.fields base payload)
    {singleton : Bool} (hl : left.length = variant.fields.length)
    (hr : right.length = variant.fields.length)
    (hleft : ∀ (position : Nat) (value : BodyValue), left[position]? = some value →
      frame.bindings (base + 2 * position) = some value)
    (hright : frame.bindings 1 = some (.variant variant.id right)) :
    YieldsTruth context boolean (rightMatch variant payload singleton type result method boolean span)
      frame (compareAll (fieldEquals context method.id boolean) (correspondingFields
        ((variant.fields.map (·.valueType)).zip left)
        ((variant.fields.map (·.valueType)).zip right)) frame.world) := by
  have hread : evalExpr context (readParameter 1 type span) frame =
      some (.ok (.variant variant.id right), frame) := eval_readBinding context hright
  have harguments := hcaptured.readArguments hr
  have hanswers : YieldsTruth context boolean (equalValue variant payload method boolean span) _ _ :=
    eval_boundRight context boolean hcaptured hl hr hleft
  obtain ⟨bindings, hequal⟩ := hanswers
  refine ⟨bindings, ?_⟩
  rw [bindInputs_world] at hequal
  rw [← hequal]
  generalize hvalue : equalValue variant payload method boolean span = equal
  cases singleton with
  | true =>
    have hselection : enterSelection (.variant variant.id right)
        ⟨[.enterArm 0 payload.arguments], 0⟩ = some (0, right) := by
      show (payload.arguments.mapM (readArgument (.variant variant.id right))).bind _ = _
      rw [harguments]
      rfl
    have harm : ([⟨0, payload.rightInputs, [], equal⟩] : List CheckedJoinArm)[0]? =
        some ⟨0, payload.rightInputs, [], equal⟩ := rfl
    simp only [rightMatch, if_true, hvalue]
    rw [eval_match context hread hselection]
    exact evalJoinArms_at context harm fun earlier other hlt _ =>
      absurd hlt (Nat.not_lt_zero earlier)
  | false =>
    have hselection : enterSelection (.variant variant.id right)
        ⟨[.enterArm 0 [], .enterArm 1 payload.arguments,
          .testVariant (.mk type .matchRoot) variant.id 1 0], 2⟩ = some (1, right) := by
      rw [enterSelection_tag, if_pos rfl, harguments]
      rfl
    have harm : ([⟨0, [], [], booleanValue false boolean span⟩,
        ⟨1, payload.rightInputs, [], equal⟩] : List CheckedJoinArm)[1]? =
        some ⟨1, payload.rightInputs, [], equal⟩ := rfl
    simp only [rightMatch, Bool.false_eq_true, if_false, hvalue]
    rw [eval_match context hread hselection]
    refine evalJoinArms_at context harm ?_
    intro earlier other hlt hother
    obtain rfl : earlier = 0 := by omega
    cases hother
    exact Nat.one_ne_zero

theorem eval_rightMatch_other {result : TypeRef} {variant : CheckedVariant} {other : VariantId}
    (hother : other ≠ variant.id) (hright : frame.bindings 1 = some (.variant other right)) :
    YieldsTruth context boolean (rightMatch variant payload false type result method boolean span)
      frame (some (false, frame.world)) := by
  have hread : evalExpr context (readParameter 1 type span) frame =
      some (.ok (.variant other right), frame) := eval_readBinding context hright
  have hselection : enterSelection (.variant other right)
      ⟨[.enterArm 0 [], .enterArm 1 payload.arguments,
        .testVariant (.mk type .matchRoot) variant.id 1 0], 2⟩ = some (0, []) := by
    rw [enterSelection_tag, if_neg hother]
  refine ⟨frame.bindings, ?_⟩
  simp only [rightMatch, Bool.false_eq_true, if_false]
  rw [eval_match context hread hselection]
  rfl

end

/-! ## The match of the left value -/

/-- What the arms and nodes of the left match are, variant by variant. -/
structure VariantRows (union : CheckedUnion) (valueType result : TypeRef)
    (method : SignedTraitMethod) (boolean : DesignatedBoolean VariantId) (span : Span)
    (variants : List CheckedVariant) (rows : VariantArms) : Prop where
  bindings : 2 ≤ rows.bindings.length
  nodes : rows.nodes.length = variants.length
  arms : rows.arms.length = variants.length
  row : ∀ (position : Nat) (variant : CheckedVariant), variants[position]? = some variant →
    ∃ base payload, 2 ≤ base ∧
      Captured (.mk valueType .matchRoot) variant.id variant.fields base payload ∧
      rows.nodes[position]? = some (.enterArm position payload.arguments) ∧
      rows.arms[position]? = some ⟨position, payload.leftInputs, [],
        rightMatch variant payload (union.variants.length == 1) valueType result method boolean span⟩

theorem appendVariants_rows (union : CheckedUnion) (valueType result : TypeRef)
    (method : SignedTraitMethod) (boolean : DesignatedBoolean VariantId) (span : Span)
    {bindings : List BindingDefinition} (hbindings : 2 ≤ bindings.length)
    (variants : List CheckedVariant) :
    VariantRows union valueType result method boolean span variants
      (variants.foldl (appendVariant union valueType result method boolean span)
        ⟨bindings, [], []⟩) := by
  induction variants using List.reverseRecOn with
  | nil => exact ⟨hbindings, rfl, rfl, fun position variant h => by cases h⟩
  | append_singleton variants variant ih =>
    rw [List.foldl_append]
    generalize variants.foldl (appendVariant union valueType result method boolean span)
      ⟨bindings, [], []⟩ = rows at ih
    show VariantRows _ _ _ _ _ _ _
      (appendVariant union valueType result method boolean span rows variant)
    have hcaptured : Captured (.mk valueType .matchRoot) variant.id variant.fields
        rows.bindings.length (capturePayload (.mk valueType .matchRoot) variant rows.bindings) :=
      captureFields_captured _ _ _ _
    constructor
    · have hlength := hcaptured.bindings
      have hbase := ih.bindings
      show 2 ≤ (capturePayload _ variant rows.bindings).bindings.length
      omega
    · simp [appendVariant, ih.nodes]
    · simp [appendVariant, ih.arms]
    · intro position other hother
      have hlt := (List.getElem?_eq_some_iff.mp hother).1
      rw [List.length_append, List.length_singleton] at hlt
      rcases Nat.lt_or_ge position variants.length with hearlier | hlast
      · rw [List.getElem?_append_left hearlier] at hother
        obtain ⟨base, payload, hbase, hpayload, hnode, harm⟩ := ih.row position other hother
        refine ⟨base, payload, hbase, hpayload, ?_, ?_⟩
        · simp only [appendVariant]
          rw [List.getElem?_append_left (by rw [ih.nodes]; exact hearlier), hnode]
        · simp only [appendVariant]
          rw [List.getElem?_append_left (by rw [ih.arms]; exact hearlier), harm]
      · obtain rfl : position = variants.length := by omega
        rw [List.getElem?_concat_length] at hother
        cases hother
        refine ⟨_, _, ih.bindings, hcaptured, ?_, ?_⟩
        · simp [appendVariant, ← ih.nodes, ih.arms]
        · simp [appendVariant, ← ih.arms]

variable {values : List BodyValue} {base : List CheckedDecisionNode}
variable {arguments : List CheckedPatternArgument}

section

variable {union : CheckedUnion} {id : VariantId} {position : Nat}
    (hnode : base[position]? = some (.enterArm position arguments))
    (htag : ∀ (other : Nat) (variant : CheckedVariant), union.variants[other]? =
      some variant → (id = variant.id ↔ other = position))

include hnode htag

/-- The tests cascade from the first tag to the last, whose arm needs none.  Tests of the
tags from `count` on reach the arm of any of them. -/
theorem tagTests_run (type : TypeRef) :
    ∀ (count : Nat) (selection : CheckedSelection), count < union.variants.length →
      (∃ tests, selection.nodes = base ++ tests) →
      (count ≤ position → ∀ fuel, union.variants.length - count ≤ fuel →
        run (decide1 (.variant id values)) selection.nodes fuel selection.entry =
          some (position, arguments)) →
      let tested := count.foldRev (fun remaining _ selection =>
        match union.variants[remaining]? with
        | some variant =>
            (⟨selection.nodes ++ [.testVariant (.mk type .matchRoot) variant.id remaining
              selection.entry], selection.nodes.length⟩ : CheckedSelection)
        | none => selection) selection
      (∃ tests, tested.nodes = base ++ tests) ∧ ∀ fuel, union.variants.length ≤ fuel →
        run (decide1 (.variant id values)) tested.nodes fuel tested.entry =
          some (position, arguments) := by
  intro count
  induction count with
  | zero =>
    intro selection _ hnodes hrun
    exact ⟨hnodes, hrun (Nat.zero_le position)⟩
  | succ count ih =>
    intro selection hcount ⟨tests, hnodes⟩ hrun
    have hlt : count < union.variants.length := by omega
    have hvariant : union.variants[count]? = some union.variants[count] :=
      List.getElem?_eq_getElem hlt
    rw [Nat.foldRev_succ]
    simp only [hvariant]
    have hposition : position < base.length := (List.getElem?_eq_some_iff.mp hnode).1
    have harm : ∀ fuel, 0 < fuel →
        run (decide1 (.variant id values)) selection.nodes fuel position =
          some (position, arguments) := by
      intro fuel hfuel
      obtain ⟨rest, rfl⟩ : ∃ rest, fuel = rest + 1 := ⟨fuel - 1, by omega⟩
      have hentered : selection.nodes[position]? = some (.enterArm position arguments) := by
        rw [hnodes, List.getElem?_append_left hposition, hnode]
      simp [run, hentered, decide1]
    refine ih _ hlt ⟨tests ++ [_], by rw [hnodes, List.append_assoc]⟩ fun hle fuel hfuel => ?_
    obtain ⟨rest, rfl⟩ : ∃ rest, fuel = rest + 1 := ⟨fuel - 1, by omega⟩
    by_cases hhere : count = position
    · have hid : id = union.variants[count].id := (htag count _ hvariant).mpr hhere
      refine run_snoc_goto _ _ _ count rest _ ?_ ?_
      · simp [decide1, readPlace, readRoute, if_pos hid]
      · rw [hhere]
        exact harm rest (by omega)
    · have hid : ¬ id = union.variants[count].id := fun hid => hhere ((htag count _ hvariant).mp hid)
      refine run_snoc_goto _ _ _ selection.entry rest _ ?_ (hrun (by omega) rest (by omega))
      simp [decide1, readPlace, readRoute, if_neg hid]

theorem tagTests_walk {type : TypeRef} (hbase : base.length = union.variants.length) :
    walk (.variant id values) (tagTests union (.mk type .matchRoot) base)
      (tagTests union (.mk type .matchRoot) base).nodes.length = some (position, arguments) := by
  have hposition : position < base.length := (List.getElem?_eq_some_iff.mp hnode).1
  have hfallback : union.variants.length - 1 ≤ position → ∀ fuel,
      union.variants.length - (union.variants.length - 1) ≤ fuel →
      run (decide1 (.variant id values)) base fuel (base.length - 1) =
        some (position, arguments) := by
    intro hle fuel hfuel
    obtain ⟨rest, rfl⟩ : ∃ rest, fuel = rest + 1 := ⟨fuel - 1, by omega⟩
    have hlast : base.length - 1 = position := by omega
    simp [run, hlast, hnode, decide1]
  obtain ⟨⟨tests, hnodes⟩, hrun⟩ := tagTests_run hnode htag type
    (union.variants.length - 1) ⟨base, base.length - 1⟩ (by omega) ⟨[], by simp⟩ hfallback
  refine hrun _ ?_
  have hlength : (tagTests union (.mk type .matchRoot) base).nodes = base ++ tests := hnodes
  rw [hlength, List.length_append, hbase]
  exact Nat.le_add_right _ _

end

section

variable (context : BodyContext World) (boolean : DesignatedBoolean VariantId)

theorem runBody_answers {value : CheckedExpr} {arguments : List BodyValue} {world : World}
    {outcome : Option (Bool × World)} (self : Callee)
    (h : YieldsTruth context boolean value ⟨fun id => arguments[id]?, world⟩ outcome) :
    runBody context self [] (.checkedValueBody (.returnExpression value)) arguments world =
      outcome.map fun answer => (.variant (booleanVariant answer.1 boolean) [], answer.2) := by
  obtain ⟨bindings, hvalue⟩ := h
  have hrun : (do
      evalStatements context []
      evalBody context self (.checkedValueBody (.returnExpression value)) : Run World BodyValue)
        ⟨fun id => arguments[id]?, world⟩ = _ := hvalue
  simp only [runBody, hrun]
  cases outcome <;> rfl

variable {method : SignedTraitMethod} {first second : CheckedVariant} {left right : List BodyValue}

theorem eval_boundLeft {union : CheckedUnion} {type result : TypeRef} {span : Span} {base : Nat}
    {payload : CapturedPayload}
    (hcaptured : Captured (.mk type .matchRoot) first.id first.fields base payload)
    (hbase : 2 ≤ base) {frame : Frame World} (hl : left.length = first.fields.length)
    (hr : right.length = second.fields.length)
    (hread : frame.bindings 1 = some (.variant second.id right))
    (hsame : first.id = second.id → second = first)
    (hsingleton : first.id ≠ second.id → union.variants.length ≠ 1) :
    YieldsTruth context boolean
      (rightMatch first payload (union.variants.length == 1) type result method boolean span)
      ((payload.leftInputs.zip left).foldl (fun frame input => frame.bind input.1 input.2) frame)
      (if first.id = second.id then
        compareAll (fieldEquals context method.id boolean) (correspondingFields
          ((first.fields.map (·.valueType)).zip left)
          ((second.fields.map (·.valueType)).zip right)) frame.world
      else some (false, frame.world)) := by
  have hright : ((payload.leftInputs.zip left).foldl (fun frame input =>
      frame.bind input.1 input.2) frame).bindings 1 = some (.variant second.id right) := by
    rw [bindInputs_other, hread]
    intro value hmem
    have hmem := (List.of_mem_zip hmem).1
    rw [hcaptured.left, List.mem_map] at hmem
    obtain ⟨position, -, heq⟩ := hmem
    have hsum : base + 2 * position = 1 := heq
    omega
  have hleft : ∀ (position : Nat) (value : BodyValue), left[position]? = some value →
      ((payload.leftInputs.zip left).foldl (fun frame input => frame.bind input.1 input.2)
        frame).bindings (base + 2 * position) = some value := by
    intro position value hvalue
    have hlt : position < first.fields.length := by
      have hlt := (List.getElem?_eq_some_iff.mp hvalue).1
      omega
    exact bindInputs_at frame hcaptured.leftDistinct (hcaptured.leftInput hlt) hvalue
  rw [← bindInputs_world (payload.leftInputs.zip left) frame]
  by_cases htags : first.id = second.id
  · obtain rfl := hsame htags
    rw [if_pos rfl]
    exact eval_rightMatch_same context boolean hcaptured hl hr hleft hright
  · rw [if_neg htags, beq_false_of_ne (hsingleton htags)]
    exact eval_rightMatch_other context boolean (Ne.symm htags) hright

theorem eval_unionTemplate {label : FunctionLabel} {union : CheckedUnion} {type : TypeRef}
    {signature : FunctionSignature} {span : Span} (self : Callee)
    (hdistinct : ∀ (position other : Nat) (variant unlike : CheckedVariant),
      union.variants[position]? = some variant → union.variants[other]? = some unlike →
      variant.id = unlike.id → position = other) (hfirst : first ∈ union.variants)
    (hl : left.length = first.fields.length) (hsecond : second ∈ union.variants)
    (hr : right.length = second.fields.length) (world : World) :
    runBody context self []
        (unionTemplate label union type signature method boolean span).body
        [.variant first.id left, .variant second.id right] world =
      (if first.id = second.id then
        compareAll (fieldEquals context method.id boolean) (correspondingFields
          ((first.fields.map (·.valueType)).zip left)
          ((second.fields.map (·.valueType)).zip right)) world
      else some (false, world)).map fun answer =>
        (.variant (booleanVariant answer.1 boolean) [], answer.2) := by
  have hrows := appendVariants_rows union type signature.returnType.valueType method boolean span
    (show 2 ≤ [parameterBinding 0 type span, parameterBinding 1 type span].length from
      Nat.le_refl 2) union.variants
  refine runBody_answers context boolean self ?_
  generalize union.variants.foldl (appendVariant union type signature.returnType.valueType method
    boolean span) ⟨[parameterBinding 0 type span, parameterBinding 1 type span], [], []⟩ = rows
    at hrows ⊢
  obtain ⟨bindings, hnodes, harms, hrow⟩ := hrows
  obtain ⟨position, hposition⟩ := List.mem_iff_getElem?.mp hfirst
  obtain ⟨place, hplace⟩ := List.mem_iff_getElem?.mp hsecond
  obtain ⟨base, payload, hbase, hcaptured, hnode, harm⟩ := hrow position first hposition
  have htag : ∀ (other : Nat) (variant : CheckedVariant), union.variants[other]? = some variant →
      (first.id = variant.id ↔ other = position) := by
    intro other variant hother
    constructor
    · intro hid
      exact (hdistinct position other first variant hposition hother hid).symm
    · rintro rfl
      cases hposition.symm.trans hother
      rfl
  have hselection : enterSelection (.variant first.id left)
      (tagTests union (.mk type .matchRoot) rows.nodes) = some (position, left) := by
    show (walk (.variant first.id left) (tagTests union (.mk type .matchRoot) rows.nodes) _).bind _
      = _
    rw [tagTests_walk hnode htag hnodes]
    show (payload.arguments.mapM (readArgument (.variant first.id left))).bind _ = _
    rw [hcaptured.readArguments hl]
    rfl
  let frame : Frame World :=
    ⟨fun id => ([.variant first.id left, .variant second.id right] : List BodyValue)[id]?, world⟩
  have hread : evalExpr context (readParameter 0 type span) frame =
      some (.ok (.variant first.id left), frame) := eval_readBinding context rfl
  have hright : frame.bindings 1 = some (.variant second.id right) := rfl
  have hearlier : ∀ (earlier : Nat) (other : CheckedJoinArm), earlier < position →
      rows.arms[earlier]? = some other → position ≠ other.id := by
    intro earlier other hlt hother
    have hbefore : earlier < union.variants.length := by
      have hpositionLt := (List.getElem?_eq_some_iff.mp hposition).1
      omega
    obtain ⟨_, _, _, _, _, hotherArm⟩ := hrow earlier _ (List.getElem?_eq_getElem hbefore)
    cases hotherArm.symm.trans hother
    exact Nat.ne_of_gt hlt
  have hsame : first.id = second.id → second = first := by
    intro hid
    obtain rfl := (htag place second hplace).mp hid
    exact Option.some.inj (hplace.symm.trans hposition)
  have hsingleton : first.id ≠ second.id → union.variants.length ≠ 1 := by
    intro hid hone
    have hfirstLt := (List.getElem?_eq_some_iff.mp hposition).1
    have hsecondLt := (List.getElem?_eq_some_iff.mp hplace).1
    exact hid ((htag place second hplace).mpr (by omega))
  have hanswers : YieldsTruth context boolean (rightMatch first payload (union.variants.length == 1)
      type signature.returnType.valueType method boolean span) _ _ :=
    eval_boundLeft context boolean hcaptured hbase hl hr hright hsame hsingleton
  obtain ⟨after, hanswer⟩ := hanswers
  refine ⟨after, ?_⟩
  show evalExpr context _ frame = _
  rw [eval_match context hread hselection, evalJoinArms_at context harm hearlier]
  exact hanswer

end

/-! ## Templates -/

variable {aggregate : AggregateId} {label : FunctionLabel} {typeParameters : List TypeParameterId}
variable {requirements : List TraitRequirement} {records : List CheckedRecord}
variable {unions : List CheckedUnion} {method : SignedTraitMethod}
variable {boolean : DesignatedBoolean VariantId} {span : Span} {template : CheckedEqualityBody}

theorem equalityTemplate_cases
    (h : equalityTemplate aggregate label typeParameters requirements records unions method
      boolean span = .ok template) :
    (∃ id row receiver, aggregate = .recordAggregate id ∧ records[id]? = some row ∧
      template.body = .checkedValueBody (.returnExpression
        (recordValue row receiver method boolean span))) ∨
    (∃ id row receiver signature, aggregate = .unionAggregate id ∧ unions[id]? = some row ∧
      template = unionTemplate label row receiver signature method boolean span) := by
  obtain ⟨parameters, -, h⟩ := Except.peel h
  obtain ⟨result, -, h⟩ := Except.peel h
  cases aggregate with
  | recordAggregate id =>
    cases hrow : records[id]? with simp only [hrow, orCheckerInvariant] at h
    | none => cases h
    | some row =>
      cases h
      exact .inl ⟨id, row, _, rfl, hrow, rfl⟩
  | unionAggregate id =>
    cases hrow : unions[id]? with simp only [hrow, orCheckerInvariant] at h
    | none => cases h
    | some row =>
      cases h
      exact .inr ⟨id, row, _, _, rfl, hrow, rfl⟩

/-- What the body of a template does with two values: their tags decide first, then their
fields in order. -/
theorem equalityTemplate_run (hnumbered : NumberedDeclarations records unions)
    (h : equalityTemplate aggregate label typeParameters requirements records unions method boolean
      span = .ok template) {left right : BodyValue} {leftTag rightTag : Option VariantId}
    {leftFields rightFields : List (TypeRef × BodyValue)}
    (hleft : AggregateValue records unions aggregate left leftTag leftFields)
    (hright : AggregateValue records unions aggregate right rightTag rightFields)
    (context : BodyContext World) (self : Callee) (world : World) :
    runBody context self [] template.body [left, right] world =
      (if leftTag = rightTag then
        compareAll (fieldEquals context method.id boolean)
          (correspondingFields leftFields rightFields) world
      else some (false, world)).map fun answer =>
        (.variant (booleanVariant answer.1 boolean) [], answer.2) := by
  rcases equalityTemplate_cases h with
    ⟨id, row, receiver, rfl, hrow, hbody⟩ | ⟨id, row, receiver, signature, rfl, hrow, rfl⟩
  · cases hleft with
    | @record _ leftRow leftValues declared complete =>
      cases hright with
      | @record _ rightRow rightValues declared' complete' =>
        cases hrow.symm.trans declared
        cases hrow.symm.trans declared'
        rw [if_pos rfl, hbody]
        refine runBody_answers context boolean self ⟨fun position =>
          ([.scalar (.record id leftValues), .scalar (.record id rightValues)] :
            List BodyValue)[position]?, ?_⟩
        exact eval_recordValue context boolean (hnumbered.fields id row hrow) rfl complete rfl
          complete' world
  · cases hleft with
    | @variant _ leftRow first leftValues declared listed complete =>
      cases hright with
      | @variant _ rightRow second rightValues declared' listed' complete' =>
        cases hrow.symm.trans declared
        cases hrow.symm.trans declared'
        have hdistinct : ∀ (position other : Nat) (variant unlike : CheckedVariant),
            row.variants[position]? = some variant → row.variants[other]? = some unlike →
              variant.id = unlike.id → position = other := by
          intro position other variant unlike hvariant hunlike hid
          rw [hnumbered.variants id row hrow position variant hvariant,
            hnumbered.variants id row hrow other unlike hunlike] at hid
          exact (VariantId.mk.inj hid).2
        simp only [Option.some.injEq]
        exact eval_unionTemplate context boolean self hdistinct listed complete listed' complete'
          world

/-- **Automatic equality is structural.**  Whatever the equalities of the field types do, they
are called in declaration order up to the first that fails, and not at all for values of
different variants.  Where they only answer, the template answers whether the variants are
the same and all fields are equal. -/
theorem equalityTemplate_structural (hnumbered : NumberedDeclarations records unions)
    (h : equalityTemplate aggregate label typeParameters requirements records unions method boolean
      span = .ok template)
    {left right : BodyValue} {leftTag rightTag : Option VariantId}
    {leftFields rightFields : List (TypeRef × BodyValue)}
    (hleft : AggregateValue records unions aggregate left leftTag leftFields)
    (hright : AggregateValue records unions aggregate right rightTag rightFields)
    (context : BodyContext World) (self : Callee) (world : World) :
    runBody context self [] template.body [left, right] world =
      (if leftTag = rightTag then
        compareAll (fieldEquals context method.id boolean)
          (correspondingFields leftFields rightFields) world
      else some (false, world)).map (fun answer =>
        (.variant (booleanVariant answer.1 boolean) [], answer.2)) ∧
    ∀ same : TypeRef → BodyValue → BodyValue → Bool,
      (∀ pair ∈ correspondingFields leftFields rightFields, ∀ world,
        fieldEquals context method.id boolean pair.1 pair.2.1 pair.2.2 world =
          some (same pair.1 pair.2.1 pair.2.2, world)) →
      runBody context self [] template.body [left, right] world =
        some (.variant (booleanVariant (decide (leftTag = rightTag) &&
          (correspondingFields leftFields rightFields).all fun pair =>
            same pair.1 pair.2.1 pair.2.2) boolean) [], world) := by
  have hrun := equalityTemplate_run hnumbered h hleft hright context self world
  refine ⟨hrun, fun same hpure => ?_⟩
  rw [hrun]
  by_cases htags : leftTag = rightTag
  · rw [if_pos htags, compareAll_pure hpure, decide_eq_true htags, Bool.true_and]
    rfl
  · rw [if_neg htags, decide_eq_false htags, Bool.false_and]
    rfl

/-! ## A variant with a payload -/

def payloadVariant : CheckedVariant :=
  ⟨⟨1, 1⟩, ⟨1, compilerSpan⟩, List.replicate 2 ⟨.intType, compilerSpan⟩⟩

/-- A boolean union, and one whose second variant holds two integers. -/
def payloadUnions : List CheckedUnion :=
  let empty (owner : UnionId) (position : Nat) : CheckedVariant :=
    ⟨⟨owner, position⟩, ⟨position, compilerSpan⟩, []⟩
  [⟨0, [], [empty 0 0, empty 0 1]⟩, ⟨1, [], [empty 1 0, payloadVariant]⟩]

def payloadBoolean : DesignatedBoolean VariantId := ⟨⟨0, 0⟩, ⟨0, 1⟩⟩

def payloadEquals : SignedTraitMethod :=
  let boolean : TypeRef := .nominalType (.aggregateNominal (.unionAggregate 0)) []
  ⟨⟨⟨0, 0⟩, none⟩, ⟨[], [], .pure, [], ⟨boolean, compilerSpan⟩⟩⟩

/-- Equality of integers, where the world is the left operands compared so far. -/
def tracingContext : BodyContext (List Int) where
  traits := ⟨[], ⟨[], []⟩, none⟩
  call := fun _ values compared =>
    match values with
    | [.literal (.exactInt first), .literal (.exactInt second)] =>
        some (.variant (booleanVariant (decide (first = second)) payloadBoolean) [],
          compared ++ [first])
    | _ => none
  captures := []
  callables := fun _ => none
  fuel := 0

theorem payloadUnions_numbered : NumberedDeclarations [] payloadUnions := by
  constructor
  · intro id row hrow
    cases hrow
  · intro id row hrow position variant hvariant
    match id, position with
    | 0, 0 | 0, 1 | 1, 0 | 1, 1 =>
      cases hrow
      cases hvariant
      rfl
    | 0, position + 2 | 1, position + 2 =>
      cases hrow
      cases hvariant
    | id + 2, _ => cases hrow

/-- The second variant with a payload. -/
def payload (first second : Int) : BodyValue :=
  .variant payloadVariant.id [integerValue first, integerValue second]

theorem payload_value (first second : Int) : AggregateValue [] payloadUnions (.unionAggregate 1)
      (payload first second) (some payloadVariant.id)
      [(.intType, integerValue first), (.intType, integerValue second)] :=
  have hrow : payloadUnions[1]? = some payloadUnions[1] := rfl
  .variant hrow (List.mem_cons_of_mem _ List.mem_cons_self) rfl

/-- Two payloads are compared field by field, up to the first that differs. -/
theorem equalityTemplate_structural_payload : ∃ template,
    equalityTemplate (.unionAggregate 1) "equality for Payload" [] [] [] payloadUnions payloadEquals
      payloadBoolean compilerSpan = .ok template ∧
    let compared (left right : BodyValue) := runBody tracingContext
      (.derivedEquality (.unionAggregate 1) []) [] template.body [left, right] []
    compared (payload 3 5) (payload 3 6) = some (.variant payloadBoolean.falseVariant [], [3, 5]) ∧
    compared (payload 3 5) (payload 4 5) = some (.variant payloadBoolean.falseVariant [], [3]) := by
  obtain ⟨template, htemplate⟩ : ∃ template, equalityTemplate (.unionAggregate 1)
      "equality for Payload" [] [] [] payloadUnions payloadEquals payloadBoolean compilerSpan =
        .ok template := ⟨_, rfl⟩
  have hrun (first second : Int) := (equalityTemplate_structural payloadUnions_numbered
    htemplate (payload_value 3 5) (payload_value first second) tracingContext
    (.derivedEquality (.unionAggregate 1) []) []).1
  exact ⟨template, htemplate, (hrun 3 6).trans rfl, (hrun 4 5).trans rfl⟩

end Blorp.Check
