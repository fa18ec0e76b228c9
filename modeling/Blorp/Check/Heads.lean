import Blorp.Check.Values

/-!
# Heads, and what the row operations keep

A value is built with a head when `Head.parts` takes it apart.  The matrix
operations are read back as statements about the first matching row:

    head.parts x = some ys →
      chosen (specializeRows rows head) (ys ++ xs) = chosen rows (x :: xs)
    head.parts x = none →
      chosen (excludingRows rows head) (x :: xs) = chosen rows (x :: xs)
-/

namespace Blorp.Check

variable {σ : Type}

def Head.parts : Head → Value σ → Option (List (Value σ))
  | .unionHead id _, .variant other fields => if id = other then some fields else none
  | .tupleHead _, .tuple fields => some fields
  | .nilHead, .list [] => some []
  | .consHead _, .list (x :: xs) => some [x, .list xs]
  | .literalHead literal, .literal other => if literal = other then some [] else none
  | _, _ => none

/-- The five ways a value is built with a head. -/
inductive BuiltWith : Head → Value σ → List (Value σ) → Prop where
  | union (id : VariantId) (types : List TypeRef) (fields : List (Value σ)) :
      BuiltWith (.unionHead id types) (.variant id fields) fields
  | tuple (types : List TypeRef) (fields : List (Value σ)) :
      BuiltWith (.tupleHead types) (.tuple fields) fields
  | nil : BuiltWith .nilHead (.list []) []
  | cons (element : TypeRef) (x : Value σ) (xs : List (Value σ)) :
      BuiltWith (.consHead element) (.list (x :: xs)) [x, .list xs]
  | literal (literal : LiteralPattern) : BuiltWith (.literalHead literal) (.literal literal) []

variable {head : Head} {x : Value σ} {ys xs : List (Value σ)}

theorem parts_eq_some_iff : head.parts x = some ys ↔ BuiltWith head x ys := by
  constructor
  · intro h
    unfold Head.parts at h
    split at h
    · split at h
      · next he => cases h; cases he; exact .union _ _ _
      · cases h
    · cases h; exact .tuple _ _
    · cases h; exact .nil
    · cases h; exact .cons _ _ _
    · split at h
      · next he => cases h; cases he; exact .literal _
      · cases h
    · cases h
  · intro h
    cases h <;> simp [Head.parts]

/-! ## Pattern vectors -/

theorem matchesAll_append : ∀ {front : List Pattern} {xs : List (Value σ)} (back : List Pattern)
    (ys : List (Value σ)), front.length = xs.length →
    Pattern.matchesAll (front ++ back) (xs ++ ys) =
      (Pattern.matchesAll front xs && Pattern.matchesAll back ys) := by
  intro front
  induction front with
  | nil =>
    intro xs back ys h
    cases xs with
    | nil => simp [Pattern.matchesAll]
    | cons x xs => simp at h
  | cons p ps ih =>
    intro xs back ys h
    cases xs with
    | nil => simp at h
    | cons x xs =>
      simp only [List.cons_append, Pattern.matchesAll]
      rw [ih back ys (by simpa using h), Bool.and_assoc]

theorem matchesAll_of_all_isAny : ∀ {patterns : List Pattern} {values : List (Value σ)},
    patterns.length = values.length → patterns.all Pattern.isAny = true →
    Pattern.matchesAll patterns values = true := by
  intro patterns
  induction patterns with
  | nil =>
    intro values hl _
    cases values with
    | nil => rfl
    | cons x xs => simp at hl
  | cons p ps ih =>
    intro values hl h
    cases values with
    | nil => simp at hl
    | cons x xs =>
      simp only [List.all_cons, Bool.and_eq_true] at h
      have hp : p = .anything := by
        cases p with
        | anything => rfl
        | _ => simp [Pattern.isAny] at h
      subst hp
      exact ih (by simpa using hl) h.2

theorem matchesAll_replicate_anything (values : List (Value σ)) :
    Pattern.matchesAll (List.replicate values.length .anything) values = true := by
  apply matchesAll_of_all_isAny
  · simp
  · simp [Pattern.isAny]

theorem eq_anything_of_isAny {p : Pattern} (h : p.isAny = true) : p = .anything := by
  cases p with
  | anything => rfl
  | _ => simp [Pattern.isAny] at h

/-! ## One head -/

/-- A pattern against a value built with `head` is its children against the value's parts. -/
theorem matches_of_parts (hx : head.parts x = some ys) (hl : ys.length = head.arity) (p : Pattern) :
    p.matches x = (p.matchesHead head && Pattern.matchesAll (p.children head) ys) := by
  rw [parts_eq_some_iff] at hx
  cases p with
  | anything =>
    rw [Pattern.children, ← hl, matchesAll_replicate_anything]
    simp [Pattern.matches, Pattern.matchesHead]
  | variantPattern id fields =>
    cases hx with
    | union id' types ys =>
      simp [Pattern.matches, Pattern.matchesHead, Head.hasVariant, Pattern.children,
        BEq.comm (a := id)]
    | _ => simp [Pattern.matches, Pattern.matchesHead, Head.hasVariant]
  | tuplePattern fields =>
    cases hx <;> simp [Pattern.matches, Pattern.matchesHead, Pattern.children]
  | emptyListPattern | exactPattern literal =>
    cases hx <;> simp [Pattern.matches, Pattern.matchesHead, Pattern.children, Pattern.matchesAll]
  | consListPattern first rest =>
    cases hx <;> simp [Pattern.matches, Pattern.matchesHead, Pattern.children, Head.isCons,
      Pattern.matchesAll]

/-- A value not built with `head` matches no constructor pattern of that head. -/
theorem matches_eq_false_of_parts (hx : head.parts x = none) {p : Pattern} (hany : p.isAny = false)
    (hp : p.matchesHead head = true) : p.matches x = false := by
  cases p with
  | anything => simp [Pattern.isAny] at hany
  | variantPattern id fields =>
    cases head <;> simp [Pattern.matchesHead, Head.hasVariant] at hp
    cases x <;> simp_all [Head.parts, Pattern.matches]
  | tuplePattern fields | exactPattern literal =>
    cases head <;> simp [Pattern.matchesHead] at hp
    cases x <;> simp_all [Head.parts, Pattern.matches]
  | emptyListPattern =>
    cases head <;> simp [Pattern.matchesHead] at hp
    cases x with
    | list elements => cases elements <;> simp_all [Head.parts, Pattern.matches]
    | _ => simp [Pattern.matches]
  | consListPattern first rest =>
    cases head <;> simp [Pattern.matchesHead, Head.isCons] at hp
    cases x with
    | list elements => cases elements <;> simp_all [Head.parts, Pattern.matches]
    | _ => simp [Pattern.matches]

theorem matchesAll_children (hx : head.parts x = some ys) (hl : ys.length = head.arity)
    {first : Pattern} (hm : first.matchesHead head = true)
    (hc : (first.children head).length = head.arity) (rest : List Pattern) (xs : List (Value σ)) :
    Pattern.matchesAll (first.children head ++ rest) (ys ++ xs) =
      Pattern.matchesAll (first :: rest) (x :: xs) := by
  rw [matchesAll_append rest xs (by rw [hc, hl]), Pattern.matchesAll, matches_of_parts hx hl first,
    hm, Bool.true_and]

/-! ## Rows -/

def chosen (rows : List PatternRow) (values : List (Value σ)) :
    Option (MatchArmId × List CheckedPatternArgument) :=
  (firstMatch rows values).map fun row => (row.arm, row.arguments)

theorem chosen_nil (values : List (Value σ)) : chosen [] values = none := rfl

theorem chosen_cons (row : PatternRow) (rows : List PatternRow) (values : List (Value σ)) :
    chosen (row :: rows) values =
      bif row.matches values then some (row.arm, row.arguments) else chosen rows values := by
  unfold chosen firstMatch
  rw [List.find?_cons]
  cases row.matches values <;> rfl

theorem chosen_isSome_iff (rows : List PatternRow) (values : List (Value σ)) :
    (chosen rows values).isSome = true ↔ ∃ row ∈ rows, row.matches values = true := by
  unfold chosen firstMatch
  rw [Option.isSome_map, List.find?_isSome]

/-- A row operation keeps the choice when a row it keeps stays in its arm and
matches as before, and a row it drops did not match. -/
theorem chosen_filterMap {f : PatternRow → Option PatternRow} {before after : List (Value σ)} :
    ∀ rows : List PatternRow,
      (∀ row ∈ rows, ∀ kept, f row = some kept → kept.arm = row.arm ∧
        kept.arguments = row.arguments ∧ kept.matches after = row.matches before) →
      (∀ row ∈ rows, f row = none → row.matches before = false) →
      chosen (rows.filterMap f) after = chosen rows before := by
  intro rows
  induction rows with
  | nil => intro _ _; rfl
  | cons row rows ih =>
    intro hkeep hdrop
    have ih' := ih (fun r hr => hkeep r (List.mem_cons_of_mem _ hr))
      fun r hr => hdrop r (List.mem_cons_of_mem _ hr)
    cases hf : f row with
    | none =>
      rw [List.filterMap_cons_none hf, chosen_cons, hdrop row List.mem_cons_self hf]
      exact ih'
    | some kept =>
      obtain ⟨harm, hargs, hm⟩ := hkeep row List.mem_cons_self kept hf
      rw [List.filterMap_cons_some hf, chosen_cons, chosen_cons, ih', harm, hargs, hm]

/-- The children of a row's first pattern are as many as the head has components. -/
def ArityFits (head : Head) (row : PatternRow) : Prop :=
  ∀ first rest, row.patterns = first :: rest → first.matchesHead head = true →
    (first.children head).length = head.arity

theorem chosen_specializeRows (hx : head.parts x = some ys) (hl : ys.length = head.arity)
    (rows : List PatternRow) (hfit : ∀ row ∈ rows, ArityFits head row) :
    chosen (specializeRows rows head) (ys ++ xs) = chosen rows (x :: xs) := by
  refine chosen_filterMap rows (fun row hrow kept hk => ?_) (fun row hrow hk => ?_)
  · obtain ⟨arm, patterns, arguments⟩ := row
    cases patterns with
    | nil => simp [specializeRow] at hk
    | cons first rest =>
      simp only [specializeRow] at hk
      split at hk
      · next hm =>
        cases hk
        have hlen := hfit _ hrow first rest rfl hm
        refine ⟨rfl, rfl, ?_⟩
        exact matchesAll_children hx hl hm hlen rest xs
      · cases hk
  · obtain ⟨arm, patterns, arguments⟩ := row
    cases patterns with
    | nil => simp [PatternRow.matches, Pattern.matchesAll]
    | cons first rest =>
      simp only [specializeRow] at hk
      split at hk
      · cases hk
      · next hm =>
        simp only [PatternRow.matches, Pattern.matchesAll]
        rw [matches_of_parts hx hl first]
        simp [hm]

theorem chosen_excludingRows (hx : head.parts x = none) (rows : List PatternRow) :
    chosen (excludingRows rows head) (x :: xs) = chosen rows (x :: xs) := by
  refine chosen_filterMap rows (fun row _ kept hk => ?_) (fun row _ hk => ?_)
  · unfold excludingRow at hk
    split at hk
    · cases hk; exact ⟨rfl, rfl, rfl⟩
    · split at hk
      · cases hk
      · cases hk; exact ⟨rfl, rfl, rfl⟩
    · cases hk
  · unfold excludingRow at hk
    split at hk
    · cases hk
    · next first rest hany hpat =>
      split at hk
      · next hm =>
        have hnot : first.isAny = false := by cases first <;> simp_all [Pattern.isAny]
        simp [PatternRow.matches, hpat, Pattern.matchesAll, matches_eq_false_of_parts hx hnot hm]
      · cases hk
    · next hpat => simp [PatternRow.matches, hpat, Pattern.matchesAll]

/-- Where no constructor pattern of the first column matches `x`, only the rows
that ignore the column remain. -/
theorem chosen_defaultRows (rows : List PatternRow)
    (h : ∀ row ∈ rows, ∀ first rest, row.patterns = first :: rest → first.isAny =
      false → first.matches x = false) : chosen (defaultRows rows) xs = chosen rows (x :: xs) := by
  refine chosen_filterMap rows (fun row _ kept hk => ?_) (fun row hrow hk => ?_)
  · unfold defaultRow at hk
    split at hk
    · next rest hpat =>
      cases hk
      simp [PatternRow.matches, hpat, Pattern.matchesAll, Pattern.matches]
    · cases hk
  · unfold defaultRow at hk
    split at hk
    · cases hk
    · next hpat =>
      cases hp : row.patterns with
      | nil => simp [PatternRow.matches, hp, Pattern.matchesAll]
      | cons first rest =>
        have hnot : first.isAny = false := by cases first <;> simp_all [Pattern.isAny]
        simp [PatternRow.matches, hp, Pattern.matchesAll, h row hrow first rest hp hnot]

/-! ## Moving a column to the front -/

theorem matchesAll_moveFirst (position : Nat) : ∀ (patterns : List Pattern) (values : List (Value σ)),
    patterns.length = values.length →
    Pattern.matchesAll (moveFirst patterns position) (moveFirst values position) =
      Pattern.matchesAll patterns values := by
  have key : ∀ (position : Nat) (patterns : List Pattern) (values : List (Value σ)) p x,
      patterns.length = values.length → patterns[position]? = some p → values[position]? = some x →
      Pattern.matchesAll patterns values =
        (p.matches x && Pattern.matchesAll (patterns.eraseIdx position)
          (values.eraseIdx position)) := by
    intro position
    induction position with intro patterns values p x hl hp hx
    | zero =>
      cases patterns with
      | nil => simp at hp
      | cons q qs =>
        cases values with
        | nil => simp at hx
        | cons y ys => simp_all [Pattern.matchesAll]
    | succ position ih =>
      cases patterns with
      | nil => simp at hp
      | cons q qs =>
        cases values with
        | nil => simp at hx
        | cons y ys =>
          simp only [Pattern.matchesAll, List.eraseIdx_cons_succ]
          rw [ih qs ys p x (by simpa using hl) hp hx]
          cases q.matches y <;> cases p.matches x <;> simp
  intro patterns values hl
  unfold moveFirst
  split
  · rfl
  · cases hp : patterns[position]? with
    | none =>
      have : values[position]? = none := by rw [List.getElem?_eq_none_iff] at hp ⊢; omega
      simp [this]
    | some p =>
      have hlt := (List.getElem?_eq_some_iff.mp hp).1
      have hx : values[position]? = some values[position] := List.getElem?_eq_getElem (by omega)
      rw [hx]
      simp only [Pattern.matchesAll]
      rw [key position patterns values p _ hl hp hx]

theorem chosen_moveRows (position : Nat) (values : List (Value σ)) :
    ∀ rows : List PatternRow, (∀ row ∈ rows, row.patterns.length = values.length) →
      chosen (moveRows rows position) (moveFirst values position) = chosen rows values := by
  intro rows
  unfold moveRows
  split
  · next h => intro _; simp [h, moveFirst]
  · induction rows with
    | nil => intro _; rfl
    | cons row rows ih =>
      intro hl
      rw [List.map_cons, chosen_cons, chosen_cons,
        ih fun r hr => hl r (List.mem_cons_of_mem _ hr)]
      simp only [PatternRow.matches]
      rw [matchesAll_moveFirst position row.patterns values (hl row List.mem_cons_self)]

end Blorp.Check
