import Blorp.Check.Selection

/-!
# Both matrix recursions end

The number of constructors left in the rows and the candidate never grows; where
it stays, `useful` has dropped a column.  `compileRows` tests the head of a row, and
both branches lose that row's constructor.  So both settle on every input, typed or
not (pattern_analysis_ends).
-/

namespace Blorp.Check

open Fuel Outcome

/-! ## Counting constructors -/

mutual

def Pattern.weight : Pattern → Nat
  | .anything => 0
  | .variantPattern _ fields => Pattern.weights fields + 1
  | .tuplePattern fields => Pattern.weights fields + 1
  | .emptyListPattern => 1
  | .consListPattern head tail => head.weight + tail.weight + 1
  | .exactPattern _ => 1

def Pattern.weights : List Pattern → Nat
  | [] => 0
  | pattern :: rest => pattern.weight + Pattern.weights rest

end

def PatternRow.weight (row : PatternRow) : Nat := Pattern.weights row.patterns

def rowsWeight (rows : List PatternRow) : Nat := (rows.map PatternRow.weight).sum

theorem weights_append (front back : List Pattern) :
    Pattern.weights (front ++ back) = Pattern.weights front + Pattern.weights back := by
  induction front with
  | nil => simp [Pattern.weights]
  | cons p ps ih => simp only [List.cons_append, Pattern.weights, ih]; omega

theorem weights_replicate_anything (n : Nat) :
    Pattern.weights (List.replicate n .anything) = 0 := by
  induction n with
  | zero => rfl
  | succ n ih => simp [List.replicate_succ, Pattern.weights, Pattern.weight, ih]

theorem weights_children_le (p : Pattern) (head : Head) :
    Pattern.weights (p.children head) ≤ p.weight := by
  cases p <;> simp [Pattern.children, Pattern.weight, Pattern.weights, weights_replicate_anything]

theorem weights_children_lt {p : Pattern} (h : p.isAny = false) (head : Head) :
    Pattern.weights (p.children head) < p.weight := by
  cases p <;> simp [Pattern.isAny] at h <;>
    simp [Pattern.children, Pattern.weight, Pattern.weights]

theorem weight_pos {p : Pattern} (h : p.isAny = false) : 0 < p.weight := by
  have := weights_children_lt h .nilHead
  omega

/-- The weight left after a row operation; a dropped row weighs nothing. -/
def keptWeight (kept : Option PatternRow) : Nat := kept.elim 0 PatternRow.weight

variable {f : PatternRow → Option PatternRow} {rows : List PatternRow}

theorem rowsWeight_filterMap_le (h : ∀ row, keptWeight (f row) ≤ row.weight)
    (rows : List PatternRow) : rowsWeight (rows.filterMap f) ≤ rowsWeight rows := by
  induction rows with
  | nil => simp [rowsWeight]
  | cons row rows ih =>
    have hrow := h row
    unfold rowsWeight at ih ⊢
    cases hf : f row with
    | none => rw [List.filterMap_cons_none hf, List.map_cons, List.sum_cons]; omega
    | some kept =>
      rw [hf] at hrow
      rw [List.filterMap_cons_some hf, List.map_cons, List.sum_cons, List.map_cons, List.sum_cons]
      exact Nat.add_le_add hrow ih

variable {row : PatternRow}

theorem rowsWeight_filterMap_lt (h : ∀ row, keptWeight (f row) ≤ row.weight) (hm : row ∈ rows)
    (hlt : keptWeight (f row) < row.weight) : rowsWeight (rows.filterMap f) < rowsWeight rows := by
  induction rows with
  | nil => cases hm
  | cons first rows ih =>
    have hfirst := h first
    have hle := rowsWeight_filterMap_le h rows
    have hstep : rowsWeight ((first :: rows).filterMap f) =
        keptWeight (f first) + rowsWeight (rows.filterMap f) := by
      cases hf : f first with
      | none => rw [List.filterMap_cons_none hf]; simp [keptWeight]
      | some kept => rw [List.filterMap_cons_some hf]; simp [rowsWeight, keptWeight]
    have hsum : rowsWeight (first :: rows) = first.weight + rowsWeight rows := by simp [rowsWeight]
    rcases List.mem_cons.mp hm with rfl | hm
    · omega
    · have := ih hm
      omega

theorem keptWeight_specializeRow (head : Head) (row : PatternRow) :
    keptWeight (specializeRow head row) ≤ row.weight := by
  unfold specializeRow
  split
  · next first rest hp =>
    split
    · have := weights_children_le first head
      simp only [keptWeight, Option.elim, PatternRow.weight, hp, weights_append, Pattern.weights]
      omega
    · simp [keptWeight]
  · simp [keptWeight]

theorem keptWeight_specializeRow_lt (head : Head) {first : Pattern} {rest : List Pattern}
    (hp : row.patterns = first :: rest) (hany : first.isAny = false) :
    keptWeight (specializeRow head row) < row.weight := by
  have hlt := weights_children_lt hany head
  unfold specializeRow
  simp only [PatternRow.weight, hp, Pattern.weights]
  split
  · simp only [keptWeight, Option.elim, PatternRow.weight, weights_append]
    omega
  · simp only [keptWeight, Option.elim]
    omega

theorem keptWeight_defaultRow (row : PatternRow) : keptWeight (defaultRow row) ≤ row.weight := by
  unfold defaultRow
  split
  · next rest hp => simp [keptWeight, PatternRow.weight, hp, Pattern.weights, Pattern.weight]
  · simp [keptWeight]

theorem keptWeight_defaultRow_lt {first : Pattern} {rest : List Pattern}
    (hp : row.patterns = first :: rest) (hany : first.isAny = false) :
    keptWeight (defaultRow row) < row.weight := by
  have hpos := weight_pos hany
  have hdrop : defaultRow row = none := by
    unfold defaultRow
    cases first <;> simp_all [Pattern.isAny]
  simp only [hdrop, keptWeight, Option.elim, PatternRow.weight, hp, Pattern.weights]
  omega

theorem exists_constructor_row (hirr : rows.any rowIsIrrefutable = false)
    (hall : rows.all rowStartsAny = false) :
    ∃ row ∈ rows, ∃ first rest, row.patterns = first :: rest ∧ first.isAny = false := by
  obtain ⟨row, hm, hs⟩ := List.all_eq_false.mp hall
  have hr := List.any_eq_false.mp hirr row hm
  cases hp : row.patterns with
  | nil => simp [rowIsIrrefutable, hp] at hr
  | cons first rest =>
    refine ⟨row, hm, first, rest, hp, ?_⟩
    cases first <;> simp_all [rowStartsAny, Pattern.isAny]

/-! ## Usefulness settles -/

section Settle

variable (unions : List CheckedUnion) (span : Span)
variable (self : Nat → List PatternRow → List Pattern → List Column → UsefulResult)

def Ends (rows : List PatternRow) (candidate : List Pattern) (columns : List Column) : Prop :=
  ∃ outcome, Settles (fun n => self n rows candidate columns) outcome

variable {unions span self}

theorem settles_option {x : Nat → UsefulResult} (f : List PatternWitness → List PatternWitness)
    (h : ∃ outcome, Settles x outcome) :
    ∃ outcome, Settles (fun n => (do match ← x n with
      | some witness => return some (f witness)
      | none => return none : UsefulResult)) outcome := by
  refine Settles.bind h fun answer => ?_
  cases answer with
  | none => exact ⟨_, Settles.ok⟩
  | some witness => exact ⟨_, Settles.ok⟩

variable {rows : List PatternRow}

theorem usefulHead_settles {candidate : List Pattern} {current : Column} {following : List Column}
    {head : Head}
    (h : ∀ fields, Ends self (specializeRows rows head) candidate (fields ++ following)) :
    ∃ outcome, Settles
      (fun n => usefulHead unions span (self n) rows candidate current following head) outcome := by
  exact Settles.bind (Settles.ofExcept _) fun fields => settles_option _ (h fields)

theorem usefulClosed_settles {rest : List Pattern} {current : Column} {following : List Column}
    (h : ∀ head fields, Ends self (specializeRows rows head) (List.replicate head.arity .anything
      ++ rest) (fields ++ following)) :
    ∀ heads : List Head, ∃ outcome, Settles
      (fun n => usefulClosed unions span (self n) rows rest current following heads) outcome := by
  intro heads
  induction heads with
  | nil => exact ⟨_, Settles.ok⟩
  | cons head heads ih =>
    refine Settles.bind (usefulHead_settles fun fields => h head fields) fun result => ?_
    cases result with
    | some witness => exact ⟨_, Settles.ok⟩
    | none => exact ih

end Settle

theorem useful_settles_of_weight (unions : List CheckedUnion) (span : Span) :
    ∀ (weight length : Nat) (rows : List PatternRow) (candidate : List Pattern)
      (columns : List Column), rowsWeight rows + Pattern.weights candidate = weight →
      candidate.length = length → Ends (useful unions span) rows candidate columns := by
  intro weight
  -- constructors in rows and candidate first, then columns
  induction weight using Nat.strong_induction_on with
  | _ weight ihw =>
  intro length
  induction length using Nat.strong_induction_on with
  | _ length ihl =>
  intro rows candidate columns hw hl
  have lighter : ∀ rows' candidate' columns',
      rowsWeight rows' + Pattern.weights candidate' < weight →
      Ends (useful unions span) rows' candidate' columns' :=
    fun rows' candidate' columns' h => ihw _ h _ rows' candidate' columns' rfl rfl
  suffices hstep : ∃ outcome, Settles
      (fun n => usefulStep unions span (useful unions span n) rows candidate columns) outcome by
    obtain ⟨outcome, h⟩ := hstep
    exact ⟨outcome, Settles.succ (fun n => rfl) h⟩
  unfold usefulStep
  cases hirr : rows.any rowIsIrrefutable with
  | true => exact ⟨_, Settles.ok⟩
  | false =>
  cases hempty : rows.isEmpty with
  | true => exact ⟨_, Settles.ok⟩
  | false =>
  cases hall : rows.all rowStartsAny with
  | true =>
    cases candidate with
    | nil => exact ⟨.err _, Settles.err⟩
    | cons first rest =>
      refine Settles.bind (Settles.ofExcept _) fun _ => settles_option _ ?_
      show Ends (useful unions span) (defaultRows rows) rest (columns.drop 1)
      have hle := rowsWeight_filterMap_le keptWeight_defaultRow rows
      simp only [Pattern.weights] at hw
      rcases Nat.lt_or_ge (rowsWeight (defaultRows rows) + Pattern.weights rest) weight with h | h
      · exact lighter _ _ _ h
      · refine ihl rest.length (by simp at hl; omega) _ _ _ ?_ rfl
        unfold defaultRows at h ⊢
        omega
  | false =>
    obtain ⟨row, hm, first, rest, hp, hany⟩ := exists_constructor_row hirr hall
    have hspec : ∀ head, rowsWeight (specializeRows rows head) < rowsWeight rows := fun head =>
      rowsWeight_filterMap_lt (keptWeight_specializeRow head) hm
        (keptWeight_specializeRow_lt head hp hany)
    have hdef : rowsWeight (defaultRows rows) < rowsWeight rows :=
      rowsWeight_filterMap_lt keptWeight_defaultRow hm (keptWeight_defaultRow_lt hp hany)
    unfold usefulNonempty
    cases candidate with
    | nil =>
      cases columns with
      | nil => simp only [hempty, Bool.false_eq_true, if_false]; exact ⟨.ok none, Settles.const (by simp)⟩
      | cons current following => exact ⟨.err _, Settles.const (by simp)⟩
    | cons p ps =>
      cases columns with
      | nil => exact ⟨.err _, Settles.err⟩
      | cons current following =>
        simp only [Pattern.weights] at hw
        have hcon : ∃ outcome, Settles (fun n => usefulConstructor unions span
            (useful unions span n) rows p ps current following) outcome := by
          unfold usefulConstructor
          cases patternHead current.domain p with
          | none => exact ⟨.ok none, Settles.ok⟩
          | some head =>
            refine usefulHead_settles fun fields => lighter _ _ _ ?_
            have := weights_children_le p head
            have := hspec head
            rw [weights_append]
            omega
        have hwild : ∃ outcome, Settles (fun n => usefulWildcard unions span
            (useful unions span n) rows ps current following) outcome := by
          unfold usefulWildcard
          cases current.domain with
          | closedDomain heads =>
            refine usefulClosed_settles (fun head fields => lighter _ _ _ ?_) heads
            have := hspec head
            rw [weights_append, weights_replicate_anything]
            omega
          | openDomain => exact settles_option _ (lighter _ _ _ (by omega))
          | scalarDomain => exact settles_option _ (lighter _ _ _ (by omega))
        cases p with
        | anything => exact hwild
        | _ => exact hcon

/-- **Usefulness ends on every input.** -/
theorem useful_settles (unions : List CheckedUnion) (span : Span) (rows : List PatternRow)
    (candidate : List Pattern) (columns : List Column) :
    ∃ outcome, Settles (fun n => useful unions span n rows candidate columns) outcome :=
  useful_settles_of_weight unions span _ _ rows candidate columns rfl rfl

/-! ## Compiling settles -/

variable {k : Nat} {p : Pattern} {head : Head} {row : PatternRow}

theorem weights_eraseIdx {patterns : List Pattern} (h : patterns[k]? = some p) :
    p.weight + Pattern.weights (patterns.eraseIdx k) = Pattern.weights patterns := by
  induction patterns generalizing k with
  | nil => simp at h
  | cons q patterns ih =>
    cases k with
    | zero =>
      simp only [List.getElem?_cons_zero, Option.some.injEq] at h
      subst h
      rfl
    | succ k =>
      have := ih h
      simp only [List.eraseIdx_cons_succ, Pattern.weights]
      omega

theorem weights_moveFirst (patterns : List Pattern) (k : Nat) :
    Pattern.weights (moveFirst patterns k) = Pattern.weights patterns := by
  unfold moveFirst
  split
  · rfl
  · split
    · rfl
    · next p hp => exact weights_eraseIdx hp

theorem rowsWeight_moveRows (rows : List PatternRow) (k : Nat) :
    rowsWeight (moveRows rows k) = rowsWeight rows := by
  unfold moveRows
  split
  · rfl
  · unfold rowsWeight
    rw [List.map_map]
    congr 1
    refine List.map_congr_left fun row _ => ?_
    exact weights_moveFirst row.patterns k

theorem keptWeight_excludingRow (head : Head) (row : PatternRow) :
    keptWeight (excludingRow head row) ≤ row.weight := by
  unfold excludingRow
  split
  · exact Nat.le_refl _
  · split
    · simp [keptWeight]
    · exact Nat.le_refl _
  · simp [keptWeight]

theorem keptWeight_excludingRow_lt {first : Pattern} {rest : List Pattern}
    (hp : row.patterns = first :: rest) (hany : first.isAny = false)
    (hm : first.matchesHead head = true) : keptWeight (excludingRow head row) < row.weight := by
  have hpos := weight_pos hany
  have hdrop : excludingRow head row = none := by
    unfold excludingRow
    cases first <;> simp_all [Pattern.isAny]
  simp only [hdrop, keptWeight, Option.elim, PatternRow.weight, hp, Pattern.weights]
  omega

theorem moveFirst_of_getElem? {α : Type} {values : List α} {a : α} (h : values[k]? = some a) :
    ∃ rest, moveFirst values k = a :: rest := by
  unfold moveFirst
  split
  · next hk =>
    subst hk
    cases values with
    | nil => simp at h
    | cons b rest => exact ⟨rest, by simpa using h⟩
  · rw [h]
    exact ⟨_, rfl⟩

variable {rows : List PatternRow}

theorem exists_moved_row (hm : row ∈ rows) (h : row.patterns[k]? = some p) :
    ∃ moved ∈ moveRows rows k, ∃ rest, moved.patterns = p :: rest := by
  obtain ⟨rest, hrest⟩ := moveFirst_of_getElem? h
  unfold moveRows
  split
  · next hk =>
    subst hk
    exact ⟨row, hm, rest, by simpa [moveFirst] using hrest⟩
  · exact ⟨_, List.mem_map_of_mem hm, rest, hrest⟩

/-- The head that a pattern tests is the head of a constructor; unless the domain has no other
head, the pattern matches it. -/
theorem patternHead_cases {domain : ColumnDomain} (h : patternHead domain p = some head) :
    p.isAny = false ∧ (p.matchesHead head = true ∨ domain = .closedDomain [head]) := by
  cases p with
  | anything => simp [patternHead] at h
  | emptyListPattern =>
    obtain rfl : Head.nilHead = head := by simpa [patternHead] using h
    exact ⟨rfl, .inl rfl⟩
  | exactPattern literal =>
    obtain rfl : Head.literalHead literal = head := by simpa [patternHead] using h
    refine ⟨rfl, .inl ?_⟩
    simp [Pattern.matchesHead]
  | tuplePattern fields =>
    refine ⟨rfl, .inr ?_⟩
    simp only [patternHead] at h
    split at h
    · rw [Option.some.inj h]
    · cases h
  | consListPattern first rest =>
    refine ⟨rfl, .inl ?_⟩
    simp only [patternHead] at h
    split at h
    · exact List.find?_some (p := Head.isCons) h
    · cases h
  | variantPattern id fields =>
    refine ⟨rfl, .inl ?_⟩
    simp only [patternHead] at h
    split at h
    · exact List.find?_some (p := Head.hasVariant id) h
    · cases h

theorem rowsWeight_excludingRows_lt {rest : List Pattern} {domain : ColumnDomain} (hm : row ∈ rows)
    (hp : row.patterns = p :: rest) (hhead : patternHead domain p = some head)
    (hsplit : ¬ ∃ only, domain = .closedDomain [only]) :
    rowsWeight (excludingRows rows head) < rowsWeight rows := by
  obtain ⟨hany, hmatch | honly⟩ := patternHead_cases hhead
  · exact rowsWeight_filterMap_lt (keptWeight_excludingRow head) hm
      (keptWeight_excludingRow_lt hp hany hmatch)
  · exact absurd ⟨head, honly⟩ hsplit

section

variable (unions : List CheckedUnion) (span : Span)

theorem compileSplit_settles {rows : List PatternRow} {current : Column}
    {following fields : List Column} {nodes : List CheckedDecisionNode}
    (hno : ∃ outcome, Settles (fun n => compileRows unions span n (excludingRows rows head)
      (excludeHead current head :: following) nodes) outcome)
    (hyes : ∀ nodes, ∃ outcome, Settles (fun n => compileRows unions span n (specializeRows rows
      head) (fields ++ following) nodes) outcome) :
    ∃ outcome, Settles (fun n => compileSplit span (compileRows unions span n) rows current
      following fields head nodes) outcome := by
  refine Settles.bind hno fun no => ?_
  refine Settles.bind (hyes no.nodes) fun yes => ?_
  refine Settles.bindExcept fun test _ => ?_
  exact ⟨_, Settles.ok⟩

theorem compileRows_settles_of_weight : ∀ (weight : Nat) (rows : List PatternRow)
    (columns : List Column) (nodes : List CheckedDecisionNode), rowsWeight rows = weight →
    ∃ outcome, Settles (fun n => compileRows unions span n rows columns nodes) outcome := by
  intro weight
  induction weight using Nat.strong_induction_on with
  | _ weight ih =>
    intro rows columns nodes hweight
    have lighter : ∀ rows' columns' nodes', rowsWeight rows' < rowsWeight rows →
        ∃ outcome, Settles (fun n => compileRows unions span n rows' columns' nodes') outcome :=
      fun rows' columns' nodes' h => ih _ (hweight ▸ h) rows' columns' nodes' rfl
    suffices h : ∃ outcome, Settles
        (fun n => compileStep unions span (compileRows unions span n) rows columns nodes) outcome by
      obtain ⟨outcome, ho⟩ := h
      exact ⟨outcome, Settles.succ (fun _ => rfl) ho⟩
    refine Settles.bindExcept fun first hfirst => ?_
    have hmem := List.mem_of_getElem? (orCheckerInvariant_eq_ok.mp hfirst)
    by_cases hall : first.patterns.all Pattern.isAny = true
    · simp only [hall, ↓reduceIte]
      exact ⟨_, Settles.ok⟩
    simp only [hall, Bool.false_eq_true, ↓reduceIte]
    refine Settles.bindExcept fun current _ => ?_
    refine Settles.bindExcept fun pattern hpattern => ?_
    refine Settles.bindExcept fun head hhead => ?_
    refine Settles.bindExcept fun fields _ => ?_
    have hpattern := orCheckerInvariant_eq_ok.mp hpattern
    have hhead := orCheckerInvariant_eq_ok.mp hhead
    -- the row of the tested head loses its constructor in both branches
    obtain ⟨moved, hmoved, rest, hpatterns⟩ := exists_moved_row hmem hpattern
    have hany := (patternHead_cases hhead).1
    have hyes : ∀ nodes, ∃ outcome, Settles (fun n => compileRows unions span n
        (specializeRows (moveRows rows (structuralColumn first.patterns)) head)
        (fields ++ (moveFirst columns (structuralColumn first.patterns)).drop 1) nodes) outcome := by
      intro nodes
      refine lighter _ _ _ ?_
      have hlt := rowsWeight_filterMap_lt (keptWeight_specializeRow head) hmoved
        (keptWeight_specializeRow_lt head hpatterns hany)
      rwa [rowsWeight_moveRows] at hlt
    split
    · exact hyes nodes
    · next hsplit =>
      refine compileSplit_settles unions span (lighter _ _ _ ?_) hyes
      have hlt := rowsWeight_excludingRows_lt hmoved hpatterns hhead
        (by rintro ⟨only, honly⟩; exact hsplit only honly)
      rwa [rowsWeight_moveRows] at hlt

/-- **Compiling ends on every input.** -/
theorem compileRows_settles (rows : List PatternRow) (columns : List Column)
    (nodes : List CheckedDecisionNode) :
    ∃ outcome, Settles (fun n => compileRows unions span n rows columns nodes) outcome :=
  compileRows_settles_of_weight unions span _ rows columns nodes rfl

/-! ## Every function of the two recursions -/

/-- **Pattern analysis ends.**  Whatever rows, candidate and columns it is given, well typed or
not, each function of the usefulness recursion and of the compilation ends. -/
theorem pattern_analysis_ends (rows : List PatternRow) (candidate : List Pattern)
    (columns : List Column) (nodes : List CheckedDecisionNode) :
    (∃ outcome, Settles (fun n => useful unions span n rows candidate columns) outcome) ∧
    (∃ outcome, Settles (fun n => usefulUnconstrained span (useful unions span n) rows candidate
      columns) outcome) ∧
    (∃ outcome, Settles (fun n => usefulNonempty unions span (useful unions span n) rows candidate
      columns) outcome) ∧
    (∀ current heads, ∃ outcome, Settles (fun n => usefulClosed unions span (useful unions span n)
      rows candidate current columns heads) outcome) ∧
    (∃ outcome, Settles (fun n => compileRows unions span n rows columns nodes) outcome) ∧
    (∀ current fields head, ∃ outcome, Settles (fun n => compileSplit span
      (compileRows unions span n) rows current columns fields head nodes) outcome) := by
  have huseful := useful_settles unions span
  have hclosed : ∀ rows candidate current columns heads, ∃ outcome, Settles (fun n =>
      usefulClosed unions span (useful unions span n) rows candidate current columns heads)
      outcome := fun _ _ _ _ heads => usefulClosed_settles (fun _ _ => huseful _ _ _) heads
  refine ⟨huseful _ _ _, ?_, ?_, fun current heads => hclosed _ _ current _ heads,
    compileRows_settles unions span _ _ _, fun current fields head => ?_⟩
  · unfold usefulUnconstrained
    exact Settles.bindExcept fun _ _ => settles_option _ (huseful _ _ _)
  · unfold usefulNonempty
    cases candidate with
    | nil =>
      cases columns with
      | nil =>
        by_cases hempty : rows.isEmpty = true
        · simp only [hempty, ↓reduceIte]
          exact ⟨.ok (some []), Settles.ok⟩
        · simp only [hempty, Bool.false_eq_true, ↓reduceIte]
          exact ⟨.ok none, Settles.const (by simp)⟩
      | cons current following => exact ⟨.err _, Settles.const (by simp)⟩
    | cons p ps =>
      cases columns with
      | nil => exact ⟨.err _, Settles.err⟩
      | cons current following =>
        have hwild : ∃ outcome, Settles (fun n => usefulWildcard unions span
            (useful unions span n) rows ps current following) outcome := by
          unfold usefulWildcard
          cases current.domain with
          | closedDomain heads => exact hclosed _ _ _ _ heads
          | openDomain => exact settles_option _ (huseful _ _ _)
          | scalarDomain => exact settles_option _ (huseful _ _ _)
        have hcon : ∃ outcome, Settles (fun n => usefulConstructor unions span
            (useful unions span n) rows p ps current following) outcome := by
          unfold usefulConstructor
          cases patternHead current.domain p with
          | none => exact ⟨.ok none, Settles.ok⟩
          | some head => exact usefulHead_settles fun _ => huseful _ _ _
        cases p with
        | anything => exact hwild
        | _ => exact hcon
  · exact compileSplit_settles unions span (compileRows_settles unions span _ _ _)
      fun nodes => compileRows_settles unions span _ _ nodes

end

end Blorp.Check
