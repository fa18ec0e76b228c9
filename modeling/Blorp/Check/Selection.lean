import Blorp.Check.Usefulness

/-!
# Selection is correct

A selection compiled from typed rows decides as the rows do: walked on a subject,
it reaches the arm of the first row that matches, with that row's arguments, and
every place it tests on the way exists.

While compiling, a column's domain shrinks: after a head is excluded only the
others remain (`ColumnWithin`), the rows that are left start with one of them
(`PatternWithin`), and the value at the column is built with one of them
(`ColumnHolds`).  So a domain of one head needs no test.
-/

namespace Blorp.Check

open Fuel Outcome NodeGraph

variable {σ : Type}

/-! ## Invariants of a column -/

/-- The column's domain lists some of the heads of its type, in order. -/
inductive ColumnWithin (unions : List CheckedUnion) (c : Column) : Prop where
  | closed {heads all : List Head} (domain : c.domain = .closedDomain heads)
      (full : DomainOf unions c.type (.closedDomain all)) (sub : heads.Sublist all)
  | unlisted (domain : ∀ heads, c.domain ≠ .closedDomain heads)
      (full : DomainOf unions c.type c.domain)

/-- A pattern of the column's type whose head the domain still lists. -/
structure PatternWithin (unions : List CheckedUnion) (p : Pattern) (c : Column) : Prop where
  fits : PatternFits unions p c.type
  listed : p.isAny = false → ∀ heads, c.domain = .closedDomain heads →
    ∃ head ∈ heads, p.matchesHead head = true

/-- The column's value: where it sits, its type, and that the domain lists its head. -/
structure ColumnHolds (unions : List CheckedUnion) (scalar : σ → TypeRef → Prop)
    (subject : Value σ) (c : Column) (x : Value σ) : Prop where
  located : Located subject c x
  typed : HasType unions scalar x c.type
  listed : ∀ heads, c.domain = .closedDomain heads → ∃ head ∈ heads, ∃ ys, head.parts x = some ys

variable {unions : List CheckedUnion} {type : TypeRef} {c : Column} {scalar : σ → TypeRef → Prop}
variable {subject x : Value σ} {α β : Type} {R : α → β → Prop} {as : List α} {bs : List β}
variable {columns : List Column} {rows : List PatternRow} {parts : List TypeRef}

theorem FreshColumn.within (h : FreshColumn unions type c) : ColumnWithin unions c := by
  obtain ⟨rfl, hdom⟩ := h
  cases hd : c.domain with
  | closedDomain heads => rw [hd] at hdom; exact .closed hd hdom (List.Sublist.refl _)
  | openDomain => exact .unlisted (by simp [hd]) hdom
  | scalarDomain => exact .unlisted (by simp [hd]) hdom

theorem FreshColumn.pattern (h : FreshColumn unions type c) {p : Pattern}
    (hp : PatternFits unions p type) : PatternWithin unions p c := by
  obtain ⟨rfl, hdom⟩ := h
  refine ⟨hp, fun hany heads hd => ?_⟩
  rw [hd] at hdom
  exact hdom.exists_matchesHead hp hany

theorem FreshColumn.holds (h : FreshColumn unions type c) (hl : Located subject c x)
    (hx : HasType unions scalar x type) : ColumnHolds unions scalar subject c x := by
  obtain ⟨rfl, hdom⟩ := h
  refine ⟨hl, hx, fun heads hd => ?_⟩
  rw [hd] at hdom
  exact hdom.exists_parts hx

theorem ColumnWithin.head_fits {heads : List Head} (h : ColumnWithin unions c)
    (hd : c.domain = .closedDomain heads) {head : Head} (hm : head ∈ heads) :
    ∃ parts, HeadFits unions c.type head parts := by
  cases h with
  | closed domain full sub =>
    rw [hd] at domain
    cases domain
    exact full.head_fits (sub.subset hm)
  | unlisted domain full => exact absurd hd (domain heads)

theorem PatternWithin.head {unions : List CheckedUnion} {c : Column} {p : Pattern} {head : Head}
    (hc : ColumnWithin unions c) (hp : PatternWithin unions p c)
    (h : patternHead c.domain p = some head) :
    p.isAny = false ∧ p.matchesHead head = true ∧ (∃ parts, HeadFits unions c.type head parts) ∧
      ∀ heads, c.domain = .closedDomain heads → head ∈ heads := by
  have hany : p.isAny = false := by
    cases p with
    | anything => simp [patternHead] at h
    | _ => rfl
  cases hd : c.domain with
  | closedDomain heads =>
    have key : head ∈ heads ∧ p.matchesHead head = true := by
      obtain ⟨other, hm, hmatch⟩ := hp.listed hany heads hd
      rw [hd] at h
      cases p with
      | anything => simp [patternHead] at h
      | variantPattern id fields =>
        have hhas : Head.hasVariant id head = true := List.find?_some h
        exact ⟨List.mem_of_find?_eq_some h, hhas⟩
      | consListPattern first rest =>
        have hcons : Head.isCons head = true := List.find?_some h
        exact ⟨List.mem_of_find?_eq_some h, hcons⟩
      | tuplePattern fields =>
        rcases heads with _ | ⟨only, _ | ⟨second, rest⟩⟩
        · simp [patternHead] at h
        · simp only [patternHead, Option.some.injEq] at h
          subst h
          rw [List.mem_singleton] at hm
          subst hm
          exact ⟨List.mem_singleton_self _, hmatch⟩
        · simp [patternHead] at h
      | emptyListPattern =>
        cases h
        cases other with
        | nilHead => exact ⟨hm, rfl⟩
        | _ => simp [Pattern.matchesHead] at hmatch
      | exactPattern literal =>
        cases h
        cases other with
        | literalHead l =>
          simp only [Pattern.matchesHead, beq_iff_eq] at hmatch
          subst hmatch
          exact ⟨hm, by simp [Pattern.matchesHead]⟩
        | _ => simp [Pattern.matchesHead] at hmatch
    refine ⟨hany, key.2, hc.head_fits hd key.1, ?_⟩
    rintro _ ⟨⟩
    exact key.1
  | openDomain | scalarDomain =>
    cases hc with
    | closed domain full sub => rw [hd] at domain; cases domain
    | unlisted domain full =>
      obtain ⟨head', parts, hfound, hfits, hm⟩ := patternHead_fits full hp.fits hany
      rw [h] at hfound
      cases hfound
      exact ⟨hany, hm, ⟨parts, hfits⟩, by simp⟩

/-! ## Excluding a head -/

theorem excludeHead_type (c : Column) (head : Head) : (excludeHead c head).type = c.type := by
  unfold excludeHead
  cases c.domain <;> rfl

theorem excludeHead_cursor (c : Column) (head : Head) : (excludeHead c head).cursor = c.cursor := by
  unfold excludeHead
  cases c.domain <;> rfl

theorem excludeHead_domain {head : Head} {remaining : List Head}
    (h : (excludeHead c head).domain = .closedDomain remaining) :
    ∃ heads, c.domain = .closedDomain heads ∧
      remaining = heads.filter fun known => known.different head := by
  unfold excludeHead at h
  split at h
  · next heads hd => cases h; exact ⟨heads, hd, rfl⟩
  all_goals next hd => rw [hd] at h; cases h

theorem ColumnWithin.exclude (h : ColumnWithin unions c) (head : Head) :
    ColumnWithin unions (excludeHead c head) := by
  cases h with
  | @closed heads all domain full sub =>
    have hremaining : (excludeHead c head).domain =
        .closedDomain (heads.filter fun known => known.different head) := by
      simp [excludeHead, domain]
    exact .closed hremaining ((excludeHead_type c head).symm ▸ full) (List.filter_sublist.trans sub)
  | unlisted domain full =>
    have hsame : excludeHead c head = c := by
      unfold excludeHead
      split
      · next heads hd => exact absurd hd (domain heads)
      · rfl
      · rfl
    rw [hsame]
    exact .unlisted domain full

theorem parts_of_same {left right : Head} (h : left.same right = true) (x : Value σ) :
    left.parts x = right.parts x := by
  cases left <;> cases right <;> simp [Head.same] at h <;>
    rcases x with _ | _ | ⟨_ | _⟩ | _ | _ <;> simp_all [Head.parts]

theorem matchesHead_of_same {left right : Head} (h : left.same right = true) (p : Pattern) :
    p.matchesHead left = p.matchesHead right := by
  cases left <;> cases right <;> simp [Head.same] at h <;> cases p <;>
    simp_all [Pattern.matchesHead, Head.hasVariant, Head.isCons]

theorem ColumnHolds.exclude (h : ColumnHolds unions scalar subject c x) {head : Head}
    (hx : head.parts x = none) : ColumnHolds unions scalar subject (excludeHead c head) x := by
  refine ⟨?_, by rw [excludeHead_type]; exact h.typed, fun remaining hr => ?_⟩
  · have hloc := h.located
    unfold Located at hloc ⊢
    rwa [excludeHead_cursor]
  · obtain ⟨heads, hd, rfl⟩ := excludeHead_domain hr
    obtain ⟨known, hm, ys, hys⟩ := h.listed heads hd
    refine ⟨known, List.mem_filter.mpr ⟨hm, ?_⟩, ys, hys⟩
    cases hs : known.same head with
    | false => simp [Head.different, hs]
    | true => rw [parts_of_same hs, hx] at hys; cases hys

theorem PatternWithin.exclude {p : Pattern} (h : PatternWithin unions p c) {head : Head}
    (hp : p.isAny = false → p.matchesHead head = false) :
    PatternWithin unions p (excludeHead c head) := by
  refine ⟨by rw [excludeHead_type]; exact h.fits, fun hany remaining hr => ?_⟩
  obtain ⟨heads, hd, rfl⟩ := excludeHead_domain hr
  obtain ⟨known, hm, hk⟩ := h.listed hany heads hd
  refine ⟨known, List.mem_filter.mpr ⟨hm, ?_⟩, hk⟩
  cases hs : known.same head with
  | false => simp [Head.different, hs]
  | true => rw [matchesHead_of_same hs, hp hany] at hk; cases hk

/-! ## Rows and values under the compiler's steps -/

def RowsWithin (unions : List CheckedUnion) (columns : List Column) (rows : List PatternRow) : Prop :=
  ∀ row ∈ rows, List.Forall₂ (PatternWithin unions) row.patterns columns

section

variable (h : List.Forall₂ R as bs)

include h

theorem forall₂_exists_left {b : β} (hb : b ∈ bs) : ∃ a ∈ as, R a b := by
  induction h with
  | nil => cases hb
  | cons hab _ ih =>
    rcases List.mem_cons.mp hb with rfl | hb
    · exact ⟨_, List.mem_cons_self, hab⟩
    · obtain ⟨a, ha, hr⟩ := ih hb
      exact ⟨a, List.mem_cons_of_mem _ ha, hr⟩

theorem forall₂_eraseIdx : ∀ k, List.Forall₂ R (as.eraseIdx k) (bs.eraseIdx k) := by
  induction h with
  | nil => intro k; simp
  | cons hab hrest ih =>
    intro k
    cases k with
    | zero => simpa using hrest
    | succ k => simpa using ⟨hab, ih k⟩

theorem forall₂_moveFirst (k : Nat) : List.Forall₂ R (moveFirst as k) (moveFirst bs k) := by
  unfold moveFirst
  split
  · exact h
  · have hl := h.length_eq
    by_cases hk : k < as.length
    · have hk' : k < bs.length := by omega
      rw [List.getElem?_eq_getElem hk, List.getElem?_eq_getElem hk']
      exact .cons (List.forall₂_iff_get.mp h |>.2 k hk hk') (forall₂_eraseIdx h k)
    · rw [List.getElem?_eq_none (by omega), List.getElem?_eq_none (by omega)]
      exact h

theorem forall₂_of_moveFirst {k : Nat} {a : α} (ha : as[k]? = some a) {b : β} {rest : List β}
    (hb : moveFirst bs k = b :: rest) : R a b := by
  obtain ⟨hk, rfl⟩ := List.getElem?_eq_some_iff.mp ha
  have hk' : k < bs.length := by rw [← h.length_eq]; exact hk
  have hget : bs[k] = b := by
    unfold moveFirst at hb
    split at hb
    · next h0 => subst h0; simp [hb]
    · rw [List.getElem?_eq_getElem hk'] at hb
      simpa using (List.cons.inj hb).1
  rw [← hget]
  exact (List.forall₂_iff_get.mp h).2 k hk hk'

end

theorem RowsWithin.move (h : RowsWithin unions columns rows) (k : Nat) :
    RowsWithin unions (moveFirst columns k) (moveRows rows k) := by
  intro row hm
  unfold moveRows at hm
  split at hm
  · next hk => simpa [moveFirst, hk] using h row hm
  · obtain ⟨row', hm', rfl⟩ := List.mem_map.mp hm
    exact forall₂_moveFirst (h row' hm') k

theorem mem_excludingRows {head : Head} {row : PatternRow} :
    row ∈ excludingRows rows head ↔ row ∈ rows ∧ ∃ first rest, row.patterns = first :: rest ∧
      (first.isAny = false → first.matchesHead head = false) := by
  unfold excludingRows
  rw [List.mem_filterMap]
  constructor
  · rintro ⟨row', hm, hk⟩
    unfold excludingRow at hk
    split at hk
    · next rest hp => cases hk; exact ⟨hm, _, rest, hp, by simp [Pattern.isAny]⟩
    · next first rest hany hp =>
      split at hk
      · cases hk
      · next hh => cases hk; exact ⟨hm, first, rest, hp, fun _ => by simpa using hh⟩
    · cases hk
  · rintro ⟨hm, first, rest, hp, hh⟩
    refine ⟨row, hm, ?_⟩
    unfold excludingRow
    cases first <;> simp_all [Pattern.isAny]

theorem RowsWithin.exclude (h : RowsWithin unions (c :: columns) rows) (head : Head) :
    RowsWithin unions (excludeHead c head :: columns) (excludingRows rows head) := by
  intro row hm
  obtain ⟨hm, first, rest, hp, hh⟩ := mem_excludingRows.mp hm
  have hrow := h row hm
  rw [hp] at hrow ⊢
  cases hrow with
  | cons hfirst hrest => exact .cons (hfirst.exclude hh) hrest

theorem forall₂_patternWithin : ∀ {patterns : List Pattern}
    {types : List TypeRef} {columns : List Column}, List.Forall₂ (PatternFits unions) patterns types →
    List.Forall₂ (FreshColumn unions) types columns →
    List.Forall₂ (PatternWithin unions) patterns columns := by
  intro patterns types columns hp hc
  induction hc generalizing patterns with
  | nil => cases hp; exact .nil
  | cons hcol _ ih =>
    cases hp with
    | cons hfirst hrest => exact .cons (hcol.pattern hfirst) (ih hrest)

theorem RowsWithin.specialize (hd : DeclarationsValid unions) {fields : List Column} {head : Head}
    (h : RowsWithin unions (c :: columns) rows) (hfits : HeadFits unions c.type head parts)
    (hfields : List.Forall₂ (FreshColumn unions) parts fields) :
    RowsWithin unions (fields ++ columns) (specializeRows rows head) := by
  intro kept hk
  obtain ⟨row, hm, first, rest, hp, hh, rfl⟩ := mem_specializeRows.mp hk
  have hrow := h row hm
  rw [hp] at hrow
  cases hrow with
  | cons hfirst hrest =>
    exact List.rel_append
      (forall₂_patternWithin (hfits.children_fit hd hfirst.fits hh) hfields) hrest

theorem RowsWithin.arityFits (hd : DeclarationsValid unions) {head : Head}
    (h : RowsWithin unions (c :: columns) rows) (hfits : HeadFits unions c.type head parts) :
    ∀ row ∈ rows, ArityFits head row := by
  intro row hm first rest hp hh
  have hrow := h row hm
  rw [hp] at hrow
  cases hrow with
  | cons hfirst _ => rw [(hfits.children_fit hd hfirst.fits hh).length_eq, hfits.arity]

theorem forall₂_columnHolds :
    ∀ {types : List TypeRef} {columns : List Column} {values : List (Value σ)},
    List.Forall₂ (FreshColumn unions) types columns → List.Forall₂ (Located subject) columns values →
    List.Forall₂ (HasType unions scalar) values types →
    List.Forall₂ (ColumnHolds unions scalar subject) columns values := by
  intro types columns values hc hl hv
  induction hc generalizing values with
  | nil => cases hl; exact .nil
  | cons hcol _ ih =>
    cases hl with
    | cons hloc hlocs =>
      cases hv with
      | cons hx hxs => exact .cons (hcol.holds hloc hx) (ih hlocs hxs)

/-! ## The test of a head -/

theorem decide1_headTest {span : Span} {head : Head} {yes no : DecisionNodeId}
    {test : CheckedDecisionNode} (hfits : HeadFits unions c.type head parts)
    (hloc : Located subject c x) (hx : HasType unions scalar x c.type)
    (h : headTest span c head yes no = .ok test) :
    decide1 subject test = some (.goto (if (head.parts x).isSome then yes else no)) := by
  generalize htype : c.type = type at hfits hx
  cases hfits with
  | @union owner arguments id types declared =>
    cases h
    cases hx with
    | @variant _ _ other _ fields declared' typed =>
      have hr := hloc.value (by simp)
      simp only [decide1, hr, Head.parts]
      by_cases he : id = other
      · simp [he]
      · simp [he, Ne.symm he]
    | scalar isScalar => cases isScalar
  | tuple types => cases h
  | nil element =>
    cases h
    cases hx with
    | @list xs _ typed =>
      obtain ⟨elements, hr, hle, he⟩ := hloc.list
      simp only [decide1, hr, ListLengthTest.holds]
      cases xs with
      | nil =>
        have hge : elements.length ≤ c.cursor.listSkip := List.drop_eq_nil_iff.mp he.symm
        have heq : elements.length = c.cursor.listSkip := by omega
        simp [heq, Head.parts]
      | cons y ys =>
        have hne : elements.length ≠ c.cursor.listSkip := by
          intro heq
          rw [List.drop_of_length_le (by omega)] at he
          cases he
        simp [hne, Head.parts]
    | scalar isScalar => cases isScalar
  | cons element =>
    cases h
    cases hx with
    | @list xs _ typed =>
      obtain ⟨elements, hr, hle, he⟩ := hloc.list
      simp only [decide1, hr, ListLengthTest.holds]
      cases xs with
      | nil =>
        have hge : elements.length ≤ c.cursor.listSkip := List.drop_eq_nil_iff.mp he.symm
        have hnot : ¬ c.cursor.listSkip + 1 ≤ elements.length := by omega
        simp [hnot, Head.parts]
      | cons y ys =>
        have hlt : c.cursor.listSkip + 1 ≤ elements.length := by
          by_contra hge
          rw [List.drop_of_length_le (by omega)] at he
          cases he
        simp [hlt, Head.parts]
    | scalar isScalar => cases isScalar
  | bytes text =>
    cases h
    cases hx with
    | bytes other =>
      have hr := hloc.value (by simp)
      by_cases he : text = other <;> simp [decide1, hr, Head.parts, he]
    | scalar isScalar => cases isScalar
  | int value =>
    cases h
    cases hx with
    | int other =>
      have hr := hloc.value (by simp)
      by_cases he : value = other <;> simp [decide1, hr, Head.parts, he]
    | scalar isScalar => cases isScalar

/-! ## What one step of the compiler can do -/

section Step

variable (unions : List CheckedUnion) (span : Span)
variable (self : List PatternRow → List Column → List CheckedDecisionNode → SelectionResult)

inductive CompileCase (rows : List PatternRow) (columns : List Column)
    (nodes : List CheckedDecisionNode) : CheckedSelection → Prop where
  | enter {first : PatternRow} {rest : List PatternRow} (start : rows = first :: rest)
      (any : first.patterns.all Pattern.isAny = true) :
      CompileCase rows columns nodes
        ⟨nodes ++ [.enterArm first.arm first.arguments], nodes.length⟩
  | only {position : Nat} {current : Column} {following fields : List Column} {pattern : Pattern}
      {head known : Head} {selection : CheckedSelection}
      (moved : moveFirst columns position = current :: following)
      (found : patternHead current.domain pattern = some head)
      (tested : ∃ row ∈ rows, row.patterns[position]? = some pattern)
      (children : childColumns unions span current head = .ok fields)
      (domain : current.domain = .closedDomain [known])
      (call : self (specializeRows (moveRows rows position) head) (fields ++ following) nodes =
        .ok selection) :
      CompileCase rows columns nodes selection
  | split {position : Nat} {current : Column} {following fields : List Column} {pattern : Pattern}
      {head : Head} {no yes : CheckedSelection} {test : CheckedDecisionNode}
      (moved : moveFirst columns position = current :: following)
      (found : patternHead current.domain pattern = some head)
      (tested : ∃ row ∈ rows, row.patterns[position]? = some pattern)
      (children : childColumns unions span current head = .ok fields)
      (several : ∀ known, current.domain ≠ .closedDomain [known])
      (noCall : self (excludingRows (moveRows rows position) head)
        (excludeHead current head :: following) nodes = .ok no)
      (yesCall : self (specializeRows (moveRows rows position) head) (fields ++ following)
        no.nodes = .ok yes)
      (emitted : headTest span current head yes.entry no.entry = .ok test) :
      CompileCase rows columns nodes ⟨yes.nodes ++ [test], yes.nodes.length⟩

variable {unions span self}

theorem orCheckerInvariant_eq_ok {value : Option α} {invariant : CheckerInvariant} {present : α} :
    orCheckerInvariant value span invariant = .ok present ↔ value = some present := by
  cases value <;> simp [orCheckerInvariant]

theorem compileStep_ok {nodes : List CheckedDecisionNode} {selection : CheckedSelection}
    (h : compileStep unions span self rows columns nodes = .ok selection) :
    CompileCase unions span self rows columns nodes selection := by
  obtain ⟨first, hfirst, h⟩ := bind_eq_ok.mp h
  have hget := orCheckerInvariant_eq_ok.mp (liftM_eq_ok.mp hfirst)
  obtain ⟨rest, rfl⟩ : ∃ rest, rows = first :: rest := by
    cases rows with
    | nil => simp at hget
    | cons row rest => exact ⟨rest, by simpa using hget⟩
  split at h
  · next hany => cases h; exact .enter rfl hany
  · obtain ⟨current, hcurrent, h⟩ := bind_eq_ok.mp h
    obtain ⟨pattern, hpattern, h⟩ := bind_eq_ok.mp h
    obtain ⟨head, hhead, h⟩ := bind_eq_ok.mp h
    obtain ⟨fields, hfields, h⟩ := bind_eq_ok.mp h
    have hpattern := orCheckerInvariant_eq_ok.mp (liftM_eq_ok.mp hpattern)
    have hhead := orCheckerInvariant_eq_ok.mp (liftM_eq_ok.mp hhead)
    have hfields := liftM_eq_ok.mp hfields
    have hcurrent := orCheckerInvariant_eq_ok.mp (liftM_eq_ok.mp hcurrent)
    obtain ⟨following, hmoved⟩ : ∃ following,
        moveFirst columns (structuralColumn first.patterns) = current :: following := by
      cases hm : moveFirst columns (structuralColumn first.patterns) with rw [hm] at hcurrent
      | nil => simp at hcurrent
      | cons c cs => exact ⟨cs, by simpa using hcurrent⟩
    rw [hmoved] at h
    have tested : ∃ row ∈ first :: rest,
        row.patterns[structuralColumn first.patterns]? = some pattern :=
      ⟨first, List.mem_cons_self, hpattern⟩
    split at h
    · next known hdom => exact .only hmoved hhead tested hfields hdom h
    · next hseveral =>
      obtain ⟨no, hno, h⟩ := bind_eq_ok.mp h
      obtain ⟨yes, hyes, h⟩ := bind_eq_ok.mp h
      obtain ⟨test, htest, h⟩ := bind_eq_ok.mp h
      cases h
      exact .split hmoved hhead tested hfields hseveral hno hyes (liftM_eq_ok.mp htest)

end Step

/-! ## The walk -/

theorem compileRows_nodes {span : Span} :
    ∀ (fuel : Nat) (rows : List PatternRow) (columns : List Column)
      (nodes : List CheckedDecisionNode) (selection : CheckedSelection),
      compileRows unions span fuel rows columns nodes = .ok selection →
      ∃ more, selection.nodes = nodes ++ more := by
  intro fuel
  induction fuel with
  | zero => intro _ _ _ _ h; cases h
  | succ fuel ih =>
    intro rows columns nodes selection h
    cases compileStep_ok h with
    | enter start any => exact ⟨_, rfl⟩
    | only moved found tested children domain call => exact ih _ _ _ _ call
    | @split _ _ _ _ _ _ no yes test moved found tested children _ noCall yesCall emitted =>
      obtain ⟨more, hmore⟩ := ih _ _ _ _ noCall
      obtain ⟨more', hmore'⟩ := ih _ _ _ _ yesCall
      refine ⟨more ++ more' ++ [test], ?_⟩
      show yes.nodes ++ [test] = nodes ++ (more ++ more' ++ [test])
      rw [hmore', hmore]
      simp

/-- A typed value with the rows' columns around it: what the walk relies on. -/
structure Compiling (unions : List CheckedUnion) (scalar : σ → TypeRef → Prop) (subject : Value σ)
    (rows : List PatternRow) (columns : List Column) (values : List (Value σ)) : Prop where
  within : ∀ c ∈ columns, ColumnWithin unions c
  fits : RowsWithin unions columns rows
  holds : List.Forall₂ (ColumnHolds unions scalar subject) columns values

section Preserve

variable {unions : List CheckedUnion} {scalar : σ → TypeRef → Prop} {subject : Value σ}
variable {span : Span}

theorem mem_of_mem_moveFirst {values : List α} {k : Nat} {a : α} (h : a ∈ moveFirst values k) :
    a ∈ values := by
  unfold moveFirst at h
  split at h
  · exact h
  · split at h
    · exact h
    · next selected hs =>
      rcases List.mem_cons.mp h with rfl | h
      · exact List.mem_of_getElem? hs
      · exact List.mem_of_mem_eraseIdx h

variable {rows : List PatternRow} {columns : List Column}

variable {values xs : List (Value σ)}

theorem Compiling.move (h : Compiling unions scalar subject rows columns values) (k : Nat) :
    Compiling unions scalar subject (moveRows rows k) (moveFirst columns k) (moveFirst values k) :=
  ⟨fun c hc => h.within c (mem_of_mem_moveFirst hc), h.fits.move k, forall₂_moveFirst h.holds k⟩

theorem Compiling.chosen_move (h : Compiling unions scalar subject rows columns values) (k : Nat) :
    chosen (moveRows rows k) (moveFirst values k) = chosen rows values := by
  refine chosen_moveRows k values rows fun row hm => ?_
  rw [(h.fits row hm).length_eq, h.holds.length_eq]

theorem Compiling.specialize (hd : DeclarationsValid unions) {fields : List Column}
    {ys : List (Value σ)} {head : Head}
    (h : Compiling unions scalar subject rows (c :: columns) (x :: xs))
    (hfits : HeadFits unions c.type head parts) (hp : head.parts x = some ys)
    (hchild : childColumns unions span c head = .ok fields) :
    Compiling unions scalar subject (specializeRows rows head) (fields ++ columns) (ys ++ xs) ∧
      chosen (specializeRows rows head) (ys ++ xs) = chosen rows (x :: xs) := by
  obtain ⟨hcolumns, hrows, hholds⟩ := h
  cases hholds with
  | cons hx hxs =>
    have hfresh := childColumns_fresh rfl hfits hchild
    have hl := hfits.parts_length hd hx.typed hp
    refine ⟨⟨fun c' hc' => ?_, hrows.specialize hd hfits hfresh, ?_⟩,
      chosen_specializeRows hp hl rows (hrows.arityFits hd hfits)⟩
    · rcases List.mem_append.mp hc' with hc' | hc'
      · obtain ⟨type, -, hcol⟩ := forall₂_exists_left hfresh hc'
        exact hcol.within
      · exact hcolumns c' (List.mem_cons_of_mem _ hc')
    · exact List.rel_append (forall₂_columnHolds hfresh (childColumns_located hx.located hp hl hchild)
        (hfits.parts_typed hd hx.typed hp)) hxs

theorem Compiling.exclude {head : Head}
    (h : Compiling unions scalar subject rows (c :: columns) (x :: xs)) (hp : head.parts x = none) :
    Compiling unions scalar subject (excludingRows rows head) (excludeHead c head :: columns)
      (x :: xs) := by
  obtain ⟨hcolumns, hrows, hholds⟩ := h
  cases hholds with
  | cons hx hxs =>
    refine ⟨fun c' hc' => ?_, hrows.exclude head, .cons (hx.exclude hp) hxs⟩
    rcases List.mem_cons.mp hc' with rfl | hc'
    · exact (hcolumns c List.mem_cons_self).exclude head
    · exact hcolumns c' (List.mem_cons_of_mem _ hc')

end Preserve

/-- **The walk finds the first matching row.**  Whatever nodes come before it, a
compiled selection leads to the choice of the rows it was compiled from. -/
theorem compileRows_walk (hd : DeclarationsValid unions) {span : Span} (subject : Value σ) :
    ∀ (fuel : Nat) (rows : List PatternRow) (columns : List Column)
      (nodes : List CheckedDecisionNode) (selection : CheckedSelection) (values : List (Value σ))
      (choice : MatchArmId × List CheckedPatternArgument),
      Compiling unions scalar subject rows columns values → chosen rows values = some choice →
      compileRows unions span fuel rows columns nodes = .ok selection →
      ∃ steps, run (decide1 subject) selection.nodes steps selection.entry = some choice := by
  intro fuel
  induction fuel with
  | zero => intro _ _ _ _ _ _ _ _ h; cases h
  | succ fuel ih =>
    intro rows columns nodes selection values choice hinv hchosen h
    cases compileStep_ok h with
    | @enter first rest start any =>
      refine ⟨1, run_snoc_done _ _ _ 0 _ ?_⟩
      have hlen : first.patterns.length = values.length := by
        rw [(hinv.fits first (by simp [start])).length_eq, hinv.holds.length_eq]
      have hmatch : first.matches values = true := matchesAll_of_all_isAny hlen any
      rw [start, chosen_cons, hmatch] at hchosen
      simpa [decide1] using hchosen
    | @only position current following fields pattern head known selection moved found tested
        children domain call =>
      obtain ⟨row, hm, hget⟩ := tested
      have hpat := forall₂_of_moveFirst (hinv.fits row hm) hget moved
      have hinv' := hinv.move position
      rw [moved] at hinv'
      obtain ⟨hany, hmatch, ⟨parts, hfits⟩, hmem⟩ :=
        hpat.head (hinv'.within current List.mem_cons_self) found
      rw [← hinv.chosen_move position] at hchosen
      generalize moveFirst values position = moved' at hinv' hchosen
      cases hinv'.holds with
      | @cons _ x _ xs hx hxs =>
        -- the one listed head is the pattern's, and the value is built with it
        obtain ⟨head', hmem', ys, hp⟩ := hx.listed _ domain
        have heq : head' = head := by
          have h1 := hmem _ domain
          rw [List.mem_singleton] at h1 hmem'
          rw [h1, hmem']
        subst heq
        obtain ⟨hspec, hsame⟩ := hinv'.specialize hd hfits hp children
        exact ih _ _ _ _ _ choice hspec (hsame.trans hchosen) call
    | @split position current following fields pattern head no yes test moved found tested
        children _ noCall yesCall emitted =>
      obtain ⟨row, hm, hget⟩ := tested
      have hpat := forall₂_of_moveFirst (hinv.fits row hm) hget moved
      have hinv' := hinv.move position
      rw [moved] at hinv'
      obtain ⟨hany, hmatch, ⟨parts, hfits⟩, hmem⟩ :=
        hpat.head (hinv'.within current List.mem_cons_self) found
      rw [← hinv.chosen_move position] at hchosen
      generalize moveFirst values position = moved' at hinv' hchosen
      cases hinv'.holds with
      | @cons _ x _ xs hx hxs =>
        have htest := decide1_headTest hfits hx.located hx.typed emitted
        cases hp : head.parts x with
        | some ys =>
          obtain ⟨hspec, hsame⟩ := hinv'.specialize hd hfits hp children
          obtain ⟨steps, hsteps⟩ := ih _ _ _ _ _ choice hspec (hsame.trans hchosen) yesCall
          rw [hp] at htest
          exact ⟨steps + 1, run_snoc_goto _ _ _ _ _ _ htest hsteps⟩
        | none =>
          have hex := hinv'.exclude hp
          obtain ⟨steps, hsteps⟩ := ih _ _ _ _ _ choice hex
            ((chosen_excludingRows hp _).trans hchosen) noCall
          rw [hp] at htest
          -- the nodes of the yes branch are issued after those of the no branch
          obtain ⟨more, hmore⟩ := compileRows_nodes fuel _ _ _ _ yesCall
          refine ⟨steps + 1, run_snoc_goto _ _ _ _ _ _ htest ?_⟩
          rw [hmore]
          exact run_append _ _ _ _ _ _ hsteps

end Blorp.Check
