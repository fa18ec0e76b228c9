import Blorp.Check.MatrixTermination
import Blorp.Lower.Selection
import Blorp.Own.Insert
import Blorp.Verify.ProvedPatterns

/-!
# The verifier accepts compiled selections

A compiled selection is a tree laid out in a list: the nodes of the no branch, those of the yes
branch, then the test.  The verifier walks the list from its end, so it examines a test before
both of its branches, and each node receives facts from one test only.  The facts that arrive
know the columns the node was compiled from (`Known`), and that is enough to go on.

    finish_selection → translate_selection → lower_selection → insert_selection
                                                          → selection_possibilities accepts
-/

namespace Blorp.Verify

open Check hiding TypeRef Namespace
open Specialize
open Own
open Fuel Outcome

/-! ## The layout of a compiled selection -/

variable {checked : List CheckedUnion}

theorem compileRows_entry {span : Span} :
    ∀ (fuel : Nat) (rows : List PatternRow) (columns : List Column)
      (nodes : List CheckedDecisionNode) (selection : CheckedSelection),
      compileRows checked span fuel rows columns nodes = .ok selection →
      selection.nodes.length = selection.entry + 1 ∧ nodes.length ≤ selection.entry := by
  intro fuel
  induction fuel with
  | zero => intro _ _ _ _ h; cases h
  | succ fuel ih =>
    intro rows columns nodes selection h
    cases compileStep_ok h with
    | enter start any => simp
    | only moved found tested children domain call => exact ih _ _ _ _ call
    | @split _ _ _ _ _ _ no yes _ moved found tested children several noCall yesCall emitted =>
      obtain ⟨hno, hno'⟩ := ih _ _ _ _ noCall
      obtain ⟨hyes, hyes'⟩ := ih _ _ _ _ yesCall
      refine ⟨by simp, ?_⟩
      show nodes.length ≤ yes.nodes.length
      omega

theorem childColumns_skip {span : Span} {c : Column} {head : Head} {type : Check.TypeRef}
    {parts : List Check.TypeRef} (hfits : HeadFits checked type head parts) {fields : List Column}
    (h : childColumns checked span c head = .ok fields) :
    ∀ field ∈ fields, field.cursor.listSkip ≤ c.cursor.listSkip + 1 := by
  have hvalue : ∀ {types : List Check.TypeRef} {route : Nat → CheckedPatternRoute},
      fieldColumns checked span types route = .ok fields →
      ∀ field ∈ fields, field.cursor.listSkip ≤ c.cursor.listSkip + 1 := by
    intro types route hcolumns field hfield
    obtain ⟨i, hi⟩ := List.mem_iff_getElem?.mp hfield
    obtain ⟨type, -, hcursor, -⟩ := fieldColumnsFrom_cursor hcolumns i field hi
    rw [hcursor]
    exact Nat.zero_le _
  cases hfits with
  | union declared => exact hvalue h
  | tuple types => exact hvalue h
  | nil element => cases h; simp
  | cons element =>
    obtain ⟨first, hfirst, h⟩ := Except.peel h
    cases h
    intro field hfield
    rcases List.mem_cons.mp hfield with rfl | hfield
    · rw [(column_spec hfirst).1]
      exact Nat.zero_le _
    · obtain rfl := List.mem_singleton.mp hfield
      exact Nat.le_refl _
  | bytes text => cases h; simp
  | int value => cases h; simp

/-! ## One node -/

/-- What the verifier finds at a node: both branches of a test are feasible, and an arm's
arguments read established places. -/
def NodeAccepted (setting : Setting) (facts : List PlaceFact) (node : CheckedDecisionNode)
    (owned : OwnedDecisionNode) : Prop :=
  match node with
  | .enterArm _ arguments => ∀ argument ∈ arguments, ArgumentEstablished setting facts argument
  | _ => ∃ yes no, decisionBranches setting.rootType facts setting.catalogues.unions setting.span
      setting.catalogues.records owned = .ok ⟨some yes, some no⟩

section Examine

variable {setting : Setting} {checked : List CheckedUnion} {owned : List OwnedDecisionNode}

/-- `examineNode` in a setting. -/
abbrev examine (setting : Setting) (owned : List OwnedDecisionNode) (incoming : Incoming)
    (position : Nat) : Except Diagnostic Incoming :=
  examineNode owned setting.rootType setting.catalogues.unions setting.span
    setting.catalogues.records incoming position

variable {incoming : Incoming} {position : Nat} {facts : List PlaceFact} {node : OwnedDecisionNode}

theorem propagateSelection_first {target : Nat} {span : Span} (hearlier : target < position)
    (hnone : incoming[target]? = some none) :
    propagateSelection incoming position target (some facts) span =
      .ok (incoming.set target (some facts)) := by
  unfold propagateSelection
  rw [if_neg (by omega), hnone]

theorem examine_test {yesNode noNode : Nat} {yes no : List PlaceFact} {span : Span} {c : Column}
    {head : Head} {test : CheckedDecisionNode}
    (htest : headTest span c head yesNode noNode = .ok test) (hnode : Carries setting test node)
    (hat : owned[position]? = some node) (hfacts : incoming[position]? = some (some facts))
    (hbranches : decisionBranches setting.rootType facts setting.catalogues.unions setting.span
      setting.catalogues.records node = .ok ⟨some yes, some no⟩) (hyes : yesNode < position)
    (hno : noNode < position) (hne : noNode ≠ yesNode) (hyesNone : incoming[yesNode]? = some none)
    (hnoNone : incoming[noNode]? = some none) :
    examine setting owned incoming position =
      .ok ((incoming.set yesNode (some yes)).set noNode (some no)) := by
  have hfirst : propagateSelection incoming position yesNode (some yes) setting.span
      = .ok (incoming.set yesNode (some yes)) := propagateSelection_first hyes hyesNone
  have hsecond : propagateSelection (incoming.set yesNode (some yes)) position noNode (some no)
      setting.span = .ok ((incoming.set yesNode (some yes)).set noNode (some no)) := by
    refine propagateSelection_first hno ?_
    rw [List.getElem?_set_ne (Ne.symm hne), hnoNone]
  unfold examine examineNode
  rw [hat, hfacts]
  refine Except.bind_eq_ok.mpr ⟨⟨some yes, some no⟩, hbranches, ?_⟩
  cases head with
  | tupleHead types => cases htest
  | _ =>
    cases htest
    cases hnode
    exact Except.bind_eq_ok.mpr ⟨_, hfirst, hsecond⟩

theorem examine_arm {arm : MatchArmId} {arguments : List CheckedPatternArgument}
    (hnode : Carries setting (.enterArm arm arguments) node) (hat : owned[position]? = some node)
    (hfacts : incoming[position]? = some (some facts)) :
    examine setting owned incoming position = .ok incoming := by
  cases hnode
  unfold examine examineNode
  rw [hat, hfacts]
  rfl

/-! ## A subtree -/

/-- The owned nodes that the checked nodes became, by position. -/
def Rendered (setting : Setting) (nodes : List CheckedDecisionNode)
    (owned : List OwnedDecisionNode) : Prop :=
  ∀ (i : Nat) node, nodes[i]? = some node → ∃ became, owned[i]? = some became ∧
    Carries setting node became

theorem Rendered.of_append {front back : List CheckedDecisionNode}
    (h : Rendered setting (front ++ back) owned) : Rendered setting front owned := by
  intro i node hnode
  refine h i node ?_
  rw [List.getElem?_append_left (List.getElem?_eq_some_iff.mp hnode).1]
  exact hnode

/-- Examining the nodes from `start` on, last first, succeeds: every one is reached with
facts that accept it, and what had arrived elsewhere is left. -/
structure Examined (setting : Setting) (owned : List OwnedDecisionNode) (start : Nat)
    (nodes : List CheckedDecisionNode) (incoming after : Incoming) : Prop where
  runs : (List.range' start (nodes.length - start)).reverse.foldlM (examine setting owned) incoming
    = .ok after
  kept : ∀ i, i < start ∨ nodes.length ≤ i → after[i]? = incoming[i]?
  accepted : ∀ i node, start ≤ i → nodes[i]? = some node → ∃ facts became,
    after[i]? = some (some facts) ∧ owned[i]? = some became ∧ NodeAccepted setting facts node became

theorem Examined.arm {nodes : List CheckedDecisionNode} {arm : MatchArmId}
    {arguments : List CheckedPatternArgument}
    (hcarried : Rendered setting (nodes ++ [.enterArm arm arguments]) owned)
    (hfacts : incoming[nodes.length]? = some (some facts))
    (harguments : ∀ argument ∈ arguments, ArgumentEstablished setting facts argument) :
    Examined setting owned nodes.length (nodes ++ [.enterArm arm arguments]) incoming incoming := by
  obtain ⟨became, hat, hcarries⟩ := hcarried nodes.length (.enterArm arm arguments) (by simp)
  refine ⟨?_, fun _ _ => rfl, fun i node hi hnode => ?_⟩
  · simp only [List.length_append, List.length_singleton, Nat.add_sub_cancel_left,
      List.range'_one, List.reverse_singleton, List.foldlM_cons, List.foldlM_nil]
    rw [examine_arm hcarries hat hfacts]
    rfl
  · have hlt := (List.getElem?_eq_some_iff.mp hnode).1
    rw [List.length_append, List.length_singleton] at hlt
    obtain rfl : i = nodes.length := by omega
    obtain rfl : CheckedDecisionNode.enterArm arm arguments = node := by simpa using hnode
    exact ⟨facts, became, hfacts, hat, harguments⟩

theorem Examined.split {start noNode yesNode : Nat} {reached after : Incoming}
    {noNodes yesNodes : List CheckedDecisionNode} {yes no : List PlaceFact}
    {test : CheckedDecisionNode} {more : List CheckedDecisionNode}
    (hmore : yesNodes = noNodes ++ more) (hstart : start ≤ noNode)
    (hnoNode : noNode < noNodes.length) (hyesNode : noNodes.length ≤ yesNode)
    (hyesNode' : yesNode < yesNodes.length) (hat : owned[yesNodes.length]? = some node)
    (hfacts : incoming[yesNodes.length]? = some (some facts))
    (haccepted : NodeAccepted setting facts test node)
    (hexamine : examine setting owned incoming yesNodes.length =
      .ok ((incoming.set yesNode (some yes)).set noNode (some no)))
    (hyes : Examined setting owned noNodes.length yesNodes ((incoming.set yesNode (some yes)).set
      noNode (some no)) reached) (hno : Examined setting owned start noNodes reached after) :
    Examined setting owned start (yesNodes ++ [test]) incoming after := by
  have hset : ∀ i, i ≠ yesNode → i ≠ noNode →
      ((incoming.set yesNode (some yes)).set noNode (some no))[i]? = incoming[i]? := by
    intro i hyes hno
    rw [List.getElem?_set_ne (Ne.symm hno), List.getElem?_set_ne (Ne.symm hyes)]
  refine ⟨?_, fun i hi => ?_, fun i found hi hfound => ?_⟩
  · have hrange : List.range' start ((yesNodes ++ [test]).length - start) =
        List.range' start (noNodes.length - start) ++
          (List.range' noNodes.length (yesNodes.length - noNodes.length) ++ [yesNodes.length]) := by
      rw [List.length_append, List.length_singleton,
        show yesNodes.length + 1 - start = (noNodes.length - start) +
          ((yesNodes.length - noNodes.length) + 1) by omega, ← List.range'_append_1,
        show start + (noNodes.length - start) = noNodes.length by omega, List.range'_1_concat,
        show noNodes.length + (yesNodes.length - noNodes.length) = yesNodes.length by omega]
    rw [hrange]
    simp only [List.reverse_append, List.reverse_singleton, List.foldlM_append, List.foldlM_cons,
      List.foldlM_nil]
    rw [hexamine]
    refine Except.bind_eq_ok.mpr ⟨reached, ?_, hno.runs⟩
    exact Except.bind_eq_ok.mpr ⟨_, rfl, hyes.runs⟩
  · rw [List.length_append, List.length_singleton] at hi
    rw [hno.kept i (by omega), hyes.kept i (by omega), hset i (by omega) (by omega)]
  · have hlt := (List.getElem?_eq_some_iff.mp hfound).1
    rw [List.length_append, List.length_singleton] at hlt
    by_cases hlast : i = yesNodes.length
    · subst hlast
      obtain rfl : test = found := by simpa using hfound
      refine ⟨facts, node, ?_, hat, haccepted⟩
      rw [hno.kept _ (by omega), hyes.kept _ (by omega), hset _ (by omega) (by omega), hfacts]
    · rw [List.getElem?_append_left (by omega)] at hfound
      by_cases hbranch : noNodes.length ≤ i
      · obtain ⟨arrived, became, harrived, hbecame, hnode⟩ := hyes.accepted i found hbranch hfound
        exact ⟨arrived, became, by rw [hno.kept i (by omega), harrived], hbecame, hnode⟩
      · rw [hmore, List.getElem?_append_left (by omega)] at hfound
        exact hno.accepted i found hi hfound

theorem selected_only (hd : DeclarationsValid checked) {c : Column}
    (h : ColumnKnown setting facts c) {head : Head} {parts : List Check.TypeRef}
    (hfits : HeadFits checked c.type head parts) (hdomain : c.domain = .closedDomain [head]) :
    Selected setting facts c head := by
  generalize hctype : c.type = type at hfits
  cases hfits with
  | union declared =>
    intro base hbase
    obtain ⟨-, bits, hbits, hall⟩ := (h base hbase).union _ _ _ hctype hdomain
    have hid := declaredAt_owner hd declared
    refine ⟨bits, hbits, singletonVariant_iff.mpr
      ⟨(hall _).mpr ⟨parts, ?_⟩, fun position hp => ?_⟩⟩
    · rw [← hid]
      exact List.mem_singleton_self _
    · obtain ⟨fields, hfields⟩ := (hall position).mp hp
      rw [List.mem_singleton, hid, Head.unionHead.injEq, VariantId.mk.injEq] at hfields
      exact hfields.1.2
  | cons element =>
    intro base hbase
    obtain ⟨hkind, hlist⟩ := (h base hbase).list element _ hctype hdomain
    obtain ⟨hmaximum, hminimum⟩ := hlist.cons element (List.mem_singleton_self _)
    have hmore := hminimum (by simp)
    exact ⟨hkind, hmore, hmaximum, fun length hlength => hmore ▸ hlist.excluded length hlength⟩
  | _ => trivial

/-- What a call of `compileRows` starts from on a path that has established `facts`. -/
structure Reaching (setting : Setting) (checked : List CheckedUnion) (facts : List PlaceFact)
    (rows : List PatternRow) (columns : List Column) : Prop where
  within : ∀ c ∈ columns, ColumnWithin checked c
  fits : RowsWithin checked columns rows
  known : Known setting facts columns
  serves : ∀ row ∈ rows, Serves setting checked facts columns row
  counted : ∀ c ∈ columns, c.cursor.listSkip + rowsWeight rows < intMaximum

section Reach

variable {facts : List PlaceFact} {rows : List PatternRow} {columns : List Column}

theorem Reaching.move (h : Reaching setting checked facts rows columns) (k : Nat) :
    Reaching setting checked facts (moveRows rows k) (moveFirst columns k) := by
  refine ⟨fun c hc => h.within c (mem_of_mem_moveFirst hc), h.fits.move k, h.known.moveFirst k,
    Serves.move h.serves (fun row hrow => (h.fits row hrow).length_eq) k, fun c hc => ?_⟩
  rw [rowsWeight_moveRows]
  exact h.counted c (mem_of_mem_moveFirst hc)

variable {c : Column} {fields : List Column} {head : Head} {parts : List Check.TypeRef}

variable {later : List PlaceFact}

theorem Reaching.select (hd : DeclarationsValid checked) (hf : Faithful checked setting.catalogues)
    (h : Reaching setting checked facts rows (c :: columns)) (hgrow : Grow setting facts later)
    (hopened : Opened setting later c) (hselected : Selected setting later c head)
    (hrest : Known setting later columns) (hfits : HeadFits checked c.type head parts) {span : Span}
    (hchild : childColumns checked span c head = .ok fields)
    (hless : rowsWeight (specializeRows rows head) < rowsWeight rows) :
    Reaching setting checked later (specializeRows rows head) (fields ++ columns) := by
  have hfresh := childColumns_fresh rfl hfits hchild
  have hapart := (List.pairwise_cons.mp h.known.apart).1
  refine ⟨fun other hother => ?_, h.fits.specialize hd hfits hfresh,
    hrest.select hd hf hopened hselected hapart hfits hchild, ?_, fun other hother => ?_⟩
  · rcases List.mem_append.mp hother with hother | hother
    · obtain ⟨type, -, hcolumn⟩ := forall₂_exists_left hfresh hother
      exact hcolumn.within
    · exact h.within other (List.mem_cons_of_mem _ hother)
  · exact Serves.specialize hd (fun row hrow => (h.serves row hrow).grow hgrow) h.fits hfits hchild
      hopened.established hopened.least
  · rcases List.mem_append.mp hother with hother | hother
    · have hskip := childColumns_skip hfits hchild other hother
      have hcounted := h.counted c List.mem_cons_self
      omega
    · have hcounted := h.counted other (List.mem_cons_of_mem _ hother)
      omega

theorem Reaching.exclude (h : Reaching setting checked facts rows (c :: columns))
    (hgrow : Grow setting facts later)
    (hknown : Known setting later (excludeHead c head :: columns)) :
    Reaching setting checked later (excludingRows rows head) (excludeHead c head :: columns) := by
  have hless := rowsWeight_filterMap_le (keptWeight_excludingRow head) rows
  refine ⟨fun other hother => ?_, h.fits.exclude head, hknown,
    Serves.exclude (fun row hrow => (h.serves row hrow).grow hgrow) head, fun other hother => ?_⟩
  · rcases List.mem_cons.mp hother with rfl | hother
    · exact (h.within c List.mem_cons_self).exclude head
    · exact h.within other (List.mem_cons_of_mem _ hother)
  · rcases List.mem_cons.mp hother with rfl | hother
    · have hcounted := h.counted c List.mem_cons_self
      rw [excludeHead_cursor]
      exact Nat.lt_of_le_of_lt (Nat.add_le_add_left hless _) hcounted
    · have hcounted := h.counted other (List.mem_cons_of_mem _ hother)
      exact Nat.lt_of_le_of_lt (Nat.add_le_add_left hless _) hcounted

theorem Reaching.arguments {first : PatternRow} {rest : List PatternRow}
    (h : Reaching setting checked facts (first :: rest) columns)
    (hany : first.patterns.all Pattern.isAny = true) :
    ∀ argument ∈ first.arguments, ArgumentEstablished setting facts argument := by
  refine h.serves first List.mem_cons_self facts (.refl ..) fun entry hentry => ?_
  obtain ⟨pattern, c⟩ := entry
  obtain ⟨hpattern, hc⟩ := List.of_mem_zip hentry
  have hany' := List.all_eq_true.mp hany pattern hpattern
  have hopened := (h.known.known c hc).opened
  cases pattern with
  | anything => exact .anything hopened.established hopened.least
  | _ => simp [Pattern.isAny] at hany'

end Reach

/-- **The verifier accepts every compiled subtree.** -/
theorem examine_compiled (hd : DeclarationsValid checked) (hf : Faithful checked setting.catalogues)
    {span : Span} : ∀ (fuel : Nat) (rows : List PatternRow) (columns : List Column)
      (nodes : List CheckedDecisionNode) (selection : CheckedSelection) (facts : List PlaceFact)
      (incoming : Incoming),
      compileRows checked span fuel rows columns nodes = .ok selection →
      Reaching setting checked facts rows columns → Rendered setting selection.nodes owned →
      incoming[selection.entry]? = some (some facts) →
      (∀ i, nodes.length ≤ i → i < selection.entry → incoming[i]? = some none) →
      ∃ after, Examined setting owned nodes.length selection.nodes incoming after := by
  intro fuel
  induction fuel with
  | zero => intro _ _ _ _ _ _ h; cases h
  | succ fuel ih =>
    intro rows columns nodes selection facts incoming h hreach hcarried hfacts hnone
    cases compileStep_ok h with
    | @enter first rest start any =>
      subst start
      exact ⟨incoming, Examined.arm hcarried hfacts (hreach.arguments any)⟩
    | @only position current following fields pattern head known selection moved found tested
        children domain call =>
      obtain ⟨row, hrow, hget⟩ := tested
      have hpattern := forall₂_of_moveFirst (hreach.fits row hrow) hget moved
      have hmoved := hreach.move position
      rw [moved] at hmoved
      obtain ⟨hany, hmatch, ⟨parts, hfits⟩, hmem⟩ :=
        hpattern.head (hmoved.within current List.mem_cons_self) found
      obtain rfl : head = known := List.mem_singleton.mp (hmem _ domain)
      obtain ⟨movedRow, hmovedRow, rest, hpatterns⟩ := exists_moved_row hrow hget
      have hless := rowsWeight_filterMap_lt (keptWeight_specializeRow head) hmovedRow
        (keptWeight_specializeRow_lt head hpatterns hany)
      have hcurrent := hmoved.known.known current List.mem_cons_self
      have hrest : Known setting facts following :=
        ⟨fun other hother => hmoved.known.known other (List.mem_cons_of_mem _ hother),
          (List.pairwise_cons.mp hmoved.known.apart).2⟩
      have hselect := hmoved.select hd hf (.refl ..) hcurrent.opened
        (selected_only hd hcurrent hfits domain) hrest hfits children hless
      exact ih _ _ _ _ facts incoming call hselect hcarried hfacts hnone
    | @split position current following fields pattern head no yes test moved found tested
        children several noCall yesCall emitted =>
      obtain ⟨row, hrow, hget⟩ := tested
      have hpattern := forall₂_of_moveFirst (hreach.fits row hrow) hget moved
      have hmoved := hreach.move position
      rw [moved] at hmoved
      obtain ⟨hany, hmatch, ⟨parts, hfits⟩, hmem⟩ :=
        hpattern.head (hmoved.within current List.mem_cons_self) found
      obtain ⟨movedRow, hmovedRow, rest, hpatterns⟩ := exists_moved_row hrow hget
      have hless := rowsWeight_filterMap_lt (keptWeight_specializeRow head) hmovedRow
        (keptWeight_specializeRow_lt head hpatterns hany)
      obtain ⟨hnoLength, hnoStart⟩ := compileRows_entry fuel _ _ _ _ noCall
      obtain ⟨hyesLength, hyesStart⟩ := compileRows_entry fuel _ _ _ _ yesCall
      obtain ⟨more, hmore⟩ := compileRows_nodes fuel _ _ _ _ yesCall
      obtain ⟨node, hat, hcarries⟩ := hcarried yes.nodes.length test (by simp)
      have hskip : current.cursor.listSkip < intMaximum :=
        Nat.lt_of_le_of_lt (Nat.le_add_right _ _) (hmoved.counted current List.mem_cons_self)
      obtain ⟨yesFacts, noFacts, hbranches, hknown⟩ := test_branches hd hf hmoved.known
        (hmoved.within current List.mem_cons_self) hfits hmem several hskip emitted hcarries
      have hyesNone : incoming[yes.entry]? = some none :=
        hnone yes.entry (by omega) (show yes.nodes.length > yes.entry by omega)
      have hnoNone : incoming[no.entry]? = some none :=
        hnone no.entry hnoStart (show yes.nodes.length > no.entry by omega)
      have hne : no.entry ≠ yes.entry := by
        intro heq
        rw [heq] at hnoLength
        omega
      have hexamine := examine_test emitted hcarries hat hfacts hbranches (by omega) (by omega) hne
        hyesNone hnoNone
      have hyesAt : yes.entry < incoming.length := (List.getElem?_eq_some_iff.mp hyesNone).1
      have hnoAt : no.entry < incoming.length := (List.getElem?_eq_some_iff.mp hnoNone).1
      have hyesCarried : Rendered setting yes.nodes owned := hcarried.of_append
      have hnoCarried : Rendered setting no.nodes owned := (hmore ▸ hyesCarried).of_append
      -- the yes branch first: the walk goes down from the test
      obtain ⟨reached, hyes⟩ := ih _ _ _ _ yesFacts
        ((incoming.set yes.entry (some yesFacts)).set no.entry (some noFacts)) yesCall
        (hmoved.select hd hf hknown.yesGrows hknown.opened hknown.selected hknown.rest hfits children
          hless) hyesCarried
        (by
          rw [List.getElem?_set_ne hne, List.getElem?_set_self hyesAt])
        (by
          intro i hi hi'
          rw [List.getElem?_set_ne (by omega), List.getElem?_set_ne (by omega)]
          exact hnone i (by omega) (show i < yes.nodes.length by omega))
      obtain ⟨after, hno⟩ := ih _ _ _ _ noFacts reached noCall
        (hmoved.exclude hknown.noGrows hknown.excluded) hnoCarried
        (by
          rw [hyes.kept no.entry (by omega), List.getElem?_set_self (by simpa using hnoAt)])
        (by
          intro i hi hi'
          rw [hyes.kept i (by omega), List.getElem?_set_ne (by omega),
            List.getElem?_set_ne (by omega)]
          exact hnone i hi (show i < yes.nodes.length by omega))
      refine ⟨after, Examined.split hmore hnoStart (by omega) hyesStart (by omega) hat hfacts ?_
        hexamine hyes hno⟩
      cases head with
      | tupleHead types => cases emitted
      | _ =>
        cases emitted
        exact ⟨yesFacts, noFacts, hbranches⟩

end Examine

/-! ## From the checker to the verifier -/

/-- A concrete node and the lowered one: an arm's edge enters the same arm. -/
inductive Lowers : ConcreteDecisionNode → Lower.LoweredDecisionNode → Prop where
  | variant (place : ConcretePatternPlace) (variant : VariantInstanceId) (yes no : DecisionNodeId) :
      Lowers (.testVariant place variant yes no) (.testVariant place variant yes no)
  | length (place : ConcretePatternPlace) (test : ListLengthTest) (yes no : DecisionNodeId) :
      Lowers (.testListLength place test yes no) (.testListLength place test yes no)
  | literal (place : ConcretePatternPlace) (literal : LiteralPattern) (yes no : DecisionNodeId) :
      Lowers (.testLiteral place literal yes no) (.testLiteral place literal yes no)
  | arm (arm : MatchArmId) (arguments : List ConcretePatternArgument) (edge : Lower.SelectionEdge)
      (same : edge.arm = arm) : Lowers (.enterArm arm arguments) (.enterArm edge)

theorem lowerSelection_nodes (selection : ConcreteSelection) (scrutinee : Lower.ValueId)
    (nextValue : Nat) (span : Span) :
    List.Forall₂ Lowers selection.nodes
      (Lower.lowerSelection selection scrutinee nextValue span).selection.nodes := by
  have hfold : ∀ (nodes passed : List ConcreteDecisionNode) (state : Lower.LoweredNodes),
      List.Forall₂ Lowers passed state.nodes →
      List.Forall₂ Lowers (passed ++ nodes)
        (nodes.foldl (Lower.lowerNode scrutinee span) state).nodes := by
    intro nodes
    induction nodes with intro passed state h
    | nil => simpa using h
    | cons node nodes ih =>
      have hnext : List.Forall₂ Lowers (passed ++ [node])
          (Lower.lowerNode scrutinee span state node).nodes := by
        cases node with
        | testVariant place variant yes no =>
          exact List.rel_append h (.cons (.variant place variant yes no) .nil)
        | testListLength place test yes no =>
          exact List.rel_append h (.cons (.length place test yes no) .nil)
        | testLiteral place literal yes no =>
          exact List.rel_append h (.cons (.literal place literal yes no) .nil)
        | enterArm arm arguments => exact List.rel_append h (.cons (.arm arm arguments _ rfl) .nil)
      have hrest := ih (passed ++ [node]) _ hnext
      rwa [List.append_assoc, List.singleton_append] at hrest
  exact hfold selection.nodes [] ⟨nextValue, []⟩ .nil

/-- A lowered node and the owned one. -/
inductive Inserts : Lower.LoweredDecisionNode → OwnedDecisionNode → Prop where
  | variant (place : ConcretePatternPlace) (variant : VariantInstanceId) (yes no : DecisionNodeId) :
      Inserts (.testVariant place variant yes no) (.testVariant place variant yes no)
  | length (place : ConcretePatternPlace) (test : ListLengthTest) (yes no : DecisionNodeId) :
      Inserts (.testListLength place test yes no) (.testListLength place test yes no)
  | literal (place : ConcretePatternPlace) (literal : LiteralPattern) (yes no : DecisionNodeId) :
      Inserts (.testLiteral place literal yes no) (.testLiteral place literal yes no)
  | arm (edge : Lower.SelectionEdge) (owned : OwnedSelectionEdge) (same : owned.arm = edge.arm) :
      Inserts (.enterArm edge) (.enterArm owned)

variable {enclosing : List EnclosingBlock}

theorem insertNode_inserts {layouts : Layouts} {passed : List Lower.LoweredDecisionNode}
    {node : Lower.LoweredDecisionNode} {state next : InsertedNodes}
    (hstate : List.Forall₂ Inserts passed state.nodes)
    (hnext : insertNode enclosing layouts state node = .ok next) :
    List.Forall₂ Inserts (passed ++ [node]) next.nodes := by
  cases node with
  | testVariant place variant yes no =>
    cases hnext
    exact List.rel_append hstate (.cons (.variant place variant yes no) .nil)
  | testListLength place test yes no =>
    cases hnext
    exact List.rel_append hstate (.cons (.length place test yes no) .nil)
  | testLiteral place literal yes no =>
    cases hnext
    exact List.rel_append hstate (.cons (.literal place literal yes no) .nil)
  | enterArm edge =>
    obtain ⟨owned, howned, hnext⟩ := Except.peel hnext
    cases hnext
    refine List.rel_append hstate (.cons (.arm edge owned.edge ?_) .nil)
    obtain ⟨defined, -, howned⟩ := Except.peel howned
    obtain ⟨left, -, howned⟩ := Except.peel howned
    obtain ⟨acquired, -, howned⟩ := Except.peel howned
    cases howned
    rfl

theorem insertSelection_nodes {selection : Lower.LoweredSelection} {scrutinee : OwnedArgument}
    {firstValue initialOwner : Nat} {layouts : Layouts} {inserted : InsertedSelection}
    (h : insertSelection selection scrutinee enclosing firstValue initialOwner layouts =
      .ok inserted) :
    inserted.selection.entry = selection.entry ∧
      List.Forall₂ Inserts selection.nodes inserted.selection.nodes := by
  obtain ⟨nodes, hnodes, h⟩ := Except.peel h
  cases h
  refine ⟨rfl, ?_⟩
  exact Except.foldlM_invariant (I := fun passed state => List.Forall₂ Inserts passed state.nodes)
    (fun _ _ _ _ hstate hnext => insertNode_inserts hstate hnext) selection.nodes [] _ _ .nil hnodes

theorem carries_of_stages {setting : Setting} {node : CheckedDecisionNode}
    {concrete : ConcreteDecisionNode} {lowered : Lower.LoweredDecisionNode}
    {owned : OwnedDecisionNode}
    (htranslated : translateNode setting.catalogues setting.written node = .ok concrete)
    (hlowered : Lowers concrete lowered) (hinserted : Inserts lowered owned) :
    Carries setting node owned := by
  cases node with
  | enterArm arm arguments =>
    obtain ⟨values, -, h⟩ := Except.peel htranslated
    cases h
    cases hlowered with
    | arm _ _ edge same =>
      cases hinserted with
      | arm _ ownedEdge same' => exact .arm arm arguments ownedEdge (same'.trans same)
  | testListLength place test yes no =>
    obtain ⟨base, hbase, h⟩ := Except.peel htranslated
    cases h
    cases hlowered
    cases hinserted
    exact .length hbase
  | testLiteral place literal yes no =>
    obtain ⟨base, hbase, h⟩ := Except.peel htranslated
    cases h
    cases hlowered
    cases hinserted
    exact .literal hbase
  | testVariant place id yes no =>
    obtain ⟨base, hbase, h⟩ := Except.peel htranslated
    obtain ⟨variant, hvariant, h⟩ := Except.peel h
    cases h
    cases hlowered
    cases hinserted
    exact .variant hbase hvariant

theorem forall₂_getElem? {α β : Type} {R : α → β → Prop} {left : List α} {right : List β}
    (h : List.Forall₂ R left right) {i : Nat} {a : α} (ha : left[i]? = some a) :
    ∃ b, right[i]? = some b ∧ R a b := by
  obtain ⟨hi, rfl⟩ := List.getElem?_eq_some_iff.mp ha
  have hi' : i < right.length := h.length_eq ▸ hi
  exact ⟨right[i], List.getElem?_eq_getElem hi', (List.forall₂_iff_get.mp h).2 i hi hi'⟩

theorem reaching_root {setting : Setting} {checked : List CheckedUnion}
    (hd : DeclarationsValid checked) (hf : Faithful checked setting.catalogues) {span : Span}
    {type : Check.TypeRef} {root : Column} {rows : List PatternRow}
    (hroot : prepareSubject checked span type = .ok root)
    (hrows : ∀ row ∈ rows, RowFits checked type row) (hcount : rowsWeight rows < intMaximum)
    (htype : setting.catalogues.concreteType type = .ok setting.rootType) :
    Reaching setting checked [] rows [root] := by
  have hfresh := prepareSubject_fresh hroot
  have hcursor : root.cursor = .valueCursor (.mk type .matchRoot) := (column_spec hroot).1
  refine ⟨fun c hc => ?_, fun row hrow => ?_, ⟨fun c hc base hbase => ?_, ?_⟩, fun row hrow => ?_,
    fun c hc => ?_⟩
  · obtain rfl := List.mem_singleton.mp hc
    exact hfresh.within
  · obtain ⟨p, hp, hfit, -⟩ := (hrows row hrow).pattern
    rw [hp]
    exact .cons (hfresh.pattern hfit) .nil
  · obtain rfl := List.mem_singleton.mp hc
    refine knows_fresh hd hf hfresh (by rw [hcursor]; rfl) hbase ?_ fun _ _ => rfl
    rw [hcursor] at hbase
    obtain ⟨valueType, route, hvalue, hroute, rfl⟩ := names_mk hbase
    cases hroute
    obtain rfl : setting.rootType = valueType := Except.ok.inj (htype.symm.trans hvalue)
    exact require_eq_ok.mpr (by simp)
  · exact List.pairwise_singleton _ _
  · obtain ⟨p, hp, hfit, harguments⟩ := (hrows row hrow).pattern
    intro later hlater hproved argument hargument
    have hpattern := hproved (p, root) (by rw [hp]; exact List.mem_singleton_self _)
    rw [hcursor] at hpattern
    exact ArgumentFits.established hd hpattern (harguments argument hargument)
  · obtain rfl := List.mem_singleton.mp hc
    rw [hcursor]
    exact (Nat.zero_add _).symm ▸ hcount

/-- **Producer and checker of decision graphs agree.**  A match the checker compiles, renamed,
lowered and with ownership inserted, is accepted by the verifier: every node is reached, both
branches of every test are feasible, and what an arm's arguments read is established on the
path into it.  The bound says that the match has fewer pattern constructors than the largest
Int, in which the verifier counts lengths. -/
theorem selectionPossibilities_accepts {checked : List CheckedUnion} {catalogues : Catalogues}
    (hd : DeclarationsValid checked) (hf : Faithful checked catalogues) {span written : Span}
    {fuel : Nat} {type : Check.TypeRef} {root : Column} {rows : List PatternRow}
    {selection : CheckedSelection} (hroot : prepareSubject checked span type = .ok root)
    (hrows : ∀ row ∈ rows, RowFits checked type row) (hcount : rowsWeight rows < intMaximum)
    (h : finishSelection checked span fuel rows root = .ok selection)
    {concrete : ConcreteSelection}
    (htranslated : translateSelection catalogues written selection = .ok concrete)
    {value : Lower.ValueId} {nextValue : Nat} {loweredSpan : Span} {scrutinee : OwnedArgument}
    {enclosing : List EnclosingBlock} {firstValue initialOwner : Nat} {layouts : Layouts}
    {inserted : InsertedSelection}
    (hinserted : insertSelection
      (Lower.lowerSelection concrete value nextValue loweredSpan).selection scrutinee enclosing
      firstValue initialOwner layouts = .ok inserted)
    {known : KnownValue} (htype : catalogues.concreteType type = .ok known.valueType) :
    ∃ incoming, selectionPossibilities inserted.selection known catalogues.unions
        catalogues.records = .ok incoming ∧
      ∀ (i : Nat) node, selection.nodes[i]? = some node → ∃ facts became,
        incoming[i]? = some (some facts) ∧ inserted.selection.nodes[i]? = some became ∧
        NodeAccepted ⟨catalogues, written, known.span, known.valueType⟩ facts node became := by
  obtain ⟨-, hcompile⟩ := finishSelection_ok h
  obtain ⟨nodes, hnodes, htranslated⟩ := Except.peel htranslated
  cases htranslated
  have htranslate := List.mapM_eq_ok_iff.mp hnodes
  have hlower := lowerSelection_nodes ⟨nodes, selection.entry⟩ value nextValue loweredSpan
  obtain ⟨hentry, hinsert⟩ := insertSelection_nodes hinserted
  have hlength : inserted.selection.nodes.length = selection.nodes.length := by
    rw [← hinsert.length_eq, ← hlower.length_eq, htranslate.length_eq]
  have hcarried : Rendered ⟨catalogues, written, known.span, known.valueType⟩ selection.nodes
      inserted.selection.nodes := by
    intro i node hnode
    obtain ⟨concreteNode, hconcrete, hrenamed⟩ := forall₂_getElem? htranslate hnode
    obtain ⟨loweredNode, hlowered, hlowers⟩ := forall₂_getElem? hlower hconcrete
    obtain ⟨became, hbecame, hinserts⟩ := forall₂_getElem? hinsert hlowered
    exact ⟨became, hbecame, carries_of_stages hrenamed hlowers hinserts⟩
  have hreach : Reaching ⟨catalogues, written, known.span, known.valueType⟩ checked [] rows [root] :=
    reaching_root hd hf hroot hrows hcount htype
  obtain ⟨hlast, -⟩ := compileRows_entry fuel _ _ _ _ hcompile
  have hlt : selection.entry < selection.nodes.length := by
    rw [hlast]
    exact Nat.lt_succ_self _
  obtain ⟨after, hexamined⟩ := examine_compiled hd hf fuel rows [root] [] selection []
    ((List.replicate inserted.selection.nodes.length none).set selection.entry (some [])) hcompile
    hreach hcarried
    (by rw [List.getElem?_set_self (by rw [List.length_replicate, hlength]; exact hlt)])
    (by
      intro i _ hi
      rw [List.getElem?_set_ne (Nat.ne_of_gt hi), List.getElem?_replicate, if_pos]
      rw [hlength]
      exact Nat.lt_trans hi hlt)
  refine ⟨after, ?_, fun i node hnode => hexamined.accepted i node (Nat.zero_le _) hnode⟩
  unfold selectionPossibilities
  refine Except.bind_eq_ok.mpr ⟨(), require_eq_ok.mpr ?_, ?_⟩
  · rw [hentry, hlength]
    exact decide_eq_true hlt
  · have hruns := hexamined.runs
    rw [List.length_nil, Nat.sub_zero, ← hlength, ← List.range_eq_range'] at hruns
    rw [hentry]
    exact hruns

/-! The match on `Batch` of the checker's example, whose one instance owns its list. -/

def batchCatalogues : Catalogues where
  concreteType
    | .intType => .ok .intType
    | .stringType => .ok .stringType
    | .listType .intType => .ok (.listType .intType)
    | .nominalType (.aggregateNominal (.unionAggregate 0)) [] => .ok (.unionType 0)
    | _ => .error (internalError compilerSpan "unprepared union instance")
  declarations := [0]
  unions := [.owningCases [[], [.listType .intType]]]
  records := []

theorem batchCatalogues_faithful : Faithful batchUnions batchCatalogues where
  list element concrete h := by
    cases element <;> cases h
    exact ⟨.intType, rfl, rfl⟩
  string concrete h := by
    cases h
    rfl
  int concrete h := by
    cases h
    rfl
  tuple elements concrete h := by cases h
  union owner arguments concrete h := by
    match owner, arguments with
    | 0, [] =>
      cases h
      refine ⟨0, _, _, rfl, rfl, rfl, rfl, fun position types hdeclared => ?_⟩
      match position with
      | 0 =>
        obtain rfl := declaredAt_unique batchUnions_valid hdeclared batchUnions_empty
        exact ⟨[], rfl, .nil⟩
      | 1 =>
        obtain rfl := declaredAt_unique batchUnions_valid hdeclared batchUnions_many
        exact ⟨[.listType .intType], rfl, .cons rfl .nil⟩
      | position + 2 =>
        obtain ⟨declaration, variant, uses, hfound, hmem, hid, -, -⟩ := hdeclared
        cases hfound
        simp only [List.mem_cons, List.not_mem_nil, or_false] at hmem
        rcases hmem with rfl | rfl <;> simp at hid
    | 0, _ :: _ => cases h
    | _ + 1, _ => cases h

def batchScrutinee : KnownValue :=
  ⟨.unionType 0, compilerSpan, .borrowedResult (.parameterBorrow 0), none, none⟩

theorem batchRows_counted : rowsWeight batchRows < intMaximum := by
  have hweight : rowsWeight batchRows = 5 := rfl
  rw [hweight, intMaximum]
  omega

/-- The verifier accepts the match, and reaches all its nodes. -/
theorem selectionPossibilities_accepts_batch : ∃ root selection concrete inserted,
      prepareSubject batchUnions compilerSpan (unionType 0 []) = .ok root ∧
      finishSelection batchUnions compilerSpan 9 batchRows root = .ok selection ∧
      translateSelection batchCatalogues compilerSpan selection = .ok concrete ∧
      insertSelection (Lower.lowerSelection concrete 0 1 compilerSpan).selection
        (.borrowedArgument ⟨0, .parameterBorrow 0⟩) [] 1 0 ⟨batchCatalogues.unions, []⟩
          = .ok inserted ∧
      ∃ incoming, selectionPossibilities inserted.selection batchScrutinee batchCatalogues.unions
        batchCatalogues.records = .ok incoming := by
  have hstages : ∃ root selection concrete inserted,
      prepareSubject batchUnions compilerSpan (unionType 0 []) = .ok root ∧
      finishSelection batchUnions compilerSpan 9 batchRows root = .ok selection ∧
      translateSelection batchCatalogues compilerSpan selection = .ok concrete ∧
      insertSelection (Lower.lowerSelection concrete 0 1 compilerSpan).selection
        (.borrowedArgument ⟨0, .parameterBorrow 0⟩) [] 1 0 ⟨batchCatalogues.unions, []⟩
          = .ok inserted :=
    ⟨_, _, _, _, rfl, rfl, rfl, rfl⟩
  obtain ⟨root, selection, concrete, inserted, hroot, hselection, hconcrete, hinserted⟩ := hstages
  have htype : batchCatalogues.concreteType (unionType 0 []) = .ok batchScrutinee.valueType := rfl
  obtain ⟨incoming, hincoming, -⟩ := selectionPossibilities_accepts batchUnions_valid
    batchCatalogues_faithful hroot batchRows_fit batchRows_counted hselection hconcrete hinserted
    htype
  exact ⟨root, selection, concrete, inserted, hroot, hselection, hconcrete, hinserted, incoming,
    hincoming⟩

end Blorp.Verify
