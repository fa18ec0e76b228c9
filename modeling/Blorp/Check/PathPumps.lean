import Blorp.Check.PathRuns
import Blorp.Lib.PushdownLabels

/-!
# Pumping transitions

Each transition is a system of its own, so that a run has the positions it takes.  An edge
is on a pump of the anchors exactly when it lies on a loop through a push (pumpEdge_iff),
and marking starts from the balanced pairs and the pushes on such loops and follows every
derivation of a pair, so that

    position i is marked iff transition i is taken by a run that comes back to its
    control under a longer stack                                 (pumpTransitions_marks)
-/

namespace Blorp.Check

open Fuel Pushdown

section

variable (transitions : List InstantiationPath)

def transitionSystem (position : Nat) : System Int Int where
  keep source target := transitions[position]? = some ⟨source, target, .keepPath⟩
  push source symbol target := transitions[position]? = some ⟨source, target, .pushPath symbol⟩
  pop source symbol target := transitions[position]? = some ⟨source, target, .popPath symbol⟩

theorem union_transitionSystem : union (transitionSystem transitions) = pathSystem transitions := by
  have hmem : ∀ transition : InstantiationPath,
      (∃ position, transitions[position]? = some transition) = (transition ∈ transitions) :=
    fun transition => propext List.mem_iff_getElem?.symm
  unfold union transitionSystem pathSystem
  simp [hmem]

def PumpFree : Prop :=
  ∀ source symbol target, (pathSystem transitions).push source symbol target →
    ¬ Ahead (pathSystem transitions) target source

/-- A push can be come back from to the anchor. -/
def IsAnchor (anchor : Int) : Prop :=
  ∃ symbol target, (pathSystem transitions).push anchor symbol target ∧
    Ahead (pathSystem transitions) target anchor

end

/-- The two closures of the transitions, each with all the runs it stands for. -/
structure PathClosures (count : Int) (transitions : List InstantiationPath)
    (balanced reachable : PathPairs) : Prop where
  dense : Dense count
  within : TransitionsWithin count transitions
  balancedGood : Good count (Balanced (pathSystem transitions)) balanced
  balancedAll : ∀ {source target : Int}, source ∈ controls count →
    Balanced (pathSystem transitions) source target → ⟨source, target⟩ ∈ balanced.values
  reachableGood : Good count (Ahead (pathSystem transitions)) reachable
  reachableAll : ∀ {source target : Int}, source ∈ controls count →
    Ahead (pathSystem transitions) source target → ⟨source, target⟩ ∈ reachable.values

section

variable {count : Int} {transitions : List InstantiationPath} {balanced reachable : PathPairs}
  (h : PathClosures count transitions balanced reachable)

include h

theorem PathClosures.balanced_iff {source target : Int} (hwithin : Within count source target) :
    hasPair balanced count source target = true ↔
      Balanced (pathSystem transitions) source target := by
  rw [h.balancedGood.table.hasPair_iff h.dense hwithin]
  have hsource := mem_controls.mpr ⟨hwithin.source_nonneg, hwithin.source_lt⟩
  exact ⟨fun hmem => h.balancedGood.justified _ hmem, fun hrun => h.balancedAll hsource hrun⟩

theorem PathClosures.reachable_iff {source target : Int} (hwithin : Within count source target) :
    hasPair reachable count source target = true ↔
      Ahead (pathSystem transitions) source target := by
  rw [h.reachableGood.table.hasPair_iff h.dense hwithin]
  have hsource := mem_controls.mpr ⟨hwithin.source_nonneg, hwithin.source_lt⟩
  exact ⟨fun hmem => h.reachableGood.justified _ hmem, fun hrun => h.reachableAll hsource hrun⟩

theorem PathClosures.control {source target : Int} (hsource : source ∈ controls count)
    (hrun : Balanced (pathSystem transitions) source target) : Within count source target :=
  h.balancedGood.table.within _ (h.balancedAll hsource hrun)

/-! ## Edges on pumps -/

theorem pumpEdge_anchors {anchors : List Int}
    (hanchors : ∀ anchor ∈ anchors, IsAnchor transitions anchor) {source target : Int}
    (hwithin : Within count source target) :
    pumpEdge reachable count anchors source target = true ↔
      ∃ anchor ∈ anchors, Ahead (pathSystem transitions) anchor source ∧
        Ahead (pathSystem transitions) target anchor := by
  obtain ⟨hs, hs', ht, ht'⟩ := hwithin
  have heach : ∀ anchor ∈ anchors,
      (hasPair reachable count anchor source && hasPair reachable count target anchor) = true ↔
        Ahead (pathSystem transitions) anchor source ∧
          Ahead (pathSystem transitions) target anchor := by
    intro anchor hanchor
    obtain ⟨symbol, next, hpush, -⟩ := hanchors anchor hanchor
    obtain ⟨ha, ha', -, -⟩ := h.within _ hpush
    rw [Bool.and_eq_true, h.reachable_iff ⟨ha, ha', hs, hs'⟩, h.reachable_iff ⟨ht, ht', ha, ha'⟩]
  unfold pumpEdge
  rw [List.any_eq_true]
  exact exists_congr fun anchor => and_congr_right fun hanchor => heach anchor hanchor

theorem addAnchors_spec : ∀ (rest : List InstantiationPath) (anchors : List Int),
    rest ⊆ transitions → (∀ anchor ∈ anchors, IsAnchor transitions anchor) →
    (∀ anchor ∈ rest.foldl (addAnchor reachable count) anchors, IsAnchor transitions anchor) ∧
      anchors ⊆ rest.foldl (addAnchor reachable count) anchors ∧
      ∀ source symbol target, ⟨source, target, .pushPath symbol⟩ ∈ rest →
        Ahead (pathSystem transitions) target source →
        ∃ anchor ∈ rest.foldl (addAnchor reachable count) anchors,
          Ahead (pathSystem transitions) anchor source ∧
            Ahead (pathSystem transitions) target anchor := by
  intro rest
  induction rest with
  | nil => exact fun anchors _ hanchors => ⟨hanchors, List.Subset.refl _, by simp⟩
  | cons transition rest ih =>
    intro anchors hrest hanchors
    have htransition := hrest List.mem_cons_self
    rw [List.foldl_cons]
    -- One transition adds its source, or has an anchor already, or is no pump.
    have hadd : (∀ anchor ∈ addAnchor reachable count anchors transition,
          IsAnchor transitions anchor) ∧
        anchors ⊆ addAnchor reachable count anchors transition ∧
        ∀ symbol, transition.operation = .pushPath symbol →
          Ahead (pathSystem transitions) transition.target transition.source →
          ∃ anchor ∈ addAnchor reachable count anchors transition,
            Ahead (pathSystem transitions) anchor transition.source ∧
              Ahead (pathSystem transitions) transition.target anchor := by
      obtain ⟨source, target, operation⟩ := transition
      cases operation with
      | keepPath => exact ⟨hanchors, List.Subset.refl _, by simp⟩
      | popPath symbol => exact ⟨hanchors, List.Subset.refl _, by simp⟩
      | pushPath symbol =>
        have hwithin := h.within _ htransition
        have ⟨hs, hs', ht, ht'⟩ := hwithin
        have hback := h.reachable_iff ⟨ht, ht', hs, hs'⟩
        have hedge := pumpEdge_anchors h hanchors hwithin
        have hloop : Ahead (pathSystem transitions) source source := .balanced (.refl source)
        unfold addAnchor
        simp only
        split
        · next hguard =>
          rw [Bool.and_eq_true] at hguard
          have hahead := hback.mp hguard.1
          refine ⟨fun anchor hanchor => ?_, List.subset_append_left _ _, fun _ _ _ => ?_⟩
          · rcases List.mem_append.mp hanchor with hold | hnew
            · exact hanchors anchor hold
            · obtain rfl := List.mem_singleton.mp hnew
              exact ⟨symbol, target, htransition, hahead⟩
          · exact ⟨source, by simp, hloop, hahead⟩
        · next hguard =>
          refine ⟨hanchors, List.Subset.refl _, fun _ _ hahead => hedge.mp ?_⟩
          rw [hback.mpr hahead] at hguard
          simpa using hguard
    obtain ⟨hall, hkept, hfound⟩ := hadd
    obtain ⟨hlast, hgrown, hothers⟩ :=
      ih _ (fun _ hmem => hrest (List.mem_cons_of_mem _ hmem)) hall
    refine ⟨hlast, List.Subset.trans hkept hgrown, fun source symbol target hmem hahead => ?_⟩
    rcases List.mem_cons.mp hmem with rfl | hlater
    · obtain ⟨anchor, hanchor, hends⟩ := hfound symbol rfl hahead
      exact ⟨anchor, hgrown hanchor, hends⟩
    · exact hothers source symbol target hlater hahead

theorem pumpAnchors_isAnchor : ∀ anchor ∈ pumpAnchors reachable count transitions,
    IsAnchor transitions anchor :=
  (addAnchors_spec h transitions [] (List.Subset.refl _) (by simp)).1

theorem pumpAnchors_eq_nil :
    pumpAnchors reachable count transitions = [] ↔ PumpFree transitions := by
  constructor
  · intro hnone source symbol target hpush hahead
    obtain ⟨anchor, hanchor, -⟩ := (addAnchors_spec h transitions []
      (List.Subset.refl _) (by simp)).2.2 source symbol target hpush hahead
    rw [show transitions.foldl (addAnchor reachable count) [] = [] from hnone] at hanchor
    cases hanchor
  · intro hfree
    rw [List.eq_nil_iff_forall_not_mem]
    intro anchor hanchor
    obtain ⟨symbol, target, hpush, hahead⟩ := pumpAnchors_isAnchor h anchor hanchor
    exact hfree anchor symbol target hpush hahead

theorem pumpEdge_iff {source target : Int} (hwithin : Within count source target)
    (hforward : Ahead (pathSystem transitions) source target) :
    pumpEdge reachable count (pumpAnchors reachable count transitions) source target = true ↔
      OnLoop (transitionSystem transitions) source target := by
  rw [pumpEdge_anchors h (pumpAnchors_isAnchor h) hwithin]
  unfold OnLoop
  rw [union_transitionSystem]
  constructor
  · rintro ⟨anchor, hanchor, hto, hfrom⟩
    obtain ⟨symbol, next, hpush, hback⟩ := pumpAnchors_isAnchor h anchor hanchor
    exact ⟨anchor, symbol, next, hpush, hback.trans hto, hfrom⟩
  · rintro ⟨control, symbol, next, hpush, hto, hfrom⟩
    have hround : Ahead (pathSystem transitions) next control := (hto.trans hforward).trans hfrom
    obtain ⟨anchor, hanchor, hleave, hreturn⟩ :=
      (addAnchors_spec h transitions [] (List.Subset.refl _) (by simp)).2.2 control symbol next
        hpush hround
    exact ⟨anchor, hanchor, (hleave.trans (.push hpush)).trans hto,
      (hfrom.trans (.push hpush)).trans hreturn⟩

end

/-! ## Marking -/

/-- The pairs are covered by pumps, and what is marked pumps. -/
structure Marking.Sound (count : Int) (transitions : List InstantiationPath)
    (marking : Marking) : Prop where
  pairs : Good count (Covered (transitionSystem transitions)) marking.pairs
  marked : ∀ position ∈ marking.marked,
    ∃ index : Nat, position = index ∧ Pumping (transitionSystem transitions) index

def Marking.Grows (before after : Marking) : Prop :=
  before.pairs.values <+: after.pairs.values ∧ before.marked ⊆ after.marked

theorem Marking.Grows.refl (marking : Marking) : marking.Grows marking :=
  ⟨List.prefix_rfl, List.Subset.refl _⟩

theorem Marking.Grows.trans {first second third : Marking} (h : first.Grows second)
    (h' : second.Grows third) : first.Grows third :=
  ⟨h.1.trans h'.1, List.Subset.trans h.2 h'.2⟩

/-- A step that keeps a marking sound and only adds to it. -/
def Marks (count : Int) (transitions : List InstantiationPath) (before after : Marking) : Prop :=
  before.Sound count transitions → after.Sound count transitions ∧ before.Grows after

theorem mem_mark {marked : List Int} {position found : Int} :
    found ∈ mark marked position ↔ found ∈ marked ∨ found = position := by
  unfold mark
  split
  · next hany =>
    have hmem : position ∈ marked := by simpa using hany
    constructor
    · exact .inl
    · rintro (hfound | rfl)
      · exact hfound
      · exact hmem
  · simp

/-- Every derivation of the pair is followed one step. -/
structure Followed (transitions : List InstantiationPath) (pair : PathPair) (marking : Marking) :
    Prop where
  split : ∀ {between : Int}, Balanced (pathSystem transitions) pair.source between →
    Balanced (pathSystem transitions) between pair.target →
    ⟨pair.source, between⟩ ∈ marking.pairs.values ∧ ⟨between, pair.target⟩ ∈ marking.pairs.values
  keep : ∀ {position : Nat},
    (transitionSystem transitions position).keep pair.source pair.target →
    (position : Int) ∈ marking.marked
  nest : ∀ {opening closing : Nat} {symbol source target : Int},
    (transitionSystem transitions opening).push pair.source symbol source →
    Balanced (pathSystem transitions) source target →
    (transitionSystem transitions closing).pop target symbol pair.target →
    ⟨source, target⟩ ∈ marking.pairs.values ∧ (opening : Int) ∈ marking.marked ∧
      (closing : Int) ∈ marking.marked

theorem Followed.grow {transitions : List InstantiationPath} {pair : PathPair}
    {before after : Marking} (h : Followed transitions pair before) (hgrows : before.Grows after) :
    Followed transitions pair after where
  split hfirst hsecond :=
    ⟨hgrows.1.subset (h.split hfirst hsecond).1, hgrows.1.subset (h.split hfirst hsecond).2⟩
  keep hkeep := hgrows.2 (h.keep hkeep)
  nest hpush hinner hpop :=
    have hmarked := h.nest hpush hinner hpop
    ⟨hgrows.1.subset hmarked.1, hgrows.2 hmarked.2.1, hgrows.2 hmarked.2.2⟩

section

variable {count : Int} {transitions : List InstantiationPath} {balanced reachable : PathPairs}
  {pair : PathPair}

theorem Marks.refl (marking : Marking) : Marks count transitions marking marking :=
  fun h => ⟨h, .refl marking⟩

theorem Marks.trans {first second third : Marking} (h : Marks count transitions first second)
    (h' : Marks count transitions second third) : Marks count transitions first third := by
  intro hsound
  obtain ⟨hsecond, hgrows⟩ := h hsound
  obtain ⟨hthird, hgrows'⟩ := h' hsecond
  exact ⟨hthird, hgrows.trans hgrows'⟩

theorem Marks.foldl_visit {α : Type} {f : Marking → α → Marking} {xs : List α} {x : α}
    (hmarks : ∀ x ∈ xs, ∀ marking, Marks count transitions marking (f marking x)) (hx : x ∈ xs)
    {marking : Marking} (hsound : marking.Sound count transitions) :
    ∃ between, between.Sound count transitions ∧ (f between x).Grows (xs.foldl f marking) := by
  obtain ⟨between, hbefore, hafter⟩ := foldl_visits Marks.refl Marks.trans xs hmarks hx marking
  obtain ⟨hbetween, -⟩ := hbefore hsound
  exact ⟨between, hbetween, (hafter (hmarks x hx between hbetween).1).2⟩

variable (h : PathClosures count transitions balanced reachable)
  (hpair : Covered (transitionSystem transitions) pair.source pair.target)

include h hpair

theorem splitAt_covers (hwithin : Within count pair.source pair.target) {split : Int}
    (hsplit : split ∈ controls count) (pairs : PathPairs) :
    Extends count (Covered (transitionSystem transitions)) pairs
      (splitAt count balanced pair pairs split) := by
  obtain ⟨hnonneg, hlt⟩ := mem_controls.mp hsplit
  obtain ⟨hs, hs', ht, ht'⟩ := hwithin
  unfold splitAt
  split
  · next hguard =>
    rw [Bool.and_eq_true, h.balanced_iff ⟨hs, hs', hnonneg, hlt⟩,
      h.balanced_iff ⟨hnonneg, hlt, ht, ht'⟩, ← union_transitionSystem] at hguard
    intro hgood
    obtain ⟨hfirst, hgrown, -⟩ :=
      hgood.insert h.dense ⟨hs, hs', hnonneg, hlt⟩ (hpair.before hguard.1 hguard.2)
    obtain ⟨hsecond, hgrown', -⟩ :=
      hfirst.insert h.dense ⟨hnonneg, hlt, ht, ht'⟩ (hpair.after hguard.1 hguard.2)
    exact ⟨hsecond, hgrown.trans hgrown'⟩
  · exact Extends.refl pairs

theorem markClosing_marks {opening closing : InstantiationPath × Nat} {symbol : Int}
    (hopening : transitions[opening.2]? = some opening.1)
    (hclosing : transitions[closing.2]? = some closing.1)
    (hsource : opening.1.source = pair.source) (hpush : opening.1.operation = .pushPath symbol)
    (marking : Marking) :
    Marks count transitions marking
      (markClosing count balanced pair opening symbol marking closing) := by
  unfold markClosing
  split
  · next htarget =>
    split
    · next other hpop =>
      split
      · next hguard =>
        rw [Bool.and_eq_true, decide_eq_true_eq] at hguard
        obtain ⟨rfl, hinner⟩ := hguard
        have hwithin : Within count opening.1.target closing.1.source :=
          ⟨(h.within _ (List.mem_of_getElem? hopening)).target_nonneg,
            (h.within _ (List.mem_of_getElem? hopening)).target_lt,
            (h.within _ (List.mem_of_getElem? hclosing)).source_nonneg,
            (h.within _ (List.mem_of_getElem? hclosing)).source_lt⟩
        rw [h.balanced_iff hwithin, ← union_transitionSystem] at hinner
        have hpushes : (transitionSystem transitions opening.2).push pair.source symbol
            opening.1.target := by
          rw [← hsource]
          show _ = some _
          rw [hopening, ← hpush]
        have hpops : (transitionSystem transitions closing.2).pop closing.1.source symbol
            pair.target := by
          rw [← htarget]
          show _ = some _
          rw [hclosing, ← hpop]
        obtain ⟨hcovered, hpumps, hpumps'⟩ := hpair.inside hpushes hinner hpops
        intro hsound
        obtain ⟨hgood, hgrown, -⟩ := hsound.pairs.insert h.dense hwithin hcovered
        refine ⟨⟨hgood, fun position hposition => ?_⟩, hgrown, fun position hposition => ?_⟩
        · rcases mem_mark.mp hposition with hmarked | rfl
          · rcases mem_mark.mp hmarked with hmarked | rfl
            · exact hsound.marked position hmarked
            · exact ⟨_, rfl, hpumps⟩
          · exact ⟨_, rfl, hpumps'⟩
        · exact mem_mark.mpr (.inl (mem_mark.mpr (.inl hposition)))
      · exact Marks.refl marking
    · exact Marks.refl marking
  · exact Marks.refl marking

theorem markOpening_marks {opening : InstantiationPath × Nat}
    (hopening : opening ∈ transitions.zipIdx) (marking : Marking) :
    Marks count transitions marking
      (markOpening count balanced transitions pair marking opening) := by
  have hget := List.mem_zipIdx_iff_getElem?.mp hopening
  unfold markOpening
  split
  · next hsource =>
    split
    · next hkeep =>
      split
      · next htarget =>
        intro hsound
        refine ⟨⟨hsound.pairs, fun position hposition => ?_⟩, List.prefix_rfl,
          fun position hposition => mem_mark.mpr (.inl hposition)⟩
        rcases mem_mark.mp hposition with hmarked | rfl
        · exact hsound.marked position hmarked
        · refine ⟨opening.2, rfl, hpair.pumping [opening.2] (.keep ?_) opening.2 (by simp)⟩
          show _ = some _
          rw [hget, ← hsource, ← htarget, ← hkeep]
      · exact Marks.refl marking
    · next symbol hpush =>
      exact foldl_rel Marks.refl Marks.trans _ (fun closing hclosing => markClosing_marks h hpair
        hget (List.mem_zipIdx_iff_getElem?.mp hclosing) hsource hpush) marking
    · exact Marks.refl marking
  · exact Marks.refl marking

variable (hwithin : Within count pair.source pair.target)

include hwithin

theorem markSplits_marks (marking : Marking) : Marks count transitions marking
      { marking with pairs := (controls count).foldl (splitAt count balanced pair) marking.pairs } := by
  intro hsound
  obtain ⟨hgood, hgrown⟩ := Extends.foldl
    (fun _ hsplit => splitAt_covers h hpair hwithin hsplit) hsound.pairs
  exact ⟨⟨hgood, hsound.marked⟩, hgrown, List.Subset.refl _⟩

theorem markPair_marks (marking : Marking) :
    Marks count transitions marking (markPair count balanced transitions marking pair) :=
  (markSplits_marks h hpair hwithin marking).trans
    (foldl_rel Marks.refl Marks.trans _ (fun _ hopening => markOpening_marks h hpair hopening) _)

theorem markPair_follows {marking : Marking} (hsound : marking.Sound count transitions) :
    Followed transitions pair (markPair count balanced transitions marking pair) := by
  obtain ⟨hs, hs', ht, ht'⟩ := id hwithin
  have hsplits := markSplits_marks h hpair hwithin marking hsound
  have hopens : ∀ opening ∈ transitions.zipIdx, ∀ marking, Marks count transitions marking
      (markOpening count balanced transitions pair marking opening) :=
    fun _ hopening => markOpening_marks h hpair hopening
  have hafter := foldl_rel Marks.refl Marks.trans _ hopens
    { marking with pairs := (controls count).foldl (splitAt count balanced pair) marking.pairs }
    hsplits.1
  refine ⟨?_, ?_, ?_⟩
  · intro between hfirst hsecond
    obtain ⟨-, -, hb, hb'⟩ := h.control (mem_controls.mpr ⟨hs, hs'⟩) hfirst
    have hin : ∀ other, other = (⟨pair.source, between⟩ : PathPair) ∨
        other = ⟨between, pair.target⟩ →
        other ∈ ((controls count).foldl (splitAt count balanced pair) marking.pairs).values := by
      intro other hother
      refine Extends.foldl_mem (fun _ hsplit => splitAt_covers h hpair hwithin hsplit)
        (mem_controls.mpr ⟨hb, hb'⟩) hsound.pairs fun pairs hpairs _ => ?_
      unfold splitAt
      rw [(h.balanced_iff ⟨hs, hs', hb, hb'⟩).mpr hfirst,
        (h.balanced_iff ⟨hb, hb', ht, ht'⟩).mpr hsecond]
      rw [← union_transitionSystem] at hfirst hsecond
      obtain ⟨hnext, -, hadded⟩ :=
        hpairs.insert h.dense ⟨hs, hs', hb, hb'⟩ (hpair.before hfirst hsecond)
      obtain ⟨-, hgrown, hadded'⟩ :=
        hnext.insert h.dense ⟨hb, hb', ht, ht'⟩ (hpair.after hfirst hsecond)
      rcases hother with rfl | rfl
      · exact hgrown.subset hadded
      · exact hadded'
    exact ⟨hafter.2.1.subset (hin _ (.inl rfl)), hafter.2.1.subset (hin _ (.inr rfl))⟩
  · intro position hkeep
    have hin : ((⟨pair.source, pair.target, .keepPath⟩ : InstantiationPath), position) ∈
        transitions.zipIdx := List.mem_zipIdx_iff_getElem?.mpr hkeep
    obtain ⟨between, -, hgrown⟩ := Marks.foldl_visit hopens hin hsplits.1
    refine hgrown.2 ?_
    simp [markOpening, mem_mark]
  · intro opening closing symbol source target hpush hinner hpop
    obtain ⟨-, -, hi, hi'⟩ := h.within _ (List.mem_of_getElem? hpush)
    obtain ⟨ho, ho', -, -⟩ := h.within _ (List.mem_of_getElem? hpop)
    have hwithin' : Within count source target := ⟨hi, hi', ho, ho'⟩
    have hin : ((⟨pair.source, source, .pushPath symbol⟩ : InstantiationPath), opening) ∈
        transitions.zipIdx := List.mem_zipIdx_iff_getElem?.mpr hpush
    have hin' : ((⟨target, pair.target, .popPath symbol⟩ : InstantiationPath), closing) ∈
        transitions.zipIdx := List.mem_zipIdx_iff_getElem?.mpr hpop
    obtain ⟨between, hbetween, hgrown⟩ := Marks.foldl_visit hopens hin hsplits.1
    -- The loop over the closing transitions, inside the turn of the opening one.
    have hcloses : ∀ other ∈ transitions.zipIdx, ∀ marking, Marks count transitions marking
        (markClosing count balanced pair (⟨pair.source, source, .pushPath symbol⟩, opening) symbol
          marking other) :=
      fun other hother => markClosing_marks h hpair (List.mem_zipIdx_iff_getElem?.mp hin)
        (List.mem_zipIdx_iff_getElem?.mp hother) rfl rfl
    obtain ⟨inner, hinnerSound, hgrown'⟩ := Marks.foldl_visit hcloses hin' hbetween
    have hall := hgrown'.trans (by simpa [markOpening] using hgrown)
    have hguard := (h.balanced_iff hwithin').mpr hinner
    have hadded : ⟨source, target⟩ ∈ (insert inner.pairs count source target).values ∧
        (opening : Int) ∈ mark (mark inner.marked opening) closing ∧
        (closing : Int) ∈ mark (mark inner.marked opening) closing := by
      rw [← union_transitionSystem] at hinner
      refine ⟨(hinnerSound.pairs.insert h.dense hwithin' (hpair.inside hpush hinner hpop).1).2.2,
        ?_, ?_⟩
      · exact mem_mark.mpr (.inl (mem_mark.mpr (.inr rfl)))
      · exact mem_mark.mpr (.inr rfl)
    have hturn : markClosing count balanced pair (⟨pair.source, source, .pushPath symbol⟩, opening)
        symbol inner (⟨target, pair.target, .popPath symbol⟩, closing) =
        ⟨insert inner.pairs count source target, mark (mark inner.marked opening) closing⟩ := by
      simp [markClosing, hguard]
    rw [hturn] at hall
    exact ⟨hall.1.subset hadded.1, hall.2 hadded.2.1, hall.2 hadded.2.2⟩

end

/-- When each pair has been followed, every transition of a balanced run between the controls of
one is marked. -/
theorem marked_of_followed {transitions : List InstantiationPath} {last : Marking}
    (hlast : ∀ pair ∈ last.pairs.values, Followed transitions pair last) {source target : Int}
    {labels : List Nat} (hrun : LabelledBalanced (transitionSystem transitions) source labels target)
    (hmem : ⟨source, target⟩ ∈ last.pairs.values) :
    ∀ position ∈ labels, (position : Int) ∈ last.marked := by
  induction hrun with
  | refl => simp
  | keep hkeep =>
    intro position hposition
    obtain rfl := List.mem_singleton.mp hposition
    exact (hlast _ hmem).keep hkeep
  | trans hfirst hsecond ih₁ ih₂ =>
    have hbefore := hfirst.balanced
    have hafter := hsecond.balanced
    rw [union_transitionSystem] at hbefore hafter
    obtain ⟨hmem₁, hmem₂⟩ := (hlast _ hmem).split hbefore hafter
    intro position hposition
    rcases List.mem_append.mp hposition with hleft | hright
    · exact ih₁ hmem₁ position hleft
    · exact ih₂ hmem₂ position hright
  | nest hpush hinner hpop ih =>
    have hbetween := hinner.balanced
    rw [union_transitionSystem] at hbetween
    obtain ⟨hmem', hopening, hclosing⟩ := (hlast _ hmem).nest hpush hbetween hpop
    intro position hposition
    rcases List.mem_cons.mp hposition with rfl | hrest
    · exact hopening
    · rcases List.mem_append.mp hrest with hlabels | hend
      · exact ih hmem' position hlabels
      · obtain rfl := List.mem_singleton.mp hend
        exact hclosing

/-! ## What is marked -/

theorem mem_pumpPushes {count : Int} {reachable : PathPairs} {anchors : List Int}
    {position : Int} : ∀ (scanned : List (InstantiationPath × Nat)) (marked : List Int),
    position ∈ scanned.foldl (pumpPush count reachable anchors) marked ↔
      position ∈ marked ∨ ∃ transition ∈ scanned, position = transition.2 ∧
        (∃ symbol, transition.1.operation = .pushPath symbol) ∧
        pumpEdge reachable count anchors transition.1.source transition.1.target = true := by
  intro scanned
  induction scanned with
  | nil => simp
  | cons transition rest ih =>
    intro marked
    have hstep : position ∈ pumpPush count reachable anchors marked transition ↔
        position ∈ marked ∨ position = transition.2 ∧
          (∃ symbol, transition.1.operation = .pushPath symbol) ∧
          pumpEdge reachable count anchors transition.1.source transition.1.target = true := by
      unfold pumpPush
      split
      · next symbol hpush =>
        by_cases hedge : pumpEdge reachable count anchors transition.1.source
            transition.1.target = true
        · rw [if_pos hedge, mem_mark]
          simp [hpush, hedge]
        · simp [hedge]
      · next hnot =>
        constructor
        · exact .inl
        · rintro (hmarked | ⟨-, ⟨symbol, hpush⟩, -⟩)
          · exact hmarked
          · exact absurd hpush (hnot symbol)
    rw [List.foldl_cons, ih, hstep, List.exists_mem_cons_iff, or_assoc]

section

variable {count : Int} {transitions : List InstantiationPath} {balanced reachable : PathPairs}
  (h : PathClosures count transitions balanced reachable)

include h

theorem pumpPairs_spec : Good count (Covered (transitionSystem transitions)) (balanced.values.foldl
      (pumpPair count reachable (pumpAnchors reachable count transitions)) []) ∧
    ∀ {source target : Int}, ⟨source, target⟩ ∈ balanced.values →
      OnLoop (transitionSystem transitions) source target →
      ⟨source, target⟩ ∈ (balanced.values.foldl
        (pumpPair count reachable (pumpAnchors reachable count transitions)) []).values := by
  have hnil : Good count (Covered (transitionSystem transitions)) [] :=
    ⟨Table.nil, by simp [PathPairs.values]⟩
  have hcovers : ∀ pair ∈ balanced.values,
      pumpEdge reachable count (pumpAnchors reachable count transitions) pair.source
        pair.target = true →
      Within count pair.source pair.target ∧
        Covered (transitionSystem transitions) pair.source pair.target := by
    intro pair hpair hedge
    have hwithin := h.balancedGood.table.within pair hpair
    have hrun := h.balancedGood.justified pair hpair
    have hloop := (pumpEdge_iff h hwithin (.balanced hrun)).mp hedge
    rw [← union_transitionSystem] at hrun
    exact ⟨hwithin, covered_of_loop hrun hloop⟩
  have hextends : ∀ pair ∈ balanced.values, ∀ pairs,
      Extends count (Covered (transitionSystem transitions)) pairs
        (pumpPair count reachable (pumpAnchors reachable count transitions) pairs pair) :=
    fun pair hpair pairs => Extends.insert_if h.dense fun _ hedge => hcovers pair hpair hedge
  refine ⟨(Extends.foldl hextends hnil).1, fun {source target} hmem hloop => ?_⟩
  refine Extends.foldl_mem hextends hmem hnil fun pairs hpairs _ => ?_
  have hwithin := h.balancedGood.table.within _ hmem
  have hedge := (pumpEdge_iff h hwithin (.balanced (h.balancedGood.justified _ hmem))).mpr hloop
  unfold pumpPair
  rw [if_pos hedge]
  exact (hpairs.insert h.dense hwithin (hcovers _ hmem hedge).2).2.2

theorem pumpEdge_push {position : Nat} {source symbol target : Int}
    (hpush : (transitionSystem transitions position).push source symbol target) :
    pumpEdge reachable count (pumpAnchors reachable count transitions) source target = true ↔
      Ahead (pathSystem transitions) target source := by
  have hmem : (pathSystem transitions).push source symbol target := List.mem_of_getElem? hpush
  rw [pumpEdge_iff h (h.within _ hmem) (.push hmem)]
  unfold OnLoop
  rw [union_transitionSystem]
  constructor
  · rintro ⟨control, symbol', next, hpush', hto, hfrom⟩
    exact (hfrom.trans (.push hpush')).trans hto
  · intro hback
    exact ⟨source, symbol, target, hmem, hback, hback⟩

/-- **Marking is exact**: it ends, and a position is marked when the transition there pumps. -/
theorem pumpTransitions_marks :
    ∃ positions, Outcome.Settles (fun n => pumpTransitions n balanced reachable count
        (pumpAnchors reachable count transitions) transitions) (.ok positions) ∧
      ∀ position, position ∈ positions ↔
        ∃ index : Nat, position = index ∧ Pumping (transitionSystem transitions) index := by
  obtain ⟨hpairs, hall⟩ := pumpPairs_spec h
  have hpushes : ∀ {index : Nat} {source symbol target : Int},
      (transitionSystem transitions index).push source symbol target →
      Ahead (pathSystem transitions) target source →
      Pumping (transitionSystem transitions) index := by
    intro index source symbol target hpush hback
    have hloop : OnLoop (transitionSystem transitions) source target := by
      unfold OnLoop
      rw [union_transitionSystem]
      exact ⟨source, symbol, target, List.mem_of_getElem? hpush, hback, hback⟩
    have hrun : ∀ stack, LabelledRun (transitionSystem transitions) (source, stack) [index]
        (target, [symbol] ++ stack) := fun stack => .single (.push hpush)
    exact pumping_of_loop hloop hrun (List.mem_singleton.mpr rfl)
  have hstart : Marking.Sound count transitions
      ⟨balanced.values.foldl (pumpPair count reachable
        (pumpAnchors reachable count transitions)) [],
      transitions.zipIdx.foldl (pumpPush count reachable
        (pumpAnchors reachable count transitions)) []⟩ := by
    refine ⟨hpairs, fun position hposition => ?_⟩
    rcases (mem_pumpPushes _ _).mp hposition with hnil |
      ⟨⟨⟨source, target, _⟩, index⟩, hindex, rfl, ⟨symbol, rfl⟩, hedge⟩
    · cases hnil
    · have hpush : (transitionSystem transitions index).push source symbol target :=
        List.mem_zipIdx_iff_getElem?.mp hindex
      exact ⟨index, rfl, hpushes hpush ((pumpEdge_push h hpush).mp hedge)⟩
  obtain ⟨last, hrun, hsound, hgrown, hprocessed⟩ := worklist_visits
    (I := Marking.Sound count transitions) (r := Marking.Grows)
    (fun marking : Marking => marking.pairs.values) (markPair count balanced transitions)
    (fun hfirst hsecond => hfirst.trans hsecond) (fun hgrows => hgrows.1)
    (fun marking pair hmem hsound => markPair_marks h (hsound.pairs.justified pair hmem)
      (hsound.pairs.table.within pair hmem) marking hsound)
    Marking.Grows.refl (fun marking hsound => hsound.pairs.table.length_le) hstart
  have hfollowed : ∀ pair ∈ last.pairs.values, Followed transitions pair last := by
    intro pair hpair
    obtain ⟨index, hindex⟩ := List.getElem?_of_mem hpair
    obtain ⟨before, hbefore, -, hget, hafter⟩ := hprocessed index pair hindex
    have hmem := List.mem_of_getElem? hget
    exact (markPair_follows h (hbefore.pairs.justified pair hmem)
      (hbefore.pairs.table.within pair hmem) hbefore).grow hafter
  refine ⟨last.marked, Outcome.Settles.bind_ok hrun Outcome.Settles.ok,
    fun position => ⟨hsound.marked position, ?_⟩⟩
  rintro ⟨index, rfl, hpumping⟩
  rcases hpumping.push_or_balanced with ⟨source, symbol, target, hpush, hback⟩ |
    ⟨source, labels, target, hlabels, hmem, hloop⟩
  · rw [union_transitionSystem] at hback
    exact hgrown.2 ((mem_pumpPushes _ _).mpr (.inr ⟨(⟨source, target, .pushPath symbol⟩, index),
      List.mem_zipIdx_iff_getElem?.mpr hpush, rfl, ⟨symbol, rfl⟩,
      (pumpEdge_push h hpush).mpr hback⟩))
  · obtain ⟨control, symbol, next, hpush, hto, -⟩ := id hloop
    have hrun := hlabels.balanced
    rw [union_transitionSystem] at hpush hto hrun
    obtain ⟨-, -, hn, hn'⟩ := h.within _ hpush
    obtain ⟨-, -, hs, hs'⟩ :=
      h.reachableGood.table.within _ (h.reachableAll (mem_controls.mpr ⟨hn, hn'⟩) hto)
    have hstarted := hall (h.balancedAll (mem_controls.mpr ⟨hs, hs'⟩) hrun) hloop
    exact marked_of_followed hfollowed hlabels (hgrown.1.subset hstarted) index hmem

end

end Blorp.Check
