import Blorp.Check.PathPairs

/-!
# Closing sets of control pairs

`closePaths` ends with the least set that holds the initial pairs, is closed under
composition and, for matching transitions, under a push and its pop around a pair
(closePaths_settles).  "Least" is any transitive `R` that is closed the same way and
holds of the initial pairs.
-/

namespace Blorp.Check

open Fuel

section

variable {count : Int} {R : Int → Int → Prop} {matching : List InstantiationPath}

/-- A relation of controls closed under composition and matching. -/
structure ClosedUnder (matching : List InstantiationPath) (R : Int → Int → Prop) : Prop where
  trans : ∀ {first second third : Int}, R first second → R second third → R first third
  nest : ∀ {opening closing : InstantiationPath} {symbol : Int}, opening ∈ matching →
    closing ∈ matching → opening.operation = .pushPath symbol →
    closing.operation = .popPath symbol → R opening.target closing.source →
    R opening.source closing.target

def TransitionsWithin (count : Int) (transitions : List InstantiationPath) : Prop :=
  ∀ transition ∈ transitions, Within count transition.source transition.target

variable (hdense : Dense count)
  (hclosed : ClosedUnder matching R) {pair : PathPair}
  (hwithin : Within count pair.source pair.target) (hpair : R pair.source pair.target)

include hdense hclosed hwithin hpair

theorem joinAt_extends {control : Int} (hcontrol : control ∈ controls count) (paths : PathPairs) :
    Extends count R paths (joinAt count pair paths control) := by
  obtain ⟨hnonneg, hlt⟩ := mem_controls.mp hcontrol
  obtain ⟨hs, hs', ht, ht'⟩ := hwithin
  refine Extends.trans (Extends.insert_if hdense fun hgood hguard => ?_)
    (Extends.insert_if hdense fun hgood hguard => ?_)
  · have hmem := (hgood.table.hasPair_iff hdense ⟨hnonneg, hlt, hs, hs'⟩).mp hguard
    exact ⟨⟨hnonneg, hlt, ht, ht'⟩, hclosed.trans (hgood.justified _ hmem) hpair⟩
  · have hmem := (hgood.table.hasPair_iff hdense ⟨ht, ht', hnonneg, hlt⟩).mp hguard
    exact ⟨⟨hs, hs', hnonneg, hlt⟩, hclosed.trans hpair (hgood.justified _ hmem)⟩

theorem joinAt_before {control : Int} {paths : PathPairs} (hgood : Good count R paths)
    (hcontrol : control ∈ controls count) (hmem : ⟨control, pair.source⟩ ∈ paths.values) :
    ⟨control, pair.target⟩ ∈ (joinAt count pair paths control).values := by
  obtain ⟨hnonneg, hlt⟩ := mem_controls.mp hcontrol
  obtain ⟨hs, hs', ht, ht'⟩ := hwithin
  have hguard := (hgood.table.hasPair_iff hdense ⟨hnonneg, hlt, hs, hs'⟩).mpr hmem
  have hR := hclosed.trans (hgood.justified _ hmem) hpair
  obtain ⟨hnext, -, hadded⟩ := hgood.insert hdense ⟨hnonneg, hlt, ht, ht'⟩ hR
  unfold joinAt
  simp only [hguard, ↓reduceIte]
  refine Extends.mem (Extends.insert_if hdense fun hgood hguard => ?_) hnext hadded
  have hmem' := (hgood.table.hasPair_iff hdense ⟨ht, ht', hnonneg, hlt⟩).mp hguard
  exact ⟨⟨hs, hs', hnonneg, hlt⟩, hclosed.trans hpair (hgood.justified _ hmem')⟩

theorem joinAt_after {control : Int} {paths : PathPairs} (hgood : Good count R paths)
    (hcontrol : control ∈ controls count) (hmem : ⟨pair.target, control⟩ ∈ paths.values) :
    ⟨pair.source, control⟩ ∈ (joinAt count pair paths control).values := by
  obtain ⟨hnonneg, hlt⟩ := mem_controls.mp hcontrol
  obtain ⟨hs, hs', ht, ht'⟩ := hwithin
  have hfirst : Extends count R paths (if hasPair paths count control pair.source
      then insert paths count control pair.target else paths) := by
    refine Extends.insert_if hdense fun hgood hguard => ?_
    have hmem' := (hgood.table.hasPair_iff hdense ⟨hnonneg, hlt, hs, hs'⟩).mp hguard
    exact ⟨⟨hnonneg, hlt, ht, ht'⟩, hclosed.trans (hgood.justified _ hmem') hpair⟩
  have hmem' := hfirst.mem hgood hmem
  obtain ⟨hgood', -⟩ := hfirst hgood
  have hguard := (hgood'.table.hasPair_iff hdense ⟨ht, ht', hnonneg, hlt⟩).mpr hmem'
  have hR := hclosed.trans hpair (hgood'.justified _ hmem')
  unfold joinAt
  rw [if_pos hguard]
  exact (hgood'.insert hdense ⟨hs, hs', hnonneg, hlt⟩ hR).2.2

omit hwithin in
theorem closeWith_extends {opening closing : InstantiationPath} {symbol : Int}
    (hopening : opening ∈ matching) (hclosing : closing ∈ matching)
    (hoperation : opening.operation = .pushPath symbol) (htarget : opening.target = pair.source)
    (hmatching : TransitionsWithin count matching) (paths : PathPairs) :
    Extends count R paths (closeWith count pair opening symbol paths closing) := by
  unfold closeWith
  split
  · rename_i other hpop
    refine Extends.insert_if hdense fun _ ⟨hsymbol, hsource⟩ => ?_
    subst hsymbol
    refine ⟨⟨(hmatching opening hopening).source_nonneg, (hmatching opening hopening).source_lt,
      (hmatching closing hclosing).target_nonneg, (hmatching closing hclosing).target_lt⟩, ?_⟩
    refine hclosed.nest hopening hclosing hoperation hpop ?_
    rw [htarget, hsource]
    exact hpair
  · exact Extends.refl paths

omit hwithin in
theorem openWith_extends {opening : InstantiationPath} (hopening : opening ∈ matching)
    (hmatching : TransitionsWithin count matching) (paths : PathPairs) :
    Extends count R paths (openWith count matching pair paths opening) := by
  unfold openWith
  split
  · rename_i symbol hoperation
    split
    · rename_i htarget
      exact Extends.foldl fun closing hclosing => closeWith_extends hdense hclosed hpair
        hopening hclosing hoperation htarget hmatching
    · exact Extends.refl paths
  · exact Extends.refl paths

section

variable (hmatching : TransitionsWithin count matching)

include hmatching

theorem closePair_extends (paths : PathPairs) :
    Extends count R paths (closePair count matching paths pair) :=
  Extends.trans
    (Extends.foldl fun _ hcontrol => joinAt_extends hdense hclosed hwithin hpair hcontrol)
    (Extends.foldl fun _ hopening => openWith_extends hdense hclosed hpair hopening
      hmatching)

theorem closePair_joins {paths : PathPairs} (hgood : Good count R paths) {other : PathPair}
    (hother : other ∈ paths.values) :
    (other.target = pair.source →
      ⟨other.source, pair.target⟩ ∈ (closePair count matching paths pair).values) ∧
    (pair.target = other.source →
      ⟨pair.source, other.target⟩ ∈ (closePair count matching paths pair).values) := by
  obtain ⟨hos, hos', hot, hot'⟩ := hgood.table.within other hother
  have hjoins : ∀ control ∈ controls count, ∀ paths,
      Extends count R paths (joinAt count pair paths control) :=
    fun _ hcontrol => joinAt_extends hdense hclosed hwithin hpair hcontrol
  have hjoined : Good count R ((controls count).foldl (joinAt count pair) paths) :=
    (Extends.foldl hjoins hgood).1
  have hopens : Extends count R _ (closePair count matching paths pair) :=
    Extends.foldl fun _ hopening =>
      openWith_extends hdense hclosed hpair hopening hmatching
  constructor
  · intro hmeet
    refine hopens.mem hjoined (Extends.foldl_mem hjoins (mem_controls.mpr ⟨hos, hos'⟩) hgood ?_)
    intro between hbetween hgrown
    refine joinAt_before hdense hclosed hwithin hpair hbetween (mem_controls.mpr ⟨hos, hos'⟩) ?_
    rw [← hmeet]
    exact hgrown.subset hother
  · intro hmeet
    refine hopens.mem hjoined (Extends.foldl_mem hjoins (mem_controls.mpr ⟨hot, hot'⟩) hgood ?_)
    intro between hbetween hgrown
    refine joinAt_after hdense hclosed hwithin hpair hbetween (mem_controls.mpr ⟨hot, hot'⟩) ?_
    rw [hmeet]
    exact hgrown.subset hother

theorem closePair_nests {paths : PathPairs} (hgood : Good count R paths)
    {opening closing : InstantiationPath} {symbol : Int} (hopening : opening ∈ matching)
    (hclosing : closing ∈ matching) (hpush : opening.operation = .pushPath symbol)
    (hpop : closing.operation = .popPath symbol) (htarget : opening.target = pair.source)
    (hsource : closing.source = pair.target) :
    ⟨opening.source, closing.target⟩ ∈ (closePair count matching paths pair).values := by
  have hjoined : Good count R ((controls count).foldl (joinAt count pair) paths) :=
    ((Extends.foldl fun _ hcontrol =>
      joinAt_extends hdense hclosed hwithin hpair hcontrol) hgood).1
  refine Extends.foldl_mem (fun _ hopening => openWith_extends hdense hclosed hpair
    hopening hmatching) hopening hjoined fun between hbetween _ => ?_
  unfold openWith
  simp only [hpush, htarget, ↓reduceIte]
  refine Extends.foldl_mem (fun closing hclosing => closeWith_extends hdense hclosed hpair
    hopening hclosing hpush htarget hmatching) hclosing hbetween fun inner hinner _ => ?_
  unfold closeWith
  simp only [hpop, hsource, and_self, ↓reduceIte]
  have hR : R opening.source closing.target := by
    refine hclosed.nest hopening hclosing hpush hpop ?_
    rw [htarget, hsource]
    exact hpair
  exact (hinner.insert hdense ⟨(hmatching opening hopening).source_nonneg,
    (hmatching opening hopening).source_lt, (hmatching closing hclosing).target_nonneg,
    (hmatching closing hclosing).target_lt⟩ hR).2.2

end

omit hwithin hpair

/-- **Closing ends with the closure.** -/
theorem closePaths_settles (hmatching : TransitionsWithin count matching) {initial : PathPairs}
    (hgood : Good count R initial) :
    ∃ closed, Outcome.Settles (fun n => closePaths n initial count matching) (.ok closed) ∧
      Good count R closed ∧ (∀ pair ∈ initial.values, pair ∈ closed.values) ∧
      ClosedUnder matching fun source target => ⟨source, target⟩ ∈ closed.values := by
  obtain ⟨closed, hrun, hclosed', hgrown, hprocessed⟩ := worklist_settles (I := Good count R)
    PathPairs.values (closePair count matching)
    (fun paths pair hmem hgood =>
      closePair_extends hdense hclosed (hgood.table.within pair hmem) (hgood.justified pair hmem)
        hmatching paths hgood)
    (fun paths hgood => hgood.table.length_le) hgood
  refine ⟨closed, hrun, hclosed', hgrown.subset, ?_, ?_⟩
  · -- A pair is processed when every earlier one is known.
    have hknown : ∀ {i j : Nat} {earlier pair : PathPair}, i ≤ j →
        closed.values[i]? = some earlier → closed.values[j]? = some pair →
        ∃ before, Good count R before ∧ pair ∈ before.values ∧ earlier ∈ before.values ∧
          (closePair count matching before pair).values <+: closed.values := by
      intro i j earlier pair hle hi hj
      obtain ⟨before, hbefore, -, hget, hafter⟩ := hprocessed j _ hj
      have hmem := List.mem_of_getElem? hget
      have hlt := (List.getElem?_eq_some_iff.mp hget).1
      have hgrows := (closePair_extends hdense hclosed (hbefore.table.within _ hmem)
        (hbefore.justified _ hmem) hmatching before hbefore).2.trans hafter
      rw [getElem?_of_grows hgrows (by omega)] at hi
      exact ⟨before, hbefore, hmem, List.mem_of_getElem? hi, hafter⟩
    intro first second third hfirst hsecond
    obtain ⟨i, hi⟩ := List.getElem?_of_mem hfirst
    obtain ⟨j, hj⟩ := List.getElem?_of_mem hsecond
    rcases Nat.le_total i j with hle | hle
    · obtain ⟨before, hbefore, hmem, hearlier, hafter⟩ := hknown hle hi hj
      exact hafter.subset ((closePair_joins hdense hclosed (hbefore.table.within _ hmem)
        (hbefore.justified _ hmem) hmatching hbefore hearlier).1 rfl)
    · obtain ⟨before, hbefore, hmem, hearlier, hafter⟩ := hknown hle hj hi
      exact hafter.subset ((closePair_joins hdense hclosed (hbefore.table.within _ hmem)
        (hbefore.justified _ hmem) hmatching hbefore hearlier).2 rfl)
  · intro opening closing symbol hopening hclosing hpush hpop hinner
    obtain ⟨i, hi⟩ := List.getElem?_of_mem hinner
    obtain ⟨before, hbefore, -, hget, hafter⟩ := hprocessed i _ hi
    have hmem := List.mem_of_getElem? hget
    exact hafter.subset (closePair_nests hdense hclosed (hbefore.table.within _ hmem)
      (hbefore.justified _ hmem) hmatching hbefore hopening hclosing hpush hpop rfl rfl)

end

end Blorp.Check
