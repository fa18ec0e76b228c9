import Blorp.Lib.StableMerge
import Blorp.Lib.While

/-!
# Sorting lists

`sort_by` of `standard_library/list.brp`, a bottom-up merge sort in two buffers.  A position is
below the length of a list that exists, far from where Int arithmetic wraps.
-/

namespace Blorp.Library

open Fuel StableMerge

variable {T Key : Type} (less : Key → Key → Bool) (key : T → Key)

/-- Whether the element at `right` sorts before the one at `left`. -/
def rightFirst (source : List T) (left right : Nat) : Bool :=
  match source[left]? with
  | none => false
  | some leftValue =>
    match source[right]? with
    | none => false
    | some rightValue => less (key rightValue) (key leftValue)

structure Merge (T : Type) where
  merged : List T
  left : Nat
  right : Nat

/-- The right run supplies the element when the left run is spent, never when the right run is
spent, and otherwise only when strictly less. -/
def fromRight (source : List T) (middle stop : Nat) (state : Merge T) : Bool :=
  if state.right < stop then
    if state.left < middle then rightFirst less key source state.left state.right else true
  else false

def mergeAt (source : List T) (middle stop : Nat) (state : Merge T) (position : Nat) : Merge T :=
  let right := fromRight less key source middle stop state
  let index := if right then state.right else state.left
  let merged :=
    match source[index]? with
    | some value => state.merged.set position value
    | none => state.merged
  if right then ⟨merged, state.left, state.right + 1⟩ else ⟨merged, state.left + 1, state.right⟩

/-- Merges two adjacent runs of `source` into the same positions of `target`. -/
def mergeRuns (source target : List T) (start middle stop : Nat) : List T :=
  ((List.range' start (stop - start)).foldl (mergeAt less key source middle stop)
    ⟨target, start, middle⟩).merged

/-- A pass over the runs of `source`. -/
structure Pass (T : Type) where
  target : List T
  start : Nat

def passStep (source : List T) (width count : Nat) (state : Pass T) : Pass T :=
  let middle := min (state.start + width) count
  let stop := min (middle + width) count
  ⟨mergeRuns less key source state.target state.start middle stop, stop⟩

def sortPass (source target : List T) (width count fuel : Nat) : Outcome Empty (List T) := do
  let last ← repeatWhile (fun state : Pass T => decide (state.start < count))
    (fun state => .ok (passStep less key source width count state)) fuel ⟨target, 0⟩
  pure last.target

/-- The two buffers, and the width of the runs of `source`. -/
structure Buffers (T : Type) where
  source : List T
  target : List T
  width : Nat

/-- A pass writes `target`, and the buffers swap. -/
def sortStep (count fuel : Nat) (state : Buffers T) : Outcome Empty (Buffers T) := do
  let written ← sortPass less key state.source state.target state.width count fuel
  pure ⟨written, state.source, state.width * 2⟩

def sortBy (fuel : Nat) (values : List T) : Outcome Empty (List T) := do
  let last ← repeatWhile (fun state : Buffers T => decide (state.width < values.length))
    (sortStep less key values.length fuel) fuel ⟨values, values, 1⟩
  pure last.source

/-! ## Merging two runs -/

def notAfter (first second : T) : Bool := !less (key second) (key first)

/-- The elements from `start` up to `stop`. -/
def between (source : List T) (start stop : Nat) : List T := (source.take stop).drop start

variable {start stop : Nat} {source : List T}

theorem between_self (source : List T) (h : stop ≤ start) : between source start stop = [] :=
  List.drop_eq_nil_of_le (by rw [List.length_take]; omega)

theorem between_cons (hlt : start < stop) (hstop : stop ≤ source.length) :
    ∃ value, source[start]? = some value ∧
      between source start stop = value :: between source (start + 1) stop := by
  have hstart : start < (source.take stop).length := by
    rw [List.length_take]
    omega
  refine ⟨source[start], List.getElem?_eq_getElem (by omega), ?_⟩
  unfold between
  rw [List.drop_eq_getElem_cons hstart, List.getElem_take]

theorem length_between (hstop : stop ≤ source.length) :
    (between source start stop).length = stop - start := by
  unfold between
  rw [List.length_drop, List.length_take, Nat.min_eq_left hstop]

theorem take_between {middle : Nat} (h : start ≤ middle) :
    source.take middle = source.take start ++ between source start middle := by
  have hsplit := (List.take_append_drop start (source.take middle)).symm
  rwa [List.take_take, Nat.min_eq_left h] at hsplit

theorem take_set {merged : List T} {position : Nat} (h : position < merged.length) (value : T) :
    (merged.set position value).take (position + 1) = merged.take position ++ [value] := by
  rw [List.take_add_one, List.take_set_of_le (Nat.le_refl _), List.getElem?_set_self h]
  rfl

def remaining (source : List T) (middle stop : Nat) (state : Merge T) : List T :=
  (between source state.left middle).merge (between source state.right stop) (notAfter less key)

structure Takes (source : List T) (middle stop : Nat) (state next : Merge T) (position : Nat) :
    Prop where
  left_le : next.left ≤ middle
  right_le : next.right ≤ stop
  spent : next.left + next.right = state.left + state.right + 1
  taken : ∃ value, next.merged = state.merged.set position value ∧
    remaining less key source middle stop state
      = value :: remaining less key source middle stop next

section

variable {source : List T} {middle stop : Nat} {state : Merge T} (position : Nat)

theorem mergeAt_right (hstop : stop ≤ source.length) (hleft : state.left ≤ middle)
    (hright : state.right < stop) (hfrom : fromRight less key source middle stop state = true)
    (hhead : ∀ value rest, between source state.left middle = value :: rest →
      ∀ other, source[state.right]? = some other → notAfter less key value other = false) :
    Takes less key source middle stop state (mergeAt less key source middle stop state position)
      position := by
  obtain ⟨other, hother, hbetween⟩ := between_cons hright hstop
  have hnext : mergeAt less key source middle stop state position
      = ⟨state.merged.set position other, state.left, state.right + 1⟩ := by
    simp [mergeAt, hfrom, hother]
  rw [hnext]
  refine ⟨hleft, hright, (Nat.add_assoc _ _ _).symm, other, rfl, ?_⟩
  unfold remaining
  rw [hbetween]
  cases hrest : between source state.left middle with
  | nil => rw [List.nil_merge, List.nil_merge]
  | cons value rest =>
    rw [List.cons_merge_cons_neg]
    rw [hhead value rest hrest other hother]
    decide

theorem mergeAt_left (hmiddle : middle ≤ source.length) (hright : state.right ≤ stop)
    (hleft : state.left < middle) (hfrom : fromRight less key source middle stop state = false)
    (hhead : ∀ other rest, between source state.right stop = other :: rest →
      ∀ value, source[state.left]? = some value → notAfter less key value other = true) :
    Takes less key source middle stop state (mergeAt less key source middle stop state position)
      position := by
  obtain ⟨value, hvalue, hbetween⟩ := between_cons hleft hmiddle
  have hnext : mergeAt less key source middle stop state position
      = ⟨state.merged.set position value, state.left + 1, state.right⟩ := by
    simp [mergeAt, hfrom, hvalue]
  rw [hnext]
  refine ⟨hleft, hright, Nat.add_right_comm _ _ _, value, rfl, ?_⟩
  unfold remaining
  rw [hbetween]
  cases hrest : between source state.right stop with
  | nil => rw [List.merge_right, List.merge_right]
  | cons other rest => rw [List.cons_merge_cons_pos _ _ _ (hhead other rest hrest value hvalue)]

theorem mergeAt_takes (hmiddle : middle ≤ stop) (hstop : stop ≤ source.length)
    (hleft : state.left ≤ middle) (hright : state.right ≤ stop)
    (hmore : state.left + state.right < middle + stop) :
    Takes less key source middle stop state (mergeAt less key source middle stop state position)
      position := by
  by_cases hr : state.right < stop
  · by_cases hl : state.left < middle
    · obtain ⟨value, hvalue, hvalues⟩ := between_cons hl (Nat.le_trans hmiddle hstop)
      obtain ⟨other, hother, hothers⟩ := between_cons hr hstop
      have hfrom : fromRight less key source middle stop state = !notAfter less key value other := by
        simp [fromRight, hr, hl, rightFirst, hvalue, hother, notAfter]
      cases hafter : notAfter less key value other with
      | true =>
        rw [hafter, Bool.not_true] at hfrom
        refine mergeAt_left less key position (Nat.le_trans hmiddle hstop) hright hl hfrom ?_
        intro first rest hfirst first' hfirst'
        rw [hothers] at hfirst
        cases hfirst
        rw [hvalue] at hfirst'
        cases hfirst'
        exact hafter
      | false =>
        rw [hafter, Bool.not_false] at hfrom
        refine mergeAt_right less key position hstop hleft hr hfrom ?_
        intro first rest hfirst first' hfirst'
        rw [hvalues] at hfirst
        cases hfirst
        rw [hother] at hfirst'
        cases hfirst'
        exact hafter
    · have hfrom : fromRight less key source middle stop state = true := by
        simp [fromRight, hr, hl]
      refine mergeAt_right less key position hstop hleft hr hfrom ?_
      intro value rest hvalue
      rw [between_self source (by omega)] at hvalue
      cases hvalue
  · have hfrom : fromRight less key source middle stop state = false := by
      simp [fromRight, hr]
    refine mergeAt_left less key position (Nat.le_trans hmiddle hstop) hright (by omega) hfrom ?_
    intro other rest hother
    rw [between_self source (by omega)] at hother
    cases hother

end

theorem foldl_mergeAt {source : List T} {middle stop : Nat} (hmiddle : middle ≤ stop)
    (hstop : stop ≤ source.length) :
    ∀ (count : Nat) (state : Merge T) (position : Nat), state.left ≤ middle →
      state.right ≤ stop → position + count ≤ state.merged.length →
      state.left + state.right + count = middle + stop →
      ((List.range' position count).foldl (mergeAt less key source middle stop) state).merged
        = state.merged.take position ++ remaining less key source middle stop state
          ++ state.merged.drop (position + count) := by
  intro count
  induction count with
  | zero =>
    intro state position hleft hright _ hcount
    have hnone : remaining less key source middle stop state = [] := by
      unfold remaining
      rw [between_self source (by omega), between_self source (by omega), List.nil_merge]
    rw [hnone]
    simp
  | succ count ih =>
    intro state position hleft hright hlength hcount
    obtain ⟨hleft', hright', hspent, value, hmerged, htaken⟩ :=
      mergeAt_takes less key position hmiddle hstop hleft hright (by omega)
    rw [List.range'_succ, List.foldl_cons, htaken,
      ih _ (position + 1) hleft' hright' (by rw [hmerged, List.length_set]; omega) (by omega),
      hmerged, take_set (by omega), List.drop_set_of_lt (by omega)]
    have hshift : position + 1 + count = position + (count + 1) := by omega
    rw [hshift]
    simp

/-- Two adjacent runs are merged in place. -/
theorem mergeRuns_eq {source target : List T} {start middle stop : Nat} (hstart : start ≤ middle)
    (hmiddle : middle ≤ stop) (hstop : stop ≤ source.length)
    (hlength : target.length = source.length) :
    mergeRuns less key source target start middle stop
      = target.take start
        ++ (between source start middle).merge (between source middle stop) (notAfter less key)
        ++ target.drop stop := by
  have hrest : start + (stop - start) = stop := by omega
  have hall := foldl_mergeAt less key hmiddle hstop (stop - start) ⟨target, start, middle⟩ start
    hstart hmiddle (by show start + (stop - start) ≤ target.length; omega)
    (by show start + middle + (stop - start) = middle + stop; omega)
  rw [hrest] at hall
  exact hall

/-! ## Passes -/

section

variable {source : List T} {width : Nat}

structure Passed (source : List T) (width : Nat) (state : Pass T) : Prop where
  length : state.target.length = source.length
  start_le : state.start ≤ source.length
  aligned : state.start < source.length → width * 2 ∣ state.start
  arranged : Arranged (notAfter less key) (width * 2) (state.target.take state.start)
    (source.take state.start)

variable {input : List T}

theorem sorted_between (hsource : Arranged (notAfter less key) width source input)
    (horder : TotalPreorder (notAfter less key)) {start stop : Nat} (haligned : width ∣ start)
    (hstop : stop ≤ start + width) : Sorted (notAfter less key) (between source start stop) := by
  obtain ⟨run, rfl⟩ := haligned
  have hrun := hsource.sorted horder run
  rw [Nat.mul_comm run width] at hrun
  refine hrun.sublist ?_
  unfold between
  rw [List.drop_take]
  exact (List.take_prefix_take_left (by omega)).sublist

theorem passed_step (hwidth : 0 < width) (hsource : Arranged (notAfter less key) width source input)
    {state : Pass T} (h : Passed less key source width state) (hlt : state.start < source.length) :
    Passed less key source width (passStep less key source width source.length state) ∧
      state.start < (passStep less key source width source.length state).start := by
  obtain ⟨hlength, hle, haligned, harranged⟩ := h
  have hwhole := haligned hlt
  have hhalf : width ∣ state.start := Nat.dvd_trans (Nat.dvd_mul_right width 2) hwhole
  obtain ⟨middle, hmiddle⟩ : ∃ middle, middle = min (state.start + width) source.length := ⟨_, rfl⟩
  obtain ⟨stop, hstop⟩ : ∃ stop, stop = min (middle + width) source.length := ⟨_, rfl⟩
  have hstep : passStep less key source width source.length state
      = ⟨mergeRuns less key source state.target state.start middle stop, stop⟩ := by
    rw [hstop, hmiddle]
    rfl
  rw [hstep]
  have hnext : mergeRuns less key source state.target state.start middle stop
      = state.target.take state.start
        ++ (between source state.start middle).merge (between source middle stop)
          (notAfter less key)
        ++ state.target.drop stop :=
    mergeRuns_eq less key (by omega) (by omega) (by omega) hlength
  have hmerged : ((between source state.start middle).merge (between source middle stop)
      (notAfter less key)).length = stop - state.start := by
    rw [List.length_merge, length_between (by omega), length_between (by omega)]
    omega
  have htaken : (state.target.take state.start).length = state.start := by
    rw [List.length_take]
    omega
  have hruns : Arranged (notAfter less key) (width * 2)
      ((between source state.start middle).merge (between source middle stop) (notAfter less key))
      (between source state.start middle ++ between source middle stop) := by
    refine arranged_merge (fun horder => ?_) fun horder => ?_
    · exact sorted_between less key hsource horder hhalf (by omega)
    · by_cases hlast : middle < source.length
      · have hmid : middle = state.start + width := by omega
        rw [hmid]
        exact sorted_between less key hsource horder (Nat.dvd_add hhalf (Nat.dvd_refl width))
          (by omega)
      · rw [between_self source (by omega)]
        exact List.Pairwise.nil
  refine ⟨⟨?_, ?_, ?_, ?_⟩, ?_⟩
  · show (mergeRuns less key source state.target state.start middle stop).length = source.length
    rw [hnext, List.length_append, List.length_append, htaken, hmerged, List.length_drop]
    omega
  · show stop ≤ source.length
    omega
  · intro hmore
    have hmore : stop < source.length := hmore
    have hend : stop = state.start + width * 2 := by omega
    show width * 2 ∣ stop
    rw [hend]
    exact Nat.dvd_add hwhole (Nat.dvd_refl _)
  · show Arranged (notAfter less key) (width * 2)
      ((mergeRuns less key source state.target state.start middle stop).take stop)
      (source.take stop)
    have hwritten : (mergeRuns less key source state.target state.start middle stop).take stop
        = state.target.take state.start
          ++ (between source state.start middle).merge (between source middle stop)
            (notAfter less key) := by
      rw [hnext]
      refine List.take_left' ?_
      rw [List.length_append, htaken, hmerged]
      omega
    rw [hwritten, take_between (show middle ≤ stop by omega),
      take_between (show state.start ≤ middle by omega), List.append_assoc]
    exact harranged.append hruns (by rw [htaken]; exact hwhole)
  · show state.start < stop
    omega

/-- A pass arranges its source in runs of twice the width, whatever the target holds. -/
theorem sortPass_settles {target : List T} (hwidth : 0 < width)
    (hsource : Arranged (notAfter less key) width source input)
    (hlength : target.length = source.length) :
    ∃ written, Outcome.Settles
        (fun fuel => sortPass less key source target width source.length fuel) (.ok written) ∧
      written.length = source.length ∧
      Arranged (notAfter less key) (width * 2) written source := by
  have hfirst : Passed less key source width ⟨target, 0⟩ :=
    ⟨hlength, Nat.zero_le _, fun _ => Nat.dvd_zero _, arranged_nil⟩
  obtain ⟨last, hlast, hpassed, hend⟩ := repeatWhile_settles (ε := Empty)
    (fun state : Pass T => decide (state.start < source.length))
    (fun _ state => .ok (passStep less key source width source.length state))
    (Passed less key source width) (fun state => source.length - state.start)
    (fun state hstate htest => by
      have hlt : state.start < source.length := of_decide_eq_true htest
      obtain ⟨hnext, hmore⟩ := passed_step less key hwidth hsource hstate hlt
      exact ⟨passStep less key source width source.length state, Outcome.Settles.ok,
        hnext, by omega⟩)
    ⟨target, 0⟩ hfirst
  have hall : last.start = source.length :=
    Nat.le_antisymm hpassed.start_le (Nat.le_of_not_lt (of_decide_eq_false hend))
  have harranged := hpassed.arranged
  rw [hall, List.take_length, List.take_of_length_le (Nat.le_of_eq hpassed.length)] at harranged
  exact ⟨last.target, Outcome.Settles.bind_ok hlast Outcome.Settles.ok,
    hpassed.length, harranged⟩

end

/-! ## Sorting -/

def equivalent (first second : Key) : Bool := !less first second && !less second first

abbrev StrictWeak : Prop := IsStrictWeakOrder Key fun first second => less first second = true

theorem totalPreorder_notAfter (h : StrictWeak less) : TotalPreorder (notAfter less key) := by
  have hasymm (first second : Key) (hlt : less first second = true) : less second first ≠ true :=
    fun hgt => h.irrefl first (h.trans first second first hlt hgt)
  have hincomparable := h.incomp_trans
  constructor
  · intro x y z hxy hyz
    have hxy : ¬ less (key y) (key x) = true := by simpa [notAfter] using hxy
    have hyz : ¬ less (key z) (key y) = true := by simpa [notAfter] using hyz
    suffices hzx : ¬ less (key z) (key x) = true by simpa [notAfter] using hzx
    intro hzx
    have hyz' : ¬ less (key y) (key z) = true := fun hlt => hxy (h.trans _ _ _ hlt hzx)
    have hxy' : ¬ less (key x) (key y) = true := fun hlt => hyz (h.trans _ _ _ hzx hlt)
    exact (hincomparable _ _ _ ⟨hxy', hxy⟩ ⟨hyz', hyz⟩).2 hzx
  · intro x y
    by_cases hlt : less (key x) (key y) = true
    · have hgt := hasymm _ _ hlt
      simp [notAfter, hgt]
    · simp [notAfter, hlt]

structure Sorting (values : List T) (state : Buffers T) : Prop where
  source_length : state.source.length = values.length
  target_length : state.target.length = values.length
  width_pos : 0 < state.width
  arranged : Arranged (notAfter less key) state.width state.source values

theorem sortStep_settles {values : List T} {state : Buffers T} (h : Sorting less key values state) :
    ∃ next, Outcome.Settles (fun fuel => sortStep less key values.length fuel state) (.ok next) ∧
      Sorting less key values next ∧ next.width = state.width * 2 := by
  obtain ⟨hsource, htarget, hwidth, harranged⟩ := h
  obtain ⟨written, hwritten, hlength, hpass⟩ :=
    sortPass_settles less key hwidth harranged (htarget.trans hsource.symm)
  rw [hsource] at hwritten hlength
  have hwidth' : 0 < state.width * 2 := by omega
  exact ⟨⟨written, state.source, state.width * 2⟩,
    Outcome.Settles.bind_ok hwritten Outcome.Settles.ok,
    ⟨hlength, hsource, hwidth', hpass.trans harranged⟩, rfl⟩

/-- **Stable sort.**  Sorting ends with a permutation of the values, whatever the comparison.
Under a strict weak order it is non-decreasing, and the elements equivalent to any one are in
the order of the values. -/
theorem sortBy_spec (values : List T) :
    ∃ sorted, Outcome.Settles (fun fuel => sortBy less key fuel values) (.ok sorted) ∧
      sorted.Perm values ∧
      (StrictWeak less →
        (sorted.Pairwise fun first second => less (key second) (key first) = false) ∧
        ∀ element : T, sorted.filter (fun value => equivalent less (key value) (key element))
          = values.filter (fun value => equivalent less (key value) (key element))) := by
  obtain ⟨last, hlast, hsorting, hend⟩ := repeatWhile_settles (ε := Empty)
    (fun state : Buffers T => decide (state.width < values.length))
    (sortStep less key values.length) (Sorting less key values)
    (fun state => values.length - state.width)
    (fun state hstate htest => by
      have hlt : state.width < values.length := of_decide_eq_true htest
      obtain ⟨next, hnext, hsorting, hwidth⟩ := sortStep_settles less key hstate
      have hpos := hstate.width_pos
      exact ⟨next, hnext, hsorting, by omega⟩)
    ⟨values, values, 1⟩ ⟨rfl, rfl, Nat.one_pos, Arranged.refl values⟩
  refine ⟨last.source, Outcome.Settles.bind_ok hlast Outcome.Settles.ok,
    hsorting.arranged.perm, fun hweak => ?_⟩
  have horder := totalPreorder_notAfter less key hweak
  have hlength : last.source.length ≤ last.width := by
    rw [hsorting.source_length]
    exact Nat.le_of_not_lt (of_decide_eq_false hend)
  refine ⟨?_, fun element => hsorting.arranged.stable horder element⟩
  exact (hsorting.arranged.whole horder hlength).imp fun hle => by simpa [notAfter] using hle

/-- The keys 3, 1, 2 in Int order. -/
theorem sortBy_three : ∃ sorted,
    Outcome.Settles (fun fuel => sortBy (fun x y : Int => decide (x < y)) id fuel [3, 1, 2])
      (.ok sorted) ∧ sorted.Pairwise (fun x y : Int => decide (y < x) = false) := by
  obtain ⟨sorted, hsettles, -, hstrict⟩ :=
    sortBy_spec (fun x y : Int => decide (x < y)) id [3, 1, 2]
  have hweak : StrictWeak fun x y : Int => decide (x < y) :=
    { irrefl := fun x => by simp
      trans := fun x y z hxy hyz => by
        simp only [decide_eq_true_eq] at hxy hyz ⊢
        exact Int.lt_trans hxy hyz
      incomp_trans := fun x y z hxy hyz => by
        simp only [decide_eq_true_eq] at hxy hyz ⊢
        omega }
  exact ⟨sorted, hsettles, (hstrict hweak).1⟩

end Blorp.Library
