import Mathlib.Data.Finset.Basic

/-!
# Obligations

An obligation is introduced once, may be used while it is live, and is discharged
once.  `Account trace live` follows a trace of such events with the set of live
obligations; what it says about the trace alone is `Accounted`:

    Account trace live → Accounted trace                               (Account.accounted)
    Account trace ∅ → every introduced obligation is discharged once   (Account.settled)

`Custody` says who holds which live obligation: each one outside a reserved set is
held by exactly one holder.
-/

namespace Obligations

variable {ρ η : Type} [DecidableEq ρ]

inductive Event (ρ : Type) where
  | introduced (obligation : ρ)
  | discharged (obligation : ρ)
  | used (obligation : ρ)
  deriving DecidableEq, Repr

/-- The event may follow the trace: an obligation is introduced for the first time, or
it is live. -/
def Event.Placed (trace : List (Event ρ)) : Event ρ → Prop
  | .introduced n => .introduced n ∉ trace
  | .discharged n => .introduced n ∈ trace ∧ .discharged n ∉ trace
  | .used n => .introduced n ∈ trace ∧ .discharged n ∉ trace

/-- Nothing happens to an obligation before it is introduced, and once discharged
it is never used, discharged or introduced again. -/
def Accounted (trace : List (Event ρ)) : Prop :=
  ∀ before event after, trace = before ++ event :: after → event.Placed before

/-- Every obligation that was introduced was discharged exactly once. -/
def Settled (trace : List (Event ρ)) : Prop :=
  ∀ n, .introduced n ∈ trace → trace.count (.discharged n) = 1

/-- The trace so far, with the obligations it leaves live. -/
inductive Account : List (Event ρ) → Finset ρ → Prop where
  | start : Account [] ∅
  | introduce {trace live n} (account : Account trace live) (fresh : .introduced n ∉ trace) :
      Account (trace ++ [.introduced n]) (insert n live)
  | discharge {trace live n} (account : Account trace live) (held : n ∈ live) :
      Account (trace ++ [.discharged n]) (live.erase n)
  | use {trace live n} (account : Account trace live) (held : n ∈ live) :
      Account (trace ++ [.used n]) live

namespace Account

variable {trace : List (Event ρ)} {live : Finset ρ}

theorem introduced_of_discharged (h : Account trace live) :
    ∀ n, .discharged n ∈ trace → .introduced n ∈ trace := by
  suffices hlive : (∀ n ∈ live, .introduced n ∈ trace) ∧
      ∀ n, .discharged n ∈ trace → .introduced n ∈ trace from hlive.2
  induction h with
  | start => simp
  | introduce account fresh ih =>
    refine ⟨fun n hn => ?_, fun n hn => ?_⟩
    · rcases Finset.mem_insert.mp hn with rfl | hn
      · simp
      · simp [ih.1 n hn]
    · rcases List.mem_append.mp hn with hn | hn
      · simp [ih.2 n hn]
      · simp at hn
  | @discharge trace live m account held ih =>
    refine ⟨fun n hn => by simp [ih.1 n (Finset.mem_of_mem_erase hn)], fun n hn => ?_⟩
    rcases List.mem_append.mp hn with hn | hn
    · simp [ih.2 n hn]
    · have hnm : n = m := by simpa using hn
      subst hnm
      simp [ih.1 n held]
  | use account held ih =>
    refine ⟨fun n hn => by simp [ih.1 n hn], fun n hn => ?_⟩
    rcases List.mem_append.mp hn with hn | hn
    · simp [ih.2 n hn]
    · simp at hn

theorem mem_live_iff (h : Account trace live) :
    ∀ n, n ∈ live ↔ .introduced n ∈ trace ∧ .discharged n ∉ trace := by
  induction h with
  | start => simp
  | @introduce trace live m account fresh ih =>
    intro n
    have hfresh : .discharged m ∉ trace :=
      fun h => fresh (account.introduced_of_discharged m h)
    by_cases hnm : n = m
    · subst hnm
      simp [hfresh]
    · simp [Finset.mem_insert, hnm, ih n]
  | @discharge trace live m account held ih =>
    intro n
    by_cases hnm : n = m
    · subst hnm
      simp
    · simp [Finset.mem_erase, hnm, ih n]
  | use account held ih =>
    intro n
    simp [ih n]

/-- An initial part of the trace is accounted for as well. -/
theorem prior (h : Account trace live) :
    ∀ before after, trace = before ++ after → ∃ live', Account before live' := by
  have hsnoc : ∀ {trace : List (Event ρ)} {event : Event ρ} {live : Finset ρ},
      Account (trace ++ [event]) live →
      (∀ before after, trace = before ++ after → ∃ live', Account before live') →
      ∀ before after, trace ++ [event] = before ++ after → ∃ live', Account before live' := by
    intro trace event live account ih before after heq
    rcases List.eq_nil_or_concat after with rfl | ⟨rest, last, rfl⟩
    · rw [List.append_nil] at heq
      exact ⟨_, heq ▸ account⟩
    · rw [List.concat_eq_append, ← List.append_assoc] at heq
      exact ih before rest (List.append_inj_left' heq rfl)
  induction h with
  | start =>
    intro before after heq
    obtain ⟨rfl, -⟩ := List.append_eq_nil_iff.mp heq.symm
    exact ⟨∅, .start⟩
  | introduce account fresh ih => exact hsnoc (.introduce account fresh) ih
  | discharge account held ih => exact hsnoc (.discharge account held) ih
  | use account held ih => exact hsnoc (.use account held) ih

theorem last {event : Event ρ} (h : Account (trace ++ [event]) live) : event.Placed trace := by
  generalize hwhole : trace ++ [event] = whole at h
  cases h with
  | start => simp at hwhole
  | introduce account fresh =>
    obtain ⟨rfl, hevent⟩ := List.append_inj' hwhole rfl
    cases hevent
    exact fresh
  | discharge account held | use account held =>
    obtain ⟨rfl, hevent⟩ := List.append_inj' hwhole rfl
    cases hevent
    exact (account.mem_live_iff _).mp held

/-- **A trace with an account is accounted for.** -/
theorem accounted (h : Account trace live) : Accounted trace := by
  intro before event after heq
  obtain ⟨_, hprior⟩ := h.prior (before ++ [event]) after (by simp [heq])
  exact hprior.last

theorem count_discharged (h : Account trace live) : ∀ n, trace.count (.discharged n) ≤ 1 := by
  induction h with
  | start => simp
  | @introduce trace live m account fresh ih =>
    intro n
    simpa using ih n
  | @discharge trace live m account held ih =>
    intro n
    have habsent := ((account.mem_live_iff m).mp held).2
    by_cases hnm : n = m
    · subst hnm
      simp [List.count_eq_zero.mpr habsent]
    · simpa [List.count_singleton, Ne.symm hnm] using ih n
  | use account held ih =>
    intro n
    simpa using ih n

/-- **With nothing left live, every obligation was discharged exactly once.** -/
theorem settled (h : Account trace ∅) : Settled trace := by
  intro n hn
  have hdischarged : .discharged n ∈ trace := by
    by_contra habsent
    exact Finset.notMem_empty n ((h.mem_live_iff n).mpr ⟨hn, habsent⟩)
  have hpos := List.count_pos_iff.mpr hdischarged
  have hle := h.count_discharged n
  omega

end Account

/-! ## Custody -/

omit [DecidableEq ρ] in
/-- Each live obligation outside the reserved ones has exactly one holder. -/
structure Custody (holds : η → ρ → Prop) (live reserved : Finset ρ) : Prop where
  reserved_live : reserved ⊆ live
  held_live : ∀ h n, holds h n → n ∈ live ∧ n ∉ reserved
  unique : ∀ h h' n, holds h n → holds h' n → h = h'
  covered : ∀ n ∈ live, n ∉ reserved → ∃ h, holds h n

namespace Custody

variable {holds holds' : η → ρ → Prop} {live reserved : Finset ρ}

omit [DecidableEq ρ] in
theorem congr (custody : Custody holds live reserved) (h : ∀ x n, holds' x n ↔ holds x n) :
    Custody holds' live reserved where
  reserved_live := custody.reserved_live
  held_live x n hx := custody.held_live x n ((h x n).mp hx)
  unique x x' n hx hx' := custody.unique x x' n ((h x n).mp hx) ((h x' n).mp hx')
  covered n hn hr := by
    obtain ⟨x, hx⟩ := custody.covered n hn hr
    exact ⟨x, (h x n).mpr hx⟩

theorem release (custody : Custody holds live reserved) {x : η} {n : ρ} (hx : holds x n)
    (hxn : ∀ m, holds x m → m = n) (h : ∀ y m, holds' y m ↔ y ≠ x ∧ holds y m) :
    Custody holds' (live.erase n) reserved where
  reserved_live m hm := by
    refine Finset.mem_erase.mpr ⟨fun hmn => ?_, custody.reserved_live hm⟩
    subst hmn
    exact (custody.held_live x m hx).2 hm
  held_live y m hy := by
    obtain ⟨hyx, hy⟩ := (h y m).mp hy
    obtain ⟨hlive, hreserved⟩ := custody.held_live y m hy
    refine ⟨Finset.mem_erase.mpr ⟨fun hmn => ?_, hlive⟩, hreserved⟩
    subst hmn
    exact hyx (custody.unique y x m hy hx)
  unique y y' m hy hy' := custody.unique y y' m ((h y m).mp hy).2 ((h y' m).mp hy').2
  covered m hm hr := by
    obtain ⟨hmn, hm⟩ := Finset.mem_erase.mp hm
    obtain ⟨y, hy⟩ := custody.covered m hm hr
    refine ⟨y, (h y m).mpr ⟨fun hyx => ?_, hy⟩⟩
    subst hyx
    exact hmn (hxn m hy)

theorem acquire (custody : Custody holds live reserved) {x : η} {n : ρ} (hn : n ∉ live)
    (h : ∀ y m, holds' y m ↔ (y = x ∧ m = n) ∨ (y ≠ x ∧ holds y m)) (hx : ∀ m, ¬ holds x m) :
    Custody holds' (insert n live) reserved where
  reserved_live m hm := Finset.mem_insert_of_mem (custody.reserved_live hm)
  held_live y m hy := by
    rcases (h y m).mp hy with ⟨-, rfl⟩ | ⟨-, hy⟩
    · exact ⟨Finset.mem_insert_self m live, fun hm => hn (custody.reserved_live hm)⟩
    · obtain ⟨hlive, hreserved⟩ := custody.held_live y m hy
      exact ⟨Finset.mem_insert_of_mem hlive, hreserved⟩
  unique y y' m hy hy' := by
    rcases (h y m).mp hy with ⟨rfl, rfl⟩ | ⟨-, hy⟩ <;>
      rcases (h y' _).mp hy' with ⟨rfl, hm⟩ | ⟨-, hy'⟩
    · rfl
    · exact absurd (custody.held_live y' _ hy').1 hn
    · subst hm
      exact absurd (custody.held_live y _ hy).1 hn
    · exact custody.unique y y' m hy hy'
  covered m hm hr := by
    rcases Finset.mem_insert.mp hm with rfl | hm
    · exact ⟨x, (h x m).mpr (.inl ⟨rfl, rfl⟩)⟩
    · obtain ⟨y, hy⟩ := custody.covered m hm hr
      refine ⟨y, (h y m).mpr (.inr ⟨fun hyx => ?_, hy⟩)⟩
      subst hyx
      exact hx m hy

omit [DecidableEq ρ] in
/-- An obligation passes from one holder to another that held nothing. -/
theorem pass (custody : Custody holds live reserved) {x z : η} {n : ρ} (hx : holds x n)
    (hxn : ∀ m, holds x m → m = n)
    (h : ∀ y m, holds' y m ↔ (y = z ∧ m = n) ∨ (y ≠ x ∧ y ≠ z ∧ holds y m))
    (hz : ∀ m, ¬ holds z m) : Custody holds' live reserved where
  reserved_live := custody.reserved_live
  held_live y m hy := by
    rcases (h y m).mp hy with ⟨-, rfl⟩ | ⟨-, -, hy⟩
    · exact custody.held_live x m hx
    · exact custody.held_live y m hy
  unique y y' m hy hy' := by
    rcases (h y m).mp hy with ⟨rfl, rfl⟩ | ⟨hyx, -, hy⟩ <;>
      rcases (h y' _).mp hy' with ⟨rfl, hm⟩ | ⟨hyx', -, hy'⟩
    · rfl
    · exact absurd (custody.unique y' x _ hy' hx) hyx'
    · subst hm
      exact absurd (custody.unique y x _ hy hx) hyx
    · exact custody.unique y y' m hy hy'
  covered m hm hr := by
    obtain ⟨y, hy⟩ := custody.covered m hm hr
    by_cases hyx : y = x
    · subst hyx
      exact ⟨z, (h z m).mpr (.inl ⟨rfl, hxn m hy⟩)⟩
    · refine ⟨y, (h y m).mpr (.inr ⟨hyx, fun hyz => ?_, hy⟩)⟩
      subst hyz
      exact hz m hy

theorem eq_reserved (custody : Custody holds live reserved) (h : ∀ x n, ¬ holds x n) :
    live = reserved := by
  ext n
  refine ⟨fun hn => ?_, fun hn => custody.reserved_live hn⟩
  by_contra hr
  obtain ⟨x, hx⟩ := custody.covered n hn hr
  exact h x n hx

end Custody

end Obligations
