import Mathlib.Data.List.Basic
import Mathlib.Data.List.Induction

/-!
# Paths

The pure logical paths of `standard_library/path.brp`.  A path is the list of its
scalars: the only separator is '/', one byte in UTF-8 that occurs in no other scalar, so
byte positions next to a separator and scalar positions next to it cut the same pieces.
-/

namespace Blorp.Library

abbrev Text := List Char

namespace Path

def isSeparator (path : Text) (position : Nat) : Bool := path[position]? == some '/'

/-- `String.slice`, between two positions. -/
def slice (path : Text) (start stop : Nat) : Option Text :=
  if start ≤ stop ∧ stop ≤ path.length then some ((path.take stop).drop start) else none

/-- Empty children add or preserve the separator used by library-prefix checks. -/
def join (base child : Text) : Text :=
  if isSeparator child 0 then child
  else if base.length = 0 then child
  else if isSeparator base (base.length - 1) then base ++ child
  else base ++ ['/'] ++ child

def backWhile (test : Nat → Bool) : Nat → Nat
  | 0 => 0
  | stop + 1 => if test stop then backWhile test stop else stop + 1

/-- Ignores trailing separators and removes the final component with its separator run.
Root stays '/', an empty path or a basename becomes '.'. -/
def dirname (path : Text) : Text :=
  let stop := backWhile (isSeparator path) path.length
  let stop := backWhile (fun position => !isSeparator path position) stop
  let stop := backWhile (isSeparator path) stop
  if stop = 0 then if isSeparator path 0 then ['/'] else ['.']
  else (slice path 0 stop).getD ['.']

/-- Only ordinary components cancel; unresolved relative parents remain stacked. -/
def normalizedComponent (absolute : Bool) (components : List Text) (component : Text) : List Text :=
  if component = ['.'] then components
  else if component = ['.', '.'] then
    match components.getLast? with
    | some previous =>
        if previous = ['.', '.'] then components ++ [component]
        else components.take (components.length - 1)
    | none => if absolute then components else components ++ [component]
  else components ++ [component]

/-- One position of the scan: the components so far and where the next one starts. -/
def normalizeAt (path : Text) (absolute : Bool) (state : List Text × Nat) (position : Nat) :
    List Text × Nat :=
  if isSeparator path position then
    (if state.2 < position then
      match slice path state.2 position with
      | some component => normalizedComponent absolute state.1 component
      | none => state.1
    else state.1, position + 1)
  else state

/-- Pure logical normalization: no filesystem, symlink or Unicode normalization. -/
def normalize (path : Text) : Text :=
  let absolute := isSeparator path 0
  let (components, start) := (List.range path.length).foldl (normalizeAt path absolute) ([], 0)
  let components :=
    if start < path.length then
      match slice path start path.length with
      | some component => normalizedComponent absolute components component
      | none => components
    else components
  let joined := List.intercalate ['/'] components
  if absolute then ['/'] ++ joined
  else if components.length = 0 then ['.'] else joined

/-! ## Pieces -/

/-- The pieces of a path after `current`, the piece read so far. -/
def piecesFrom (current : Text) : Text → List Text
  | [] => if current = [] then [] else [current]
  | char :: rest =>
      if char = '/' then
        if current = [] then piecesFrom [] rest else current :: piecesFrom [] rest
      else piecesFrom (current ++ [char]) rest

def pieces (path : Text) : List Text := piecesFrom [] path

theorem piecesFrom_append (first second : Text) :
    ∀ current, piecesFrom current (first ++ '/' :: second)
      = piecesFrom current first ++ pieces second := by
  induction first with
  | nil =>
    intro current
    by_cases hcurrent : current = []
    all_goals simp [piecesFrom, hcurrent, pieces]
  | cons char first ih =>
    intro current
    rw [List.cons_append, piecesFrom, piecesFrom]
    by_cases hchar : char = '/'
    · by_cases hcurrent : current = []
      · simp only [hchar, hcurrent, ↓reduceIte]
        exact ih []
      · simp only [hchar, hcurrent, ↓reduceIte, List.cons_append]
        rw [ih []]
    · simp only [hchar, ↓reduceIte]
      exact ih (current ++ [char])

theorem pieces_append (first second : Text) :
    pieces (first ++ '/' :: second) = pieces first ++ pieces second :=
  piecesFrom_append first second []

variable {component : Text} {components : List Text}

theorem piecesFrom_component (h : '/' ∉ component) : ∀ current, piecesFrom current component
      = if current ++ component = [] then [] else [current ++ component] := by
  induction component with
  | nil =>
    intro current
    rw [List.append_nil, piecesFrom]
  | cons char rest ih =>
    intro current
    obtain ⟨hchar, hrest⟩ : ¬ '/' = char ∧ '/' ∉ rest := by simpa using h
    rw [piecesFrom, if_neg (Ne.symm hchar), ih hrest]
    simp

theorem pieces_component (h : '/' ∉ component) (hne : component ≠ []) :
    pieces component = [component] := by
  unfold pieces
  rw [piecesFrom_component h, List.nil_append, if_neg hne]

theorem pieces_cons_separator (rest : Text) : pieces ('/' :: rest) = pieces rest :=
  pieces_append [] rest

/-! ## What normalization computes -/

def finish (absolute : Bool) (components : List Text) : Text :=
  if absolute then '/' :: List.intercalate ['/'] components
  else if components = [] then ['.'] else List.intercalate ['/'] components

/-- The scan from a position: what is before `start` has been read, and `current` is the
piece since. -/
theorem scan_eq (absolute : Bool) (path : Text) (rest : Text) :
    ∀ (before current : Text) (components : List Text), path = before ++ current ++ rest →
      '/' ∉ current →
      (let (last, start) := (List.range' (before.length + current.length) rest.length).foldl
          (normalizeAt path absolute) (components, before.length)
        if start < path.length then
          match slice path start path.length with
          | some component => normalizedComponent absolute last component
          | none => last
        else last)
        = (piecesFrom current rest).foldl (normalizedComponent absolute) components := by
  induction rest with
  | nil =>
    intro before current components hpath _
    rw [List.append_nil] at hpath
    subst hpath
    by_cases hcurrent : current = []
    · simp [piecesFrom, hcurrent]
    · have hpos : 0 < current.length := List.length_pos_iff.mpr hcurrent
      have hlt : before.length < (before ++ current).length := by
        rw [List.length_append]
        omega
      have hslice : slice (before ++ current) before.length (before ++ current).length
          = some current := by
        unfold slice
        rw [if_pos ⟨by omega, Nat.le_refl _⟩, List.take_length, List.drop_left]
      simp only [List.length_nil, List.range'_zero, List.foldl_nil, hlt, ↓reduceIte, hslice]
      simp [piecesFrom, hcurrent]
  | cons char rest ih =>
    intro before current components hpath hcurrent
    have hat : path[before.length + current.length]? = some char := by
      rw [hpath, ← List.length_append, List.getElem?_append_right (Nat.le_refl _)]
      simp
    rw [List.length_cons, List.range'_succ, List.foldl_cons, piecesFrom]
    by_cases hchar : char = '/'
    · subst hchar
      have hseparator : isSeparator path (before.length + current.length) = true := by
        unfold isSeparator
        rw [hat]
        rfl
      have hstep := ih (before ++ current ++ ['/']) []
      simp only [List.append_nil, List.length_append, List.length_singleton, List.length_nil,
        Nat.add_zero] at hstep
      simp only [normalizeAt, hseparator, ↓reduceIte]
      by_cases hnone : current = []
      · subst hnone
        simp only [List.length_nil, Nat.add_zero, Nat.lt_irrefl, ↓reduceIte] at hstep ⊢
        exact hstep components (by simp [hpath]) (by simp)
      · have hpos : 0 < current.length := List.length_pos_iff.mpr hnone
        have hslice : slice path before.length (before.length + current.length)
            = some current := by
          unfold slice
          rw [hpath, if_pos ⟨by omega, by simp⟩, List.append_assoc,
            ← List.length_append, ← List.append_assoc, List.take_left]
          simp
        rw [if_pos (show before.length < before.length + current.length by omega), hslice,
          if_neg hnone, List.foldl_cons]
        exact hstep (normalizedComponent absolute components current) (by simp [hpath]) (by simp)
    · have hseparator : isSeparator path (before.length + current.length) = false := by
        unfold isSeparator
        rw [hat]
        simpa using hchar
      have hstep := ih before (current ++ [char]) components (by simp [hpath])
        (by simp [hcurrent, Ne.symm hchar])
      simp only [List.length_append, List.length_singleton, ← Nat.add_assoc] at hstep
      simp only [normalizeAt, hseparator, Bool.false_eq_true, ↓reduceIte, hchar]
      exact hstep

/-- Normalizing folds the pieces of a path into components. -/
theorem normalize_eq (path : Text) : normalize path = finish (isSeparator path 0)
      ((pieces path).foldl (normalizedComponent (isSeparator path 0)) []) := by
  have hscan := scan_eq (isSeparator path 0) path path [] [] [] rfl (by simp)
  simp only [List.length_nil, Nat.add_zero, ← List.range_eq_range'] at hscan
  unfold normalize pieces finish
  simp only
  rw [← hscan]
  simp [List.length_eq_zero_iff]

/-! ## Normal absolute paths -/

/-- A component that names something: no separator, no dot segment. -/
structure Ordinary (component : Text) : Prop where
  nonempty : component ≠ []
  unseparated : '/' ∉ component
  not_here : component ≠ ['.']
  not_parent : component ≠ ['.', '.']

def render (components : List Text) : Text := '/' :: List.intercalate ['/'] components

theorem Ordinary.dropLast (h : ∀ component ∈ components, Ordinary component) :
    ∀ component ∈ components.dropLast, Ordinary component :=
  fun component hcomponent => h component ((List.dropLast_sublist _).subset hcomponent)

def NormalAbsolute (path : Text) : Prop :=
  ∃ components, (∀ component ∈ components, Ordinary component) ∧ path = render components

theorem intercalate_concat (hne : components ≠ []) (component : Text) :
    List.intercalate ['/'] (components ++ [component])
      = List.intercalate ['/'] components ++ '/' :: component := by
  induction components with
  | nil => exact absurd rfl hne
  | cons first rest ih =>
    cases rest with
    | nil => simp [List.intercalate, List.intersperse]
    | cons second rest =>
      have hstep := ih (by simp)
      simp only [List.cons_append] at hstep ⊢
      rw [List.intercalate_cons_cons, hstep, List.intercalate_cons_cons]
      simp

theorem render_concat (hne : components ≠ []) (component : Text) :
    render (components ++ [component]) = render components ++ '/' :: component := by
  unfold render
  rw [intercalate_concat hne, List.cons_append]

theorem render_singleton (component : Text) : render [component] = '/' :: component := by
  simp [render, List.intercalate]

theorem pieces_intercalate (h : ∀ component ∈ components, component ≠ [] ∧ '/' ∉ component) :
    pieces (List.intercalate ['/'] components) = components := by
  induction components using List.reverseRecOn with
  | nil => rfl
  | append_singleton components component ih =>
    obtain ⟨hnonempty, hunseparated⟩ := h component (by simp)
    have hrest := ih fun other hother => h other (List.mem_append_left _ hother)
    by_cases hne : components = []
    · subst hne
      simpa [List.intercalate] using pieces_component hunseparated hnonempty
    · rw [intercalate_concat hne, pieces_append, hrest,
        pieces_component hunseparated hnonempty]

theorem pieces_render (h : ∀ component ∈ components, Ordinary component) :
    pieces (render components) = components := by
  unfold render
  rw [pieces_cons_separator]
  exact pieces_intercalate fun component hcomponent =>
    ⟨(h component hcomponent).nonempty, (h component hcomponent).unseparated⟩

theorem normalizedComponent_ordinary {absolute : Bool} (h : Ordinary component) :
    normalizedComponent absolute components component = components ++ [component] := by
  unfold normalizedComponent
  rw [if_neg h.not_here, if_neg h.not_parent]

theorem foldl_normalizedComponent {absolute : Bool} {added : List Text}
    (h : ∀ component ∈ added, Ordinary component) :
    ∀ components, added.foldl (normalizedComponent absolute) components = components ++ added := by
  induction added with
  | nil => simp
  | cons component added ih =>
    intro components
    rw [List.foldl_cons, normalizedComponent_ordinary (h component List.mem_cons_self),
      ih fun other hother => h other (List.mem_cons_of_mem _ hother)]
    simp

theorem normalizedComponent_parent (h : ∀ component ∈ components, Ordinary component) :
    normalizedComponent true components ['.', '.'] = components.dropLast := by
  unfold normalizedComponent
  rw [if_neg (by decide), if_pos rfl]
  cases hlast : components.getLast? with
  | none =>
    rw [List.getLast?_eq_none_iff] at hlast
    subst hlast
    rfl
  | some previous =>
    have hprevious := h previous (List.mem_of_getLast? hlast)
    simp only [hprevious.not_parent, ↓reduceIte]
    rw [List.dropLast_eq_take]

theorem normalize_absolute {path : Text} (h : isSeparator path 0 = true) :
    normalize path = render ((pieces path).foldl (normalizedComponent true) []) := by
  rw [normalize_eq, h]
  rfl

theorem mem_piecesFrom {rest : Text} :
    ∀ {current piece : Text}, '/' ∉ current → piece ∈ piecesFrom current rest →
      piece ≠ [] ∧ '/' ∉ piece := by
  induction rest with intro current piece hcurrent hpiece
  | nil =>
    unfold piecesFrom at hpiece
    split at hpiece
    · cases hpiece
    · rename_i hne
      obtain rfl := List.mem_singleton.mp hpiece
      exact ⟨hne, hcurrent⟩
  | cons char rest ih =>
    unfold piecesFrom at hpiece
    split at hpiece
    · split at hpiece
      · exact ih (by simp) hpiece
      · rename_i hne
        rcases List.mem_cons.mp hpiece with rfl | hmem
        · exact ⟨hne, hcurrent⟩
        · exact ih (by simp) hmem
    · rename_i hchar
      exact ih (by simp [hcurrent, Ne.symm hchar]) hpiece

theorem foldl_normalizedComponent_ordinary {added : List Text}
    (h : ∀ piece ∈ added, piece ≠ [] ∧ '/' ∉ piece) :
    ∀ {components : List Text}, (∀ component ∈ components, Ordinary component) →
      ∀ component ∈ added.foldl (normalizedComponent true) components, Ordinary component := by
  induction added with
  | nil => exact fun hcomponents => hcomponents
  | cons piece added ih =>
    intro components hcomponents
    rw [List.foldl_cons]
    refine ih (fun other hother => h other (List.mem_cons_of_mem _ hother)) ?_
    obtain ⟨hne, hseparated⟩ := h piece List.mem_cons_self
    by_cases hhere : piece = ['.']
    · rw [hhere]
      simpa [normalizedComponent] using hcomponents
    · by_cases hparent : piece = ['.', '.']
      · rw [hparent, normalizedComponent_parent hcomponents]
        exact Ordinary.dropLast hcomponents
      · rw [normalizedComponent_ordinary ⟨hne, hseparated, hhere, hparent⟩]
        intro component hcomponent
        rcases List.mem_append.mp hcomponent with hold | hlast
        · exact hcomponents component hold
        · obtain rfl := List.mem_singleton.mp hlast
          exact ⟨hne, hseparated, hhere, hparent⟩

theorem normalAbsolute_normalize {path : Text} (h : isSeparator path 0 = true) :
    NormalAbsolute (normalize path) := by
  refine ⟨(pieces path).foldl (normalizedComponent true) [], ?_, normalize_absolute h⟩
  exact foldl_normalizedComponent_ordinary (fun piece => mem_piecesFrom (by simp)) (by simp)

/-! ## Directories and joins -/

theorem backWhile_stop {test : Nat → Bool} {size : Nat}
    (hstop : size = 0 ∨ test (size - 1) = false) : backWhile test size = size := by
  cases size with
  | zero => rfl
  | succ size =>
    have hfalse : test size = false := by simpa using hstop
    simp [backWhile, hfalse]

theorem backWhile_append {test : Nat → Bool} {size : Nat} (run : Nat)
    (hrun : ∀ position, size ≤ position → position < size + run → test position = true)
    (hstop : size = 0 ∨ test (size - 1) = false) : backWhile test (size + run) = size := by
  induction run with
  | zero => exact backWhile_stop hstop
  | succ run ih =>
    rw [← Nat.add_assoc, backWhile, if_pos (hrun (size + run) (by omega) (by omega))]
    exact ih fun position hle hlt => hrun position hle (by omega)

theorem isSeparator_left {first second : Text} {position : Nat} (h : position < first.length) :
    isSeparator (first ++ second) position = isSeparator first position := by
  unfold isSeparator
  rw [List.getElem?_append_left h]

theorem isSeparator_right (first second : Text) (position : Nat) :
    isSeparator (first ++ second) (first.length + position) = isSeparator second position := by
  unfold isSeparator
  rw [List.getElem?_append_right (by omega), Nat.add_sub_cancel_left]

theorem isSeparator_component (h : '/' ∉ component) (position : Nat) :
    isSeparator component position = false := by
  unfold isSeparator
  cases hget : component[position]? with
  | none => rfl
  | some char =>
    have hmem := List.mem_of_getElem? hget
    rw [beq_eq_false_iff_ne]
    intro heq
    cases heq
    exact h hmem

theorem stripped_eq {parent component : Text} (h : Ordinary component) :
    backWhile (fun position => !isSeparator (parent ++ '/' :: component) position)
      (backWhile (isSeparator (parent ++ '/' :: component))
        (parent ++ '/' :: component).length) = parent.length + 1 := by
  have hlength : (parent ++ '/' :: component).length = parent.length + 1 + component.length := by
    simp
    omega
  have hpos : 0 < component.length := List.length_pos_iff.mpr h.nonempty
  have hcomponent : ∀ position, parent.length + 1 ≤ position →
      isSeparator (parent ++ '/' :: component) position = false := by
    intro position hle
    have heq : position = (parent ++ ['/']).length + (position - (parent.length + 1)) := by
      simp
      omega
    rw [heq, List.append_cons, isSeparator_right]
    exact isSeparator_component h.unseparated _
  have hfirst : backWhile (isSeparator (parent ++ '/' :: component))
      (parent ++ '/' :: component).length = parent.length + 1 + component.length := by
    rw [hlength]
    exact backWhile_stop (.inr (hcomponent _ (by omega)))
  rw [hfirst]
  refine backWhile_append component.length (fun position hle _ => ?_) (.inr ?_)
  · rw [hcomponent position hle]
    rfl
  · have hseparator : isSeparator (parent ++ '/' :: component) parent.length = true := by
      have := isSeparator_right parent ('/' :: component) 0
      rw [Nat.add_zero] at this
      rw [this]
      rfl
    simp [hseparator]

theorem render_ends (hne : components ≠ []) (h : ∀ component ∈ components, Ordinary component) :
    ∃ parent component, Ordinary component ∧ render components = parent ++ '/' :: component := by
  induction components using List.reverseRecOn with
  | nil => exact absurd rfl hne
  | append_singleton components component _ =>
    have hlast := h component (by simp)
    by_cases hempty : components = []
    · subst hempty
      exact ⟨[], component, hlast, by rw [List.nil_append, render_singleton]; rfl⟩
    · exact ⟨render components, component, hlast, render_concat hempty component⟩

theorem isSeparator_last (hne : components ≠ [])
    (h : ∀ component ∈ components, Ordinary component) :
    isSeparator (render components) ((render components).length - 1) = false := by
  obtain ⟨parent, component, hcomponent, heq⟩ := render_ends hne h
  have hpos : 0 < component.length := List.length_pos_iff.mpr hcomponent.nonempty
  have hlength : (parent ++ '/' :: component).length - 1
      = (parent ++ ['/']).length + (component.length - 1) := by
    simp
    omega
  rw [heq, hlength, List.append_cons, isSeparator_right]
  exact isSeparator_component hcomponent.unseparated _

theorem dirname_render (h : ∀ component ∈ components, Ordinary component) :
    dirname (render components) = render components.dropLast := by
  induction components using List.reverseRecOn with
  | nil => rfl
  | append_singleton components component _ =>
    have hlast := h component (by simp)
    have hrest : ∀ other ∈ components, Ordinary other :=
      fun other hother => h other (List.mem_append_left _ hother)
    rw [List.dropLast_concat]
    by_cases hempty : components = []
    · subst hempty
      rw [List.nil_append, render_singleton]
      have hstrip : backWhile (fun position => !isSeparator ('/' :: component) position)
          (backWhile (isSeparator ('/' :: component)) ('/' :: component).length) = 1 :=
        @stripped_eq [] component hlast
      unfold dirname
      simp only [hstrip]
      rfl
    · rw [render_concat hempty]
      unfold dirname
      simp only [stripped_eq hlast]
      have hback : backWhile (isSeparator (render components ++ '/' :: component))
          ((render components).length + 1) = (render components).length := by
        refine backWhile_append 1 (fun position hle hlt => ?_) (.inr ?_)
        · obtain rfl : position = (render components).length := by omega
          have := isSeparator_right (render components) ('/' :: component) 0
          rw [Nat.add_zero] at this
          rw [this]
          rfl
        · rw [isSeparator_left (by simp [render])]
          exact isSeparator_last hempty hrest
      rw [hback, if_neg (by simp [render])]
      unfold slice
      rw [if_pos ⟨by omega, by simp⟩]
      simp

theorem join_render (h : ∀ component ∈ components, Ordinary component) {child : Text}
    (hchild : '/' ∉ child) : join (render components) child = render (components ++ [child]) := by
  unfold join
  rw [if_neg (by rw [isSeparator_component hchild]; decide), if_neg (by simp [render])]
  by_cases hempty : components = []
  · subst hempty
    rw [List.nil_append, render_singleton]
    rfl
  · rw [isSeparator_last hempty h, if_neg (by decide), render_concat hempty]
    simp

end Path

end Blorp.Library
