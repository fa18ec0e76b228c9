import Blorp.Library.Path

/-!
# The location of a path

What a path stands for: the stack of names it leads to from a directory.  The names of a
component stack are below the root; a parent segment leaves the innermost directory and stays
at the root.
-/

namespace Blorp.Library.Path

/-! ## Locations -/

abbrev here : Text := ['.']

abbrev parent : Text := ['.', '.']

/-- One component, from the directory that `stack` names. -/
def move (stack : List Text) (component : Text) : List Text :=
  if component = here then stack
  else if component = parent then stack.dropLast
  else stack ++ [component]

/-- Where a path leads from the directory `current`; an absolute path starts at the root. -/
def location (path : Text) (current : List Text) : List Text :=
  (pieces path).foldl move (if isSeparator path 0 then [] else current)

/-- The paths lead to one place from every directory. -/
def SameLocation (path other : Text) : Prop :=
  ∀ current, (∀ name ∈ current, Ordinary name) → location path current = location other current

variable {component : Text} {absolute : Bool} {components start : List Text}

theorem move_ordinary (h : Ordinary component) (stack : List Text) :
    move stack component = stack ++ [component] := by
  have hhere : component ≠ here := h.not_here
  have hparent : component ≠ parent := h.not_parent
  unfold move
  rw [if_neg hhere, if_neg hparent]

theorem move_parent (stack : List Text) : move stack parent = stack.dropLast := rfl

theorem foldl_move_concat (components : List Text) (component : Text) (stack : List Text) :
    (components ++ [component]).foldl move stack = move (components.foldl move stack) component := by
  rw [List.foldl_append]
  rfl

theorem foldl_move_ordinary {names : List Text} (h : ∀ name ∈ names, Ordinary name) :
    ∀ stack, names.foldl move stack = stack ++ names := by
  induction names with
  | nil => simp
  | cons name names ih =>
    intro stack
    rw [List.foldl_cons, move_ordinary (h name List.mem_cons_self),
      ih fun other hother => h other (List.mem_cons_of_mem _ hother)]
    simp

theorem foldl_move_parent (ups : Nat) : ∀ stack : List Text,
      (List.replicate ups parent).foldl move stack = stack.take (stack.length - ups) := by
  induction ups with
  | zero => simp
  | succ ups ih =>
    intro stack
    rw [List.replicate_succ, List.foldl_cons, move_parent, ih, List.dropLast_eq_take,
      List.take_take, List.length_take]
    congr 1
    omega

/-! ## Normal components -/

/-- Unresolved parents of a relative path, then names. -/
structure NormalComponents (absolute : Bool) (components : List Text) : Prop where
  split : ∃ ups names, components = List.replicate ups parent ++ names ∧
    (∀ name ∈ names, Ordinary name) ∧ (absolute = true → ups = 0)

theorem NormalComponents.nil (absolute : Bool) : NormalComponents absolute [] :=
  ⟨0, [], rfl, by simp, fun _ => rfl⟩

theorem NormalComponents.mem (h : NormalComponents absolute components)
    (hcomponent : component ∈ components) : component ≠ [] ∧ '/' ∉ component := by
  obtain ⟨ups, names, rfl, hnames, -⟩ := h.split
  rcases List.mem_append.mp hcomponent with hmem | hmem
  · rw [List.eq_of_mem_replicate hmem]
    exact ⟨by decide, by decide⟩
  · exact ⟨(hnames component hmem).nonempty, (hnames component hmem).unseparated⟩

theorem normalizedComponent_unresolved (ups : Nat) :
    normalizedComponent false (List.replicate ups parent) parent
      = List.replicate (ups + 1) parent := by
  unfold normalizedComponent
  rw [if_neg (by decide), if_pos rfl, List.replicate_succ']
  cases ups with
  | zero => rfl
  | succ ups =>
    have hlast : (List.replicate (ups + 1) parent).getLast? = some parent := by
      rw [List.replicate_succ', List.getLast?_concat]
    rw [hlast]
    exact if_pos rfl

theorem normalizedComponent_cancel (absolute : Bool) (components : List Text) {name : Text}
    (h : Ordinary name) :
    normalizedComponent absolute (components ++ [name]) parent = components := by
  unfold normalizedComponent
  rw [if_neg (by decide), if_pos rfl, List.getLast?_concat]
  simp only [h.not_parent, ↓reduceIte]
  rw [← List.dropLast_eq_take, List.dropLast_concat]

theorem normalizedComponent_parent_step (h : NormalComponents absolute components)
    (hstart : absolute = true → start = []) :
    NormalComponents absolute (normalizedComponent absolute components parent) ∧
      (normalizedComponent absolute components parent).foldl move start
        = (components.foldl move start).dropLast := by
  obtain ⟨ups, names, rfl, hnames, hups⟩ := h.split
  rcases List.eq_nil_or_concat names with rfl | ⟨names, name, rfl⟩
  · rw [List.append_nil]
    by_cases habsolute : absolute = true
    · rw [hups habsolute, hstart habsolute, habsolute]
      exact ⟨NormalComponents.nil true, rfl⟩
    · rw [Bool.not_eq_true] at habsolute
      subst habsolute
      rw [normalizedComponent_unresolved]
      refine ⟨⟨ups + 1, [], by simp, by simp, fun h => absurd h (by decide)⟩, ?_⟩
      rw [List.replicate_succ', foldl_move_concat, move_parent]
  · have hname : Ordinary name := hnames name (by simp)
    rw [List.concat_eq_append, ← List.append_assoc, normalizedComponent_cancel _ _ hname]
    refine ⟨⟨ups, names, rfl, fun other hother => hnames other (by simp [hother]), hups⟩, ?_⟩
    rw [foldl_move_concat, move_ordinary hname, List.dropLast_concat]

theorem normalizedComponent_step (h : NormalComponents absolute components) (hne : component ≠ [])
    (hseparated : '/' ∉ component) (hstart : absolute = true → start = []) :
    NormalComponents absolute (normalizedComponent absolute components component) ∧
      (normalizedComponent absolute components component).foldl move start
        = move (components.foldl move start) component := by
  by_cases hhere : component = here
  · have hkeep : normalizedComponent absolute components component = components := if_pos hhere
    rw [hkeep, move, if_pos hhere]
    exact ⟨h, rfl⟩
  by_cases hparent : component = parent
  · rw [hparent, move_parent]
    exact normalizedComponent_parent_step h hstart
  · obtain ⟨ups, names, rfl, hnames, hups⟩ := h.split
    have hordinary : Ordinary component := ⟨hne, hseparated, hhere, hparent⟩
    rw [normalizedComponent_ordinary hordinary, List.foldl_append, List.foldl_cons, List.foldl_nil]
    refine ⟨⟨ups, names ++ [component], by simp, ?_, hups⟩, rfl⟩
    intro name hname
    rcases List.mem_append.mp hname with hold | hlast
    · exact hnames name hold
    · rw [List.mem_singleton.mp hlast]
      exact hordinary

theorem foldl_normalizedComponent_step (hstart : absolute = true → start = []) {added : List Text}
    (hadded : ∀ piece ∈ added, piece ≠ [] ∧ '/' ∉ piece) :
    ∀ {components : List Text}, NormalComponents absolute components →
      NormalComponents absolute (added.foldl (normalizedComponent absolute) components) ∧
        (added.foldl (normalizedComponent absolute) components).foldl move start
          = added.foldl move (components.foldl move start) := by
  induction added with
  | nil => exact fun h => ⟨h, rfl⟩
  | cons piece added ih =>
    intro components h
    obtain ⟨hne, hseparated⟩ := hadded piece List.mem_cons_self
    obtain ⟨hform, hmove⟩ := normalizedComponent_step h hne hseparated hstart
    have hrest := ih (fun other hother => hadded other (List.mem_cons_of_mem _ hother)) hform
    rw [List.foldl_cons, List.foldl_cons, ← hmove]
    exact hrest

theorem foldl_normalizedComponent_normal (h : NormalComponents absolute components) :
    components.foldl (normalizedComponent absolute) [] = components := by
  obtain ⟨ups, names, rfl, hnames, hups⟩ := h.split
  have hparents : (List.replicate ups parent).foldl (normalizedComponent absolute) []
      = List.replicate ups parent := by
    cases absolute with
    | true => rw [hups rfl]; rfl
    | false =>
      clear h hups
      induction ups with
      | zero => rfl
      | succ ups ih =>
        rw [List.replicate_succ', List.foldl_append, ih, ← List.replicate_succ']
        exact normalizedComponent_unresolved ups
  rw [List.foldl_append, hparents, foldl_normalizedComponent hnames]

/-! ## Normal paths -/

theorem isSeparator_intercalate (h : ∀ component ∈ components, component ≠ [] ∧ '/' ∉ component) :
    isSeparator (List.intercalate ['/'] components) 0 = false := by
  cases components with
  | nil => rfl
  | cons first rest =>
    obtain ⟨hne, hseparated⟩ := h first List.mem_cons_self
    have hpos : 0 < first.length := List.length_pos_iff.mpr hne
    cases rest with
    | nil =>
      rw [List.intercalate_singleton]
      exact isSeparator_component hseparated 0
    | cons second rest =>
      rw [List.intercalate_cons_cons, List.append_assoc, isSeparator_left hpos]
      exact isSeparator_component hseparated 0

theorem pieces_finish (h : NormalComponents absolute components) :
    (pieces (finish absolute components)).foldl (normalizedComponent absolute) [] = components ∧
      isSeparator (finish absolute components) 0 = absolute := by
  have hpieces := pieces_intercalate fun _ hcomponent => h.mem hcomponent
  cases absolute with
  | true =>
    have hfinish : finish true components = render components := rfl
    rw [hfinish, render, pieces_cons_separator, hpieces]
    exact ⟨foldl_normalizedComponent_normal h, rfl⟩
  | false =>
    by_cases hempty : components = []
    · subst hempty
      exact ⟨rfl, rfl⟩
    · have hfinish : finish false components = List.intercalate ['/'] components := if_neg hempty
      rw [hfinish, hpieces]
      exact ⟨foldl_normalizedComponent_normal h, isSeparator_intercalate fun _ => h.mem⟩

/-- A normal path says where its components lead. -/
theorem location_finish (h : NormalComponents absolute components) (current : List Text) :
    location (finish absolute components) current
      = components.foldl move (if absolute then [] else current) := by
  have hpieces := pieces_intercalate fun _ hcomponent => h.mem hcomponent
  unfold location
  rw [(pieces_finish h).2]
  cases absolute with
  | true =>
    have hfinish : finish true components = render components := rfl
    rw [hfinish, render, pieces_cons_separator, hpieces]
  | false =>
    by_cases hempty : components = []
    · subst hempty
      rfl
    · have hfinish : finish false components = List.intercalate ['/'] components := if_neg hempty
      rw [hfinish, hpieces]

/-- The components that a path leaves. -/
def normalComponents (path : Text) : List Text :=
  (pieces path).foldl (normalizedComponent (isSeparator path 0)) []

theorem normalize_eq_finish (path : Text) :
    normalize path = finish (isSeparator path 0) (normalComponents path) :=
  normalize_eq path

theorem normalComponents_step (path : Text) (current : List Text) :
    NormalComponents (isSeparator path 0) (normalComponents path) ∧
      (normalComponents path).foldl move (if isSeparator path 0 then [] else current)
        = location path current := by
  refine foldl_normalizedComponent_step (fun h => if_pos h) (fun _ => ?_)
    (NormalComponents.nil (isSeparator path 0))
  exact mem_piecesFrom (by simp)

theorem normalComponents_normal (path : Text) :
    NormalComponents (isSeparator path 0) (normalComponents path) :=
  (normalComponents_step path []).1

theorem location_normalize (path : Text) (current : List Text) :
    location (normalize path) current = location path current := by
  rw [normalize_eq_finish, location_finish (normalComponents_normal path)]
  exact (normalComponents_step path current).2

theorem normalize_finish (h : NormalComponents absolute components) :
    normalize (finish absolute components) = finish absolute components := by
  obtain ⟨hcomponents, habsolute⟩ := pieces_finish h
  rw [normalize_eq, habsolute, hcomponents]

/-! ## One path for a location -/

theorem foldl_move_normal {ups : Nat} {names : List Text} (h : ∀ name ∈ names, Ordinary name)
    (stack : List Text) :
    (List.replicate ups parent ++ names).foldl move stack
      = stack.take (stack.length - ups) ++ names := by
  rw [List.foldl_append, foldl_move_parent, foldl_move_ordinary h]

theorem ordinary_replicate (depth : Nat) :
    ∀ name ∈ List.replicate depth (['a'] : Text), Ordinary name := by
  intro name hname
  rw [List.eq_of_mem_replicate hname]
  exact ⟨by decide, by decide, by decide, by decide⟩

/-- The root tells the names of a normal path, and a deep directory its parents and whether
it is absolute. -/
theorem NormalComponents.unique {absolute' : Bool} {components' : List Text}
    (h : NormalComponents absolute components) (h' : NormalComponents absolute' components')
    (hlocation : ∀ current, (∀ name ∈ current, Ordinary name) →
      components.foldl move (if absolute then [] else current) =
      components'.foldl move (if absolute' then [] else current)) :
    absolute = absolute' ∧ components = components' := by
  obtain ⟨ups, names, rfl, hnames, hups⟩ := h.split
  obtain ⟨ups', names', rfl, hnames', hups'⟩ := h'.split
  have hroot := hlocation [] (by simp)
  have hdeep := hlocation (List.replicate (ups + ups' + 1) ['a']) (ordinary_replicate _)
  simp only [foldl_move_normal hnames, foldl_move_normal hnames'] at hroot hdeep
  have hsame : names = names' := by simpa using hroot
  subst hsame
  have hlength := congrArg List.length (List.append_cancel_right hdeep)
  cases absolute with
  | true =>
    cases absolute' with
    | true => rw [hups rfl, hups' rfl]; exact ⟨rfl, rfl⟩
    | false => simp at hlength; omega
  | false =>
    cases absolute' with
    | true => simp at hlength; omega
    | false =>
      have heq : ups = ups' := by
        simp at hlength
        omega
      rw [heq]
      exact ⟨rfl, rfl⟩

/-- A relative path in normal form: parents, then names, or '.' for neither. -/
def NormalRelative (path : Text) : Prop :=
  path = here ∨ ∃ ups names, (∀ name ∈ names, Ordinary name) ∧
    List.replicate ups parent ++ names ≠ [] ∧
    path = List.intercalate ['/'] (List.replicate ups parent ++ names)

/-- Normalization leaves the component '.' in the path of no components. -/
theorem normalize_keeps_here : ¬ ∀ path, ∀ component ∈ pieces (normalize path),
    component ≠ [] ∧ component ≠ here := by
  intro h
  exact (h [] here (by decide)).2 rfl

theorem normalize_form (path : Text) :
    if isSeparator path 0 then NormalAbsolute (normalize path) else NormalRelative (normalize path) := by
  by_cases habsolute : isSeparator path 0 = true
  · rw [if_pos habsolute]
    exact normalAbsolute_normalize habsolute
  · rw [if_neg habsolute, normalize_eq_finish]
    rw [Bool.not_eq_true] at habsolute
    obtain ⟨ups, names, hsplit, hnames, -⟩ := (normalComponents_normal path).split
    rw [habsolute, hsplit]
    by_cases hempty : List.replicate ups parent ++ names = []
    · rw [hempty]
      exact .inl rfl
    · exact .inr ⟨ups, names, hnames, hempty, if_neg hempty⟩

/-- **Canonical.**  Normalization is idempotent, gives a path of normal form, keeps the location,
and gives one path to all paths of one location. -/
theorem normalize_canonical (path : Text) : normalize (normalize path) = normalize path ∧
    (if isSeparator path 0 then NormalAbsolute (normalize path)
      else NormalRelative (normalize path)) ∧
    (∀ current, location (normalize path) current = location path current) ∧
    ∀ other, SameLocation path other ↔ normalize path = normalize other := by
  have hidempotent : normalize (normalize path) = normalize path := by
    rw [normalize_eq_finish path]
    exact normalize_finish (normalComponents_normal path)
  refine ⟨hidempotent, normalize_form path, location_normalize path, fun other => ?_⟩
  constructor
  · intro hsame
    have hcomponents : ∀ current, (∀ name ∈ current, Ordinary name) →
        (normalComponents path).foldl move (if isSeparator path 0 then [] else current)
          = (normalComponents other).foldl move (if isSeparator other 0 then [] else current) := by
      intro current hcurrent
      rw [(normalComponents_step path current).2, (normalComponents_step other current).2]
      exact hsame current hcurrent
    obtain ⟨habsolute, heq⟩ := (normalComponents_normal path).unique
      (normalComponents_normal other) hcomponents
    rw [normalize_eq_finish, normalize_eq_finish, habsolute, heq]
  · intro hnormal current _
    rw [← location_normalize path, hnormal, location_normalize]

end Blorp.Library.Path
