import Blorp.Load.Load

/-!
# Import paths

The path of an import is built without normalizing: `dirname` climbs, `join` descends
and the suffix is appended.  For a normal importer it is the normal form of the path as
written, joined to the importer's directory or to the library root (importPath_eq).
Climbing above the root stays at the root on both sides.
-/

namespace Blorp.Load

open Check (NameId ImportOrigin)
open Library (Text)
open Library.Path

/-! ## Written imports -/

/-- An import path as it is written: where it starts and its parts. -/
structure WrittenImport where
  origin : ImportOrigin
  parts : List Text

/-- A name as the lexer reads one. -/
def IsIdentifier (part : Text) : Prop :=
  part ≠ [] ∧ ∀ char ∈ part, char.isAlphanum = true ∨ char = '_'

/-- What the parser admits: at least one part, all of them names. -/
structure WrittenImport.Admitted (written : WrittenImport) : Prop where
  nonempty : written.parts ≠ []
  identifiers : ∀ part ∈ written.parts, IsIdentifier part

/-- A parsed import spells a written one in a name table. -/
structure Spells (names : NameTable) (request : ParsedImport) (written : WrittenImport) : Prop where
  origin : request.path.origin = written.origin
  parts : request.path.parts.map (nameSpelling names) = written.parts.map some

/-- The text of the file that an import names: `./a/b.brp`, `../../a.brp` or `a/b.brp`. -/
def WrittenImport.text (written : WrittenImport) : Text :=
  (match written.origin with
    | .libraryImport => []
    | .relativeImport parents =>
        if parents ≤ 0 then ['.', '/']
        else (List.replicate parents.toNat ['.', '.', '/']).flatten) ++
    List.intercalate ['/'] written.parts ++ ".brp".toList

/-- The file that an import of a module denotes, in normal form. -/
def denoted (libraryRoot importer : Text) (written : WrittenImport) : Text :=
  match written.origin with
  | .libraryImport => normalize (join libraryRoot written.text)
  | .relativeImport _ => normalize (join (dirname importer) written.text)

/-! ## Identifiers are ordinary components -/

variable {part : Text} {written : WrittenImport} {components : List Text}

theorem IsIdentifier.not_mem (h : IsIdentifier part) {char : Char} (hchar : char.isAlphanum = false)
    (hne : char ≠ '_') : char ∉ part := by
  intro hmem
  rcases h.2 char hmem with halnum | hunderscore
  · rw [hchar] at halnum
    cases halnum
  · exact hne hunderscore

theorem IsIdentifier.ordinary (h : IsIdentifier part) : Ordinary part := by
  have hdot : '.' ∉ part := h.not_mem (by decide) (by decide)
  refine ⟨h.1, h.not_mem (by decide) (by decide), ?_, ?_⟩
  all_goals
    rintro rfl
    exact hdot (by simp)

theorem IsIdentifier.file (h : IsIdentifier part) : Ordinary (part ++ ".brp".toList) := by
  have hslash := h.ordinary.unseparated
  refine ⟨by simp, by simp [hslash], ?_, ?_⟩
  all_goals
    intro heq
    have := congrArg List.length heq
    simp at this

def fileParts (parts : List Text) : List Text :=
  parts.dropLast ++ [parts.getLast?.getD [] ++ ".brp".toList]

theorem fileParts_ordinary (h : written.Admitted) :
    ∀ component ∈ fileParts written.parts, Ordinary component := by
  intro component hcomponent
  unfold fileParts at hcomponent
  rcases List.mem_append.mp hcomponent with hinit | hlast
  · exact (h.identifiers component ((List.dropLast_sublist _).subset hinit)).ordinary
  · obtain rfl := List.mem_singleton.mp hlast
    rw [List.getLast?_eq_some_getLast h.nonempty, Option.getD_some]
    exact (h.identifiers _ (List.getLast_mem h.nonempty)).file

theorem render_suffix (hne : components ≠ []) (suffix : Text) : render components ++ suffix
      = render (components.dropLast ++ [components.getLast?.getD [] ++ suffix]) := by
  induction components using List.reverseRecOn with
  | nil => exact absurd rfl hne
  | append_singleton init last _ =>
    rw [List.dropLast_concat, List.getLast?_concat, Option.getD_some]
    by_cases hinit : init = []
    · subst hinit
      rw [List.nil_append, List.nil_append, render_singleton, render_singleton, List.cons_append]
    · rw [render_concat hinit, render_concat hinit]
      simp

/-! ## The built path -/

theorem joinParts_eq {names : NameTable}
    (hcomponents : ∀ component ∈ components, Ordinary component) :
    ∀ {parts : List NameId} {spelled : List Text},
      parts.map (nameSpelling names) = spelled.map some →
      (∀ part ∈ spelled, IsIdentifier part) →
      joinParts names (render components) parts = .ok (render (components ++ spelled)) := by
  intro parts
  induction parts generalizing components with
  | nil =>
    intro spelled hspells _
    have hnil : spelled = [] := by simpa using hspells.symm
    subst hnil
    rw [List.append_nil]
    rfl
  | cons part parts ih =>
    intro spelled hspells hidentifiers
    cases spelled with
    | nil => simp at hspells
    | cons spelling spelled =>
      obtain ⟨hpart, hparts⟩ : nameSpelling names part = some spelling ∧
          parts.map (nameSpelling names) = spelled.map some := by simpa using hspells
      have hspelling := hidentifiers spelling List.mem_cons_self
      unfold joinParts
      rw [hpart]
      show joinParts names (join (render components) spelling) parts = _
      rw [join_render hcomponents hspelling.ordinary.unseparated,
        ih (fun component hcomponent => ?_) hparts fun other hother => hidentifiers other (List.mem_cons_of_mem _ hother)]
      · simp
      · rcases List.mem_append.mp hcomponent with hold | hlast
        · exact hcomponents component hold
        · obtain rfl := List.mem_singleton.mp hlast
          exact hspelling.ordinary

section

variable (hcomponents : ∀ component ∈ components, Ordinary component)

include hcomponents

theorem ancestor_render (parents : Int) :
    ancestor (render components) parents = render (List.dropLast^[parents.toNat] components) ∧
      ∀ component ∈ List.dropLast^[parents.toNat] components, Ordinary component := by
  unfold ancestor
  induction parents.toNat with
  | zero => exact ⟨rfl, hcomponents⟩
  | succ count ih =>
    rw [Function.iterate_succ_apply', Function.iterate_succ_apply', ih.1, dirname_render ih.2]
    exact ⟨rfl, Ordinary.dropLast ih.2⟩

/-! ## The denoted path -/

theorem pieces_join {child : Text} (hchild : isSeparator child 0 = false) :
    pieces (join (render components) child) = components ++ pieces child ∧
      isSeparator (join (render components) child) 0 = true := by
  unfold join
  rw [hchild, if_neg (by decide), if_neg (by simp [render])]
  by_cases hempty : components = []
  · subst hempty
    exact ⟨pieces_cons_separator child, rfl⟩
  · rw [isSeparator_last hempty hcomponents, if_neg (by decide), List.append_assoc,
      List.singleton_append, pieces_append, pieces_render hcomponents]
    exact ⟨rfl, rfl⟩

theorem normalize_join {child : Text} (hchild : isSeparator child 0 = false) :
    normalize (join (render components) child)
      = render ((pieces child).foldl (normalizedComponent true) components) := by
  obtain ⟨hpieces, habsolute⟩ := pieces_join hcomponents hchild
  rw [normalize_absolute habsolute, hpieces, List.foldl_append,
    foldl_normalizedComponent hcomponents, List.nil_append]

end

theorem pieces_parts (h : written.Admitted) :
    pieces (List.intercalate ['/'] written.parts ++ ".brp".toList) = fileParts written.parts := by
  have hrender := render_suffix h.nonempty ".brp".toList
  unfold render at hrender
  rw [List.cons_append] at hrender
  rw [← pieces_cons_separator, hrender]
  exact pieces_render (fileParts_ordinary h)

theorem isSeparator_parts (h : written.Admitted) :
    isSeparator (List.intercalate ['/'] written.parts ++ ".brp".toList) 0 = false := by
  obtain ⟨first, rest, hparts⟩ := List.exists_cons_of_ne_nil h.nonempty
  have hfirst := (h.identifiers first (by simp [hparts])).ordinary
  obtain ⟨char, tail, rfl⟩ := List.exists_cons_of_ne_nil hfirst.nonempty
  have hchar : char ≠ '/' := by
    rintro rfl
    exact hfirst.unseparated (by simp)
  rw [hparts]
  cases rest with
  | nil => simp [isSeparator, List.intercalate, hchar]
  | cons second rest => simp [isSeparator, List.intercalate_cons_cons, hchar]

theorem pieces_parents (count : Nat) (rest : Text) :
    pieces ((List.replicate count ['.', '.', '/']).flatten ++ rest)
      = List.replicate count ['.', '.'] ++ pieces rest := by
  induction count with
  | zero => rfl
  | succ count ih =>
    have hfirst := pieces_append ['.', '.']
      ((List.replicate count ['.', '.', '/']).flatten ++ rest)
    rw [ih] at hfirst
    rw [List.replicate_succ, List.flatten_cons, List.append_assoc, List.replicate_succ]
    exact hfirst

theorem foldl_parents (hcomponents : ∀ component ∈ components, Ordinary component) (count : Nat) :
    (List.replicate count ['.', '.']).foldl (normalizedComponent true) components
      = List.dropLast^[count] components := by
  induction count generalizing components with
  | zero => rfl
  | succ count ih =>
    rw [List.replicate_succ, List.foldl_cons, normalizedComponent_parent hcomponents,
      Function.iterate_succ_apply]
    exact ih (Ordinary.dropLast hcomponents)

/-- **An import path is built in normal form**: it is the normal form of the path as
written, for every normal importer and library root. -/
theorem importPath_eq {importer : Text} {layout : LibraryLayout} {names : NameTable}
    {request : ParsedImport} (himporter : NormalAbsolute importer)
    (hlibrary : NormalAbsolute layout.root) (hspells : Spells names request written)
    (hadmitted : written.Admitted) :
    importPath importer request names layout = .ok (denoted layout.root importer written) := by
  have hbuilt : ∀ {components : List Text}, (∀ component ∈ components, Ordinary component) →
      (do
        let directory ← joinParts names (render components) request.path.parts
        .ok (directory ++ ".brp".toList) : Except Diagnostic Text)
        = .ok (render (components ++ fileParts written.parts)) := by
    intro components hcomponents
    have hne : components ++ written.parts ≠ [] := by simp [hadmitted.nonempty]
    rw [joinParts_eq hcomponents hspells.parts hadmitted.identifiers]
    show Except.ok _ = _
    rw [render_suffix hne, List.dropLast_append_of_ne_nil hadmitted.nonempty,
      List.getLast?_append_of_ne_nil _ hadmitted.nonempty, List.append_assoc]
    rfl
  have hfile := fileParts_ordinary hadmitted
  unfold importPath denoted
  rw [hspells.origin]
  cases horigin : written.origin with
  | libraryImport =>
    obtain ⟨components, hcomponents, hroot⟩ := hlibrary
    have htext : written.text = List.intercalate ['/'] written.parts ++ ".brp".toList := by
      unfold WrittenImport.text
      rw [horigin, List.nil_append]
    simp only [hroot]
    rw [hbuilt hcomponents, htext, normalize_join hcomponents (isSeparator_parts hadmitted),
      pieces_parts hadmitted, foldl_normalizedComponent hfile]
  | relativeImport parents =>
    obtain ⟨components, hcomponents, himporter⟩ := himporter
    have hparent := Ordinary.dropLast hcomponents
    obtain ⟨hancestor, hordinary⟩ := ancestor_render hparent parents
    simp only [himporter, dirname_render hcomponents, hancestor]
    rw [hbuilt hordinary]
    by_cases hpositive : parents ≤ 0
    · have htext : written.text
          = ['.'] ++ '/' :: (List.intercalate ['/'] written.parts ++ ".brp".toList) := by
        unfold WrittenImport.text
        rw [horigin]
        simp [hpositive]
      have hcount : parents.toNat = 0 := by omega
      rw [htext, normalize_join hparent rfl, pieces_append, pieces_parts hadmitted,
        List.foldl_append, foldl_normalizedComponent hfile, hcount]
      rfl
    · have htext : written.text = (List.replicate parents.toNat ['.', '.', '/']).flatten ++
          (List.intercalate ['/'] written.parts ++ ".brp".toList) := by
        unfold WrittenImport.text
        rw [horigin]
        simp [hpositive]
      obtain ⟨count, hcount⟩ : ∃ count, parents.toNat = count + 1 := ⟨parents.toNat - 1, by omega⟩
      have hstart : isSeparator written.text 0 = false := by
        rw [htext, hcount]
        rfl
      rw [normalize_join hparent hstart, htext, pieces_parents, pieces_parts hadmitted,
        List.foldl_append, foldl_parents hparent, foldl_normalizedComponent hfile]

theorem normalAbsolute_denoted {importer libraryRoot : Text} (himporter : NormalAbsolute importer)
    (hlibrary : NormalAbsolute libraryRoot) (hadmitted : written.Admitted) :
    NormalAbsolute (denoted libraryRoot importer written) := by
  have hchild : isSeparator written.text 0 = false := by
    unfold WrittenImport.text
    cases written.origin with
    | libraryImport =>
      rw [List.nil_append]
      exact isSeparator_parts hadmitted
    | relativeImport parents =>
      by_cases hpositive : parents ≤ 0
      · simp only [hpositive, ↓reduceIte]
        rfl
      · obtain ⟨count, hcount⟩ : ∃ count, parents.toNat = count + 1 :=
          ⟨parents.toNat - 1, by omega⟩
        simp only [hpositive, ↓reduceIte, hcount]
        rfl
  have habsolute : ∀ {components : List Text}, (∀ component ∈ components, Ordinary component) →
      isSeparator (join (render components) written.text) 0 = true :=
    fun hcomponents => (pieces_join hcomponents hchild).2
  unfold denoted
  cases written.origin with
  | libraryImport =>
    obtain ⟨components, hcomponents, rfl⟩ := hlibrary
    exact normalAbsolute_normalize (habsolute hcomponents)
  | relativeImport parents =>
    obtain ⟨components, hcomponents, rfl⟩ := himporter
    rw [dirname_render hcomponents]
    exact normalAbsolute_normalize (habsolute (Ordinary.dropLast hcomponents))

end Blorp.Load
