import Mathlib.Logic.Relation
import Mathlib.Logic.Function.Basic
import Mathlib.Order.WellFounded

/-!
# Depth-first search with enter and leave items

A search keeps a mark on each node and a stack of items: to enter a node, or to leave one
whose children have been pushed above it.  `edge child parent` says that the parent has
the child.
-/

namespace DepthFirst

variable {α : Type}

inductive Mark where
  | unvisited
  | visiting
  | complete
  deriving DecidableEq

inductive Item (α : Type) where
  | enter (node : α)
  | leave (node : α)

/-- The nodes to be left, topmost first: each item stands right above its parent's. -/
inductive OnPath (edge : α → α → Prop) : List (Item α) → List α → Prop
  | nil : OnPath edge [] []
  | enter {node : α} {pending : List (Item α)} {path : List α} :
      (∀ parent ∈ path.head?, edge node parent) → OnPath edge pending path →
      OnPath edge (.enter node :: pending) path
  | leave {node : α} {pending : List (Item α)} {path : List α} :
      (∀ parent ∈ path.head?, edge node parent) → OnPath edge pending path →
      OnPath edge (.leave node :: pending) (node :: path)

/-- Where a node is to be left its children are known or stand above it, and at the bottom
the roots are. -/
def Covered (edge : α → α → Prop) (root : α → Prop) : (α → Prop) → List (Item α) → Prop
  | known, [] => ∀ node, root node → known node
  | known, .enter node :: pending =>
      Covered edge root (fun other => known other ∨ other = node) pending
  | known, .leave node :: pending =>
      (∀ child, edge child node → known child) ∧
        Covered edge root (fun other => known other ∨ other = node) pending

section

variable {edge : α → α → Prop} {root : α → Prop}

theorem Covered.mono : ∀ {pending : List (Item α)} {known more : α → Prop},
    (∀ node, known node → more node) → Covered edge root known pending →
      Covered edge root more pending := by
  intro pending
  induction pending with
  | nil => exact fun hmore h node hroot => hmore node (h node hroot)
  | cons item pending ih =>
    intro known more hmore h
    cases item with
    | enter node => exact ih (fun other => Or.imp_left (hmore other)) h
    | leave node =>
      exact ⟨fun child hchild => hmore child (h.1 child hchild),
        ih (fun other => Or.imp_left (hmore other)) h.2⟩

theorem Covered.enters {pending : List (Item α)} : ∀ (nodes : List α) {known : α → Prop},
    Covered edge root (fun other => known other ∨ other ∈ nodes) pending →
      Covered edge root known (nodes.map .enter ++ pending) := by
  intro nodes
  induction nodes with
  | nil =>
    intro known h
    exact h.mono fun node hnode => hnode.resolve_right (by simp)
  | cons node nodes ih =>
    intro known h
    refine ih (h.mono fun other hother => ?_)
    rw [List.mem_cons, ← or_assoc] at hother
    exact hother

theorem OnPath.enters {pending : List (Item α)} {path : List α} (h : OnPath edge pending path) :
    ∀ (nodes : List α), (∀ node ∈ nodes, ∀ parent ∈ path.head?, edge node parent) →
      OnPath edge (nodes.map .enter ++ pending) path := by
  intro nodes
  induction nodes with
  | nil => exact fun _ => h
  | cons node nodes ih =>
    intro hnodes
    obtain ⟨hfirst, hrest⟩ := List.forall_mem_cons.mp hnodes
    exact .enter hfirst (ih hrest)

theorem OnPath.descends {pending : List (Item α)} {path : List α} (h : OnPath edge pending path) :
    path.Pairwise (Relation.TransGen edge) := by
  suffices hboth : path.Pairwise (Relation.TransGen edge) ∧
      ∀ node, (∀ parent ∈ path.head?, edge node parent) →
        ∀ other ∈ path, Relation.TransGen edge node other from hboth.1
  induction h with
  | nil => simp
  | enter _ _ ih => exact ih
  | @leave first pending path hparent _ ih =>
    refine ⟨List.pairwise_cons.mpr ⟨ih.2 first hparent, ih.1⟩, fun node hnode other hother => ?_⟩
    have hstep : Relation.TransGen edge node first := .single (hnode first rfl)
    rcases List.mem_cons.mp hother with rfl | hmem
    · exact hstep
    · exact hstep.trans (ih.2 first hparent other hmem)

end

/-- What a search knows between two items. -/
structure Sound (edge : α → α → Prop) (root : α → Prop) (mark : α → Mark)
    (pending : List (Item α)) (path : List α) : Prop where
  on_path : OnPath edge pending path
  nodup : path.Nodup
  visiting : ∀ node, mark node = .visiting ↔ node ∈ path
  covered : Covered edge root (fun node => mark node = .complete) pending
  accessible : ∀ node, mark node = .complete → Acc edge node

section

variable {edge : α → α → Prop} {root : α → Prop} {mark : α → Mark} {node : α}
  {pending : List (Item α)} {path : List α}

theorem sound_start {roots : List α} (hroots : ∀ node, root node → node ∈ roots) :
    Sound edge root (fun _ => .unvisited) (roots.map .enter) [] := by
  refine ⟨?_, List.nodup_nil, by simp, ?_, by simp⟩
  · rw [← List.append_nil (roots.map Item.enter)]
    exact OnPath.nil.enters roots (by simp)
  · rw [← List.append_nil (roots.map Item.enter)]
    exact Covered.enters roots fun node hroot => .inr (hroots node hroot)

theorem Sound.skip (h : Sound edge root mark (.enter node :: pending) path)
    (hmark : mark node = .complete) : Sound edge root mark pending path := by
  cases h.on_path with
  | enter _ hpath =>
    refine ⟨hpath, h.nodup, h.visiting, h.covered.mono fun other hother => ?_, h.accessible⟩
    rcases hother with hknown | rfl
    · exact hknown
    · exact hmark

theorem Sound.cycle (h : Sound edge root mark (.enter node :: pending) path)
    (hmark : mark node = .visiting) : Relation.TransGen edge node node := by
  have hmem := (h.visiting node).mp hmark
  cases h.on_path with
  | enter hparent hpath =>
    cases path with
    | nil => cases hmem
    | cons first rest =>
      have hstep : Relation.TransGen edge node first := .single (hparent first rfl)
      rcases List.mem_cons.mp hmem with rfl | hrest
      · exact hstep
      · exact hstep.trans ((List.pairwise_cons.mp hpath.descends).1 node hrest)

variable [DecidableEq α]

theorem Sound.enter (h : Sound edge root mark (.enter node :: pending) path)
    (hmark : mark node = .unvisited) {children : List α}
    (hchildren : ∀ child, edge child node ↔ child ∈ children) :
    Sound edge root (Function.update mark node .visiting)
      (children.map .enter ++ .leave node :: pending) (node :: path) := by
  have hfresh : node ∉ path := by
    intro hmem
    rw [(h.visiting node).mpr hmem] at hmark
    cases hmark
  have hkept : ∀ other, mark other = .complete →
      Function.update mark node .visiting other = .complete := by
    intro other hother
    have hne : other ≠ node := by
      rintro rfl
      rw [hmark] at hother
      cases hother
    rwa [Function.update_of_ne hne]
  cases h.on_path with
  | enter hparent hpath =>
    refine ⟨?_, List.nodup_cons.mpr ⟨hfresh, h.nodup⟩, fun other => ?_, ?_, fun other hother => ?_⟩
    · refine (OnPath.leave hparent hpath).enters children fun child hchild parent hhead => ?_
      obtain rfl : node = parent := by simpa using hhead
      exact (hchildren child).mpr hchild
    · by_cases heq : other = node
      · subst heq
        simp
      · rw [Function.update_of_ne heq, h.visiting other, List.mem_cons]
        exact ⟨.inr, fun hor => hor.resolve_left heq⟩
    · refine Covered.enters children ⟨fun child hchild => .inr ((hchildren child).mp hchild), ?_⟩
      refine h.covered.mono fun other hother => ?_
      rcases hother with hknown | rfl
      · exact .inl (.inl (hkept other hknown))
      · exact .inr rfl
    · refine h.accessible other ?_
      by_cases heq : other = node
      · subst heq
        simp at hother
      · rwa [Function.update_of_ne heq] at hother

theorem Sound.leave (h : Sound edge root mark (.leave node :: pending) path) :
    Sound edge root (Function.update mark node .complete) pending path.tail := by
  obtain ⟨hchildren, hbelow⟩ := h.covered
  have haccessible : Acc edge node :=
    Acc.intro node fun child hchild => h.accessible child (hchildren child hchild)
  cases h.on_path with
  | @leave _ _ path hparent hpath =>
    obtain ⟨hfresh, hnodup⟩ := List.nodup_cons.mp h.nodup
    refine ⟨hpath, hnodup, fun other => ?_, hbelow.mono fun other hother => ?_,
      fun other hother => ?_⟩
    · by_cases heq : other = node
      · subst heq
        simpa using hfresh
      · rw [Function.update_of_ne heq, h.visiting other, List.mem_cons, List.tail_cons]
        exact ⟨fun hor => hor.resolve_left heq, .inr⟩
    · by_cases heq : other = node
      · subst heq
        exact Function.update_self ..
      · rw [Function.update_of_ne heq]
        exact hother.resolve_right heq
    · by_cases heq : other = node
      · subst heq
        exact haccessible
      · rw [Function.update_of_ne heq] at hother
        exact h.accessible other hother

omit [DecidableEq α] in
theorem Sound.roots_complete (h : Sound edge root mark [] path) :
    ∀ node, root node → mark node = .complete :=
  h.covered

end

/-! ## The order in which nodes are left -/

/-- The nodes left so far, each after its children. -/
structure Ordered (edge : α → α → Prop) (mark : α → Mark) (order : List α) : Prop where
  nodup : order.Nodup
  complete : ∀ node, node ∈ order ↔ mark node = .complete
  children_first : ∀ before node after, order = before ++ node :: after →
    ∀ child, edge child node → child ∈ before

section

variable {edge : α → α → Prop} {root : α → Prop} {mark : α → Mark} {node : α}
  {pending : List (Item α)} {path order : List α}

theorem ordered_start : Ordered edge (fun _ => .unvisited) [] :=
  ⟨List.nodup_nil, by simp, by simp⟩

variable [DecidableEq α]

theorem Ordered.enter (h : Ordered edge mark order) (hmark : mark node = .unvisited) :
    Ordered edge (Function.update mark node .visiting) order := by
  refine ⟨h.nodup, fun other => ?_, h.children_first⟩
  rw [h.complete other]
  by_cases heq : other = node
  · subst heq
    simp [hmark]
  · rw [Function.update_of_ne heq]

theorem Ordered.leave (h : Ordered edge mark order)
    (hsound : Sound edge root mark (.leave node :: pending) path) :
    Ordered edge (Function.update mark node .complete) (order ++ [node]) := by
  have hchildren : ∀ child, edge child node → child ∈ order :=
    fun child hchild => (h.complete child).mpr (hsound.covered.1 child hchild)
  have hvisiting : mark node = .visiting := by
    rw [hsound.visiting]
    cases hsound.on_path with
    | leave _ _ => exact List.mem_cons_self
  have hfresh : node ∉ order := by
    rw [h.complete, hvisiting]
    simp
  refine ⟨?_, fun other => ?_, fun before other after hsplit child hchild => ?_⟩
  · rw [List.nodup_append]
    refine ⟨h.nodup, by simp, fun other hother last hlast => ?_⟩
    rw [List.mem_singleton] at hlast
    rintro rfl
    exact hfresh (hlast ▸ hother)
  · rw [List.mem_append, List.mem_singleton, h.complete]
    by_cases heq : other = node
    · subst heq
      simp
    · rw [Function.update_of_ne heq]
      exact ⟨fun hor => hor.resolve_right heq, .inl⟩
  · rcases List.eq_nil_or_concat after with rfl | ⟨init, last, rfl⟩
    · obtain ⟨rfl, hlast⟩ := List.append_inj' hsplit rfl
      cases hlast
      exact hchildren child hchild
    · rw [List.concat_eq_append, ← List.cons_append, ← List.append_assoc] at hsplit
      obtain ⟨hinit, -⟩ := List.append_inj' hsplit rfl
      exact h.children_first before other init hinit child hchild

end

/-! ## Values along a well-founded relation -/

theorem exists_unique_values {β : Type} {edge : α → α → Prop} (hwell : WellFounded edge)
    (value : (α → β) → α → β) (hchildren : ∀ first second node,
      (∀ child, edge child node → first child = second child) →
        value first node = value second node) [Nonempty β] :
    ∃! values : α → β, ∀ node, values node = value values node := by
  classical
  obtain ⟨default⟩ := ‹Nonempty β›
  let values : α → β := hwell.fix fun node below =>
    value (fun child => if h : edge child node then below child h else default) node
  refine ⟨values, fun node => ?_, fun other hother => ?_⟩
  · show hwell.fix _ node = _
    rw [hwell.fix_eq]
    refine hchildren _ _ node fun child hchild => ?_
    rw [dif_pos hchild]
  · funext node
    induction node using hwell.induction with
    | _ node ih =>
      have hsame : values node = value values node := by
        show hwell.fix _ node = _
        rw [hwell.fix_eq]
        refine hchildren _ _ node fun child hchild => ?_
        rw [dif_pos hchild]
      rw [hother node, hsame]
      exact hchildren _ _ node ih

end DepthFirst
