import Blorp.Namespace.Nominals

/-!
# Sealed programs

What assembly promises of the program it seals: modules are numbered by position, every
kind's rows are numbered by position and grouped by module in module order, and the
dependency order lists each module once, after the modules it imports and, for a user
module, after the prelude.
-/

namespace Blorp.Namespace

open Check (ModuleId WrittenName Entity)
open Load (ParsedModuleRow)

/-- Rows in module order, from module `least` on. -/
structure Grouped {ρ : Type} (moduleOf : ρ → ModuleId) (least : ModuleId) (rows : List ρ) :
    Prop where
  ordered : rows.Pairwise fun first second => moduleOf first ≤ moduleOf second
  from_least : ∀ row ∈ rows, moduleOf row ≥ least

theorem grouped_nil {ρ : Type} {moduleOf : ρ → ModuleId} {least : ModuleId} :
    Grouped moduleOf least [] := ⟨.nil, by simp⟩

/-- Each row's number is its position. -/
def Numbered {ρ : Type} (idOf : ρ → Nat) (rows : List ρ) : Prop :=
  rows.map idOf = List.range rows.length

namespace Grouped

variable {ρ : Type} {moduleOf : ρ → ModuleId} {least : ModuleId} {row : ρ} {rows : List ρ}

theorem tail (h : Grouped moduleOf least (row :: rows)) : Grouped moduleOf least rows :=
  ⟨(List.pairwise_cons.mp h.ordered).2, fun other hother =>
    h.from_least other (List.mem_cons_of_mem _ hother)⟩

theorem past (h : Grouped moduleOf least rows)
    (hhead : ∀ row, rows.head? = some row → moduleOf row ≠ least) :
    Grouped moduleOf (least + 1) rows := by
  refine ⟨h.ordered, ?_⟩
  cases rows with
  | nil => simp
  | cons first rest =>
    have hfirst : moduleOf first ≥ least + 1 := by
      have hge := h.from_least first List.mem_cons_self
      have hne := hhead first rfl
      exact Nat.lt_of_le_of_ne hge (Ne.symm hne)
    intro other hother
    rcases List.mem_cons.mp hother with rfl | hrest
    · exact hfirst
    · have hle := (List.pairwise_cons.mp h.ordered).1 other hrest
      exact Nat.le_trans hfirst hle

theorem not_mem (h : Grouped moduleOf (least + 1) rows) : ∀ row ∈ rows, moduleOf row ≠ least := by
  intro row hrow heq
  have hge := h.from_least row hrow
  rw [heq] at hge
  exact Nat.not_succ_le_self _ hge

end Grouped

/-! ## Reading a module's rows -/

/-- Every cursor stands before module `least`. -/
structure CursorsGrouped (least : ModuleId) (rows : Cursors) : Prop where
  functions : Grouped FunctionRow.module least rows.functions
  traits : Grouped TraitRow.module least rows.traits
  records : Grouped RecordRow.module least rows.records
  unions : Grouped UnionRow.module least rows.unions
  opaques : Grouped OpaqueRow.module least rows.opaques
  constants : Grouped ConstantRow.module least rows.constants

variable {inventory : DeclarationInventory} {module : ModuleId} {rows : Cursors}

section

variable {entries : List Entry} {rest : Cursors} (h : Takes inventory module rows entries rest)

include h

theorem Takes.grouped {least : ModuleId} (hrows : CursorsGrouped least rows) :
    CursorsGrouped least rest := by
  cases h with
  | function hcons => exact { hrows with functions := (hcons ▸ hrows.functions).tail }
  | «trait» hcons => exact { hrows with traits := (hcons ▸ hrows.traits).tail }
  | record hcons => exact { hrows with records := (hcons ▸ hrows.records).tail }
  | union hcons => exact { hrows with unions := (hcons ▸ hrows.unions).tail }
  | opaqueType hcons => exact { hrows with opaques := (hcons ▸ hrows.opaques).tail }
  | constant hcons => exact { hrows with constants := (hcons ▸ hrows.constants).tail }

theorem Takes.traits : ∀ row ∈ rest.traits, row ∈ rows.traits := by
  intro row hrow
  cases h with
  | «trait» hcons => exact hcons ▸ List.mem_cons_of_mem _ hrow
  | _ => exact hrow

end

theorem ownEntries_nil (h : CursorsGrouped (module + 1) rows) :
    ownEntries inventory module rows = [] := by
  simp [ownEntries, entriesOf_none h.functions.not_mem, entriesOf_none h.traits.not_mem,
    entriesOf_none h.records.not_mem, entriesOf_none h.unions.not_mem, entriesOf_none
    h.opaques.not_mem, entriesOf_none h.constants.not_mem]

theorem CursorsGrouped.nominalHeads {least : ModuleId} (h : CursorsGrouped least rows) :
    ∀ head ∈ rows.nominalHeads, least ≤ head.nominalModule := by
  intro head hhead
  rcases mem_nominalHeads.mp hhead with ⟨row, hrow, rfl⟩ | ⟨row, hrow, rfl⟩ | ⟨row, hrow, rfl⟩
  · exact h.records.from_least row (List.mem_of_mem_head? hrow)
  · exact h.unions.from_least row (List.mem_of_mem_head? hrow)
  · exact h.opaques.from_least row (List.mem_of_mem_head? hrow)

theorem Passed.grouped (h : Passed module rows) (hrows : CursorsGrouped module rows) :
    CursorsGrouped (module + 1) rows := by
  have hnominal : ∀ head ∈ rows.nominalHeads, head.nominalModule ≠ module := by
    intro head hhead
    cases hnext : rows.nextNominal with
    | none => simp [nextNominal_none hnext] at hhead
    | some next =>
      obtain ⟨hmem, hleast⟩ := nextNominal_least hnext
      have hlt : module < next.nominalModule :=
        Nat.lt_of_le_of_ne (hrows.nominalHeads next hmem) (Ne.symm (h.nominals next hnext))
      exact Nat.ne_of_gt (Nat.lt_of_lt_of_le hlt (hleast head hhead))
  have hrecords : ∀ row, rows.records.head? = some row → row.module ≠ module := fun row hrow =>
    hnominal (.recordDeclarationRow row) (mem_nominalHeads.mpr (.inl ⟨row, hrow, rfl⟩))
  have hunions : ∀ row, rows.unions.head? = some row → row.module ≠ module := fun row hrow =>
    hnominal (.unionDeclarationRow row) (mem_nominalHeads.mpr (.inr (.inl ⟨row, hrow, rfl⟩)))
  have hopaques : ∀ row, rows.opaques.head? = some row → row.module ≠ module := fun row hrow =>
    hnominal (.opaqueDeclarationRow row) (mem_nominalHeads.mpr (.inr (.inr ⟨row, hrow, rfl⟩)))
  exact ⟨hrows.functions.past h.functions, hrows.traits.past h.traits, hrows.records.past hrecords,
    hrows.unions.past hunions, hrows.opaques.past hopaques, hrows.constants.past h.constants⟩

/-- Every method of a trait has its written header. -/
def HeadersWritten (inventory : DeclarationInventory) : Prop :=
  ∀ row ∈ inventory.traits, ∀ method ∈ row.methods,
    (method.traitMethodHeader inventory).isSome = true

theorem traitEntries_ok {row : TraitRow}
    (h : ∀ method ∈ row.methods, (method.traitMethodHeader inventory).isSome = true) :
    ∃ entries, traitEntries inventory row = .ok entries := by
  have hmethods : ∃ entries, row.methods.mapM (methodEntry inventory row) = .ok entries := by
    generalize row.methods = methods at h
    induction methods with
    | nil => exact ⟨[], rfl⟩
    | cons method rest ih =>
      obtain ⟨name, hname⟩ := Option.isSome_iff_exists.mp (h method List.mem_cons_self)
      obtain ⟨entries, hentries⟩ := ih fun other hother => h other (List.mem_cons_of_mem _ hother)
      refine ⟨⟨name, .method method.id, .declared row.visibility⟩ :: entries, ?_⟩
      rw [List.mapM_cons, hentries, methodEntry, hname]
      rfl
  obtain ⟨entries, hentries⟩ := hmethods
  exact ⟨_, by rw [traitEntries, hentries]; rfl⟩

section

variable {inventory : DeclarationInventory} {module : ModuleId}

theorem readRows_spec (hheaders : HeadersWritten inventory) :
    ∀ {turns : Nat} {rows : Cursors}, rows.count < turns → CursorsGrouped module rows →
      (∀ row ∈ rows.traits, row ∈ inventory.traits) →
      ∃ entries rest, readRows inventory module turns rows = .ok (entries, rest) ∧
        entries.Perm (ownEntries inventory module rows) ∧ CursorsGrouped (module + 1) rest ∧
        (∀ row ∈ rest.traits, row ∈ inventory.traits) ∧
        ∀ other, module ≠ other →
          ownEntries inventory other rest = ownEntries inventory other rows := by
  intro turns
  induction turns with
  | zero =>
    intro rows hcount
    exact absurd hcount (Nat.not_lt_zero _)
  | succ turns ih =>
    intro rows hcount hgrouped htraits
    cases hturn : readTurn inventory module rows with
    | error problem =>
      obtain ⟨row, hrow, herror⟩ := readTurn_error hturn
      obtain ⟨entries, hentries⟩ := traitEntries_ok (hheaders row (htraits row hrow))
      rw [hentries] at herror
      cases herror
    | ok taken => cases taken with
      | none =>
        have hpassed := (readTurn_none hturn).grouped hgrouped
        refine ⟨[], rows, by rw [readRows, hturn]; rfl, ?_, hpassed, htraits, fun _ _ => rfl⟩
        rw [ownEntries_nil hpassed]
      | some pair =>
        obtain ⟨entries, rest⟩ := pair
        have htakes := readTurn_some hturn
        have hless : rest.count < turns := by
          have := htakes.count
          omega
        obtain ⟨more, last, hread, hperm, hlast, hrest, hothers⟩ := ih hless
          (htakes.grouped hgrouped) fun row hrow => htraits row (htakes.traits row hrow)
        refine ⟨entries ++ more, last, ?_, ?_, hlast, hrest, ?_⟩
        · rw [readRows, hturn]
          exact Except.bind_eq_ok.mpr ⟨_, rfl, Except.bind_eq_ok.mpr ⟨_, hread, rfl⟩⟩
        · exact (hperm.append_left entries).trans htakes.own.symm
        · intro other hother
          rw [hothers other hother, htakes.others hother]

end

/-! ## Sealed programs -/

/-- What assembly promises of the program it seals, and `check_builtin_types`, which accepts a
program before its namespace is built, of its built-in types. -/
structure Sealed (parsed : ParsedContents) : Prop where
  modules : Numbered ParsedModuleRow.module parsed.modules
  order : parsed.dependencyOrder.Perm parsed.modules
  imported : ∀ front row back, parsed.dependencyOrder = front ++ row :: back →
    ∀ request ∈ row.imports, ∃ target ∈ front, target.module = request.target
  supplied : ∀ front row back, parsed.dependencyOrder = front ++ row :: back →
    row.role = .userModule → ∃ target ∈ front, target.module = parsed.prelude
  builtins : ∀ first ∈ parsed.builtinTypes, ∀ second ∈ parsed.builtinTypes,
    first.module = second.module
  grouped : CursorsGrouped 0 parsed.declarations.cursors
  functions : Numbered FunctionRow.id parsed.declarations.functions
  traits : Numbered TraitRow.id parsed.declarations.traits
  records : Numbered RecordRow.id parsed.declarations.records
  unions : Numbered UnionRow.id parsed.declarations.unions
  opaques : Numbered OpaqueRow.id parsed.declarations.opaques
  constants : Numbered ConstantRow.id parsed.declarations.constants
  variants : ∀ row ∈ parsed.declarations.unions, ∀ variant ∈ row.variants,
    variant.id.owner = row.id
  methods : ∀ row ∈ parsed.declarations.traits, ∀ method ∈ row.methods,
    method.id.owner = row.id
  headers : HeadersWritten parsed.declarations

structure SealedProgram where
  contents : ParsedContents
  «sealed» : Sealed contents

/-- The builtin types still to read are all of the modules that are. -/
structure ReadTo (parsed : ParsedContents) (count : Nat) (state : DeclaredState) : Prop where
  builtins : ∀ module : Nat, module ≥ count →
    state.builtinTypes.filter (·.module == module) =
      parsed.builtinTypes.filter (·.module == module)
  oneModule : ∀ first ∈ state.builtinTypes, ∀ second ∈ state.builtinTypes,
    first.module = second.module
  rows : CursorsGrouped count state.rows
  traits : ∀ row ∈ state.rows.traits, row ∈ parsed.declarations.traits
  own : ∀ module : Nat, module ≥ count → ownEntries parsed.declarations module state.rows =
    ownEntries parsed.declarations module parsed.declarations.cursors
  declared : List.Forall₂ (fun module entries => entries.Perm (declaredIn parsed module))
    (List.range count) state.declared

theorem Numbered.number {ρ : Type} {idOf : ρ → Nat} {rows : List ρ} (h : Numbered idOf rows)
    {position : Nat} {row : ρ} (hrow : rows[position]? = some row) :
    idOf row = position := by
  obtain ⟨hposition, rfl⟩ := List.getElem?_eq_some_iff.mp hrow
  have hmap : (rows.map idOf)[position]? = (List.range rows.length)[position]? := by rw [h]
  simpa [hposition] using hmap

theorem Numbered.getElem? {ρ : Type} {idOf : ρ → Nat} {rows : List ρ} (h : Numbered idOf rows)
    {row : ρ} (hrow : row ∈ rows) : rows[idOf row]? = some row := by
  obtain ⟨position, hposition⟩ := List.mem_iff_getElem?.mp hrow
  rw [h.number hposition]
  exact hposition

section

variable {parsed : ParsedContents} (hsealed : Sealed parsed)

include hsealed

theorem readModule_spec {state : DeclaredState} {row : ParsedModuleRow}
    (h : ReadTo parsed row.module state) :
    ∃ next, readModule parsed.declarations state row = .ok next ∧
      ReadTo parsed (row.module + 1) next := by
  obtain ⟨entries, rest, hread, hperm, hgrouped, htraits, hothers⟩ :=
    readRows_spec hsealed.headers (Nat.lt_succ_self state.rows.count) h.rows h.traits
  -- The builtin types are all of one module, so a module takes all of them or none.
  have htake : state.builtinTypes.takeWhile (fun primitive => primitive.module == row.module) =
      state.builtinTypes.filter (·.module == row.module) := by
    cases hbuiltins : state.builtinTypes with
    | nil => rfl
    | cons first others =>
      have hsame : ∀ other ∈ first :: others, other.module = first.module := fun other hother =>
        h.oneModule other (hbuiltins ▸ hother) first (hbuiltins ▸ List.mem_cons_self)
      by_cases hfirst : first.module = row.module
      · rw [List.takeWhile_eq_self_iff.mpr, List.filter_eq_self.mpr]
        all_goals
          intro other hother
          simp [hsame other hother, hfirst]
      · rw [List.takeWhile_cons_of_neg (by simpa using hfirst), List.filter_eq_nil_iff.mpr]
        intro other hother
        simpa [hsame other hother] using hfirst
  refine ⟨⟨state.builtinTypes.dropWhile fun primitive => primitive.module == row.module, rest,
    state.declared ++ [(state.builtinTypes.takeWhile fun primitive =>
      primitive.module == row.module).map builtinEntry ++ entries]⟩, ?_, ?_⟩
  · rw [readModule, hread]
    rfl
  · have hdrop : ∀ first ∈ state.builtinTypes.dropWhile fun primitive =>
        primitive.module == row.module, first ∈ state.builtinTypes :=
      fun first hfirst => (List.dropWhile_suffix _).subset hfirst
    refine ⟨?_, fun first hfirst second hsecond =>
      h.oneModule first (hdrop first hfirst) second (hdrop second hsecond), hgrouped, htraits, ?_, ?_⟩
    · intro module hmodule
      have hsplit := List.takeWhile_append_dropWhile
        (p := fun primitive : ParsedBuiltinDeclaration => primitive.module == row.module)
        (l := state.builtinTypes)
      have hne : row.module ≠ module := fun heq => Nat.not_succ_le_self module (heq ▸ hmodule)
      rw [← h.builtins module (Nat.le_of_succ_le hmodule)]
      conv_rhs => rw [← hsplit, htake, List.filter_append, List.filter_filter]
      have hnone : (state.builtinTypes.filter fun primitive =>
          primitive.module == module && primitive.module == row.module) = [] := by
        refine List.filter_eq_nil_iff.mpr fun other _ => ?_
        intro hboth
        simp only [Bool.and_eq_true, beq_iff_eq] at hboth
        exact hne (hboth.2.symm.trans hboth.1)
      rw [hnone, List.nil_append]
    · intro module hmodule
      have hne : row.module ≠ module := fun heq => Nat.not_succ_le_self module (heq ▸ hmodule)
      rw [hothers module hne, h.own module (Nat.le_of_succ_le hmodule)]
    · rw [List.range_succ]
      refine List.rel_append h.declared (.cons ?_ .nil)
      rw [declaredIn, htake, h.builtins _ (Nat.le_refl _)]
      refine List.Perm.append_left _ (hperm.trans ?_)
      rw [h.own _ (Nat.le_refl _)]

theorem declaredEntries_spec : ∃ declared, declaredEntries parsed = .ok declared ∧
    List.Forall₂ (fun module entries => entries.Perm (declaredIn parsed module))
      (List.range parsed.modules.length) declared := by
  have hfold : ∀ {rows : List ParsedModuleRow} {count : Nat} {state : DeclaredState},
      rows.map (·.module) = List.range' count rows.length → ReadTo parsed count state →
      ∃ last, rows.foldlM (readModule parsed.declarations) state = .ok last ∧
        ReadTo parsed (count + rows.length) last := by
    intro rows
    induction rows with
    | nil => exact fun _ h => ⟨_, rfl, h⟩
    | cons row rows ih =>
      intro count state hrows h
      simp only [List.map_cons, List.length_cons, List.range'_succ, List.cons.injEq] at hrows
      obtain ⟨hrow, hrows⟩ := hrows
      obtain ⟨next, hnext, hread⟩ := readModule_spec hsealed (hrow ▸ h)
      obtain ⟨last, hlast, hread⟩ := ih hrows (hrow ▸ hread)
      refine ⟨last, ?_, ?_⟩
      · rw [List.foldlM_cons, hnext]
        exact hlast
      · rw [List.length_cons]
        have hcount : count + (rows.length + 1) = count + 1 + rows.length := by omega
        rw [hcount]
        exact hread
  have hstart : ReadTo parsed 0 ⟨parsed.builtinTypes, parsed.declarations.cursors, []⟩ :=
    ⟨fun _ _ => rfl, hsealed.builtins, hsealed.grouped, fun _ hrow => hrow, fun _ _ => rfl, .nil⟩
  obtain ⟨last, hlast, hread⟩ := hfold (by
    rw [hsealed.modules, List.range_eq_range']) hstart
  refine ⟨last.declared, ?_, ?_⟩
  · rw [declaredEntries]
    change (do let state ← parsed.modules.foldlM (readModule parsed.declarations)
                ⟨parsed.builtinTypes, parsed.declarations.cursors, []⟩
               pure state.declared) = _
    rw [hlast]
    rfl
  · simpa using hread.declared

end

/-! ## Where an entity is declared -/

/-- A declaration of a module, by its kind. -/
inductive DeclaredRow (parsed : ParsedContents) (module : ModuleId) : Entry → Prop
  | builtin {primitive : ParsedBuiltinDeclaration} (mem : primitive ∈ parsed.builtinTypes)
      (here : primitive.module = module) : DeclaredRow parsed module (builtinEntry primitive)
  | function {row : FunctionRow} (mem : row ∈ parsed.declarations.functions)
      (here : row.module = module) :
      DeclaredRow parsed module ⟨row.functionName, .function row.id, .declared row.visibility⟩
  | traitName {row : TraitRow} (mem : row ∈ parsed.declarations.traits)
      (here : row.module = module) :
      DeclaredRow parsed module ⟨row.typeName, .trait row.id, .declared row.visibility⟩
  | traitMethod {row : TraitRow} {method : TraitMethodRow} {name : WrittenName}
      (mem : row ∈ parsed.declarations.traits) (here : row.module = module)
      (method_mem : method ∈ row.methods) :
      DeclaredRow parsed module ⟨name, .method method.id, .declared row.visibility⟩
  | record {row : RecordRow} (mem : row ∈ parsed.declarations.records)
      (here : row.module = module) : DeclaredRow parsed module (recordEntry row)
  | unionName {row : UnionRow} (mem : row ∈ parsed.declarations.unions)
      (here : row.module = module) :
      DeclaredRow parsed module ⟨row.typeName, .type (.unionHead row.id), .declared row.visibility⟩
  | variant {row : UnionRow} {variant : VariantRow} (mem : row ∈ parsed.declarations.unions)
      (here : row.module = module) (variant_mem : variant ∈ row.variants) :
      DeclaredRow parsed module ⟨variant.name, .constructor variant.id, .declared row.visibility⟩
  | opaqueType {row : OpaqueRow} (mem : row ∈ parsed.declarations.opaques)
      (here : row.module = module) : DeclaredRow parsed module (opaqueEntry row)
  | constant {row : ConstantRow} (mem : row ∈ parsed.declarations.constants)
      (here : row.module = module) : DeclaredRow parsed module (constantEntry row)

variable {module : ModuleId} {entry : Entry} {parsed : ParsedContents}

theorem mem_entriesOf {ρ : Type} {moduleOf : ρ → ModuleId} {entries : ρ → List Entry}
    {rows : List ρ} :
    entry ∈ entriesOf moduleOf entries module rows ↔
      ∃ row ∈ rows, moduleOf row = module ∧ entry ∈ entries row := by
  simp [entriesOf, List.mem_flatMap, and_assoc]

theorem declaredIn_row (h : entry ∈ declaredIn parsed module) :
    DeclaredRow parsed module entry := by
  simp only [declaredIn, ownEntries, List.mem_append, mem_entriesOf, List.mem_map,
    List.mem_filter, beq_iff_eq] at h
  rcases h with ⟨primitive, ⟨hmem, hhere⟩, rfl⟩ | ⟨row, hmem, hhere, hentry⟩ |
    ⟨row, hmem, hhere, hentry⟩ | ⟨row, hmem, hhere, hentry⟩ | ⟨row, hmem, hhere, hentry⟩ |
    ⟨row, hmem, hhere, hentry⟩ | ⟨row, hmem, hhere, hentry⟩
  · exact .builtin hmem hhere
  · unfold functionEntries at hentry
    split at hentry
    · obtain rfl := List.mem_singleton.mp hentry
      exact .function hmem hhere
    · cases hentry
    · cases hentry
  · rcases List.mem_cons.mp hentry with rfl | hmethods
    · exact .traitName hmem hhere
    · obtain ⟨method, hmethod, hname⟩ := List.mem_filterMap.mp hmethods
      obtain ⟨name, -, rfl⟩ := Option.map_eq_some_iff.mp hname
      exact .traitMethod hmem hhere hmethod
  · obtain rfl := List.mem_singleton.mp hentry
    exact .record hmem hhere
  · rcases List.mem_cons.mp hentry with rfl | hvariants
    · exact .unionName hmem hhere
    · obtain ⟨variant, hvariant, rfl⟩ := List.mem_map.mp hvariants
      exact .variant hmem hhere hvariant
  · obtain rfl := List.mem_singleton.mp hentry
    exact .opaqueType hmem hhere
  · obtain rfl := List.mem_singleton.mp hentry
    exact .constant hmem hhere

/-- The module that declares an entity. -/
def homeOf (parsed : ParsedContents) : Entity → Option ModuleId
  | .function id => parsed.declarations.functions[id]?.map (·.module)
  | .trait id => parsed.declarations.traits[id]?.map (·.module)
  | .method id => parsed.declarations.traits[id.owner]?.map (·.module)
  | .constant id => parsed.declarations.constants[id]?.map (·.module)
  | .constructor variant => parsed.declarations.unions[variant.owner]?.map (·.module)
  | .type (.unionHead id) => parsed.declarations.unions[id]?.map (·.module)
  | .type (.recordHead id) => parsed.declarations.records[id]?.map (·.module)
  | .type (.opaqueHead id) => parsed.declarations.opaques[id]?.map (·.module)
  | .type (.primitiveHead _) | .type .listHead => parsed.builtinTypes.head?.map (·.module)
  | .alias _ => none

theorem DeclaredRow.home (hsealed : Sealed parsed) (h : DeclaredRow parsed module entry) :
    homeOf parsed entry.entity = some module := by
  cases h with
  | @builtin primitive hmem hhere =>
    have hhead : parsed.builtinTypes.head?.map (·.module) = some module := by
      cases hbuiltins : parsed.builtinTypes with
      | nil => simp [hbuiltins] at hmem
      | cons first rest =>
        rw [List.head?_cons, Option.map_some, ← hhere]
        exact congrArg some (hsealed.builtins first (by simp [hbuiltins]) primitive hmem)
    obtain ⟨home, declaration⟩ := primitive
    cases declaration <;> exact hhead
  | function hmem hhere => simp [homeOf, hsealed.functions.getElem? hmem, hhere]
  | traitName hmem hhere => simp [homeOf, hsealed.traits.getElem? hmem, hhere]
  | traitMethod hmem hhere hmethod =>
    simp [homeOf, hsealed.methods _ hmem _ hmethod, hsealed.traits.getElem? hmem, hhere]
  | record hmem hhere => simp [homeOf, recordEntry, hsealed.records.getElem? hmem, hhere]
  | unionName hmem hhere => simp [homeOf, hsealed.unions.getElem? hmem, hhere]
  | variant hmem hhere hvariant =>
    simp [homeOf, hsealed.variants _ hmem _ hvariant, hsealed.unions.getElem? hmem, hhere]
  | opaqueType hmem hhere => simp [homeOf, opaqueEntry, hsealed.opaques.getElem? hmem, hhere]
  | constant hmem hhere => simp [homeOf, constantEntry, hsealed.constants.getElem? hmem, hhere]

theorem DeclaredRow.origin (h : DeclaredRow parsed module entry) :
    ∃ visibility, entry.origin = .declared visibility := by
  cases h <;> exact ⟨_, rfl⟩

theorem DeclaredRow.not_alias (h : DeclaredRow parsed module entry) :
    ∀ aliased, entry.entity ≠ .alias aliased := by
  intro aliased
  cases h <;> exact Entity.noConfusion

end Blorp.Namespace
