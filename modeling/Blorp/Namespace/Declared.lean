import Blorp.Namespace.Model

/-!
# Declared entries

`declared_entries`: each module's declared entries in source order.  One cursor per kind
reads each row once; a cursor is kept as the rows it has not read.
-/

namespace Blorp.Namespace

open Check (ModuleId)
open Load (ParsedModuleRow)

/-! ## Reading -/

structure Cursors where
  functions : List FunctionRow
  traits : List TraitRow
  records : List RecordRow
  unions : List UnionRow
  opaques : List OpaqueRow
  constants : List ConstantRow

def Cursors.count (rows : Cursors) : Nat :=
  rows.functions.length + rows.traits.length + rows.records.length + rows.unions.length +
    rows.opaques.length + rows.constants.length

def earlierNominal (first second : NominalRow) : NominalRow :=
  if declarationPrecedes first second then first else second

def Cursors.nextNominal (rows : Cursors) : Option NominalRow :=
  match rows.records.head?, rows.unions.head?, rows.opaques.head? with
  | none, none, none => none
  | none, none, some opaqueRow => some (.opaqueDeclarationRow opaqueRow)
  | none, some unionRow, none => some (.unionDeclarationRow unionRow)
  | none, some unionRow, some opaqueRow =>
      some (earlierNominal (.unionDeclarationRow unionRow) (.opaqueDeclarationRow opaqueRow))
  | some recordRow, none, none => some (.recordDeclarationRow recordRow)
  | some recordRow, none, some opaqueRow =>
      some (earlierNominal (.recordDeclarationRow recordRow) (.opaqueDeclarationRow opaqueRow))
  | some recordRow, some unionRow, none =>
      some (earlierNominal (.recordDeclarationRow recordRow) (.unionDeclarationRow unionRow))
  | some recordRow, some unionRow, some opaqueRow =>
      if declarationPrecedes (.recordDeclarationRow recordRow) (.unionDeclarationRow unionRow) &&
          declarationPrecedes (.recordDeclarationRow recordRow) (.opaqueDeclarationRow opaqueRow) then
        some (.recordDeclarationRow recordRow)
      else
        some (earlierNominal (.unionDeclarationRow unionRow) (.opaqueDeclarationRow opaqueRow))

/-- Whether a row at `start` is written before another that is still to come. -/
def startsBefore (start : Nat) (next : Option Nat) : Bool :=
  match next with
  | some other => decide (start < other)
  | none => true

theorem startsBefore_none (start : Nat) : startsBefore start none = true := rfl

def unionEntries (row : UnionRow) : List Entry :=
  ⟨row.typeName, .type (.unionHead row.id), .declared row.visibility⟩ ::
    row.variants.map fun variant =>
      ⟨variant.name, .constructor variant.id, .declared row.visibility⟩

def recordEntry (row : RecordRow) : Entry :=
  ⟨row.typeName, .type (.recordHead row.id), .declared row.visibility⟩

def opaqueEntry (row : OpaqueRow) : Entry :=
  ⟨row.typeName, .type (.opaqueHead row.id), .declared row.visibility⟩

def constantEntry (row : ConstantRow) : Entry :=
  ⟨row.name, .constant row.id, .declared row.visibility⟩

/-- Bodies of implementations and defaults declare no name. -/
def functionEntries (row : FunctionRow) : List Entry :=
  match row.role with
  | .freeFunctionBody => [⟨row.functionName, .function row.id, .declared row.visibility⟩]
  | .implementationBody | .traitDefaultBody => []

def methodEntry (inventory : DeclarationInventory) (row : TraitRow) (method : TraitMethodRow) :
    Except NamespaceProblem Entry :=
  match method.traitMethodHeader inventory with
  | some name => .ok ⟨name, .method method.id, .declared row.visibility⟩
  | none => .error (.invalidTraitInventory method.span)

def traitEntries (inventory : DeclarationInventory) (row : TraitRow) :
    Except NamespaceProblem (List Entry) := do
  let methods ← row.methods.mapM (methodEntry inventory row)
  return ⟨row.typeName, .trait row.id, .declared row.visibility⟩ :: methods

def Cursors.takeNominal (rows : Cursors) : NominalRow → List Entry × Cursors
  | .unionDeclarationRow row => (unionEntries row, { rows with unions := rows.unions.tail })
  | .recordDeclarationRow row => ([recordEntry row], { rows with records := rows.records.tail })
  | .opaqueDeclarationRow row => ([opaqueEntry row], { rows with opaques := rows.opaques.tail })

/-- Takes the module's next declaration as written, or `none` when it has no more. -/
def readTurn (inventory : DeclarationInventory) (module : ModuleId) (rows : Cursors) :
    Except NamespaceProblem (Option (List Entry × Cursors)) :=
  let function := rows.functions.head?.filter fun row => row.module == module
  let functionStart := function.map (·.functionName.span.start)
  let nominal := rows.nextNominal.filter fun row =>
    row.nominalModule == module && startsBefore row.nominalStart functionStart
  let nominalStart := nominal.map NominalRow.nominalStart
  let constant := rows.constants.head?.filter fun row =>
    row.module == module && startsBefore row.name.span.start functionStart &&
      startsBefore row.name.span.start nominalStart
  let constantStart := constant.map (·.name.span.start)
  let traitDeclaration := rows.traits.head?.filter fun row =>
    row.module == module && startsBefore row.typeName.span.start functionStart &&
      (startsBefore row.typeName.span.start nominalStart &&
        startsBefore row.typeName.span.start constantStart)
  match traitDeclaration with
  | some row => do
      let entries ← traitEntries inventory row
      return some (entries, { rows with traits := rows.traits.tail })
  | none =>
      match constant with
      | some row => .ok (some ([constantEntry row], { rows with constants := rows.constants.tail }))
      | none =>
          match nominal with
          | some row => .ok (some (rows.takeNominal row))
          | none =>
              match function with
              | some row =>
                  .ok (some (functionEntries row, { rows with functions := rows.functions.tail }))
              | none => .ok none

/-- Reads one module's rows.  A turn takes a row, so the rows bound the turns. -/
def readRows (inventory : DeclarationInventory) (module : ModuleId) :
    Nat → Cursors → Except NamespaceProblem (List Entry × Cursors)
  | 0, rows => .ok ([], rows)
  | turns + 1, rows => do
      match ← readTurn inventory module rows with
      | none => return ([], rows)
      | some (entries, rest) =>
          let (more, last) ← readRows inventory module turns rest
          return (entries ++ more, last)

def builtinEntry (primitive : ParsedBuiltinDeclaration) : Entry :=
  ⟨primitive.declaration.builtinTypeName, .type primitive.declaration.builtinHead,
    .declared .publicName⟩

structure DeclaredState where
  builtinTypes : List ParsedBuiltinDeclaration
  rows : Cursors
  declared : List (List Entry)

def readModule (inventory : DeclarationInventory) (state : DeclaredState) (row : ParsedModuleRow) :
    Except NamespaceProblem DeclaredState := do
  let own := state.builtinTypes.takeWhile fun primitive => primitive.module == row.module
  let later := state.builtinTypes.dropWhile fun primitive => primitive.module == row.module
  let (entries, rest) ← readRows inventory row.module (state.rows.count + 1) state.rows
  return ⟨later, rest, state.declared ++ [own.map builtinEntry ++ entries]⟩

def declaredEntries (parsed : ParsedContents) : Except NamespaceProblem (List (List Entry)) := do
  let declarations := parsed.declarations
  let state ← parsed.modules.foldlM (readModule declarations)
    ⟨parsed.builtinTypes, ⟨declarations.functions, declarations.traits, declarations.records,
      declarations.unions, declarations.opaques, declarations.constants⟩, []⟩
  return state.declared

/-! ## What one turn takes -/

inductive Takes (inventory : DeclarationInventory) (module : ModuleId) :
    Cursors → List Entry → Cursors → Prop
  | function {rows : Cursors} {row : FunctionRow} {rest : List FunctionRow}
      (hrows : rows.functions = row :: rest) (hmodule : row.module = module) :
      Takes inventory module rows (functionEntries row) { rows with functions := rest }
  | «trait» {rows : Cursors} {row : TraitRow} {rest : List TraitRow} {entries : List Entry}
      (hrows : rows.traits = row :: rest) (hmodule : row.module = module)
      (hentries : traitEntries inventory row = .ok entries) :
      Takes inventory module rows entries { rows with traits := rest }
  | record {rows : Cursors} {row : RecordRow} {rest : List RecordRow}
      (hrows : rows.records = row :: rest) (hmodule : row.module = module) :
      Takes inventory module rows [recordEntry row] { rows with records := rest }
  | union {rows : Cursors} {row : UnionRow} {rest : List UnionRow}
      (hrows : rows.unions = row :: rest) (hmodule : row.module = module) :
      Takes inventory module rows (unionEntries row) { rows with unions := rest }
  | opaqueType {rows : Cursors} {row : OpaqueRow} {rest : List OpaqueRow}
      (hrows : rows.opaques = row :: rest) (hmodule : row.module = module) :
      Takes inventory module rows [opaqueEntry row] { rows with opaques := rest }
  | constant {rows : Cursors} {row : ConstantRow} {rest : List ConstantRow}
      (hrows : rows.constants = row :: rest) (hmodule : row.module = module) :
      Takes inventory module rows [constantEntry row] { rows with constants := rest }

structure Passed (module : ModuleId) (rows : Cursors) : Prop where
  functions : ∀ row, rows.functions.head? = some row → row.module ≠ module
  traits : ∀ row, rows.traits.head? = some row → row.module ≠ module
  nominals : ∀ row, rows.nextNominal = some row → row.nominalModule ≠ module
  constants : ∀ row, rows.constants.head? = some row → row.module ≠ module

theorem filter_head {α : Type} {rows : List α} {test : α → Bool} {row : α}
    (h : rows.head?.filter test = some row) : rows = row :: rows.tail ∧ test row = true := by
  obtain ⟨hhead, htest⟩ := Option.filter_eq_some_iff.mp h
  cases rows with
  | nil => cases hhead
  | cons first rest =>
    cases hhead
    exact ⟨rfl, htest⟩

theorem earlierNominal_eq (first second : NominalRow) :
    earlierNominal first second = first ∨ earlierNominal first second = second := by
  unfold earlierNominal
  split
  · exact .inl rfl
  · exact .inr rfl

variable {module : ModuleId} {rows : Cursors} {inventory : DeclarationInventory}

theorem nextNominal_takes (inventory : DeclarationInventory) {row : NominalRow}
    (h : rows.nextNominal = some row) (hmodule : row.nominalModule = module) :
    Takes inventory module rows (rows.takeNominal row).1 (rows.takeNominal row).2 := by
  have hhead : (∃ r, row = .recordDeclarationRow r ∧ rows.records.head? = some r) ∨
      (∃ r, row = .unionDeclarationRow r ∧ rows.unions.head? = some r) ∨
      (∃ r, row = .opaqueDeclarationRow r ∧ rows.opaques.head? = some r) := by
    unfold Cursors.nextNominal at h
    cases hrecord : rows.records.head? with
    | none => cases hunion : rows.unions.head? with
      | none => cases hopaque : rows.opaques.head? <;> simp_all
      | some unionRow => cases hopaque : rows.opaques.head? with
        | none => simp_all
        | some opaqueRow =>
          simp only [hrecord, hunion, hopaque, Option.some.injEq] at h
          subst h
          rcases earlierNominal_eq (.unionDeclarationRow unionRow) (.opaqueDeclarationRow opaqueRow)
            with heq | heq <;> simp [heq]
    | some recordRow => cases hunion : rows.unions.head? with
      | none => cases hopaque : rows.opaques.head? with
        | none => simp_all
        | some opaqueRow =>
          simp only [hrecord, hunion, hopaque, Option.some.injEq] at h
          subst h
          rcases earlierNominal_eq (.recordDeclarationRow recordRow)
            (.opaqueDeclarationRow opaqueRow) with heq | heq <;> simp [heq]
      | some unionRow => cases hopaque : rows.opaques.head? with
        | none =>
          simp only [hrecord, hunion, hopaque, Option.some.injEq] at h
          subst h
          rcases earlierNominal_eq (.recordDeclarationRow recordRow) (.unionDeclarationRow unionRow)
            with heq | heq <;> simp [heq]
        | some opaqueRow =>
          simp only [hrecord, hunion, hopaque] at h
          split at h
          · simp_all
          · cases h
            rcases earlierNominal_eq (.unionDeclarationRow unionRow)
              (.opaqueDeclarationRow opaqueRow) with heq | heq <;> simp [heq]
  rcases hhead with ⟨r, rfl, hr⟩ | ⟨r, rfl, hr⟩ | ⟨r, rfl, hr⟩
  · exact .record (List.eq_cons_of_mem_head? hr) hmodule
  · exact .union (List.eq_cons_of_mem_head? hr) hmodule
  · exact .opaqueType (List.eq_cons_of_mem_head? hr) hmodule

theorem readTurn_some {rest : Cursors} {entries : List Entry}
    (h : readTurn inventory module rows = .ok (some (entries, rest))) :
    Takes inventory module rows entries rest := by
  unfold readTurn at h
  dsimp only at h
  split at h
  · rename_i row hrow
    obtain ⟨hrows, htest⟩ := filter_head hrow
    obtain ⟨found, hfound, h⟩ := Except.peel h
    cases h
    simp only [Bool.and_eq_true, beq_iff_eq] at htest
    exact .trait hrows htest.1.1 hfound
  · split at h
    · rename_i row hrow
      obtain ⟨hrows, htest⟩ := filter_head hrow
      cases h
      simp only [Bool.and_eq_true, beq_iff_eq] at htest
      exact .constant hrows htest.1.1
    · split at h
      · rename_i row hrow
        obtain ⟨hnext, htest⟩ := Option.filter_eq_some_iff.mp hrow
        simp only [Bool.and_eq_true, beq_iff_eq] at htest
        have htakes := nextNominal_takes inventory hnext htest.1
        cases hpair : rows.takeNominal row with
        | mk taken left =>
          rw [hpair] at htakes
          simp only [hpair] at h
          cases h
          exact htakes
      · split at h
        · rename_i row hrow
          obtain ⟨hrows, htest⟩ := filter_head hrow
          cases h
          exact .function hrows (by simpa using htest)
        · cases h

theorem readTurn_none (h : readTurn inventory module rows = .ok none) : Passed module rows := by
  unfold readTurn at h
  dsimp only at h
  split at h
  · obtain ⟨found, hfound, h⟩ := Except.peel h
    cases h
  · rename_i htrait
    split at h
    · cases h
    · rename_i hconstant
      split at h
      · cases h
      · rename_i hnominal
        split at h
        · cases h
        · rename_i hfunction
          -- With no function left every other row of the module would come next.
          simp only [hfunction, Option.map_none, startsBefore_none, Bool.and_true] at hnominal
          simp only [hfunction, hnominal, Option.map_none, startsBefore_none, Bool.and_true]
            at hconstant
          simp only [hfunction, hnominal, Option.map_none, startsBefore_none, Bool.and_true]
            at htrait
          simp only [hconstant, Option.map_none, startsBefore_none, Bool.and_true] at htrait
          rw [Option.filter_eq_none_iff] at hfunction hnominal hconstant htrait
          refine ⟨?_, ?_, ?_, ?_⟩
          · intro row hrow
            simpa using hfunction row hrow
          · intro row hrow
            simpa using htrait row hrow
          · intro row hrow
            simpa using hnominal row hrow
          · intro row hrow
            simpa using hconstant row hrow

theorem readTurn_error {problem : NamespaceProblem}
    (h : readTurn inventory module rows = .error problem) :
    ∃ row ∈ rows.traits, traitEntries inventory row = .error problem := by
  unfold readTurn at h
  dsimp only at h
  split at h
  · rename_i row hrow
    obtain ⟨hrows, -⟩ := filter_head hrow
    refine ⟨row, by rw [hrows]; simp, ?_⟩
    cases hentries : traitEntries inventory row with rw [hentries] at h
    | ok entries => cases h
    | error found =>
      cases h
      rfl
  · split at h
    · cases h
    · split at h
      · cases h
      · split at h
        · cases h
        · cases h

/-! ## The declarations of a module -/

def traitRowEntries (inventory : DeclarationInventory) (row : TraitRow) : List Entry :=
  ⟨row.typeName, .trait row.id, .declared row.visibility⟩ ::
    row.methods.filterMap fun method => (method.traitMethodHeader inventory).map fun name =>
      ⟨name, .method method.id, .declared row.visibility⟩

def entriesOf {ρ : Type} (moduleOf : ρ → ModuleId) (entries : ρ → List Entry) (module : ModuleId)
    (rows : List ρ) : List Entry :=
  (rows.filter fun row => moduleOf row == module).flatMap entries

def ownEntries (inventory : DeclarationInventory) (module : ModuleId) (rows : Cursors) :
    List Entry :=
  entriesOf FunctionRow.module functionEntries module rows.functions ++
    (entriesOf TraitRow.module (traitRowEntries inventory) module rows.traits ++
      (entriesOf RecordRow.module (fun row => [recordEntry row]) module rows.records ++
        (entriesOf UnionRow.module unionEntries module rows.unions ++
          (entriesOf OpaqueRow.module (fun row => [opaqueEntry row]) module rows.opaques ++
            entriesOf ConstantRow.module (fun row => [constantEntry row]) module rows.constants))))

def DeclarationInventory.cursors (inventory : DeclarationInventory) : Cursors :=
  ⟨inventory.functions, inventory.traits, inventory.records, inventory.unions, inventory.opaques,
    inventory.constants⟩

/-- What a module declares: its built-in types and its rows of every kind. -/
def declaredIn (parsed : ParsedContents) (module : ModuleId) : List Entry :=
  (parsed.builtinTypes.filter (·.module == module)).map builtinEntry ++
    ownEntries parsed.declarations module parsed.declarations.cursors

theorem methodEntries_eq {row : TraitRow} :
    ∀ {methods : List TraitMethodRow} {entries : List Entry},
      methods.mapM (methodEntry inventory row) = .ok entries →
      entries = methods.filterMap fun method => (method.traitMethodHeader inventory).map
        fun name => ⟨name, .method method.id, .declared row.visibility⟩ := by
  intro methods
  induction methods with
  | nil =>
    intro entries h
    cases h
    rfl
  | cons method methods ih =>
    intro entries h
    rw [List.mapM_cons] at h
    obtain ⟨entry, hentry, h⟩ := Except.peel h
    obtain ⟨rest, hrest, h⟩ := Except.peel h
    cases h
    unfold methodEntry at hentry
    split at hentry
    · rename_i name hname
      cases hentry
      simp [hname, ih hrest]
    · cases hentry

theorem traitEntries_eq {row : TraitRow} {entries : List Entry}
    (h : traitEntries inventory row = .ok entries) : entries = traitRowEntries inventory row := by
  obtain ⟨methods, hmethods, h⟩ := Except.peel h
  cases h
  rw [methodEntries_eq hmethods, traitRowEntries]

section

variable {ρ : Type} {moduleOf : ρ → ModuleId} {entries : ρ → List Entry} {module : ModuleId}
  {row : ρ} {rows : List ρ}

theorem entriesOf_own (h : moduleOf row = module) :
    entriesOf moduleOf entries module (row :: rows) =
      entries row ++ entriesOf moduleOf entries module rows := by
  simp [entriesOf, h]

theorem entriesOf_other (h : moduleOf row ≠ module) :
    entriesOf moduleOf entries module (row :: rows) = entriesOf moduleOf entries module rows := by
  simp [entriesOf, h]

theorem entriesOf_none (h : ∀ row ∈ rows, moduleOf row ≠ module) :
    entriesOf moduleOf entries module rows = [] := by
  have hnone : (rows.filter fun row => moduleOf row == module) = [] := by
    simpa [List.filter_eq_nil_iff] using h
  rw [entriesOf, hnone, List.flatMap_nil]

end

namespace Takes

variable {inventory : DeclarationInventory} {module : ModuleId} {rows rest : Cursors}
  {entries : List Entry}

section

variable (h : Takes inventory module rows entries rest)

include h

theorem own :
    (ownEntries inventory module rows).Perm (entries ++ ownEntries inventory module rest) := by
  rw [← Multiset.coe_eq_coe]
  cases h with
  | function hrows hmodule | record hrows hmodule | union hrows hmodule
  | opaqueType hrows hmodule | constant hrows hmodule =>
    simp only [ownEntries, hrows, entriesOf_own hmodule, ← Multiset.coe_add]
    abel
  | «trait» hrows hmodule hentries =>
    simp only [ownEntries, hrows, entriesOf_own hmodule, traitEntries_eq hentries,
      ← Multiset.coe_add]
    abel

theorem others {other : ModuleId} (hother : module ≠ other) :
    ownEntries inventory other rest = ownEntries inventory other rows := by
  cases h with
  | function hrows hmodule | «trait» hrows hmodule hentries | record hrows hmodule
  | union hrows hmodule | opaqueType hrows hmodule | constant hrows hmodule =>
    simp [ownEntries, hrows, entriesOf_other (hmodule.trans_ne hother)]

theorem count : rest.count + 1 = rows.count := by
  cases h <;> simp_all [Cursors.count] <;> omega

end

end Takes

end Blorp.Namespace
