import Blorp.Namespace.Build

/-!
# The scope rule

What a scope holds after a sequence of entries, and when the rule reports a conflict.
Entries are compatible when they name the same entity wherever they claim a common space,
and no declaration but a method's claims a spelling again.
-/

namespace Blorp.Namespace

open Check (NameId Entity)

/-! ## Entities and the spaces they claim -/

def claims : Entity → Space → Bool
  | .alias _, _ => true
  | .type _, space | .trait _, space => space == .types
  | .method _, space | .function _, space | .constant _, space | .constructor _, space =>
      space == .values

structure Claims (entry : Entry) (space : Space) (name : NameId) : Prop where
  spelling : entry.name.id = name
  space : claims entry.entity space = true

def Origin.IsDeclared (origin : Origin) : Prop := ∃ visibility, origin = .declared visibility

def IsMethod (entity : Entity) : Prop := ∃ id, entity = .method id

@[simp] theorem sameEntity_refl (entity : Entity) : sameEntity entity entity = true := by
  cases entity <;> simp [sameEntity]

variable {first second : Entity} {name : NameId}

section

variable (h : sameEntity first second = true)

include h

theorem sameEntity_symm : sameEntity second first = true := by
  cases first <;> cases second <;> simp_all [sameEntity]

theorem sameEntity_trans {third : Entity} (h' : sameEntity second third = true) :
    sameEntity first third = true := by
  cases first <;> cases second <;> first | cases h | skip
  all_goals cases third <;> simp_all [sameEntity]

theorem sameEntity_claims (space : Space) : claims first space = claims second space := by
  cases first <;> cases second <;> first | cases h | rfl

theorem sameEntity_eq (hnot : ∀ aliased, first ≠ .alias aliased) : first = second := by
  cases first <;> cases second <;> simp_all [sameEntity]

theorem sameEntity_method (hmethod : IsMethod second) : first = second := by
  obtain ⟨id, rfl⟩ := hmethod
  cases first <;> simp_all [sameEntity]

end

/-! ## Lookups in a scope -/

theorem spaceKey_inj {space space' : Space} {name' : NameId} :
    spaceKey space name = spaceKey space' name' ↔ space = space' ∧ name = name' := by
  cases space <;> cases space' <;> simp [spaceKey] <;> omega

theorem holder_setName (names : Names) (space space' : Space) (incoming : Entry) (name : NameId) :
    holder (setName names space incoming) space' name =
      if space' = space ∧ name = incoming.name.id then some incoming
      else holder names space' name := by
  unfold holder setName
  split
  · rename_i h
    rw [h.1, h.2, Entries.lookup_put_self]
  · rename_i h
    rw [Entries.lookup_put_of_ne _ _ fun heq => h (spaceKey_inj.mp heq)]

open Classical in
theorem holder_claimed (names : Names) (incoming : Entry) (space : Space) (name : NameId) :
    holder (claimed names incoming) space name =
      if Claims incoming space name then some incoming else holder names space name := by
  have hclaims : Claims incoming space name ↔
      claims incoming.entity space = true ∧ name = incoming.name.id :=
    ⟨fun h => ⟨h.space, h.spelling.symm⟩, fun h => ⟨h.2.symm, h.1⟩⟩
  simp only [hclaims, claimed]
  cases hentity : incoming.entity <;> cases space <;> simp [claims, holder_setName]

theorem claimant_some {names : Names} {entity : Entity} {held : Entry}
    (h : claimant names name entity = some held) :
    ∃ space, claims entity space = true ∧ holder names space name = some held := by
  cases entity with
  | «alias» aliased =>
    simp only [claimant] at h
    split at h
    · rename_i found hfound
      exact ⟨.values, rfl, hfound.trans h⟩
    · exact ⟨.types, rfl, h⟩
  | type head => exact ⟨.types, rfl, h⟩
  | trait id => exact ⟨.types, rfl, h⟩
  | method id | function id | constant id | constructor variant => exact ⟨.values, rfl, h⟩

theorem claimant_none {names : Names} {entity : Entity} (h : claimant names name entity = none)
    {space : Space} (hspace : claims entity space = true) : holder names space name = none := by
  cases entity with
  | «alias» aliased =>
    simp only [claimant] at h
    split at h
    · cases h
    · rename_i hvalues
      cases space with
      | values => exact hvalues
      | types => exact h
  | _ => cases space <;> first | exact h | cases hspace

/-! ## Compatible entries -/

/-- Whether the second of two entries may follow the first. -/
def Compatible (first second : Entry) : Prop :=
  ∀ space name, Claims first space name → Claims second space name →
    sameEntity first.entity second.entity = true ∧
      (second.origin.IsDeclared → IsMethod second.entity)

/-- What a scope holds for a spelling is one of its entries. -/
structure Held (entered : List Entry) (space : Space) (name : NameId) (held : Entry) : Prop where
  mem : held ∈ entered
  claims : Claims held space name
  same : ∀ entry ∈ entered, Claims entry space name → sameEntity held.entity entry.entity = true
  declared : ∀ entry ∈ entered, Claims entry space name → entry.origin.IsDeclared →
    held.origin.IsDeclared
  published : ∀ entry ∈ entered, Claims entry space name → entry.origin = .declared .publicName →
    held.origin = .declared .publicName

/-- Every name stands once, under a key of a space that it claims. -/
structure Keyed (names : Names) : Prop where
  distinct : Entries.Distinct (· == ·) names
  keys : ∀ key entry, (key, entry) ∈ names →
    ∃ space, key = spaceKey space entry.name.id ∧ claims entry.entity space = true

/-- A scope that holds what was entered. -/
structure Summary (entered : List Entry) (names : Names) : Prop where
  lookup : ∀ space name,
    match holder names space name with
    | some held => Held entered space name held
    | none => ∀ entry ∈ entered, ¬ Claims entry space name
  keyed : Keyed names

/-- A scope built of `entered`: it has no problem iff `ok` and the entries are compatible. -/
structure Reflects (entered : List Entry) (ok : Prop) (built : BuiltScope) : Prop where
  problem : built.problem = none ↔ ok ∧ entered.Pairwise Compatible
  names : built.problem = none → Summary entered built.names

section

variable {entered : List Entry} {names : Names} {space : Space} {name : NameId}

theorem Summary.held (h : Summary entered names) {held : Entry}
    (hheld : holder names space name = some held) : Held entered space name held := by
  have hsummary := h.lookup space name
  rw [hheld] at hsummary
  exact hsummary

theorem Summary.absent (h : Summary entered names) (hnone : holder names space name = none) :
    ∀ entry ∈ entered, ¬ Claims entry space name := by
  have hsummary := h.lookup space name
  rw [hnone] at hsummary
  exact hsummary

theorem Summary.exists_held (h : Summary entered names) {entry : Entry} (hentry : entry ∈ entered)
    (hclaims : Claims entry space name) :
    ∃ held, holder names space name = some held ∧ Held entered space name held := by
  cases hheld : holder names space name with
  | none => exact absurd hclaims (h.absent hheld entry hentry)
  | some held => exact ⟨held, rfl, h.held hheld⟩

theorem Summary.nil : Summary [] [] where
  lookup := by
    intro space name
    simp [holder, Entries.lookup]
  keyed := ⟨.nil, by simp⟩

theorem Keyed.setName (h : Keyed names) {incoming : Entry}
    (hclaims : Namespace.claims incoming.entity space = true) :
    Keyed (Namespace.setName names space incoming) := by
  refine ⟨h.distinct.put incoming, ?_⟩
  intro key entry hentry
  unfold Namespace.setName Entries.put at hentry
  split at hentry
  · obtain ⟨old, hold, heq⟩ := List.mem_map.mp hentry
    split at heq
    · rename_i hkey
      cases heq
      exact ⟨space, by simpa using hkey, hclaims⟩
    · cases heq
      exact h.keys _ _ hold
  · rcases List.mem_append.mp hentry with hold | hnew
    · exact h.keys _ _ hold
    · obtain ⟨rfl, rfl⟩ : key = spaceKey space incoming.name.id ∧ entry = incoming := by
        simpa using hnew
      exact ⟨space, rfl, hclaims⟩

theorem Keyed.claimed (h : Keyed names) (incoming : Entry) :
    Keyed (Namespace.claimed names incoming) := by
  unfold Namespace.claimed
  cases hentity : incoming.entity with
  | «alias» aliased => exact (h.setName (by rw [hentity]; rfl)).setName (by rw [hentity]; rfl)
  | _ => exact h.setName (by rw [hentity]; rfl)

theorem Keyed.mem_values (h : Keyed names) {entry : Entry} :
    entry ∈ names.map (·.2) ↔ ∃ space, claims entry.entity space = true ∧
      holder names space entry.name.id = some entry := by
  rw [List.mem_map]
  constructor
  · rintro ⟨⟨key, held⟩, hmem, rfl⟩
    obtain ⟨space, rfl, hspace⟩ := h.keys key held hmem
    exact ⟨space, hspace, h.distinct.mem_iff.mp hmem⟩
  · rintro ⟨space, -, hheld⟩
    exact ⟨_, h.distinct.mem_iff.mpr hheld, rfl⟩

end

theorem firstProblem_ne_none (found : Option NamespaceProblem) (later : NamespaceProblem) :
    firstProblem found later ≠ none := by
  unfold firstProblem
  split
  · split <;> simp
  · simp

/-! ## Entering -/

theorem compatible_of_held {entered : List Entry} {names : Names} {incoming held : Entry}
    {space : Space} (h : Summary entered names)
    (hheld : holder names space incoming.name.id = some held)
    (hsame : sameEntity held.entity incoming.entity = true) {space' : Space} {name : NameId}
    (hincoming : Claims incoming space' name) :
    ∃ other, holder names space' name = some other ∧ Held entered space' name other ∧
      sameEntity other.entity incoming.entity = true := by
  obtain rfl : incoming.name.id = name := hincoming.spelling
  have hheld' := h.held hheld
  -- The held entry claims whatever space the incoming one does.
  have hclaims : Claims held space' incoming.name.id :=
    ⟨hheld'.claims.spelling, (sameEntity_claims hsame space').trans hincoming.space⟩
  obtain ⟨other, hother, hall⟩ := h.exists_held hheld'.mem hclaims
  exact ⟨other, hother, hall, sameEntity_trans (hall.same held hheld'.mem hclaims) hsame⟩

section

variable {entered : List Entry} {ok : Prop} {built : BuiltScope} {incoming : Entry}

theorem familyAgain_iff {held : Entry} : familyAgain held incoming = true ↔
    IsMethod incoming.entity ∧ held.entity = incoming.entity := by
  unfold familyAgain
  cases hheld : held.entity <;> cases hincoming : incoming.entity <;> simp_all [IsMethod]

theorem arrivesAgain_iff {held : Entry} : arrivesAgain held incoming = true ↔
    ¬ incoming.origin.IsDeclared ∧ sameEntity held.entity incoming.entity = true := by
  unfold arrivesAgain
  cases incoming.origin <;> simp [Origin.IsDeclared]

section

variable (h : Summary entered built.names) {held : Entry} {space : Space}
    (hheld : holder built.names space incoming.name.id = some held)
    (hsame : sameEntity held.entity incoming.entity = true)

include h held hheld hsame

theorem compatible_all (hmethod : incoming.origin.IsDeclared → IsMethod incoming.entity) :
    ∀ entry ∈ entered, Compatible entry incoming := by
  intro entry hentry space' name hclaims hincoming
  obtain ⟨other, -, hall, hother⟩ := compatible_of_held h hheld hsame hincoming
  exact ⟨sameEntity_trans (sameEntity_symm (hall.same entry hentry hclaims)) hother, hmethod⟩

theorem Summary.again
    (horigin : ∀ space' other, holder built.names space' incoming.name.id = some other →
      claims incoming.entity space' = true → incoming.origin.IsDeclared → other.origin =
      .declared .publicName) : Summary (entered ++ [incoming]) built.names := by
  refine ⟨?_, h.keyed⟩
  intro space' name
  cases hfound : holder built.names space' name with
  | none =>
    intro entry hentry hclaims
    rcases List.mem_append.mp hentry with hold | hnew
    · exact h.absent hfound entry hold hclaims
    · obtain rfl : entry = incoming := by simpa using hnew
      obtain ⟨other, hother, -⟩ := compatible_of_held h hheld hsame hclaims
      rw [hfound] at hother
      cases hother
  | some found =>
    have hall := h.held hfound
    refine ⟨List.mem_append_left _ hall.mem, hall.claims, ?_, ?_, ?_⟩
    · intro entry hentry hclaims
      rcases List.mem_append.mp hentry with hold | hnew
      · exact hall.same entry hold hclaims
      · obtain rfl : entry = incoming := by simpa using hnew
        obtain ⟨other, hother, -, hsame'⟩ := compatible_of_held h hheld hsame hclaims
        rw [hfound] at hother
        cases hother
        exact hsame'
    · intro entry hentry hclaims hdeclared
      rcases List.mem_append.mp hentry with hold | hnew
      · exact hall.declared entry hold hclaims hdeclared
      · obtain rfl : entry = incoming := by simpa using hnew
        exact ⟨_, horigin space' found (hclaims.spelling ▸ hfound) hclaims.space hdeclared⟩
    · intro entry hentry hclaims hpublic
      rcases List.mem_append.mp hentry with hold | hnew
      · exact hall.published entry hold hclaims hpublic
      · obtain rfl : entry = incoming := by simpa using hnew
        exact horigin space' found (hclaims.spelling ▸ hfound) hclaims.space ⟨_, hpublic⟩

end

theorem Summary.taken (h : Summary entered built.names)
    (hsame : ∀ entry ∈ entered, ∀ space name, Claims entry space name →
      Claims incoming space name → sameEntity incoming.entity entry.entity = true)
    (hdeclared : ∀ entry ∈ entered, ∀ space name, Claims entry space name →
      Claims incoming space name → entry.origin.IsDeclared → incoming.origin.IsDeclared)
    (hpublic : ∀ entry ∈ entered, ∀ space name, Claims entry space name →
      Claims incoming space name → entry.origin ≠ .declared .publicName) :
    Summary (entered ++ [incoming]) (claimed built.names incoming) := by
  refine ⟨?_, h.keyed.claimed incoming⟩
  intro space name
  rw [holder_claimed]
  by_cases hincoming : Claims incoming space name
  · rw [if_pos hincoming]
    refine ⟨by simp, hincoming, ?_, ?_, ?_⟩
    · intro entry hentry hclaims
      rcases List.mem_append.mp hentry with hold | hnew
      · exact hsame entry hold space name hclaims hincoming
      · obtain rfl : entry = incoming := by simpa using hnew
        exact sameEntity_refl _
    · intro entry hentry hclaims hentryDeclared
      rcases List.mem_append.mp hentry with hold | hnew
      · exact hdeclared entry hold space name hclaims hincoming hentryDeclared
      · obtain rfl : entry = incoming := by simpa using hnew
        exact hentryDeclared
    · intro entry hentry hclaims hentryPublic
      rcases List.mem_append.mp hentry with hold | hnew
      · exact absurd hentryPublic (hpublic entry hold space name hclaims hincoming)
      · obtain rfl : entry = incoming := by simpa using hnew
        exact hentryPublic
  · rw [if_neg hincoming]
    have hnew : ∀ entry ∈ entered ++ [incoming], Claims entry space name → entry ∈ entered := by
      intro entry hentry hclaims
      rcases List.mem_append.mp hentry with hold | hnew
      · exact hold
      · obtain rfl : entry = incoming := by simpa using hnew
        exact absurd hclaims hincoming
    cases hfound : holder built.names space name with
    | none => exact fun entry hentry hclaims =>
        h.absent hfound entry (hnew entry hentry hclaims) hclaims
    | some found =>
      have hall := h.held hfound
      exact ⟨List.mem_append_left _ hall.mem, hall.claims,
        fun entry hentry hclaims => hall.same entry (hnew entry hentry hclaims) hclaims,
        fun entry hentry hclaims => hall.declared entry (hnew entry hentry hclaims) hclaims,
        fun entry hentry hclaims => hall.published entry (hnew entry hentry hclaims) hclaims⟩

theorem enter_broken (h : built.problem ≠ none) (incoming : Entry) : (enter built incoming).problem ≠ none := by
  unfold enter
  split
  · exact h
  · split
    · split
      · exact h
      · split <;> exact h
    · split
      · exact h
      · exact firstProblem_ne_none _ _

theorem pairwise_snoc {R : Entry → Entry → Prop} : (entered ++ [incoming]).Pairwise R ↔
      entered.Pairwise R ∧ ∀ entry ∈ entered, R entry incoming := by
  simp [List.pairwise_append]

/-- Entering succeeds, with the entry compatible and summarized, or reports a problem, with
the entry incompatible. -/
theorem enter_cases (h : Summary entered built.names) (hok : built.problem = none)
    (incoming : Entry) :
    (enter built incoming).problem = none ∧ (∀ entry ∈ entered, Compatible entry incoming) ∧
        Summary (entered ++ [incoming]) (enter built incoming).names ∨
      (enter built incoming).problem ≠ none ∧
        ¬ ∀ entry ∈ entered, Compatible entry incoming := by
  cases hclaimant : claimant built.names incoming.name.id incoming.entity with
  | none =>
    have hfree : ∀ entry ∈ entered, ∀ space name, Claims entry space name →
        ¬ Claims incoming space name := by
      intro entry hentry space name hclaims hincoming
      obtain rfl : incoming.name.id = name := hincoming.spelling
      exact h.absent (claimant_none hclaimant hincoming.space) entry hentry hclaims
    left
    have henter : enter built incoming = { built with names := claimed built.names incoming } := by
      rw [enter, hclaimant]
    rw [henter]
    refine ⟨hok, ?_, h.taken ?_ ?_ ?_⟩
    all_goals
      exact fun entry hentry space name hclaims hincoming =>
        absurd hincoming (hfree entry hentry space name hclaims)
  | some held =>
    obtain ⟨space, hspace, hheld⟩ := claimant_some hclaimant
    rw [enter, hclaimant]
    dsimp only
    split
    · rename_i hfamily
      obtain ⟨hmethod, hentity⟩ := familyAgain_iff.mp hfamily
      have hsame : sameEntity held.entity incoming.entity = true := by simp [hentity]
      have hall := compatible_all h hheld hsame fun _ => hmethod
      left
      split
      · rename_i horigin
        refine ⟨hok, hall, h.again hheld hsame ?_⟩
        -- A method claims one space only, so what it meets there is the held entry.
        intro space' other hother hspace' _
        obtain ⟨id, hid⟩ := hmethod
        rw [hid] at hspace hspace'
        obtain rfl : space = space' := by cases space <;> cases space' <;> simp_all [claims]
        rw [hheld] at hother
        cases hother
        exact horigin
      · rename_i horigin
        split
        iterate 2
          · rename_i hincoming
            refine ⟨hok, hall, h.again hheld hsame ?_⟩
            rintro _ _ _ _ ⟨visibility, hdeclared⟩
            rw [hincoming] at hdeclared
            cases hdeclared
        · rename_i visibility hincoming
          refine ⟨hok, hall, h.taken ?_ ?_ ?_⟩
          · exact fun entry hentry space' name hclaims hthis =>
              sameEntity_symm (hall entry hentry space' name hclaims hthis).1
          · exact fun _ _ _ _ _ _ _ => ⟨visibility, hincoming⟩
          · intro entry hentry space' name hclaims hthis hpublic
            obtain ⟨id, hid⟩ := hmethod
            have hspaces := hthis.space
            rw [hid] at hspace hspaces
            obtain rfl : space = space' := by cases space <;> cases space' <;> simp_all [claims]
            obtain rfl : incoming.name.id = name := hthis.spelling
            exact horigin ((h.held hheld).published entry hentry hclaims hpublic)
    · rename_i hfamily
      split
      · rename_i harrives
        obtain ⟨hdeclared, hsame⟩ := arrivesAgain_iff.mp harrives
        left
        exact ⟨hok, compatible_all h hheld hsame fun hd => absurd hd hdeclared,
          h.again hheld hsame fun _ _ _ _ hd => absurd hd hdeclared⟩
      · rename_i harrives
        right
        refine ⟨firstProblem_ne_none _ _, fun hall => ?_⟩
        obtain ⟨hsame, hmethod⟩ := hall held (h.held hheld).mem space incoming.name.id
          (h.held hheld).claims ⟨rfl, hspace⟩
        by_cases hdeclared : incoming.origin.IsDeclared
        · have hmethod := hmethod hdeclared
          exact hfamily (familyAgain_iff.mpr ⟨hmethod, sameEntity_method hsame hmethod⟩)
        · exact harrives (arrivesAgain_iff.mpr ⟨hdeclared, hsame⟩)

theorem enter_reflects (h : Reflects entered ok built) (incoming : Entry) :
    Reflects (entered ++ [incoming]) ok (enter built incoming) := by
  by_cases hproblem : built.problem = none
  · obtain ⟨hok, hpairs⟩ := h.problem.mp hproblem
    rcases enter_cases (h.names hproblem) hproblem incoming with
      ⟨hnone, hall, hsummary⟩ | ⟨hsome, hnot⟩
    · exact ⟨iff_of_true hnone ⟨hok, pairwise_snoc.mpr ⟨hpairs, hall⟩⟩, fun _ => hsummary⟩
    · exact ⟨iff_of_false hsome fun hboth => hnot (pairwise_snoc.mp hboth.2).2,
        fun hnone => absurd hnone hsome⟩
  · have hbroken := enter_broken hproblem incoming
    refine ⟨iff_of_false hbroken fun hboth => ?_, fun hnone => absurd hnone hbroken⟩
    exact hproblem (h.problem.mpr ⟨hboth.1, (pairwise_snoc.mp hboth.2).1⟩)

end

theorem foldl_enter_reflects {ok : Prop} : ∀ {incoming : List Entry} {entered : List Entry}
    {built : BuiltScope}, Reflects entered ok built →
      Reflects (entered ++ incoming) ok (incoming.foldl enter built) := by
  intro incoming
  induction incoming with intro entered built h
  | nil =>
    rw [List.append_nil]
    exact h
  | cons entry rest ih =>
    rw [List.append_cons]
    exact ih (enter_reflects h entry)

end Blorp.Namespace
