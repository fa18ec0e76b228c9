import Blorp.Runtime.ListRules
import Blorp.Runtime.StringRules

/-!
# Consuming updates agree with copying ones

Every update that can take its left operand, in both versions, over any heap whose counts
are right.  Either version ends with a value of the same contents, or gives up because a
String or List that long cannot be, or memory was refused.
-/

namespace Blorp.Runtime

open Fuel Counted

variable {V : Type} [Managed V] {host : Host V} {heap next : Heap V} {held : Multiset Nat}
  {address target left : Nat} {root : StringObject} {text bytes : Bytes}

/-! ## Strings -/

theorem Sound.keeps (hsound : Sound host heap held)
    (h : HasContents heap (.counted address) (.text text)) :
    ∃ references root, heap.cell address = some ⟨references, .string root⟩ ∧
      Keeps host root text := by
  cases h with
  | text cell holds => exact ⟨_, _, cell, holds, (hsound.fits _ _ cell).2⟩

theorem Keeps.copied (h : Keeps host root text) (hsound : Sound host heap held) :
    Copied host heap (heap.add ⟨1, .string root⟩) held (.counted heap.fresh) (.text text) where
  sound := .of_apart heap
    (.create (hsound.accounts.congr (by simp [Object.owns])))
    (fun other _ found hfound => ⟨hsound.fits other found hfound, hsound.settled other found hfound⟩)
    (fun other hother => .of_eq (Store.cell_add_of_ne hother)) Store.cell_add_self
    ⟨⟨text, h.1⟩, h.2⟩ one_ne_zero
  contents := .text Store.cell_add_self h.1
  place := rfl
  kept other hother := .of_eq (Store.cell_add_of_ne hother)

theorem Moved.replaced (h : Moved heap next address target)
    (hsound : Sound host heap (address ::ₘ held))
    (haccounts : Accounts Object.owns next (target ::ₘ held))
    (hcell : next.cell target = some ⟨1, .string root⟩) (hkeeps : Keeps host root text) :
    Replaced host heap next held (.counted target) (.text text) where
  place := ⟨target, rfl, h.sound hsound haccounts hcell ⟨⟨text, hkeeps.1⟩, hkeeps.2⟩ one_ne_zero⟩
  contents := .text hcell hkeeps.1
  old other hother found hfound :=
    ⟨found, h.old (fun heq => hother (by rw [heq])) hfound, rfl⟩

/-- A suffix that is read the same wherever the left operand ends up. -/
structure Suffix (heap : Heap V) (left : Nat) (suffix : BytePointer) (bytes : Bytes) : Prop where
  beside : ∀ added, suffix.read bytes.length (heap.add added) = .ok (bytes, heap.add added)
  moved : ∀ found, heap.cell left = some found → found.references = 1 → ∀ next target,
    Moved heap next left target → suffix.read bytes.length next = .ok (bytes, next)

omit [Managed V] in
theorem suffix_buffer (bytes : Bytes) : Suffix heap left (.buffer bytes) bytes where
  beside _ := buffer_read bytes _
  moved _ _ _ next _ _ := buffer_read bytes next

theorem suffix_storage {right references : Nat}
    (hcell : heap.cell right = some ⟨references, .string root⟩) (hholds : root.Holds bytes)
    (haccounts : Accounts Object.owns heap (left ::ₘ held))
    (hlive : right ∈ held + heap.stored Object.owns) :
    Suffix heap left (.storage right 0) bytes where
  beside added := by
    rw [← hholds.length]
    exact hholds.read ((Store.cell_add_of_ne (Nat.ne_of_lt (Store.lt_fresh hcell))).trans hcell)
  moved found hleft honly next target hmoved := by
    rw [← hholds.length]
    exact hholds.read ((hmoved.live haccounts hleft honly hlive).2.1.trans hcell)

section

variable {suffix : BytePointer}

theorem appendBytes_copied (hsound : Sound host heap held)
    (hleft : HasContents heap (.counted left) (.text text))
    (hread : ∀ added, suffix.read bytes.length (heap.add added) = .ok (bytes, heap.add added)) :
    Performs (Aborts host heap (.text (text ++ bytes)))
      (fun _ => blorpStringAppendBytes host left suffix bytes.length) heap
      fun result next => Copied host heap next held (.counted result) (.text (text ++ bytes)) := by
  obtain ⟨references, root, hcell, hkeeps⟩ := hsound.keeps hleft
  refine (appendBytes_performs hcell hkeeps.1 hread).post fun result next hresult => ?_
  obtain ⟨rfl, joined, rfl, hjoined⟩ := hresult
  exact hjoined.copied hsound

theorem appendBytesTakeLeft_performs (hsound : Sound host heap (left ::ₘ held))
    (hleft : HasContents heap (.counted left) (.text text))
    (hsuffix : Suffix heap left suffix bytes) :
    Performs (Aborts host heap (.text (text ++ bytes)))
      (fun n => blorpStringAppendBytesTakeLeft host n left suffix bytes.length) heap
      fun result next =>
        Consumed host heap next (.counted left) held (.counted result) (.text (text ++ bytes)) := by
  obtain ⟨references, root, hcell, hkeeps⟩ := hsound.keeps hleft
  have hread : (Root.counted left).references heap = .ok (references, heap) :=
    Action.bind_eq_ok.mpr ⟨_, heap, load_eq hcell, rfl⟩
  by_cases honly : references = 1
  · subst honly
    refine (appendUnique_performs hsound.accounts hcell hkeeps
      (fun next target hmoved _ => hsuffix.moved _ hcell rfl next target hmoved)).post
      fun target next hresult => ?_
    obtain ⟨joined, hjoined, hmoved, htarget, haccounts⟩ := hresult
    refine ⟨hmoved.replaced hsound haccounts htarget hjoined, fun count hagain hmany => ?_⟩
    rw [hread] at hagain
    cases hagain
    exact absurd rfl hmany
  · have hpos : references ≠ 0 := hsound.settled _ _ hcell
    refine Performs.step hread ?_
    simp only [ne_eq, honly, not_false_eq_true, ↓reduceIte]
    refine (appendBytes_copied hsound hleft hsuffix.beside).bind fun result next hcopied => ?_
    refine (hcopied.drop_performs result hcell (by simp only; omega)).post fun given last hlast => ?_
    obtain ⟨rfl, hreplaced, hextends⟩ := hlast
    exact ⟨hreplaced, fun _ _ _ => hextends⟩

end

/-! ## Updates -/

/-- The updates that have a consuming version, with their other operands. -/
inductive Update (V : Type) where
  | listAppend (key : ListKey) (value : V)
  | listSet (key : ListKey) (index : Int64) (value : V)
  | listConcat (key : ListKey) (right : Root)
  | stringConcat (right : Nat)
  | stringAppendInt (value : Int64)

/-- A String operation on a root. -/
def onString (run : Nat → HeapAction V Nat) : Root → HeapAction V Root
  | .counted address => do
      let result ← run address
      return .counted result
  | .emptyList _ => Action.fail .access

namespace Update

def borrowing (host : Host V) (left : Root) : Update V → HeapAction V Root
  | .listAppend key value => blorpListAppend host key left value
  | .listSet key index value => blorpListSet host key left index value
  | .listConcat key right => blorpListConcat host key left right
  | .stringConcat right => onString (fun left => blorpStringConcat host left right) left
  | .stringAppendInt value => onString (fun left => blorpStringAppendInt host left value) left

def consuming (host : Host V) (fuel : Nat) (left : Root) : Update V → HeapAction V Root
  | .listAppend key value => blorpListAppendTakeLeft host fuel key left value
  | .listSet key index value => blorpListSetTakeLeft host fuel key left index value
  | .listConcat key right => blorpListConcatTakeLeft host fuel key left right
  | .stringConcat right => onString (fun left => blorpStringConcatTakeLeft host fuel left right) left
  | .stringAppendInt value =>
      onString (fun left => blorpStringAppendIntTakeLeft host fuel left value) left

/-- The counted roots an update borrows. -/
def borrows : Update V → List Nat
  | .listAppend _ value => addresses value
  | .listSet _ _ value => addresses value
  | .listConcat _ right => right.address
  | .stringConcat right => [right]
  | .stringAppendInt _ => []

/-- What an update makes of the contents of its operands. -/
inductive Makes (heap : Heap V) (left : Root) : Update V → Contents V → Prop where
  | listAppend {key values} (value : V) (operand : HasContents heap left (.elements key values)) :
      Makes heap left (.listAppend key value) (.elements key (values ++ [value]))
  | listSet {key values} (index : Int64) (value : V)
      (operand : HasContents heap left (.elements key values)) :
      Makes heap left (.listSet key index value) (.elements key (writtenAt values index value))
  | listConcat {key values right more} (operand : HasContents heap left (.elements key values))
      (other : HasContents heap right (.elements key more)) :
      Makes heap left (.listConcat key right) (.elements key (values ++ more))
  | stringConcat {text right more} (operand : HasContents heap left (.text text))
      (other : HasContents heap (.counted right) (.text more)) :
      Makes heap left (.stringConcat right) (.text (text ++ more))
  | stringAppendInt {text : Bytes} (value : Int64) (operand : HasContents heap left (.text text)) :
      Makes heap left (.stringAppendInt value) (.text (text ++ decimalForm value.toInt))

end Update

omit [Managed V] in
theorem decimalBuffer_eq (value : Int64) (heap : Heap V) :
    decimalBuffer value heap = .ok (decimalForm value.toInt, heap) := by
  unfold decimalBuffer
  rw [(blorpInt64Decimal_eq value).1]
  rfl

omit [Managed V] in
theorem onString_performs {P : Fault → Prop} {Q : Root → Heap V → Prop}
    (run : Nat → Nat → HeapAction V Nat)
    (h : Performs P (fun n => run n address) heap fun result next => Q (.counted result) next) :
    Performs P (fun n => onString (run n) (.counted address)) heap Q :=
  h.bind fun _ _ hresult => Performs.pure hresult

omit [Managed V] in
theorem HasContents.counted {left : Root} (h : HasContents heap left (.text text)) :
    ∃ address, left = .counted address := by
  cases h with
  | text cell => exact ⟨_, rfl⟩

theorem borrowing_performs {left : Root} {update : Update V} {contents : Contents V}
    (hsound : Sound host heap held) (hmakes : update.Makes heap left contents)
    (hborrows : ∀ other ∈ update.borrows, heap.references other ≠ 0) :
    Performs (Aborts host heap contents) (fun _ => update.borrowing host left) heap
      fun result next => Copied host heap next held result contents := by
  cases hmakes with
  | listAppend value operand => exact blorpListAppend_performs hsound operand hborrows
  | listSet index value operand => exact blorpListSet_performs hsound operand index hborrows
  | listConcat operand other => exact blorpListConcat_performs hsound operand other
  | @stringConcat text right more operand other =>
    obtain ⟨address, rfl⟩ := operand.counted
    obtain ⟨references, root, hcell, hkeeps⟩ := hsound.keeps other
    refine onString_performs _ (Performs.step (loadString_eq hcell) ?_)
    rw [hkeeps.1.length]
    refine appendBytes_copied hsound operand fun added => ?_
    rw [← hkeeps.1.length]
    exact hkeeps.1.read
      ((Store.cell_add_of_ne (Nat.ne_of_lt (Store.lt_fresh hcell))).trans hcell)
  | stringAppendInt value operand =>
    obtain ⟨address, rfl⟩ := operand.counted
    refine onString_performs (fun _ left => blorpStringAppendInt host left value) ?_
    refine Performs.step (decimalBuffer_eq value heap) ?_
    exact appendBytes_copied hsound operand fun added => buffer_read _ _

theorem consuming_performs {left : Root} {update : Update V} {contents : Contents V}
    (hsound : Sound host heap (↑left.address + held)) (hmakes : update.Makes heap left contents)
    (hborrows : ∀ other ∈ update.borrows, other ∈ held + heap.stored Object.owns) :
    Performs (Aborts host heap contents) (fun n => update.consuming host n left) heap
      fun result next => Consumed host heap next left held result contents := by
  cases hmakes with
  | listAppend value operand => exact blorpListAppendTakeLeft_performs hsound operand hborrows
  | listSet index value operand => exact blorpListSetTakeLeft_performs hsound operand index hborrows
  | listConcat operand other => exact blorpListConcatTakeLeft_performs hsound operand other hborrows
  | @stringConcat text right more operand other =>
    obtain ⟨address, rfl⟩ := operand.counted
    rw [cons_address] at hsound
    obtain ⟨references, root, hcell, hkeeps⟩ := hsound.keeps other
    refine onString_performs _ (Performs.step (loadString_eq hcell) ?_)
    rw [hkeeps.1.length]
    exact appendBytesTakeLeft_performs hsound operand
      (suffix_storage hcell hkeeps.1 hsound.accounts (hborrows right (List.mem_singleton_self _)))
  | stringAppendInt value operand =>
    obtain ⟨address, rfl⟩ := operand.counted
    rw [cons_address] at hsound
    refine onString_performs (fun n left => blorpStringAppendIntTakeLeft host n left value) ?_
    refine Performs.step (decimalBuffer_eq value heap) ?_
    exact appendBytesTakeLeft_performs hsound operand (suffix_buffer _)

omit [Managed V] in
theorem blorpListCapacity_total {host : Host V} {current required maximum : Nat}
    (hsize : maximum ≤ host.sizeMax) :
    Outcome.Settles (fun n => blorpListCapacity host n current required maximum) (.err .abort) ∨
      ∃ grown, Outcome.Settles (fun n => blorpListCapacity host n current required maximum)
        (.ok grown) ∧ required ≤ grown ∧ current ≤ grown ∧ grown ≤ maximum := by
  by_cases hwithin : (current ≤ maximum ∧ current ≤ int64Max) ∧ required ≤ maximum ∧
      required ≤ int64Max
  · obtain ⟨grown, hsettles, hrequired, hcurrent, hmost, -⟩ :=
      blorpListCapacity_settles hsize hwithin.1 hwithin.2
    exact .inr ⟨grown, hsettles, hrequired, hcurrent, hmost⟩
  · refine .inl ?_
    unfold blorpListCapacity
    generalize hlimit : (if maximum > int64Max then int64Max else maximum) = limit
    have hbeyond : current > limit ∨ required > limit := by
      rw [← hlimit]
      split <;> omega
    simp only [if_pos hbeyond]
    exact .const (by simp)

/-- **In-place updates agree with copying ones.** -/
theorem consuming_agrees_with_borrowing {left : Root} {update : Update V} {contents : Contents V}
    (hsound : Sound host heap (↑left.address + held)) (hmakes : update.Makes heap left contents)
    (hborrows : ∀ other ∈ update.borrows, other ∈ held + heap.stored Object.owns) :
    Performs (Aborts host heap contents) (fun _ => update.borrowing host left) heap
        (fun result next => HasContents next result contents) ∧
      Performs (Aborts host heap contents) (fun n => update.consuming host n left)
        heap (fun result next => HasContents next result contents ∧
          Sound host next (↑result.address + held) ∧
          (∀ other, next.references other +
              (↑left.address + heap.stored Object.owns).count other =
            heap.references other + (↑result.address + next.stored Object.owns).count other) ∧
          ∀ count, left.references heap = .ok (count, heap) → count ≠ 1 → heap.Extends next) ∧
      (∀ current required maximum, maximum ≤ host.sizeMax →
        Outcome.Settles (fun n => blorpListCapacity host n current required maximum)
            (.err .abort) ∨
          ∃ grown, Outcome.Settles (fun n => blorpListCapacity host n current required maximum)
            (.ok grown) ∧ required ≤ grown ∧ current ≤ grown ∧ grown ≤ maximum) ∧
      ∀ capacity length, 0 < capacity → capacity ≤ host.stringMaximumCapacity →
        length ≤ host.stringMaximumCapacity → ∃ grown, Outcome.Settles
          (fun n => growCapacity host host.stringMaximumCapacity length n capacity) (.ok grown) ∧
          length ≤ grown ∧ capacity ≤ grown ∧ grown ≤ host.stringMaximumCapacity := by
  refine ⟨?_, ?_, fun _ _ _ hsize => blorpListCapacity_total hsize, ?_⟩
  · refine (borrowing_performs hsound hmakes fun other hmem =>
      hsound.live_of_mem (hborrows other hmem)).post fun result next hcopied => ?_
    exact hcopied.contents
  · refine (consuming_performs hsound hmakes hborrows).post fun result next hconsumed => ?_
    obtain ⟨⟨⟨target, rfl, hnext⟩, hcontents, -⟩, hkept⟩ := hconsumed
    have hheld := cons_address target held
    refine ⟨hcontents, hheld ▸ hnext, fun other => ?_, hkept⟩
    have hbefore := hsound.accounts other
    have hafter := hnext.accounts other
    rw [← hheld] at hafter
    simp only [Multiset.count_add] at hbefore hafter ⊢
    omega
  · intro capacity length hpos hcapacity hlength
    have hsize := (stringMaximum_le host).1
    obtain ⟨grown, hsettles, hfits, hkeeps, hmost, -⟩ :=
      growCapacity_settles host _ length capacity (by omega) hlength hcapacity (.inl hpos)
    exact ⟨grown, hsettles, hfits, hkeeps, hmost⟩

/-- A machine of 64 bits that grants every request and moves every block. -/
def ampleHost : Host Root where
  sizeMax := 2 ^ 64 - 1
  stringHeader := 24
  listHeader _ := 24
  elementSize _ := 8
  grants _ _ := true
  moves _ _ := true
  string_fits := by decide
  list_fits _ := by decide
  element_pos _ := by decide

/-- A full List of one empty List, which the program also holds, and a String. -/
def sample : Heap Root :=
  ⟨[some ⟨1, .list ⟨0, [.counted 1], 1⟩⟩, some ⟨2, .list ⟨1, [], 4⟩⟩,
    some ⟨1, .string ⟨2, 32, [some 110, some 61, some 0] ++ List.replicate 30 none⟩⟩]⟩

theorem sample_text : StringObject.Holds ⟨2, 32, [some 110, some 61, some 0] ++ List.replicate 30 none⟩
    [110, 61] :=
  ⟨rfl, rfl, List.replicate 30 none, rfl⟩

theorem sample_cell {address : Nat} {found : Cell (Object Root)}
    (h : sample.cell address = some found) :
    found.object.Fits ampleHost ∧ found.references ≠ 0 := by
  rcases address with _ | _ | _ | address
  iterate 2
    · obtain rfl : _ = found := Option.some_injective _ h
      exact ⟨⟨by decide, by decide, by decide⟩, by decide⟩
  · obtain rfl : _ = found := Option.some_injective _ h
    exact ⟨⟨⟨[110, 61], sample_text⟩, by decide⟩, by decide⟩
  · simp [Store.cell, sample] at h

theorem sample_sound : Sound ampleHost sample {0, 1, 2} := by
  refine ⟨fun address => ?_, fun _ _ h => (sample_cell h).1, fun _ _ h => (sample_cell h).2⟩
  rcases address with _ | _ | _ | address
  iterate 3 decide
  have hstored : sample.stored Object.owns = {1} := by decide
  rw [hstored]
  simp [Store.references, Store.cell, sample]

theorem ampleHost_settles {α : Type} {f : Nat → HeapAction Root α} {Q : α → Heap Root → Prop}
    {contents : Contents Root} (hlength : ¬ contents.Exceeds ampleHost)
    (h : Performs (Aborts ampleHost sample contents) f sample Q) :
    ∃ result next, Outcome.Settles (fun n => f n sample) (.ok (result, next)) ∧ Q result next := by
  obtain ⟨outcome, hsettles, hok, herr⟩ := h
  cases outcome with
  | ok found => exact ⟨found.1, found.2, hsettles, hok _ _ rfl⟩
  | err fault =>
    obtain ⟨-, hexceeds | ⟨size, -, hgrants⟩⟩ := herr fault rfl
    · exact absurd hexceeds hlength
    · cases hgrants
  | timeout => exact absurd rfl hsettles.1

/-- What taking a root of the sample gives. -/
def Takes (left : Nat) (update : Update Root) (contents : Contents Root) : Prop :=
  ∃ result next,
    Outcome.Settles (fun n => update.consuming ampleHost n (.counted left) sample)
      (.ok (result, next)) ∧ HasContents next result contents

/-- An element replaced by itself, a full List that moves as it grows, an alias that forces the
copy and leaves the heap as it was, and a String with a number. -/
theorem consuming_agrees_on_sample :
    Takes 0 (.listSet 0 0 (.counted 1)) (.elements 0 [.counted 1]) ∧
      Takes 0 (.listAppend 0 (.counted 1)) (.elements 0 [.counted 1, .counted 1]) ∧
      (∃ result next, Outcome.Settles (fun n =>
          (Update.listAppend 1 (.counted 2)).consuming ampleHost n (.counted 1) sample)
          (.ok (result, next)) ∧
        HasContents next result (.elements 1 [.counted 2]) ∧ sample.Extends next) ∧
      Takes 2 (.stringAppendInt (-7)) (.text [110, 61, 45, 55]) := by
  have hfull : sample.cell 0 = some ⟨1, .list ⟨0, [.counted 1], 1⟩⟩ := rfl
  have hempty : sample.cell 1 = some ⟨2, .list ⟨1, [], 4⟩⟩ := rfl
  have hname : sample.cell 2 = some ⟨1, .string
    ⟨2, 32, [some 110, some 61, some 0] ++ List.replicate 30 none⟩⟩ := rfl
  have hfirst : Sound ampleHost sample (↑(Root.counted 0).address + {1, 2}) := sample_sound
  have hsecond : Sound ampleHost sample (↑(Root.counted 1).address + {0, 2}) := by
    convert sample_sound using 1
    decide
  have hthird : Sound ampleHost sample (↑(Root.counted 2).address + {0, 1}) := by
    convert sample_sound using 1
    decide
  have hset := consuming_agrees_with_borrowing hfirst
    (.listSet 0 (Root.counted 1) (.elements hfull)) (by decide)
  have hgrown := consuming_agrees_with_borrowing hfirst
    (.listAppend (Root.counted 1) (.elements hfull)) (by decide)
  have hcopied := consuming_agrees_with_borrowing hsecond
    (.listAppend (Root.counted 2) (.elements hempty)) (by decide)
  have hdecimal := consuming_agrees_with_borrowing hthird
    (.stringAppendInt (-7) (.text hname sample_text)) (by decide)
  obtain ⟨result, next, hsettles, hcontents, -⟩ := ampleHost_settles (by decide) hset.2.1
  obtain ⟨moved, grown, hmoved, hmore, -⟩ := ampleHost_settles (by decide) hgrown.2.1
  obtain ⟨fresh, copied, hfresh, hsame, -, -, hkept⟩ := ampleHost_settles (by decide) hcopied.2.1
  obtain ⟨text, written, hwritten, htext, -⟩ := ampleHost_settles (by decide) hdecimal.2.1
  exact ⟨⟨result, next, hsettles, hcontents⟩, ⟨moved, grown, hmoved, hmore⟩,
    ⟨fresh, copied, hfresh, hsame, hkept 2 rfl (by decide)⟩, text, written, hwritten, htext⟩

end Blorp.Runtime
