import Blorp.Runtime.HeapRules

/-!
# What the String operations keep

Reads and writes of a String's storage in terms of its text, and from them the two ways to
append: into a new String, and in place into a transferred one that nobody else refers to.
-/

namespace Blorp.Runtime

open Fuel Counted

variable {V : Type} {host : Host V} {heap next : Heap V} {held : Multiset Nat}
  {address target : Nat} {root : StringObject} {text : Bytes}

/-! ## Storage -/

theorem mapM_some (bytes : Bytes) : (bytes.map some).mapM id = some bytes := by
  induction bytes with
  | nil => rfl
  | cons byte bytes ih => simp [List.mapM_cons, ih]

variable {rest : List (Option UInt8)} {offset references : Nat} {bytes : Bytes}

theorem read_eq (h : root.bytes = text.map some ++ rest) {count : Nat}
    (hrange : offset + count ≤ text.length) :
    root.read offset count = some ((text.drop offset).take count) := by
  have hlength : offset + count ≤ root.bytes.length := by
    rw [h, List.length_append, List.length_map]
    omega
  have htake : (root.bytes.drop offset).take count =
      ((text.drop offset).take count).map some := by
    rw [h, List.drop_append_of_le_length (by rw [List.length_map]; omega),
      List.take_append_of_le_length (by rw [List.length_drop, List.length_map]; omega),
      List.map_take, List.map_drop]
  unfold StringObject.read
  rw [if_pos hlength, htake, mapM_some]

section

variable (hcell : heap.cell address = some ⟨references, .string root⟩)

include hcell

theorem loadString_eq : loadString address heap = .ok (root, heap) := by
  show (load address heap >>= fun found => _) = _
  rw [load_eq hcell]
  rfl

theorem assignString_eq (changed : StringObject) : assignString address changed heap =
      .ok ((), heap.put address (some ⟨references, .string changed⟩)) := by
  show (load address heap >>= fun found => _) = _
  rw [load_eq hcell]
  exact assign_eq hcell _

theorem storage_read (h : root.bytes = text.map some ++ rest) {count : Nat}
    (hrange : offset + count ≤ text.length) :
    (BytePointer.storage address offset).read count heap =
      .ok ((text.drop offset).take count, heap) := by
  refine Action.bind_eq_ok.mpr ⟨root, heap, loadString_eq hcell, ?_⟩
  rw [read_eq h hrange]
  rfl

end

theorem StringObject.Holds.read (h : root.Holds text)
    (hcell : heap.cell address = some ⟨references, .string root⟩) :
    (BytePointer.storage address 0).read root.length heap = .ok (text, heap) := by
  obtain ⟨rest, hwritten⟩ := h.written
  have hrange : 0 + text.length ≤ text.length := Nat.le_of_eq (Nat.zero_add _)
  rw [h.length, storage_read hcell hwritten hrange, List.drop_zero, List.take_length]

theorem buffer_read (bytes : Bytes) (heap : Heap V) :
    (BytePointer.buffer bytes).read bytes.length heap = .ok (bytes, heap) := by
  show (if bytes.length ≤ bytes.length then _ else _ : HeapAction V Bytes) heap = _
  rw [if_pos (Nat.le_refl _), List.take_length]
  rfl

def StringObject.written (root : StringObject) (offset : Nat) (bytes : Bytes) : StringObject :=
  { root with
    bytes := root.bytes.take offset ++ bytes.map some ++ root.bytes.drop (offset + bytes.length) }

theorem writeBytes_eq (hcell : heap.cell address = some ⟨references, .string root⟩)
    (hrange : offset + bytes.length ≤ root.bytes.length) :
    writeBytes address offset bytes heap =
      .ok ((), heap.put address (some ⟨references, .string (root.written offset bytes)⟩)) := by
  refine Action.bind_eq_ok.mpr ⟨root, heap, loadString_eq hcell, ?_⟩
  rw [if_pos hrange]
  exact assignString_eq hcell _

theorem written_bytes (h : root.bytes = text.map some ++ rest) (bytes : Bytes) :
    (root.written text.length bytes).bytes =
      (text ++ bytes).map some ++ rest.drop bytes.length := by
  have htake : root.bytes.take text.length = text.map some := by
    rw [h]
    exact List.take_left' (List.length_map some)
  have hdrop : root.bytes.drop (text.length + bytes.length) = rest.drop bytes.length := by
    rw [h, ← List.drop_drop, List.drop_left' (List.length_map some)]
  show root.bytes.take text.length ++ bytes.map some ++ _ = _
  rw [htake, hdrop, List.map_append]

theorem written_length (hrange : offset + bytes.length ≤ root.bytes.length) :
    (root.written offset bytes).bytes.length = root.bytes.length := by
  show (root.bytes.take offset ++ bytes.map some ++ _).length = _
  rw [List.length_append, List.length_append, List.length_take, List.length_map, List.length_drop]
  omega

theorem holds_written (h : root.bytes = text.map some ++ rest)
    (hstorage : root.bytes.length = root.capacity + 1)
    (hroom : text.length + bytes.length ≤ root.capacity)
    (hlength : root.length = text.length + bytes.length) :
    ((root.written text.length bytes).written (text.length + bytes.length) [0]).Holds
      (text ++ bytes) := by
  have hrest : rest.length = root.capacity + 1 - text.length := by
    have hall := congrArg List.length h
    rw [List.length_append, List.length_map, hstorage] at hall
    omega
  have hfirst := written_bytes h bytes
  have hfirstLength : (root.written text.length bytes).bytes.length = root.bytes.length :=
    written_length (by omega)
  have hjoined : text.length + bytes.length = (text ++ bytes).length := List.length_append.symm
  refine ⟨?_, ?_, ?_⟩
  · rw [← hjoined]
    exact hlength
  · exact (written_length (by simp; omega)).trans (hfirstLength.trans hstorage)
  · refine ⟨(rest.drop bytes.length).drop 1, ?_⟩
    rw [hjoined, written_bytes hfirst [0], List.map_append, List.append_assoc]
    rfl

/-! ## Allocating -/

theorem stringMaximum_le (host : Host V) :
    host.stringHeader + host.stringMaximumCapacity + 1 ≤ host.sizeMax ∧
      host.stringMaximumCapacity ≤ int64Max ∧
      stringMinimumCapacity ≤ host.stringMaximumCapacity := by
  have hfits := host.string_fits
  have hminimum : stringMinimumCapacity ≤ int64Max := by decide
  unfold Host.stringMaximumCapacity
  simp only
  split <;> omega

def stringCapacity (length : Nat) : Nat :=
  if length < stringMinimumCapacity then stringMinimumCapacity else length

def unwritten (length : Nat) : StringObject :=
  ⟨length, stringCapacity length, List.replicate (stringCapacity length + 1) none⟩

theorem le_stringCapacity (length : Nat) :
    length ≤ stringCapacity length ∧ stringMinimumCapacity ≤ stringCapacity length := by
  unfold stringCapacity
  split <;> omega

theorem stringCapacity_le {length : Nat} (h : length ≤ host.stringMaximumCapacity) :
    stringCapacity length ≤ host.stringMaximumCapacity := by
  have := (stringMaximum_le host).2.2
  unfold stringCapacity
  split <;> omega

theorem allocate_performs {α : Type} {Q : α → Heap V → Prop} {length : Nat}
    {rest : Nat → Nat → HeapAction V α} (h : length ≤ host.stringMaximumCapacity)
    (htext : text.length = length)
    (hrest : Performs (Aborts host heap (.text text)) (fun n => rest n heap.fresh)
      (heap.add ⟨1, .string (unwritten length)⟩) Q) :
    Performs (Aborts host heap (.text text))
      (fun n => blorpStringAllocate host length >>= rest n) heap Q := by
  have hcapacity := stringCapacity_le h
  have hsize : host.stringHeader + stringCapacity length + 1 ≤ host.sizeMax := by
    have := (stringMaximum_le host).1
    omega
  have hallocate : Performs (Aborts host heap (.text text)) (fun _ => blorpStringAllocate host length) heap
      fun result next => result = heap.fresh ∧
        next = heap.add ⟨1, .string (unwritten length)⟩ := by
    unfold blorpStringAllocate
    rw [if_neg (by simp only [Int.toNat_natCast]; omega)]
    refine Performs.liftStep (checked_settles hsize) ?_
    refine Performs.step (a := host.grants heap (host.stringHeader + stringCapacity length + 1)) rfl ?_
    show Performs _ (fun _ =>
      if host.grants heap (host.stringHeader + stringCapacity length + 1) = true then
        create (.string (unwritten length))
      else Action.fail .abort) heap _
    cases hgrants : host.grants heap (host.stringHeader + stringCapacity length + 1) with
    | true => exact Performs.done (fun _ => rfl) ⟨rfl, rfl⟩
    | false =>
      refine Performs.fails (fun _ => rfl) ⟨rfl, .inr ⟨_, .text ?_ ?_ hcapacity, hgrants⟩⟩
      · exact htext ▸ (le_stringCapacity length).1
      · unfold stringCapacity
        split <;> omega
  refine hallocate.bind fun result next hresult => ?_
  obtain ⟨rfl, rfl⟩ := hresult
  exact hrest

theorem put_add (heap : Heap V) (added changed : Cell (Object V)) :
    (heap.add added).put heap.fresh (some changed) = heap.add changed := by
  refine congrArg Store.mk ?_
  show (heap.cells ++ [some added]).set heap.cells.length (some changed) = _
  rw [List.set_append_right _ _ (Nat.le_refl _), Nat.sub_self]
  rfl

/-- A String that holds a text and fits. -/
def Keeps (host : Host V) (root : StringObject) (text : Bytes) : Prop :=
  root.Holds text ∧ stringMinimumCapacity ≤ root.capacity ∧
    root.capacity ≤ host.stringMaximumCapacity

/-! ## Appending into a new String -/

section

variable {left references : Nat}

section

variable (hcell : heap.cell left = some ⟨references, .string root⟩)

include hcell

theorem appendLength_eq (hlength : root.length = text.length) {count : Nat}
    (hfits : text.length + count ≤ host.stringMaximumCapacity) :
    blorpStringAppendLength host left count heap = .ok (text.length + count, heap) := by
  have hmaximum := (stringMaximum_le host).2.1
  refine Action.bind_eq_ok.mpr ⟨root, heap, loadString_eq hcell, ?_⟩
  rw [hlength, if_neg (by omega)]
  unfold Host.checked
  rw [if_pos (by omega)]
  rfl

theorem appendLength_aborts (hlength : root.length = text.length) {count : Nat}
    (hlong : host.stringMaximumCapacity < text.length + count) :
    blorpStringAppendLength host left count heap = .err .abort := by
  show (loadString left heap >>= fun found => _) = _
  rw [loadString_eq hcell]
  simp only [Outcome.ok_bind, hlength]
  rw [if_pos (by omega)]
  rfl

/-- The joined text in a new String; the suffix is read where only the new String was
added. -/
theorem appendBytes_performs {suffix : BytePointer} {bytes : Bytes} (hholds : root.Holds text)
    (hread : ∀ added, suffix.read bytes.length (heap.add added) = .ok (bytes, heap.add added)) :
    Performs (Aborts host heap (.text (text ++ bytes)))
      (fun _ => blorpStringAppendBytes host left suffix bytes.length) heap
      fun result next => result = heap.fresh ∧
        ∃ joined, next = heap.add ⟨1, .string joined⟩ ∧ Keeps host joined (text ++ bytes) := by
  by_cases hlong : host.stringMaximumCapacity < text.length + bytes.length
  · refine Performs.fails (e := .abort) (fun _ => ?_) ⟨rfl, .inl ?_⟩
    · show (blorpStringAppendLength host left bytes.length heap >>= fun found => _) = _
      rw [appendLength_aborts hcell hholds.length hlong]
      rfl
    · rwa [← List.length_append] at hlong
  · refine Performs.step (appendLength_eq hcell hholds.length (by omega)) ?_
    refine allocate_performs (by omega) List.length_append ?_
    generalize hnew : text.length + bytes.length = length at *
    have hother : left ≠ heap.fresh := Nat.ne_of_lt (Store.lt_fresh hcell)
    have hkept : ∀ added, (heap.add added).cell left = some ⟨references, .string root⟩ :=
      fun added => (Store.cell_add_of_ne hother).trans hcell
    have hroom := (le_stringCapacity length).1
    have hstorage : (unwritten length).bytes.length = stringCapacity length + 1 :=
      List.length_replicate
    refine Performs.step (loadString_eq (hkept _)) ?_
    refine Performs.step (hholds.read (hkept _)) ?_
    refine Performs.step (writeBytes_eq Store.cell_add_self (by omega)) ?_
    rw [put_add]
    refine Performs.step (hread _) ?_
    have hfirst : ((unwritten length).written 0 text).bytes.length = stringCapacity length + 1 :=
      (written_length (by omega)).trans hstorage
    refine Performs.step (writeBytes_eq Store.cell_add_self
      (by rw [hholds.length]; omega)) ?_
    rw [put_add, hholds.length]
    have hsecond : (((unwritten length).written 0 text).written text.length bytes).bytes.length =
        stringCapacity length + 1 :=
      (written_length (by omega)).trans hfirst
    refine Performs.step (writeBytes_eq Store.cell_add_self (by simp; omega)) ?_
    rw [put_add]
    refine Performs.done (fun _ => rfl) ⟨rfl, _, rfl, ?_, ?_, ?_⟩
    · have htext : ((unwritten length).written 0 text).bytes =
          text.map some ++ (unwritten length).bytes.drop text.length := by
        have hempty : (unwritten length).bytes = ([] : Bytes).map some ++ (unwritten length).bytes :=
          rfl
        exact written_bytes hempty text
      have hjoined := holds_written htext hfirst (hnew.le.trans hroom) hnew.symm
      rwa [hnew] at hjoined
    · exact (le_stringCapacity length).2
    · exact stringCapacity_le (by omega)

end

end

/-! ## Appending in place -/

section

variable [Managed V]

/-- Room for `length` bytes in a root that nobody else refers to; what it held is still
there. -/
theorem stringReserveUnique_performs {length : Nat} {joined : Bytes}
    (h : Accounts Object.owns heap (address ::ₘ held))
    (hcell : heap.cell address = some ⟨1, .string root⟩) (hkeeps : Keeps host root text)
    (hlength : length ≤ host.stringMaximumCapacity) (hjoined : joined.length = length) :
    Performs (Aborts host heap (.text joined))
      (fun n => blorpStringReserveUnique host n address length) heap
      fun target next => ∃ grown, length ≤ grown.capacity ∧ Keeps host grown text ∧
        Moved heap next address target ∧ next.cell target = some ⟨1, .string grown⟩ ∧
        Accounts Object.owns next (target ::ₘ held) := by
  obtain ⟨hholds, hleast, hmost⟩ := hkeeps
  refine Performs.step (loadString_eq hcell) ?_
  by_cases hroom : length ≤ root.capacity
  · simp only [if_pos hroom]
    exact Performs.pure ⟨root, hroom, ⟨hholds, hleast, hmost⟩, ⟨fun _ _ _ => rfl, .inl rfl⟩, hcell, h⟩
  · simp only [if_neg hroom]
    have hmaximum := (stringMaximum_le host).1
    have hpos : 0 < stringMinimumCapacity := by decide
    obtain ⟨capacity, hsettles, henough, hgrown, hwithin, htwice⟩ := growCapacity_settles host
      host.stringMaximumCapacity length root.capacity (by omega) hlength hmost (.inl (by omega))
    refine Performs.liftStep hsettles ?_
    refine Performs.liftStep (checked_settles (by omega)) ?_
    refine (memoryResize_performs h hcell _).bind fun result next hresult => ?_
    rcases hresult with ⟨rfl, hrefused⟩ | ⟨target, rfl, hmoved, htarget, haccounts⟩
    · exact Performs.fails (fun _ => rfl)
        ⟨rfl, .inr ⟨_, .text (by omega) (by omega) hwithin, hrefused⟩⟩
    · refine Performs.step (loadString_eq htarget) ?_
      refine Performs.step (assignString_eq htarget _) ?_
      refine Performs.pure ⟨{ root with
          capacity := capacity
          bytes := root.bytes ++ List.replicate (capacity + 1 - root.bytes.length) none },
        henough, ⟨⟨hholds.length, ?_, ?_⟩, hleast.trans hgrown, hwithin⟩,
        hmoved.put htarget _, Store.cell_put_self (Store.lt_fresh htarget),
        replace_same haccounts htarget one_ne_zero rfl⟩
      · simp only [List.length_append, List.length_replicate, hholds.storage]
        omega
      · obtain ⟨rest, hwritten⟩ := hholds.written
        exact ⟨rest ++ List.replicate (capacity + 1 - root.bytes.length) none, by simp [hwritten]⟩

theorem appendUnique_performs {suffix : BytePointer} {bytes : Bytes}
    (h : Accounts Object.owns heap (address ::ₘ held))
    (hcell : heap.cell address = some ⟨1, .string root⟩) (hkeeps : Keeps host root text)
    (hread : ∀ next target, Moved heap next address target → heap.cell address ≠ none →
      suffix.read bytes.length next = .ok (bytes, next)) :
    Performs (Aborts host heap (.text (text ++ bytes)))
      (fun n => blorpStringAppendBytesTakeLeft host n address suffix bytes.length) heap
      fun target next => ∃ joined, Keeps host joined (text ++ bytes) ∧
        Moved heap next address target ∧ next.cell target = some ⟨1, .string joined⟩ ∧
        Accounts Object.owns next (target ::ₘ held) := by
  refine Performs.step (a := 1) (Action.bind_eq_ok.mpr ⟨_, heap, load_eq hcell, rfl⟩) ?_
  simp only [ne_eq, not_true_eq_false, ↓reduceIte]
  by_cases hlong : host.stringMaximumCapacity < text.length + bytes.length
  · refine Performs.fails (e := .abort) (fun n => ?_) ⟨rfl, .inl ?_⟩
    · show (blorpStringAppendLength host address bytes.length heap >>= fun found => _) = _
      rw [appendLength_aborts hcell hkeeps.1.length hlong]
      rfl
    · rwa [← List.length_append] at hlong
  · refine Performs.step (appendLength_eq hcell hkeeps.1.length (by omega)) ?_
    refine (stringReserveUnique_performs h hcell hkeeps (by omega) List.length_append).bind
      fun target next hgrown => ?_
    obtain ⟨grown, hroom, ⟨hholds, hleast, hmost⟩, hmoved, htarget, haccounts⟩ := hgrown
    obtain ⟨rest, hwritten⟩ := hholds.written
    have hstorage := hholds.storage
    refine Performs.step (loadString_eq htarget) ?_
    refine Performs.step (hread next target hmoved (by rw [hcell]; simp)) ?_
    rw [hholds.length]
    refine Performs.step (writeBytes_eq htarget (by omega)) ?_
    have hfirst : (next.put target (some ⟨1, .string (grown.written text.length bytes)⟩)).cell
        target = some ⟨1, .string (grown.written text.length bytes)⟩ :=
      Store.cell_put_self (Store.lt_fresh htarget)
    refine Performs.step (loadString_eq hfirst) ?_
    refine Performs.step (assignString_eq hfirst _) ?_
    rw [Store.put_put]
    have hlength : (grown.written text.length bytes).bytes.length = grown.capacity + 1 :=
      (written_length (by omega)).trans hstorage
    generalize hlonger : StringObject.mk (text.length + bytes.length) grown.capacity
      (grown.written text.length bytes).bytes = longer
    have hsecond : (next.put target (some ⟨1, .string longer⟩)).cell target =
        some ⟨1, .string longer⟩ :=
      Store.cell_put_self (Store.lt_fresh htarget)
    subst hlonger
    refine Performs.step (writeBytes_eq hsecond (by simp only [hlength, List.length_singleton]; omega)) ?_
    rw [Store.put_put]
    refine Performs.pure ⟨_, ⟨?_, ?_, ?_⟩, hmoved.put htarget _,
      Store.cell_put_self (Store.lt_fresh htarget), replace_same haccounts htarget one_ne_zero rfl⟩
    · have hbefore : (StringObject.mk (text.length + bytes.length) grown.capacity grown.bytes).bytes =
          text.map some ++ some 0 :: rest := hwritten
      exact holds_written hbefore hstorage hroom rfl
    · exact hleast
    · exact hmost

end

end Blorp.Runtime
