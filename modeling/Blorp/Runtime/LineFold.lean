import Blorp.Runtime.Lines

/-!
# Streaming lines equals splitting the file

A batch holds the lines that the bytes read so far complete, and the line they leave
unfinished.  However the reads fall, the batches together hold the lines of the content.
-/

namespace Blorp.Runtime

open Fuel

/-! ## The lines of a content -/

/-- The lines an LF ends, without it, and the line that no LF ends; `current` came before. -/
def pieces (current : Bytes) : Bytes → List Bytes × Bytes
  | [] => ([], current)
  | byte :: rest =>
      if byte = lineFeed then (current :: (pieces [] rest).1, (pieces [] rest).2)
      else pieces (current ++ [byte]) rest

/-- A line without one CR at its end. -/
def stripReturn (line : Bytes) : Bytes :=
  if line.getLast? = some carriageReturn then line.dropLast else line

/-- The lines still to visit: those an LF ends, stripped, and a last one if it is not empty. -/
def linesFrom (current content : Bytes) : List Bytes :=
  (pieces current content).1.map stripReturn ++
    if (pieces current content).2 = [] then [] else [(pieces current content).2]

/-- Split at every LF, one CR directly before that LF removed. -/
def contentLines (content : Bytes) : List Bytes := linesFrom [] content

/-- The lines as they are written, with their CRs. -/
def writtenLines (current content : Bytes) : List Bytes :=
  (pieces current content).1 ++ [(pieces current content).2]

theorem pieces_of_no_lineFeed {part : Bytes} (h : lineFeed ∉ part) (current rest : Bytes) :
    pieces current (part ++ rest) = pieces (current ++ part) rest := by
  induction part generalizing current with
  | nil => simp
  | cons byte part ih =>
    have hbyte : byte ≠ lineFeed := fun heq => h (by simp [heq])
    rw [List.cons_append, pieces, if_neg hbyte, ih fun hmem => h (List.mem_cons_of_mem _ hmem),
      List.append_assoc, List.singleton_append]

theorem pieces_append (current known rest : Bytes) : pieces current (known ++ rest) =
      ((pieces current known).1 ++ (pieces (pieces current known).2 rest).1,
        (pieces (pieces current known).2 rest).2) := by
  induction known generalizing current with
  | nil => simp [pieces]
  | cons byte known ih =>
    simp only [List.cons_append, pieces]
    split
    · simp [ih]
    · exact ih _

theorem pieces_self {part : Bytes} (h : lineFeed ∉ part) (current : Bytes) :
    pieces current part = ([], current ++ part) := by
  have hpart := pieces_of_no_lineFeed h current []
  rwa [List.append_nil] at hpart

theorem pieces_lineFeed {line : Bytes} (h : lineFeed ∉ line) (rest : Bytes) :
    pieces [] (line ++ lineFeed :: rest) = (line :: (pieces [] rest).1, (pieces [] rest).2) := by
  rw [pieces_of_no_lineFeed h, pieces, if_pos rfl, List.nil_append]

theorem lineFeed_notMem_pieces (current : Bytes) (h : lineFeed ∉ current) (content : Bytes) :
    lineFeed ∉ (pieces current content).2 := by
  induction content generalizing current with
  | nil => exact h
  | cons byte content ih =>
    rw [pieces]
    split
    · exact ih [] (by simp)
    · rename_i hbyte
      refine ih _ ?_
      simp only [List.mem_append, List.mem_singleton, not_or]
      exact ⟨h, fun heq => hbyte heq.symm⟩

theorem line_cases (content : Bytes) :
    (lineFeed ∉ content ∧ content.takeWhile (· != lineFeed) = content) ∨
      ∃ line rest, content = line ++ lineFeed :: rest ∧ lineFeed ∉ line ∧
        content.takeWhile (· != lineFeed) = line := by
  induction content with
  | nil => exact .inl ⟨by simp, rfl⟩
  | cons byte content ih =>
    by_cases hbyte : byte = lineFeed
    · subst hbyte
      exact .inr ⟨[], content, rfl, by simp, by simp⟩
    · obtain ⟨hnone, htake⟩ | ⟨line, rest, rfl, hline, htake⟩ := ih
      · refine .inl ⟨by simp [hnone, Ne.symm hbyte], ?_⟩
        rw [List.takeWhile_cons_of_pos (by simpa using hbyte), htake]
      · refine .inr ⟨byte :: line, rest, rfl, by simp [hline, Ne.symm hbyte], ?_⟩
        rw [List.takeWhile_cons_of_pos (by simpa using hbyte), htake]

/-! ## The two walks over a buffer -/

/-- The elements of a buffer: its lines, then the unfinished one, unless the file has ended
and it is empty. -/
def elements (ended : Bool) (bytes : Bytes) : List Bytes :=
  (pieces [] bytes).1.map stripReturn ++
    if ended = true ∧ (pieces [] bytes).2 = [] then [] else [(pieces [] bytes).2]

section Walk

variable {bytes : Bytes} {start : Nat}

theorem lineEnd_of_none (hstart : start ≤ bytes.length)
    (h : (bytes.drop start).takeWhile (· != lineFeed) = bytes.drop start) :
    lineEnd bytes start = bytes.length := by
  rw [lineEnd, h, List.length_drop]
  omega

theorem lineAt_of_none (hstart : start ≤ bytes.length)
    (h : (bytes.drop start).takeWhile (· != lineFeed) = bytes.drop start) :
    lineAt bytes start (lineEnd bytes start) = bytes.drop start := by
  rw [lineEnd_of_none hstart h, lineAt, lineLength, if_neg (by omega)]
  exact List.take_of_length_le (by simp)

variable {line rest : Bytes}

theorem lineEnd_of_line (htake : (bytes.drop start).takeWhile (· != lineFeed) = line) :
    lineEnd bytes start = start + line.length := by
  rw [lineEnd, htake]

variable (hsplit : bytes.drop start = line ++ lineFeed :: rest)
include hsplit

theorem length_of_line : bytes.length = start + line.length + 1 + rest.length := by
  have hlength := congrArg List.length hsplit
  simp only [List.length_drop, List.length_append, List.length_cons] at hlength
  omega

theorem drop_of_line : bytes.drop (start + line.length + 1) = rest := by
  rw [Nat.add_assoc, ← List.drop_drop, hsplit, ← List.singleton_append, ← List.append_assoc]
  exact List.drop_left' (by simp)

theorem lineAt_of_line : lineAt bytes start (start + line.length) = stripReturn line := by
  have hlength := length_of_line hsplit
  have hlast : bytes[start + line.length - 1]? = if line = [] then bytes[start - 1]?
      else line.getLast? := by
    split
    · rename_i hline
      simp [hline]
    · rename_i hline
      have hpos : 0 < line.length := List.length_pos_iff.mpr hline
      rw [show start + line.length - 1 = start + (line.length - 1) by omega,
        ← List.getElem?_drop, hsplit, List.getElem?_append_left (by omega),
        List.getLast?_eq_getElem?]
  unfold lineAt lineLength stripReturn
  rw [hsplit, hlast]
  cases line with
  | nil => simp
  | cons first more =>
    simp only [reduceCtorEq, ↓reduceIte, List.length_cons] at hlength ⊢
    by_cases hreturn : (first :: more).getLast? = some carriageReturn
    · rw [if_pos ⟨by omega, by omega, hreturn⟩, if_pos hreturn, List.take_append_of_le_length
        (by simp), List.dropLast_eq_take]
      congr 1
      simp
    · rw [if_neg (by tauto), if_neg hreturn]
      exact List.take_left' (by simp)

end Walk

theorem elements_of_none {bytes : Bytes} (h : lineFeed ∉ bytes) (ended : Bool) :
    elements ended bytes = if ended = true ∧ bytes = [] then [] else [bytes] := by
  simp [elements, pieces_self h]

theorem elements_of_line {line : Bytes} (h : lineFeed ∉ line) (ended : Bool) (rest : Bytes) :
    elements ended (line ++ lineFeed :: rest) = stripReturn line :: elements ended rest := by
  simp [elements, pieces_lineFeed h]

theorem check_elements (buffer : LineBuffer) {start : Nat} (hstart : start ≤ buffer.used)
    (count : Nat) :
    ((∀ line ∈ elements buffer.ended (buffer.bytes.drop start), utf8IsValid line = true) →
      Outcome.Settles (fun n => turns (checkTurn buffer) n (start, count))
        (.ok (count + (elements buffer.ended (buffer.bytes.drop start)).length))) ∧
    ((∃ line ∈ elements buffer.ended (buffer.bytes.drop start), utf8IsValid line = false) →
      Outcome.Settles (fun n => turns (checkTurn buffer) n (start, count)) (.err .invalidUtf8)) := by
  induction hsize : buffer.used - start using Nat.strong_induction_on
    generalizing start count with
  | _ size ih =>
    obtain ⟨hnone, htake⟩ | ⟨line, rest, hsplit, hline, htake⟩ :=
      line_cases (buffer.bytes.drop start)
    · have hstop : lineEnd buffer.bytes start = buffer.used := lineEnd_of_none hstart htake
      have hat : lineAt buffer.bytes start buffer.used = buffer.bytes.drop start :=
        hstop ▸ lineAt_of_none hstart htake
      have hlength : lineLength buffer.bytes start buffer.used = 0 ↔ buffer.bytes.drop start = [] := by
        rw [lineLength, if_neg (by simp [LineBuffer.used]), List.drop_eq_nil_iff, LineBuffer.used]
        omega
      rw [elements_of_none hnone]
      by_cases hempty : buffer.ended = true ∧ buffer.bytes.drop start = []
      · rw [if_pos hempty]
        refine ⟨fun _ => settles_done ?_, by simp⟩
        simp only [checkTurn, hstop]
        rw [if_pos ⟨trivial, hempty.1, hlength.mpr hempty.2⟩]
        simp
      · rw [if_neg hempty]
        have hturn : checkTurn buffer (start, count) =
            if !utf8IsValid (buffer.bytes.drop start) then .err .invalidUtf8
            else .ok (.done (count + 1)) := by
          simp only [checkTurn, hstop, hat]
          rw [if_neg (by rw [hlength]; tauto), if_pos trivial]
        constructor
        · intro hvalid
          refine settles_done ?_
          rw [hturn, hvalid _ (by simp)]
          rfl
        · rintro ⟨found, hfound, hvalid⟩
          rw [List.mem_singleton.mp hfound] at hvalid
          refine settles_err ?_
          rw [hturn, hvalid]
          rfl
    · have hlength := length_of_line hsplit
      have hstop := lineEnd_of_line htake
      have hnext : buffer.bytes.drop (start + line.length + 1) = rest := drop_of_line hsplit
      have hturn : checkTurn buffer (start, count) =
          if !utf8IsValid (stripReturn line) then .err .invalidUtf8
          else .ok (.again (start + line.length + 1, count + 1)) := by
        have hne : start + line.length ≠ buffer.used := by
          rw [LineBuffer.used]
          omega
        simp only [checkTurn, hstop, lineAt_of_line hsplit]
        rw [if_neg (by tauto), if_neg hne]
      obtain ⟨hok, herr⟩ := ih (buffer.used - (start + line.length + 1))
        (by rw [LineBuffer.used] at *; omega)
        (show start + line.length + 1 ≤ buffer.used by rw [LineBuffer.used]; omega)
        (count + 1) rfl
      rw [hnext] at hok herr
      rw [hsplit, elements_of_line hline]
      constructor
      · intro hvalid
        have hrest := hok fun other hother => hvalid other (List.mem_cons_of_mem _ hother)
        rw [show count + 1 + (elements buffer.ended rest).length
          = count + (stripReturn line :: elements buffer.ended rest).length by simp; omega] at hrest
        refine settles_again ?_ hrest
        rw [hturn, hvalid _ (by simp)]
        rfl
      · rintro ⟨found, hfound, hvalid⟩
        cases hfirst : utf8IsValid (stripReturn line) with
        | false =>
          refine settles_err ?_
          rw [hturn, hfirst]
          rfl
        | true =>
          rcases List.mem_cons.mp hfound with rfl | hfound
          · rw [hfirst] at hvalid
            cases hvalid
          · refine settles_again ?_ (herr ⟨found, hfound, hvalid⟩)
            rw [hturn, hfirst]
            rfl

theorem walk_elements (ended : Bool) (bytes : Bytes) {start : Nat} (hstart : start ≤ bytes.length) :
    walkLines bytes (elements ended (bytes.drop start)).length start =
      elements ended (bytes.drop start) := by
  induction hsize : bytes.length - start using Nat.strong_induction_on generalizing start with
  | _ size ih =>
    obtain ⟨hnone, htake⟩ | ⟨line, rest, hsplit, hline, htake⟩ := line_cases (bytes.drop start)
    · rw [elements_of_none hnone]
      split
      · rfl
      · simp [walkLines, lineAt_of_none hstart htake]
    · have hlength := length_of_line hsplit
      have hrest := ih (bytes.length - (start + line.length + 1)) (by omega)
        (show start + line.length + 1 ≤ bytes.length by omega) rfl
      rw [drop_of_line hsplit] at hrest
      rw [hsplit, elements_of_line hline, List.length_cons, walkLines]
      simp [lineEnd_of_line htake, lineAt_of_line hsplit, hrest]

/-! ## Reading -/

/-- A buffer holds what it has used, and never more than the largest String. -/
structure Room (buffer : LineBuffer) : Prop where
  fits : buffer.used ≤ buffer.capacity
  most : buffer.capacity ≤ stringMaximumCapacity
  some : 0 < buffer.capacity

theorem grownCapacity_spec {capacity maximum : Nat} (hpos : 0 < capacity) (hlt : capacity < maximum) :
    capacity < grownCapacity capacity maximum ∧ grownCapacity capacity maximum ≤ maximum ∧
      grownCapacity capacity maximum ≤ 2 * capacity := by
  rw [grownCapacity, if_neg (by omega)]
  split <;> omega

theorem lineRoom_spec (needed : Nat) : ∀ (turns : Nat) {buffer : LineBuffer}, Room buffer →
    needed ≤ turns + (buffer.capacity - buffer.used) →
    (lineRoom needed turns buffer = .error .fileTooLarge ∧
      stringMaximumCapacity < buffer.used + needed) ∨
    ∃ capacity, lineRoom needed turns buffer = .ok { buffer with capacity := capacity } ∧
      Room { buffer with capacity := capacity } ∧ buffer.used + needed ≤ capacity ∧
      (capacity = buffer.capacity ∨ capacity ≤ 2 * (buffer.used + needed - 1)) := by
  intro turns
  induction turns with intro buffer hroom hturns
  | zero =>
    have hfits := hroom.fits
    exact .inr ⟨buffer.capacity, rfl, hroom, by omega, .inl rfl⟩
  | succ turns ih =>
    have hfits := hroom.fits
    unfold lineRoom
    split
    · rcases Nat.lt_or_ge buffer.capacity stringMaximumCapacity with hlt | hge
      · obtain ⟨hgrows, hmost, htwice⟩ := grownCapacity_spec hroom.some hlt
        rw [if_neg (by omega)]
        have hgrown : Room { buffer with
            capacity := grownCapacity buffer.capacity stringMaximumCapacity } :=
          ⟨by show buffer.used ≤ grownCapacity _ _; omega, hmost, by show 0 < grownCapacity _ _; omega⟩
        obtain hfail | ⟨capacity, hok, hroom', hneeded, hcapacity⟩ := ih hgrown (by
          show needed ≤ turns + (grownCapacity _ _ - buffer.used)
          omega)
        · exact .inl hfail
        · refine .inr ⟨capacity, hok, hroom', hneeded, .inr ?_⟩
          rcases hcapacity with rfl | hcapacity
          · show grownCapacity _ _ ≤ _
            omega
          · exact hcapacity
      · refine .inl ⟨?_, by omega⟩
        simp [grownCapacity, if_pos hge]
    · exact .inr ⟨buffer.capacity, rfl, hroom, by omega, .inl rfl⟩

theorem read_spec (os : Nat → Nat) (descriptor : Descriptor) {request : Nat} (h : 0 < request) :
    descriptor.remaining = (descriptor.read os request).1 ++ (descriptor.read os request).2.remaining ∧
      (descriptor.read os request).1.length ≤ request ∧
      ((descriptor.read os request).1 = [] ↔ descriptor.remaining = []) := by
  unfold Descriptor.read
  refine ⟨(List.take_append_drop _ _).symm, ?_, ?_⟩
  · simp only [List.length_take]
    omega
  · rw [List.take_eq_nil_iff]
    constructor
    · rintro (hzero | hnil)
      · omega
      · exact hnil
    · exact .inr

/-- How reading blocks past `given` ends. -/
inductive Blocks (given : Bytes) (least : Nat) (descriptor : Descriptor) :
    Outcome ReadFailure (Descriptor × LineBuffer) → Prop
  | tooLarge (read rest : Bytes) (hread : descriptor.remaining = read ++ rest)
      (hnone : lineFeed ∉ read) (hlarge : stringMaximumCapacity ≤ (given ++ read).length) :
      Blocks given least descriptor (.err .fileTooLarge)
  | ended (last : Descriptor) (buffer : LineBuffer) (hnone : lineFeed ∉ descriptor.remaining)
      (hbytes : buffer.bytes = given ++ descriptor.remaining) (hended : buffer.ended = true) :
      Blocks given least descriptor (.ok (last, buffer))
  | line (last : Descriptor) (buffer : LineBuffer) (before read : Bytes)
      (hread : descriptor.remaining = read ++ last.remaining) (hline : lineFeed ∈ read)
      (hbytes : buffer.bytes = given ++ read) (hended : buffer.ended = false) (hroom : Room buffer)
      (hbefore : before <+: read) (hnone : lineFeed ∉ before)
      (hcapacity : buffer.capacity ≤ least ∨ buffer.capacity ≤ 2 * (given ++ before).length) :
      Blocks given least descriptor (.ok (last, buffer))

theorem Blocks.again {given received : Bytes} {least : Nat} {descriptor next : Descriptor}
    {outcome : Outcome ReadFailure (Descriptor × LineBuffer)}
    (hread : descriptor.remaining = received ++ next.remaining) (hreceived : lineFeed ∉ received)
    (h : Blocks (given ++ received) least next outcome) : Blocks given least descriptor outcome := by
  cases h with
  | tooLarge read rest hrest hnone hlarge =>
    refine .tooLarge (received ++ read) rest (by rw [hread, hrest, List.append_assoc]) ?_ ?_
    · simp [hreceived, hnone]
    · rwa [← List.append_assoc]
  | ended last buffer hnone hbytes hended =>
    refine .ended last buffer ?_ (by rw [hbytes, hread, List.append_assoc]) hended
    rw [hread]
    simp [hreceived, hnone]
  | line last buffer before read hrest hline hbytes hended hroom hbefore hnone hcapacity =>
    refine .line last buffer (received ++ before) (received ++ read)
      (by rw [hread, hrest, List.append_assoc]) (by simp [hline])
      (by rw [hbytes, List.append_assoc]) hended hroom ((List.prefix_append_right_inj _).mpr hbefore)
      (by simp [hreceived, hnone]) ?_
    rwa [← List.append_assoc]

theorem readLineBlocks_spec (os : Nat → Nat) (least : Nat) : ∀ (descriptor : Descriptor)
    (given : Bytes) (capacity : Nat), Room ⟨given, capacity, false⟩ →
    (capacity ≤ least ∨ capacity ≤ 2 * given.length) →
    ∃ outcome, Outcome.Settles (fun n => readLineBlocks os n (descriptor, ⟨given, capacity, false⟩))
      outcome ∧ Blocks given least descriptor outcome := by
  intro descriptor
  induction hsize : descriptor.remaining.length using Nat.strong_induction_on
    generalizing descriptor with
  | _ size ih =>
    intro given capacity hroom hcapacity
    obtain ⟨hfail, hlarge⟩ | ⟨room, hok, hroom', hneeded, hgrown⟩ :=
      lineRoom_spec 1 1 hroom (show 1 ≤ 1 + _ by omega)
    · refine ⟨.err .fileTooLarge, settles_err ?_, .tooLarge [] descriptor.remaining rfl (by simp) ?_⟩
      · simp [blockTurn, hfail, Outcome.liftM_error, Outcome.err_bind]
      · have hused : (LineBuffer.mk given capacity false).used = given.length := rfl
        simp only [List.append_nil]
        omega
    · have hused : (LineBuffer.mk given capacity false).used = given.length := rfl
      have hrequest : 0 < min (room - given.length) requestMaximum := by
        simp only [requestMaximum]
        omega
      obtain ⟨hread, hmost, hempty⟩ := read_spec os descriptor hrequest
      have hturn : blockTurn os (descriptor, ⟨given, capacity, false⟩) =
          let received := (descriptor.read os (min (room - given.length) requestMaximum)).1
          let next := (descriptor.read os (min (room - given.length) requestMaximum)).2
          if received.isEmpty then .ok (.done (next, ⟨given, room, true⟩))
          else if received.any (· == lineFeed) then
            .ok (.done (next, ⟨given ++ received, room, false⟩))
          else .ok (.again (next, ⟨given ++ received, room, false⟩)) := by
        simp only [blockTurn, hok, Outcome.liftM_ok, Outcome.ok_bind]
        rfl
      generalize hreceived : (descriptor.read os (min (room - given.length) requestMaximum)).1
        = received at *
      generalize hnext : (descriptor.read os (min (room - given.length) requestMaximum)).2
        = next at *
      have hroom'' : Room ⟨given ++ received, room, false⟩ :=
        ⟨by simp only [LineBuffer.used, List.length_append]; omega, hroom'.most, hroom'.some⟩
      have hcapacity' : room ≤ least ∨ room ≤ 2 * given.length := by
        rcases hgrown with rfl | hgrown
        · exact hcapacity
        · exact .inr (by omega)
      by_cases hnil : received = []
      · refine ⟨.ok (next, ⟨given, room, true⟩), settles_done (by rw [hturn]; simp [hnil]), ?_⟩
        have hremaining := hempty.mp hnil
        refine .ended next _ ?_ ?_ rfl
        · rw [hremaining]
          simp
        · show given = _
          rw [hremaining, List.append_nil]
      · by_cases hline : lineFeed ∈ received
        · refine ⟨.ok (next, ⟨given ++ received, room, false⟩), settles_done ?_, ?_⟩
          · rw [hturn, if_neg (by simpa using hnil), if_pos (by simpa using hline)]
          · exact .line next _ [] received hread hline rfl rfl hroom'' (List.nil_prefix) (by simp)
              (by simpa using hcapacity')
        · obtain ⟨outcome, hsettles, hblocks⟩ := ih next.remaining.length
            (by
              have hpos := List.length_pos_iff.mpr hnil
              have hlength := congrArg List.length hread
              rw [List.length_append] at hlength
              omega) next rfl (given ++ received) room hroom'' (by
              rw [List.length_append]
              omega)
          refine ⟨outcome, settles_again ?_ hsettles, hblocks.again hread hline⟩
          rw [hturn, if_neg (by simpa using hnil), if_neg (by simpa using hline)]

/-! ## Completing a character -/

theorem lineFeed_not_tail : isTail lineFeed = false := by decide

theorem missingBack_lineFeed {back : Nat} (hback : 0 < back) (after before : Bytes) :
    missingBack back (after ++ lineFeed :: before) = missingBack back after := by
  induction after generalizing back with
  | nil =>
    have hneeded : neededBytes lineFeed = 1 := by decide
    rw [List.nil_append, missingBack_cons, lineFeed_not_tail, hneeded]
    simp [missingBack]
    omega
  | cons byte after ih => rw [List.cons_append, missingBack_cons, missingBack_cons, ih (by omega)]

theorem utf8Missing_lineFeed (before after : Bytes) :
    utf8Missing (before ++ lineFeed :: after) = utf8Missing after := by
  unfold utf8Missing
  rw [List.reverse_append, List.reverse_cons, List.append_assoc, List.singleton_append,
    missingBack_lineFeed (by omega)]

theorem character_spec (os : Nat → Nat) : ∀ (missing : Nat) (descriptor : Descriptor)
    (buffer : LineBuffer),
    (∃ last, Outcome.Settles (fun n => turns (characterTurn os) n ⟨descriptor, buffer, missing⟩)
        (.ok (last, { buffer with bytes := buffer.bytes ++ descriptor.remaining.take missing })) ∧
      (∀ byte ∈ descriptor.remaining.take missing, isTail byte = true) ∧
      last.remaining = descriptor.remaining.drop missing) ∨
    Outcome.Settles (fun n => turns (characterTurn os) n ⟨descriptor, buffer, missing⟩)
        (.err .invalidUtf8) ∧
      ¬ (missing ≤ descriptor.remaining.length ∧
        ∀ byte ∈ descriptor.remaining.take missing, isTail byte = true) := by
  intro missing
  induction missing using Nat.strong_induction_on with
  | _ missing ih =>
    intro descriptor buffer
    by_cases hzero : missing = 0
    · subst hzero
      refine .inl ⟨descriptor, settles_done ?_, by simp, rfl⟩
      simp [characterTurn]
    · obtain ⟨hread, hmost, hempty⟩ := read_spec os descriptor (Nat.pos_of_ne_zero hzero)
      have hturn : characterTurn os ⟨descriptor, buffer, missing⟩ =
          let received := (descriptor.read os missing).1
          let next := (descriptor.read os missing).2
          if received.isEmpty then .err .invalidUtf8
          else if received.any fun byte => !isTail byte then .err .invalidUtf8
          else .ok (.again ⟨next, { buffer with bytes := buffer.bytes ++ received },
            missing - received.length⟩) := by
        simp [characterTurn, if_neg hzero, mask_eq_isTail]
      generalize (descriptor.read os missing).1 = received at *
      generalize (descriptor.read os missing).2 = next at *
      by_cases hnil : received = []
      · refine .inr ⟨settles_err (by rw [hturn]; simp [hnil]), ?_⟩
        rw [hempty.mp hnil]
        simp [hzero]
      · by_cases htails : ∀ byte ∈ received, isTail byte = true
        · have hpos := List.length_pos_iff.mpr hnil
          have htake : descriptor.remaining.take missing
              = received ++ next.remaining.take (missing - received.length) := by
            rw [hread, List.take_append, List.take_of_length_le hmost]
          have hagain : characterTurn os ⟨descriptor, buffer, missing⟩ =
              .ok (.again ⟨next, { buffer with bytes := buffer.bytes ++ received },
                missing - received.length⟩) := by
            rw [hturn, if_neg (by simpa using hnil), if_neg (by simpa using htails)]
          obtain ⟨last, hsettles, hrest, hlast⟩ | ⟨hsettles, hnot⟩ :=
            ih (missing - received.length) (by omega) next
              { buffer with bytes := buffer.bytes ++ received }
          · refine .inl ⟨last, ?_, ?_, ?_⟩
            · rw [htake]
              simpa using settles_again hagain hsettles
            · rw [htake]
              intro byte hbyte
              rcases List.mem_append.mp hbyte with hbyte | hbyte
              · exact htails byte hbyte
              · exact hrest byte hbyte
            · rw [hlast, hread, List.drop_append, List.drop_of_length_le hmost, List.nil_append]
          · refine .inr ⟨settles_again hagain hsettles, ?_⟩
            rintro ⟨hlength, hall⟩
            refine hnot ⟨?_, fun byte hbyte => hall byte (by rw [htake]; simp [hbyte])⟩
            rw [hread, List.length_append] at hlength
            omega
        · refine .inr ⟨settles_err ?_, ?_⟩
          · rw [hturn, if_neg (by simpa using hnil), if_pos (by simpa using htails)]
          · rintro ⟨-, hall⟩
            refine htails fun byte hbyte => hall byte ?_
            rw [hread, List.take_append, List.take_of_length_le hmost]
            simp [hbyte]

theorem pieces_last {content : Bytes} (h : lineFeed ∈ content) (current : Bytes) :
    (pieces current content).1 ≠ [] ∧
      ∃ before, content = before ++ lineFeed :: (pieces current content).2 := by
  induction content generalizing current with
  | nil => cases h
  | cons byte content ih =>
    rw [pieces]
    by_cases hbyte : byte = lineFeed
    · subst hbyte
      rw [if_pos rfl]
      refine ⟨by simp, ?_⟩
      by_cases hmore : lineFeed ∈ content
      · obtain ⟨-, before, hbefore⟩ := ih hmore []
        exact ⟨lineFeed :: before, by rw [List.cons_append, ← hbefore]⟩
      · exact ⟨[], by simp [pieces_self hmore]⟩
    · rw [if_neg hbyte]
      have hmem : lineFeed ∈ content := by
        rcases List.mem_cons.mp h with heq | hmem
        · exact absurd heq.symm hbyte
        · exact hmem
      obtain ⟨hne, before, hbefore⟩ := ih hmem (current ++ [byte])
      exact ⟨hne, byte :: before, by rw [List.cons_append, ← hbefore]⟩

theorem valid_of_stripReturn {line : Bytes} (h : utf8IsValid (stripReturn line) = true) :
    utf8IsValid line = true := by
  unfold stripReturn at h
  split at h
  · rename_i hlast
    have hsplit : line = line.dropLast ++ [carriageReturn] :=
      (List.dropLast_append_getLast? _ hlast).symm
    rw [hsplit, utf8IsValid_append h]
    decide
  · exact h

theorem completes_of_valid {unfinished remaining : Bytes}
    (h : ∀ line ∈ linesFrom unfinished remaining, utf8IsValid line = true) :
    utf8Missing unfinished ≤ remaining.length ∧
      (∀ byte ∈ remaining.take (utf8Missing unfinished), isTail byte = true) ∧
      utf8IsValid (unfinished ++ remaining.take (utf8Missing unfinished)) = true := by
  obtain ⟨more, rest, hsplit, hvalid⟩ : ∃ more rest, remaining = more ++ rest ∧
      utf8IsValid (unfinished ++ more) = true := by
    obtain ⟨hlast, -⟩ | ⟨line, rest, hsplit, hline, -⟩ := line_cases remaining
    · refine ⟨remaining, [], by simp, ?_⟩
      by_cases hempty : unfinished ++ remaining = []
      · rw [hempty]
        rfl
      · refine h _ ?_
        simp [linesFrom, pieces_self hlast, hempty]
    · refine ⟨line, lineFeed :: rest, hsplit, valid_of_stripReturn (h _ ?_)⟩
      rw [linesFrom, hsplit, pieces_of_no_lineFeed hline, pieces, if_pos rfl]
      simp
  obtain ⟨hle, htails, hcomplete⟩ := valid_complete hvalid
  have htake : remaining.take (utf8Missing unfinished) = more.take (utf8Missing unfinished) := by
    rw [hsplit, List.take_append_of_le_length hle]
  rw [htake]
  refine ⟨?_, htails, hcomplete⟩
  rw [hsplit, List.length_append]
  omega

/-! ## One call -/

/-- A line the reader always holds.  Past half the maximum the buffer may be at its largest,
where a character that a read leaves unfinished has no room. -/
def Fits (length : Nat) : Prop :=
  length + lineBlock + 3 ≤ stringMaximumCapacity ∧ 2 * length + 3 ≤ stringMaximumCapacity

/-- How one call ends, for the content still to read. -/
inductive Batch (carried remaining : Bytes) : Outcome ReadFailure (Descriptor × List Bytes) → Prop
  | tooLarge (line : Bytes) (hline : line ∈ writtenLines carried remaining)
      (hlarge : ¬ Fits line.length) : Batch carried remaining (.err .fileTooLarge)
  | invalid (line : Bytes) (hline : line ∈ linesFrom carried remaining)
      (hinvalid : utf8IsValid line = false) : Batch carried remaining (.err .invalidUtf8)
  | final (last : Descriptor) (hvalid : ∀ line ∈ linesFrom carried remaining, utf8IsValid line = true)
      (hshort : (linesFrom carried remaining).length ≤ 1) :
      Batch carried remaining (.ok (last, linesFrom carried remaining))
  | lines (last : Descriptor) (complete : List Bytes) (unfinished : Bytes) (hsome : complete ≠ [])
      (hvalid : ∀ line ∈ complete, utf8IsValid (stripReturn line) = true)
      (hpieces : pieces carried remaining = (complete ++ (pieces unfinished last.remaining).1,
        (pieces unfinished last.remaining).2))
      (hnone : lineFeed ∉ unfinished) (hmost : unfinished.length ≤ stringMaximumCapacity)
      (hprogress : last.remaining.length < remaining.length) :
      Batch carried remaining (.ok (last, complete.map stripReturn ++ [unfinished]))

theorem exists_written {part : Bytes} (h : lineFeed ∉ part) (current rest : Bytes) :
    ∃ line ∈ writtenLines current (part ++ rest), (current ++ part).length ≤ line.length := by
  rw [writtenLines, pieces_of_no_lineFeed h]
  obtain ⟨hlast, -⟩ | ⟨line, more, rfl, hline, -⟩ := line_cases rest
  · refine ⟨current ++ part ++ rest, by simp [pieces_self hlast], ?_⟩
    simp only [List.length_append]
    omega
  · refine ⟨current ++ part ++ line, ?_, ?_⟩
    · rw [pieces_of_no_lineFeed hline, pieces, if_pos rfl]
      simp
    · simp only [List.length_append]
      omega

theorem checkLines_spec (buffer : LineBuffer) :
    ((∀ line ∈ elements buffer.ended buffer.bytes, utf8IsValid line = true) ∧
      Outcome.Settles (fun n => checkLines n buffer)
        (.ok (elements buffer.ended buffer.bytes).length)) ∨
    (∃ line ∈ elements buffer.ended buffer.bytes, utf8IsValid line = false) ∧
      Outcome.Settles (fun n => checkLines n buffer) (.err .invalidUtf8) := by
  have hcheck := check_elements buffer (Nat.zero_le buffer.used) 0
  rw [List.drop_zero, Nat.zero_add] at hcheck
  by_cases hvalid : ∀ line ∈ elements buffer.ended buffer.bytes, utf8IsValid line = true
  · exact .inl ⟨hvalid, hcheck.1 hvalid⟩
  · simp only [not_forall, Bool.not_eq_true] at hvalid
    obtain ⟨line, hline, hinvalid⟩ := hvalid
    exact .inr ⟨⟨line, hline, hinvalid⟩, hcheck.2 ⟨line, hline, hinvalid⟩⟩

theorem elements_walked (buffer : LineBuffer) :
    walkLines buffer.bytes (elements buffer.ended buffer.bytes).length 0 =
      elements buffer.ended buffer.bytes := by
  have hwalk := walk_elements buffer.ended buffer.bytes (Nat.zero_le buffer.bytes.length)
  rwa [List.drop_zero] at hwalk

section Call

variable (os : Nat → Nat) {descriptor : Descriptor} {carried : Bytes}

def startBuffer (carried : Bytes) : LineBuffer :=
  ⟨carried, if carried.length > stringMaximumCapacity - lineBlock then stringMaximumCapacity
    else carried.length + lineBlock, false⟩

theorem startBuffer_room (h : carried.length ≤ stringMaximumCapacity) :
    Room (startBuffer carried) := by
  have hmost : lineBlock ≤ stringMaximumCapacity := by decide
  have hsome : 0 < lineBlock := by decide
  rcases Nat.lt_or_ge (stringMaximumCapacity - lineBlock) carried.length with hlong | hshort
  · have hstart : startBuffer carried = ⟨carried, stringMaximumCapacity, false⟩ := by
      rw [startBuffer, if_pos hlong]
    rw [hstart]
    exact ⟨h, le_rfl, by show 0 < stringMaximumCapacity; omega⟩
  · have hstart : startBuffer carried = ⟨carried, carried.length + lineBlock, false⟩ := by
      rw [startBuffer, if_neg (by omega)]
    rw [hstart]
    refine ⟨?_, ?_, ?_⟩
    · show carried.length ≤ carried.length + lineBlock
      omega
    · show carried.length + lineBlock ≤ stringMaximumCapacity
      omega
    · show 0 < carried.length + lineBlock
      omega

theorem nextLines_of_blocks_err {failure : ReadFailure}
    (h : Outcome.Settles (fun n => readLineBlocks os n (descriptor, startBuffer carried))
      (.err failure)) :
    Outcome.Settles (fun n => nextLines os n descriptor carried) (.err failure) :=
  Outcome.Settles.bind_err (Outcome.Settles.bind_err h _) _

section

variable {last : Descriptor} {buffer : LineBuffer}
    (hblocks : Outcome.Settles (fun n => readLineBlocks os n (descriptor, startBuffer carried)) (.ok (last, buffer)))

include hblocks

theorem nextLines_of_buffer {next : Descriptor} {whole : LineBuffer}
    (hwhole : Outcome.Settles (fun n => completedBuffer os n (last, buffer)) (.ok (next, whole))) :
    ((∀ line ∈ elements whole.ended whole.bytes, utf8IsValid line = true) ∧
      Outcome.Settles (fun n => nextLines os n descriptor carried)
        (.ok (next, elements whole.ended whole.bytes))) ∨
    (∃ line ∈ elements whole.ended whole.bytes, utf8IsValid line = false) ∧
      Outcome.Settles (fun n => nextLines os n descriptor carried) (.err .invalidUtf8) := by
  obtain ⟨hvalid, hcheck⟩ | ⟨hinvalid, hcheck⟩ := checkLines_spec whole
  · refine .inl ⟨hvalid, ?_⟩
    rw [← elements_walked whole]
    refine Outcome.Settles.bind_ok (a := (next, whole, (elements whole.ended whole.bytes).length)) ?_
      Outcome.Settles.ok
    refine Outcome.Settles.bind_ok hblocks (Outcome.Settles.bind_ok hwhole ?_)
    exact Outcome.Settles.bind_ok hcheck Outcome.Settles.ok
  · refine .inr ⟨hinvalid, Outcome.Settles.bind_err ?_ _⟩
    refine Outcome.Settles.bind_ok hblocks (Outcome.Settles.bind_ok hwhole ?_)
    exact Outcome.Settles.bind_err hcheck _

theorem nextLines_of_character_err {failure : ReadFailure}
    (hfailure : Outcome.Settles (fun n => completedBuffer os n (last, buffer)) (.err failure)) :
    Outcome.Settles (fun n => nextLines os n descriptor carried) (.err failure) :=
  Outcome.Settles.bind_err
    (Outcome.Settles.bind_ok hblocks (Outcome.Settles.bind_err hfailure _)) _

end

end Call

section Later

variable {current content unfinished rest : Bytes} {complete : List Bytes}
  (h : pieces current content = (complete ++ (pieces unfinished rest).1, (pieces unfinished rest).2))
include h

theorem linesFrom_of_pieces :
    linesFrom current content = complete.map stripReturn ++ linesFrom unfinished rest := by
  simp [linesFrom, h]

theorem writtenLines_of_pieces :
    writtenLines current content = complete ++ writtenLines unfinished rest := by
  simp [writtenLines, h]

end Later

theorem exists_invalid {unfinished remaining : Bytes}
    (h : ¬ (utf8Missing unfinished ≤ remaining.length ∧
      (∀ byte ∈ remaining.take (utf8Missing unfinished), isTail byte = true) ∧
      utf8IsValid (unfinished ++ remaining.take (utf8Missing unfinished)) = true)) :
    ∃ line ∈ linesFrom unfinished remaining, utf8IsValid line = false := by
  by_contra hall
  simp only [not_exists, not_and, Bool.not_eq_false] at hall
  exact h (completes_of_valid hall)

section Outcomes

variable (os : Nat → Nat) {descriptor last : Descriptor} {carried : Bytes} {buffer : LineBuffer}
  (hnone : lineFeed ∉ carried)
  (hblocks : Outcome.Settles (fun n => readLineBlocks os n (descriptor, startBuffer carried))
    (.ok (last, buffer)))
include hnone hblocks

theorem nextLines_ended (hremaining : lineFeed ∉ descriptor.remaining)
    (hbytes : buffer.bytes = carried ++ descriptor.remaining) (hended : buffer.ended = true) :
    ∃ outcome, Outcome.Settles (fun n => nextLines os n descriptor carried) outcome ∧
      Batch carried descriptor.remaining outcome := by
  have helements : elements buffer.ended buffer.bytes = linesFrom carried descriptor.remaining := by
    rw [hended, elements_of_none (by rw [hbytes]; simp [hnone, hremaining]), linesFrom,
      pieces_self hremaining, hbytes]
    simp
  have hwhole : Outcome.Settles (fun n => completedBuffer os n (last, buffer))
      (.ok (last, buffer)) :=
    .closed 0 (by simp) fun n => by simp [completedBuffer, hended]
  obtain ⟨hvalid, hnext⟩ | ⟨⟨line, hline, hinvalid⟩, hnext⟩ :=
    nextLines_of_buffer os hblocks hwhole
  · rw [helements] at hvalid hnext
    refine ⟨_, hnext, .final last hvalid ?_⟩
    rw [linesFrom, pieces_self hremaining]
    split <;> simp
  · rw [helements] at hline
    exact ⟨_, hnext, .invalid line hline hinvalid⟩

/-- A call whose last read brought an LF, once its last character is complete: `taken` are
the bytes that completed it. -/
theorem nextLines_completed {next : Descriptor} {read unfinished taken : Bytes}
    {complete : List Bytes} {capacity : Nat}
    (hread : descriptor.remaining = read ++ last.remaining) (hline : lineFeed ∈ read)
    (hbytes : buffer.bytes = carried ++ read) (hended : buffer.ended = false)
    (hpieces : pieces carried read = (complete, unfinished)) (hsome : complete ≠ [])
    (htaken : last.remaining.take (utf8Missing unfinished) = taken)
    (htails : ∀ byte ∈ taken, isTail byte = true) (hnext : last.remaining = taken ++ next.remaining)
    (hcapacity : (buffer.bytes ++ taken).length ≤ stringMaximumCapacity)
    (hwhole : Outcome.Settles (fun n => completedBuffer os n (last, buffer))
      (.ok (next, ⟨buffer.bytes ++ taken, capacity, buffer.ended⟩))) :
    ∃ outcome, Outcome.Settles (fun n => nextLines os n descriptor carried) outcome ∧
      Batch carried descriptor.remaining outcome := by
  have hnoLine : lineFeed ∉ taken := fun hmem => by
    have htail := htails _ hmem
    cases htail
  have helements : elements false (buffer.bytes ++ taken)
      = complete.map stripReturn ++ [unfinished ++ taken] := by
    rw [hbytes, List.append_assoc, elements, pieces_of_no_lineFeed hnone, List.nil_append,
      pieces_append, hpieces, pieces_self hnoLine]
    simp
  have hall : pieces carried descriptor.remaining =
      (complete ++ (pieces unfinished last.remaining).1, (pieces unfinished last.remaining).2) := by
    rw [hread, pieces_append, hpieces]
  obtain ⟨hvalid, hcall⟩ | ⟨⟨line, hmem, hinvalid⟩, hcall⟩ := nextLines_of_buffer os hblocks hwhole
  · simp only [hended, helements] at hvalid hcall
    refine ⟨_, hcall, .lines next complete (unfinished ++ taken) hsome ?_ ?_ ?_ ?_ ?_⟩
    · intro line hline
      exact hvalid _ (List.mem_append_left _ (List.mem_map_of_mem hline))
    · rw [hall, hnext, pieces_of_no_lineFeed hnoLine]
    · have hlast := lineFeed_notMem_pieces carried hnone read
      rw [hpieces] at hlast
      simp [hlast, hnoLine]
    · obtain ⟨-, start, hsplit⟩ := pieces_last hline carried
      rw [hpieces] at hsplit
      rw [hbytes, hsplit] at hcapacity
      simp only [List.length_append, List.length_cons] at hcapacity ⊢
      omega
    · have hpos := List.length_pos_of_mem hline
      rw [hread, hnext]
      simp only [List.length_append]
      omega
  · simp only [hended, helements] at hmem
    rcases List.mem_append.mp hmem with hmem | hmem
    · refine ⟨_, hcall, .invalid line ?_ hinvalid⟩
      rw [linesFrom_of_pieces hall]
      exact List.mem_append_left _ hmem
    · rw [List.mem_singleton.mp hmem, ← htaken] at hinvalid
      obtain ⟨found, hfound, hbad⟩ := exists_invalid fun hgood => by
        rw [hgood.2.2] at hinvalid
        cases hinvalid
      refine ⟨_, hcall, .invalid found ?_ hbad⟩
      rw [linesFrom_of_pieces hall]
      exact List.mem_append_right _ hfound

theorem nextLines_line {before read : Bytes}
    (hread : descriptor.remaining = read ++ last.remaining) (hline : lineFeed ∈ read)
    (hbytes : buffer.bytes = carried ++ read) (hended : buffer.ended = false) (hroom : Room buffer)
    (hbefore : before <+: read) (hfirst : lineFeed ∉ before)
    (hcapacity : buffer.capacity ≤ carried.length + lineBlock ∨
      buffer.capacity ≤ 2 * (carried ++ before).length) :
    ∃ outcome, Outcome.Settles (fun n => nextLines os n descriptor carried) outcome ∧
      Batch carried descriptor.remaining outcome := by
  obtain ⟨hsome, start, hsplit⟩ := pieces_last hline carried
  obtain ⟨complete, unfinished, hpieces⟩ : ∃ complete unfinished,
      pieces carried read = (complete, unfinished) := ⟨_, _, rfl⟩
  rw [hpieces] at hsome hsplit
  have hmissing : utf8Missing buffer.bytes = utf8Missing unfinished := by
    rw [hbytes, hsplit, ← List.append_assoc, utf8Missing_lineFeed]
  have hcompleted : ∀ n, completedBuffer os n (last, buffer)
      = completeCharacter os n (last, buffer) := by
    intro n
    simp [completedBuffer, hended]
  have hthree := utf8Missing_le unfinished
  obtain ⟨hfail, hlarge⟩ | ⟨capacity, hok, hroom', hneeded, -⟩ :=
    lineRoom_spec (utf8Missing unfinished) (utf8Missing unfinished) hroom (Nat.le_add_right _ _)
  · -- The character does not fit behind the largest String.
    have hwhole : Outcome.Settles (fun n => completedBuffer os n (last, buffer))
        (.err .fileTooLarge) := by
      refine .closed 0 (by simp) fun n => ?_
      show completedBuffer os n (last, buffer) = _
      rw [hcompleted, completeCharacter, hmissing]
      simp [hfail]
    obtain ⟨after, hafter⟩ := hbefore
    obtain ⟨written, hwritten, hlength⟩ := exists_written hfirst carried (after ++ last.remaining)
    rw [← List.append_assoc, hafter, ← hread] at hwritten
    refine ⟨_, nextLines_of_character_err os hblocks hwhole, .tooLarge written hwritten ?_⟩
    rintro ⟨hblock, htwice⟩
    have hfits := hroom.fits
    rw [List.length_append] at hlength hcapacity
    omega
  · have hcharacter : ∀ n, completedBuffer os n (last, buffer) = turns (characterTurn os) n
        ⟨last, { buffer with capacity := capacity }, utf8Missing unfinished⟩ := by
      intro n
      rw [hcompleted, completeCharacter, hmissing]
      simp [hok]
    obtain ⟨next, hsettles, htails, hnext⟩ | ⟨hsettles, hnot⟩ :=
      character_spec os (utf8Missing unfinished) last { buffer with capacity := capacity }
    · simp only [← hcharacter] at hsettles
      refine nextLines_completed os hnone hblocks hread hline hbytes hended hpieces hsome rfl htails
        (by rw [hnext, List.take_append_drop]) ?_ hsettles
      have htaken := List.length_take_le (utf8Missing unfinished) last.remaining
      have hmost : capacity ≤ stringMaximumCapacity := hroom'.most
      rw [LineBuffer.used] at hneeded
      rw [List.length_append]
      omega
    · simp only [← hcharacter] at hsettles
      obtain ⟨found, hfound, hbad⟩ := exists_invalid fun hgood => hnot ⟨hgood.1, hgood.2.1⟩
      refine ⟨_, nextLines_of_character_err os hblocks hsettles, .invalid found ?_ hbad⟩
      have hall : pieces carried descriptor.remaining =
          (complete ++ (pieces unfinished last.remaining).1,
            (pieces unfinished last.remaining).2) := by
        rw [hread, pieces_append, hpieces]
      rw [linesFrom_of_pieces hall]
      exact List.mem_append_right _ hfound

end Outcomes

theorem nextLines_spec (os : Nat → Nat) (descriptor : Descriptor) {carried : Bytes}
    (hnone : lineFeed ∉ carried) (hmost : carried.length ≤ stringMaximumCapacity) :
    ∃ outcome, Outcome.Settles (fun n => nextLines os n descriptor carried) outcome ∧
      Batch carried descriptor.remaining outcome := by
  have hstart : (startBuffer carried).capacity ≤ carried.length + lineBlock := by
    simp only [startBuffer]
    split <;> omega
  obtain ⟨outcome, hblocks, hspec⟩ := readLineBlocks_spec os (carried.length + lineBlock) descriptor
    carried (startBuffer carried).capacity (startBuffer_room hmost) (.inl hstart)
  cases hspec with
  | tooLarge read rest hread hread' hlarge =>
    obtain ⟨line, hline, hlength⟩ := exists_written hread' carried rest
    refine ⟨_, nextLines_of_blocks_err os hblocks, .tooLarge line (hread ▸ hline) ?_⟩
    rintro ⟨-, htwice⟩
    omega
  | ended last buffer hremaining hbytes hended =>
    exact nextLines_ended os hnone hblocks hremaining hbytes hended
  | line last buffer before read hread hline hbytes hended hroom hbefore hfirst hcapacity =>
    exact nextLines_line os hnone hblocks hread hline hbytes hended hroom hbefore hfirst hcapacity

/-! ## The fold -/

section Fold

variable {τ ε : Type} (step : τ → Bytes → Except ε τ) (ioError : ReadFailure → ε)

/-- The result of visiting `lines`: every one of them, when all are UTF-8.  Otherwise the
fold ends in InvalidUtf8, unless a step fails on a line before the first that is not. -/
structure Visits (lines : List Bytes) (value : τ) (result : Except ε τ) : Prop where
  valid : (∀ line ∈ lines, utf8IsValid line = true) → result = lines.foldlM step value
  invalid : (∃ line ∈ lines, utf8IsValid line = false) →
    result = .error (ioError .invalidUtf8) ∨
      ∃ error, result = .error error ∧
        (lines.takeWhile fun line => utf8IsValid line).foldlM step value = .error error

theorem foldl_bind (lines : List Bytes) (folded : Except ε τ) :
    lines.foldl (fun folded line => folded >>= fun value => step value line) folded =
      folded >>= fun value => lines.foldlM step value := by
  induction lines generalizing folded with
  | nil => cases folded <;> rfl
  | cons line lines ih =>
    rw [List.foldl_cons, ih]
    cases folded <;> rfl

variable {first second : List Bytes} {value : τ} {result : Except ε τ}

theorem foldlM_append_ok {next : τ} (h : first.foldlM step value = .ok next) :
    (first ++ second).foldlM step value = second.foldlM step next := by
  rw [List.foldlM_append, h]
  rfl

theorem foldlM_append_error {error : ε} (h : first.foldlM step value = .error error) :
    (first ++ second).foldlM step value = .error error := by
  rw [List.foldlM_append, h]
  rfl

variable {step ioError}

theorem Visits.of_error {error : ε} (hvalid : ∀ line ∈ first, utf8IsValid line = true)
    (h : first.foldlM step value = .error error) :
    Visits step ioError (first ++ second) value (.error error) := by
  refine ⟨fun _ => (foldlM_append_error step h).symm, fun _ => .inr ⟨error, rfl, ?_⟩⟩
  rw [List.takeWhile_append_of_pos hvalid]
  exact foldlM_append_error step h

theorem Visits.after {next : τ} (hvalid : ∀ line ∈ first, utf8IsValid line = true)
    (hfirst : first.foldlM step value = .ok next) (h : Visits step ioError second next result) :
    Visits step ioError (first ++ second) value result := by
  refine ⟨fun hall => ?_, ?_⟩
  · rw [foldlM_append_ok step hfirst]
    exact h.valid fun line hline => hall line (List.mem_append_right _ hline)
  · rintro ⟨line, hline, hinvalid⟩
    have hsecond : line ∈ second := by
      rcases List.mem_append.mp hline with hmem | hmem
      · rw [hvalid line hmem] at hinvalid
        cases hinvalid
      · exact hmem
    rcases h.invalid ⟨line, hsecond, hinvalid⟩ with hresult | ⟨error, hresult, herror⟩
    · exact .inl hresult
    · refine .inr ⟨error, hresult, ?_⟩
      rw [List.takeWhile_append_of_pos hvalid, foldlM_append_ok step hfirst]
      exact herror

/-- The turns of the fold end the same way for every fuel large enough, of its own and of
the calls it makes. -/
def FoldEnds (os : Nat → Nat) (step : τ → Bytes → Except ε τ) (ioError : ReadFailure → ε)
    (state : FoldState τ ε) (result : Except ε τ) : Prop :=
  ∃ least, ∀ n ≥ least, ∀ m ≥ least, turns (foldTurn os n step ioError) m state = .ok result

theorem FoldEnds.done {os : Nat → Nat} {state : FoldState τ ε}
    (h : ∃ least, ∀ n ≥ least, foldTurn os n step ioError state = .ok (.done result)) :
    FoldEnds os step ioError state result := by
  obtain ⟨least, hleast⟩ := h
  refine ⟨least + 1, fun n hn m hm => ?_⟩
  obtain ⟨fewer, rfl⟩ : ∃ fewer, m = fewer + 1 := ⟨m - 1, by omega⟩
  exact turns_done (hleast n (by omega)) fewer

theorem FoldEnds.again {os : Nat → Nat} {state next : FoldState τ ε}
    (h : ∃ least, ∀ n ≥ least, foldTurn os n step ioError state = .ok (.again next))
    (hnext : FoldEnds os step ioError next result) : FoldEnds os step ioError state result := by
  obtain ⟨least, hleast⟩ := h
  obtain ⟨later, hlater⟩ := hnext
  refine ⟨max least later + 1, fun n hn m hm => ?_⟩
  obtain ⟨fewer, rfl⟩ : ∃ fewer, m = fewer + 1 := ⟨m - 1, by omega⟩
  rw [turns_again (hleast n (by omega))]
  exact hlater n (by omega) fewer (by omega)

theorem foldTurn_of_batch (os : Nat → Nat) (value : τ) {descriptor last : Descriptor}
    {carried : Bytes} {batch : List Bytes}
    (h : Outcome.Settles (fun n => nextLines os n descriptor carried) (.ok (last, batch))) :
    ∃ least, ∀ n ≥ least, foldTurn os n step ioError ⟨descriptor, .ok value, carried⟩ =
      let folded := (batch.take (completeLines batch.length)).foldlM step value
      if folded.isOk && decide (batch.length > 1) then
        .ok (.again ⟨last, folded, batch.getLast?.getD []⟩)
      else .ok (.done folded) := by
  obtain ⟨-, least, hleast⟩ := h
  refine ⟨least, fun n hn => ?_⟩
  simp only [foldTurn, hleast n hn, foldl_bind]
  rfl

theorem foldTurn_of_failure (os : Nat → Nat) (state : FoldState τ ε) {failure : ReadFailure}
    (h : Outcome.Settles (fun n => nextLines os n state.descriptor state.carried) (.err failure)) :
    ∃ least, ∀ n ≥ least, foldTurn os n step ioError state =
      .ok (.done (.error (ioError failure))) := by
  obtain ⟨-, least, hleast⟩ := h
  refine ⟨least, fun n hn => ?_⟩
  simp [foldTurn, hleast n hn]

theorem fold_from (os : Nat → Nat) : ∀ (descriptor : Descriptor) (carried : Bytes) (value : τ),
    lineFeed ∉ carried → carried.length ≤ stringMaximumCapacity →
    ∃ result, FoldEnds os step ioError ⟨descriptor, .ok value, carried⟩ result ∧
      ((result = .error (ioError .fileTooLarge) ∧
          ∃ line ∈ writtenLines carried descriptor.remaining, ¬ Fits line.length) ∨
        Visits step ioError (linesFrom carried descriptor.remaining) value result) := by
  intro descriptor
  induction hsize : descriptor.remaining.length using Nat.strong_induction_on
    generalizing descriptor with
  | _ size ih =>
    intro carried value hnone hmost
    obtain ⟨outcome, hsettles, hbatch⟩ := nextLines_spec os descriptor hnone hmost
    cases hbatch with
    | tooLarge line hline hlarge =>
      exact ⟨_, .done (foldTurn_of_failure os ⟨descriptor, .ok value, carried⟩ hsettles), .inl ⟨rfl, line, hline, hlarge⟩⟩
    | invalid line hline hinvalid =>
      refine ⟨_, .done (foldTurn_of_failure os ⟨descriptor, .ok value, carried⟩ hsettles), .inr ⟨fun hvalid => ?_, fun _ => .inl rfl⟩⟩
      rw [hvalid line hline] at hinvalid
      cases hinvalid
    | final last hvalid hshort =>
      obtain ⟨least, hturn⟩ := foldTurn_of_batch os value hsettles
      refine ⟨(linesFrom carried descriptor.remaining).foldlM step value,
        .done ⟨least, fun n hn => ?_⟩, .inr ⟨fun _ => rfl, ?_⟩⟩
      · have hall : (linesFrom carried descriptor.remaining).take
            (completeLines (linesFrom carried descriptor.remaining).length)
            = linesFrom carried descriptor.remaining := by
          rw [completeLines, if_neg (by omega), List.take_length]
        rw [hturn n hn, hall]
        have hnot : ¬ (linesFrom carried descriptor.remaining).length > 1 := by omega
        simp [hnot]
      · rintro ⟨line, hline, hinvalid⟩
        rw [hvalid line hline] at hinvalid
        cases hinvalid
    | lines last complete unfinished hsome hvalid hpieces hnone' hmost' hprogress =>
      obtain ⟨least, hturn⟩ := foldTurn_of_batch os value hsettles
      have hvalid' : ∀ line ∈ complete.map stripReturn, utf8IsValid line = true := by
        intro line hline
        obtain ⟨written, hwritten, rfl⟩ := List.mem_map.mp hline
        exact hvalid written hwritten
      have hpos : 0 < complete.length := List.length_pos_iff.mpr hsome
      have htake : (complete.map stripReturn ++ [unfinished]).take
          (completeLines (complete.map stripReturn ++ [unfinished]).length)
          = complete.map stripReturn := by
        rw [completeLines, if_pos (by simp; omega)]
        exact List.take_left' (by simp)
      have hlong : (complete.map stripReturn ++ [unfinished]).length > 1 := by
        simp
        omega
      simp only [htake, hlong, decide_true, Bool.and_true, List.getLast?_append,
        List.getLast?_singleton, Option.some_or, Option.getD_some] at hturn
      rw [linesFrom_of_pieces hpieces, writtenLines_of_pieces hpieces]
      cases hfolded : (complete.map stripReturn).foldlM step value with
      | error error =>
        refine ⟨.error error, .done ⟨least, fun n hn => ?_⟩, .inr (.of_error hvalid' hfolded)⟩
        rw [hturn n hn, hfolded]
        rfl
      | ok next =>
        obtain ⟨result, hends, hresult⟩ := ih last.remaining.length (by omega) last rfl unfinished
          next hnone' hmost'
        refine ⟨result, .again ⟨least, fun n hn => ?_⟩ hends, ?_⟩
        · rw [hturn n hn, hfolded]
          rfl
        · rcases hresult with ⟨hlarge, line, hline, hnot⟩ | hvisits
          · exact .inl ⟨hlarge, line, List.mem_append_right _ hline, hnot⟩
          · exact .inr (.after hvalid' hfolded hvisits)

/-- However the content arrives, the fold over its batches visits the lines of the content.
A line too long for the reader can end it in FileTooLarge, and a line that is not UTF-8 ends it
in InvalidUtf8 unless a step fails on an earlier line. -/
theorem fold_descriptor_visits (content : Bytes) (initial : τ) (step : τ → Bytes → Except ε τ)
    (ioError : ReadFailure → ε) (os : Nat → Nat) :
    ∃ result, Outcome.Settles (fun fuel => foldDescriptor os fuel content initial step ioError)
        (.ok result) ∧
      ((∀ line ∈ writtenLines [] content, Fits line.length) →
        ((∀ line ∈ contentLines content, utf8IsValid line = true) →
          result = (contentLines content).foldlM step initial) ∧
        ((∃ line ∈ contentLines content, utf8IsValid line = false) →
          result = .error (ioError .invalidUtf8) ∨
            ∃ error, result = .error error ∧
              ((contentLines content).takeWhile fun line => utf8IsValid line).foldlM step initial
                = .error error)) ∧
      ((∃ line ∈ writtenLines [] content, ¬ Fits line.length) →
        result = .error (ioError .fileTooLarge) ∨
          Visits step ioError (contentLines content) initial result) := by
  obtain ⟨result, ⟨least, hleast⟩, hresult⟩ := @fold_from τ ε step ioError os
    ⟨content, 0⟩ [] initial (by simp) (by simp)
  refine ⟨result, ⟨by simp, least, fun n hn => hleast n hn n hn⟩, fun hfits => ?_, fun _ => ?_⟩
  · rcases hresult with ⟨-, line, hline, hlarge⟩ | hvisits
    · exact absurd (hfits line hline) hlarge
    · exact ⟨hvisits.valid, hvisits.invalid⟩
  · rcases hresult with ⟨hlarge, -⟩ | hvisits
    · exact .inl hlarge
    · exact .inr hvisits

end Fold

/-- `a`, then a line that is not UTF-8, under a step that always fails: the failure reported
is the step's if the first read ends with the first line, and the reader's if it does not. -/
theorem fold_descriptor_follows_chunks :
    foldDescriptor (fun _ => 2) 10 [97, 10, 255, 10] () (fun _ _ => .error true) (fun _ => false)
        = .ok (.error true) ∧
      foldDescriptor (fun _ => 4) 10 [97, 10, 255, 10] () (fun _ _ => .error true)
        (fun _ => false) = .ok (.error false) :=
  ⟨rfl, rfl⟩

end Blorp.Runtime
