import Mathlib

/-!
# UTF-8 as the runtime checks it

`blorp_utf8_is_valid` of `runtime/string.brp` and the search of `runtime/fs.brp` for the
bytes still missing from a sequence.  A String's bytes are a list of bytes; comparisons are
of their numbers.
-/

namespace Blorp.Runtime

abbrev Bytes := List UInt8

def between (low high : Nat) (byte : UInt8) : Bool :=
  decide (low ≤ byte.toNat) && decide (byte.toNat ≤ high)

def isTail (byte : UInt8) : Bool := between 0x80 0xbf byte

/-- E0 excludes overlongs; ED excludes surrogate encodings. -/
def secondOfThree (lead second : UInt8) : Bool :=
  between (if lead.toNat = 0xe0 then 0xa0 else 0x80) (if lead.toNat = 0xed then 0x9f else 0xbf)
    second

/-- F0 excludes overlongs; F4 excludes scalars above U+10FFFF. -/
def secondOfFour (lead second : UInt8) : Bool :=
  between (if lead.toNat = 0xf0 then 0x90 else 0x80) (if lead.toNat = 0xf4 then 0x8f else 0xbf)
    second

def utf8IsValid : Bytes → Bool
  | [] => true
  | lead :: rest =>
      if lead.toNat ≤ 0x7f then utf8IsValid rest
      else if between 0xc2 0xdf lead then
        match rest with
        | second :: rest => isTail second && utf8IsValid rest
        | _ => false
      else if between 0xe0 0xef lead then
        match rest with
        | second :: third :: rest => secondOfThree lead second && isTail third && utf8IsValid rest
        | _ => false
      else if between 0xf0 0xf4 lead then
        match rest with
        | second :: third :: fourth :: rest =>
            secondOfFour lead second && isTail third && isTail fourth && utf8IsValid rest
        | _ => false
      else false

/-- How many bytes a sequence with this lead has; 1 when it starts none. -/
def neededBytes (byte : UInt8) : Nat :=
  if between 0xc2 0xdf byte then 2
  else if between 0xe0 0xef byte then 3
  else if between 0xf0 0xf4 byte then 4
  else 1

/-- The search back from the end, over at most three bytes: the bytes come last first. -/
def missingBack : Nat → Bytes → Nat
  | _, [] => 0
  | back, byte :: before =>
      if back > 3 then 0
      else if byte &&& 0xc0 == 0x80 then missingBack (back + 1) before
      else if neededBytes byte > back then neededBytes byte - back
      else 0

/-- The bytes still missing from a sequence that `bytes` ends partway through. -/
def utf8Missing (bytes : Bytes) : Nat := missingBack 1 bytes.reverse

/-! ## Masks -/

theorem mask_eq_isTail (byte : UInt8) : (byte &&& 0xc0 == 0x80) = isTail byte := by
  have hall : ∀ n : Fin 256, (UInt8.ofNat n &&& 0xc0 == 0x80) = isTail (UInt8.ofNat n) := by
    decide +kernel
  have h := hall ⟨byte.toNat, byte.toNat_lt⟩
  simpa using h

theorem missingBack_cons (back : Nat) (byte : UInt8) (before : Bytes) :
    missingBack back (byte :: before) =
      if back > 3 then 0
      else if isTail byte then missingBack (back + 1) before
      else if neededBytes byte > back then neededBytes byte - back
      else 0 := by
  rw [missingBack, mask_eq_isTail]

variable {lead byte : UInt8} {low high : Nat}

theorem missingBack_tails {tails : Bytes} (htails : ∀ byte ∈ tails, isTail byte = true)
    (hlead : isTail lead = false) (before : Bytes) (back : Nat) :
    missingBack back (tails ++ lead :: before) =
      if back + tails.length > 3 then 0 else neededBytes lead - (back + tails.length) := by
  induction tails generalizing back with
  | nil =>
    simp only [List.nil_append, missingBack_cons, hlead, List.length_nil, Nat.add_zero]
    split
    · rfl
    · simp only [Bool.false_eq_true, ↓reduceIte]
      split <;> omega
  | cons tail tails ih =>
    have hrest := ih (fun byte hbyte => htails byte (List.mem_cons_of_mem _ hbyte)) (back + 1)
    simp only [List.cons_append, missingBack_cons, htails tail (by simp), ↓reduceIte, hrest,
      List.length_cons]
    split
    · rw [if_pos (by omega)]
    · rw [show back + 1 + tails.length = back + (tails.length + 1) by omega]

/-! ## Sequences -/

/-- A sequence: a lead and the continuation bytes it needs, whatever follows. -/
structure Sequence (lead : UInt8) (tails : Bytes) : Prop where
  leads : isTail lead = false
  continues : ∀ byte ∈ tails, isTail byte = true
  needed : neededBytes lead = tails.length + 1
  short : tails.length ≤ 3
  valid : ∀ rest, utf8IsValid (lead :: (tails ++ rest)) = utf8IsValid rest

theorem isTail_of_second (h : between low high byte = true) (hlow : 0x80 ≤ low)
    (hhigh : high ≤ 0xbf) : isTail byte = true := by
  simp only [isTail, between, Bool.and_eq_true, decide_eq_true_eq] at h ⊢
  omega

theorem between_iff : between low high byte = true ↔ low ≤ byte.toNat ∧ byte.toNat ≤ high := by
  simp [between]

theorem between_eq_false (h : byte.toNat < low ∨ high < byte.toNat) :
    between low high byte = false := by
  rw [Bool.eq_false_iff]
  intro hbetween
  have := between_iff.mp hbetween
  omega

theorem exists_sequence {bytes : Bytes} (h : utf8IsValid (lead :: bytes) = true) :
    ∃ tails rest, bytes = tails ++ rest ∧ Sequence lead tails ∧ utf8IsValid rest = true := by
  unfold utf8IsValid at h
  split at h
  · rename_i hascii
    refine ⟨[], bytes, rfl, ⟨between_eq_false (by omega), by simp, ?_, by simp, ?_⟩, h⟩
    · simp [neededBytes, between_eq_false (show lead.toNat < 0xc2 ∨ 0xdf < lead.toNat by omega),
        between_eq_false (show lead.toNat < 0xe0 ∨ 0xef < lead.toNat by omega),
        between_eq_false (show lead.toNat < 0xf0 ∨ 0xf4 < lead.toNat by omega)]
    · intro rest
      conv =>
        lhs
        unfold utf8IsValid
      rw [List.nil_append, if_pos hascii]
  · rename_i hascii
    split at h
    · rename_i htwo
      have hrange := between_iff.mp htwo
      split at h
      · rename_i second rest
        simp only [Bool.and_eq_true] at h
        refine ⟨[second], rest, rfl, ⟨between_eq_false (by omega), ?_, ?_, by simp, ?_⟩, h.2⟩
        · simpa using h.1
        · simp [neededBytes, htwo]
        · intro rest
          simp [utf8IsValid, hascii, htwo, h.1]
      · cases h
    · rename_i htwo
      split at h
      · rename_i hthree
        have hrange := between_iff.mp hthree
        split at h
        · rename_i second third rest
          simp only [Bool.and_eq_true] at h
          refine ⟨[second, third], rest, rfl,
            ⟨between_eq_false (by omega), ?_, ?_, by simp, ?_⟩, h.2⟩
          · have hsecond : isTail second = true :=
              isTail_of_second h.1.1 (by split <;> omega) (by split <;> omega)
            simp [hsecond, h.1.2]
          · simp [neededBytes, htwo, hthree]
          · intro rest
            simp [utf8IsValid, hascii, htwo, hthree, h.1.1, h.1.2]
        · cases h
      · rename_i hthree
        split at h
        · rename_i hfour
          have hrange := between_iff.mp hfour
          split at h
          · rename_i second third fourth rest
            simp only [Bool.and_eq_true] at h
            refine ⟨[second, third, fourth], rest, rfl,
              ⟨between_eq_false (by omega), ?_, ?_, by simp, ?_⟩, h.2⟩
            · have hsecond : isTail second = true :=
                isTail_of_second h.1.1.1 (by split <;> omega) (by split <;> omega)
              simp [hsecond, h.1.1.2, h.1.2]
            · simp [neededBytes, htwo, hthree, hfour]
            · intro rest
              simp [utf8IsValid, hascii, htwo, hthree, hfour, h.1.1.1, h.1.1.2, h.1.2]
          · cases h
        · cases h

theorem utf8Missing_append {before after : Bytes} (hlead : isTail lead = false) :
    utf8Missing (before ++ lead :: after) = utf8Missing (lead :: after) := by
  obtain ⟨tails, last, rest, hsplit, hlast, htails⟩ : ∃ tails last rest,
      (lead :: after).reverse = tails ++ last :: rest ∧ isTail last = false ∧
        ∀ byte ∈ tails, isTail byte = true := by
    have hnotAll : (lead :: after).reverse.dropWhile isTail ≠ [] := by
      rw [Ne, List.dropWhile_eq_nil_iff]
      intro hall
      rw [hall lead (by simp)] at hlead
      cases hlead
    obtain ⟨last, rest, hdrop⟩ := List.exists_cons_of_ne_nil hnotAll
    refine ⟨(lead :: after).reverse.takeWhile isTail, last, rest, ?_, ?_, ?_⟩
    · rw [← hdrop, List.takeWhile_append_dropWhile]
    · have hhead := List.head_dropWhile_not isTail hnotAll
      simp only [hdrop, List.head_cons] at hhead
      exact hhead
    · intro byte hbyte
      exact List.mem_takeWhile_imp hbyte
  unfold utf8Missing
  rw [List.reverse_append, hsplit, List.append_assoc, List.cons_append,
    missingBack_tails htails hlast, missingBack_tails htails hlast]

theorem Sequence.utf8Missing_start {tails started : Bytes} (h : Sequence lead tails)
    (hstarted : started <+: tails) :
    utf8Missing (lead :: started) = tails.length - started.length := by
  have hall : ∀ byte ∈ started.reverse, isTail byte = true := fun byte hbyte =>
    h.continues byte (hstarted.subset (List.mem_reverse.mp hbyte))
  unfold utf8Missing
  rw [List.reverse_cons, missingBack_tails hall h.leads, h.needed, List.length_reverse]
  have hlength := hstarted.length_le
  have hshort := h.short
  split <;> omega

/-- Completing the last sequence of a prefix of a valid text makes the prefix valid. -/
theorem valid_complete {known : Bytes} : ∀ {unknown : Bytes},
    utf8IsValid (known ++ unknown) = true →
    utf8Missing known ≤ unknown.length ∧
      (∀ byte ∈ unknown.take (utf8Missing known), isTail byte = true) ∧
      utf8IsValid (known ++ unknown.take (utf8Missing known)) = true := by
  induction hsize : known.length using Nat.strong_induction_on generalizing known with
  | _ size ih =>
    intro unknown h
    cases known with
    | nil => simp [utf8Missing, missingBack, utf8IsValid]
    | cons lead more =>
      rw [List.cons_append] at h
      obtain ⟨tails, rest, hsplit, hsequence, hrest⟩ := exists_sequence h
      rcases Nat.lt_or_ge more.length tails.length with hinside | houtside
      · -- The prefix ends inside its last sequence.
        have hstarted : more <+: tails :=
          List.prefix_of_prefix_length_le (List.prefix_append more unknown)
            (hsplit ▸ List.prefix_append tails rest) hinside.le
        obtain ⟨missing, rfl⟩ := hstarted
        have hunknown : unknown = missing ++ rest := by simpa using hsplit
        have hcount := hsequence.utf8Missing_start (List.prefix_append more missing)
        rw [List.length_append, Nat.add_sub_cancel_left] at hcount
        rw [hcount, hunknown]
        refine ⟨by simp, ?_, ?_⟩
        · intro byte hbyte
          rw [List.take_left] at hbyte
          exact hsequence.continues byte (by simp [hbyte])
        · rw [List.take_left, List.cons_append]
          have hvalid := hsequence.valid []
          rw [List.append_nil] at hvalid
          rw [hvalid]
          rfl
      · have hpassed : tails <+: more :=
          List.prefix_of_prefix_length_le (hsplit ▸ List.prefix_append tails rest)
            (List.prefix_append more unknown) houtside
        obtain ⟨after, rfl⟩ := hpassed
        have hafter : rest = after ++ unknown := by
          have := hsplit
          rw [List.append_assoc] at this
          exact (List.append_cancel_left this).symm
        subst hafter
        have hmissing : utf8Missing (lead :: (tails ++ after)) = utf8Missing after := by
          cases after with
          | nil =>
            rw [List.append_nil, hsequence.utf8Missing_start (List.prefix_refl _)]
            simp [utf8Missing, missingBack]
          | cons next after =>
            obtain ⟨_, _, _, hnext, _⟩ := exists_sequence hrest
            rw [← List.cons_append, utf8Missing_append hnext.leads]
        obtain ⟨hle, htails, hvalid⟩ := ih after.length (by simp at hsize; omega) rfl hrest
        rw [hmissing]
        refine ⟨hle, htails, ?_⟩
        rw [List.cons_append, List.append_assoc, hsequence.valid]
        exact hvalid

/-! ## Texts side by side -/

theorem utf8IsValid_append {first : Bytes} : ∀ (_ : utf8IsValid first = true) (second : Bytes),
    utf8IsValid (first ++ second) = utf8IsValid second := by
  induction hsize : first.length using Nat.strong_induction_on generalizing first with
  | _ size ih =>
    intro h second
    cases first with
    | nil => rfl
    | cons lead bytes =>
      obtain ⟨tails, rest, rfl, hsequence, hrest⟩ := exists_sequence h
      rw [List.cons_append, List.append_assoc, hsequence.valid]
      exact ih rest.length (by simp at hsize; omega) rfl hrest second

theorem missingBack_le {back : Nat} (hback : 0 < back) (bytes : Bytes) :
    missingBack back bytes ≤ 3 := by
  induction bytes generalizing back with
  | nil => simp [missingBack]
  | cons byte bytes ih =>
    have hneeded : neededBytes byte ≤ 4 := by
      unfold neededBytes
      split
      · omega
      · split
        · omega
        · split <;> omega
    rw [missingBack_cons]
    split
    · omega
    · split
      · exact ih (by omega)
      · split <;> omega

theorem utf8Missing_le (bytes : Bytes) : utf8Missing bytes ≤ 3 :=
  missingBack_le (by omega) bytes.reverse

end Blorp.Runtime
