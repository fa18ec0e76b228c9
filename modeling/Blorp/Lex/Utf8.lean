import Blorp.Lex.Source

/-!
# UTF-8 acceptance

`utf8End` against the encoding of RFC 3629, which `String.utf8EncodeChar` computes for a scalar
value.  ASCII bytes never get to `utf8End`: every caller tests for a byte above DEL first.
-/

namespace Blorp.Lex

/-! ## Codes -/

def utf8Codes (scalar : Nat) : List Nat :=
  if scalar ≤ 0x7f then [scalar]
  else if scalar ≤ 0x7ff then [scalar / 64 % 0x20 + 0xc0, scalar % 0x40 + 0x80]
  else if scalar ≤ 0xffff then
    [scalar / 4096 % 0x10 + 0xe0, scalar / 64 % 0x40 + 0x80, scalar % 0x40 + 0x80]
  else
    [scalar / 262144 % 0x08 + 0xf0, scalar / 4096 % 0x40 + 0x80, scalar / 64 % 0x40 + 0x80,
      scalar % 0x40 + 0x80]

theorem utf8EncodeChar_eq (char : Char) :
    String.utf8EncodeChar char = (utf8Codes char.toNat).map UInt8.ofNat := by
  show String.utf8EncodeChar char = (utf8Codes char.val.toNat).map UInt8.ofNat
  unfold String.utf8EncodeChar utf8Codes
  dsimp only
  split_ifs <;> rfl

theorem utf8Codes_lt (scalar : Nat) : ∀ code ∈ utf8Codes scalar, code < 256 := by
  unfold utf8Codes
  intro code hcode
  split_ifs at hcode <;> simp only [List.mem_cons, List.not_mem_nil, or_false] at hcode <;> omega

/-- What a continuation byte adds to the payload before it. -/
def addTail (scalar byte : Nat) : Nat :=
  scalar * utf8ContinuationRadix + (byte - utf8ContinuationStart)

def IsTails (tails : List Nat) : Prop :=
  ∀ tail ∈ tails, within tail utf8ContinuationStart utf8ContinuationEnd = true

theorem within_iff {value first last : Nat} :
    within value first last = true ↔ first ≤ value ∧ value ≤ last := by
  simp [within]

theorem addTail_eq (scalar byte : Nat) : addTail scalar byte = scalar * 64 + (byte - 128) := rfl

theorem tail_iff {tail : Nat} :
    within tail utf8ContinuationStart utf8ContinuationEnd = true ↔ 128 ≤ tail ∧ tail ≤ 191 :=
  within_iff

variable {scalar lead : Nat} {form : Utf8Form}

theorem surrogate_iff : within scalar unicodeSurrogateStart unicodeSurrogateEnd = true ↔
      55296 ≤ scalar ∧ scalar ≤ 57343 :=
  within_iff

theorem utf8Form_eq_some : utf8Form lead = some form ↔
      (194 ≤ lead ∧ lead ≤ 223 ∧ form = utf8TwoBytes) ∨
      (224 ≤ lead ∧ lead ≤ 239 ∧ form = utf8ThreeBytes) ∨
      (240 ≤ lead ∧ lead ≤ 244 ∧ form = utf8FourBytes) := by
  unfold utf8Form
  have htwo : within lead utf8TwoBytes.firstLead utf8TwoBytes.lastLead = true ↔
      194 ≤ lead ∧ lead ≤ 223 := within_iff
  have hthree : within lead utf8ThreeBytes.firstLead utf8ThreeBytes.lastLead = true ↔
      224 ≤ lead ∧ lead ≤ 239 := within_iff
  have hfour : within lead utf8FourBytes.firstLead utf8FourBytes.lastLead = true ↔
      240 ≤ lead ∧ lead ≤ 244 := within_iff
  split_ifs with h h' h''
  · rw [htwo] at h
    rw [Option.some_inj]
    constructor
    · rintro rfl
      exact .inl ⟨h.1, h.2, rfl⟩
    · rintro (⟨-, -, rfl⟩ | ⟨_, _, -⟩ | ⟨_, _, -⟩)
      · rfl
      · omega
      · omega
  · rw [hthree] at h'
    rw [Option.some_inj]
    constructor
    · rintro rfl
      exact .inr (.inl ⟨h'.1, h'.2, rfl⟩)
    · rintro (⟨_, _, -⟩ | ⟨-, -, rfl⟩ | ⟨_, _, -⟩)
      · omega
      · rfl
      · omega
  · rw [hfour] at h''
    rw [Option.some_inj]
    constructor
    · rintro rfl
      exact .inr (.inr ⟨h''.1, h''.2, rfl⟩)
    · rintro (⟨_, _, -⟩ | ⟨_, _, -⟩ | ⟨-, -, rfl⟩)
      · omega
      · omega
      · rfl
  · rw [htwo] at h
    rw [hthree] at h'
    rw [hfour] at h''
    constructor
    · intro hnone
      cases hnone
    · rintro (⟨_, _, -⟩ | ⟨_, _, -⟩ | ⟨_, _, -⟩) <;> omega

theorem form_width_pos (h : utf8Form lead = some form) : 1 < form.width := by
  rcases utf8Form_eq_some.mp h with ⟨-, -, rfl⟩ | ⟨-, -, rfl⟩ | ⟨-, -, rfl⟩ <;> decide

theorem isValidChar_lt (h : scalar.isValidChar) : scalar < 2 ^ 32 := by
  omega

/-- The codes of a scalar value above ASCII have a form, which decodes them. -/
theorem codes_form (hvalid : scalar.isValidChar) (h : 0x7f < scalar) :
    ∃ lead tails form, utf8Codes scalar = lead :: tails ∧ utf8Form lead = some form ∧
      tails.length = form.width - 1 ∧ IsTails tails ∧
      tails.foldl addTail (lead - form.leadMarker) = scalar ∧ form.minimum ≤ scalar := by
  have htail (code : Nat) :
      within (code % 0x40 + 0x80) utf8ContinuationStart utf8ContinuationEnd = true :=
    tail_iff.mpr ⟨by omega, by omega⟩
  unfold utf8Codes
  rw [if_neg (by omega)]
  by_cases htwo : scalar ≤ 0x7ff
  · rw [if_pos htwo]
    refine ⟨_, _, utf8TwoBytes, rfl, utf8Form_eq_some.mpr (.inl ⟨by omega, by omega, rfl⟩), rfl,
      by simp [IsTails, htail], ?_, by simp [utf8TwoBytes]; omega⟩
    simp only [List.foldl_cons, List.foldl_nil, addTail_eq, utf8TwoBytes]
    omega
  rw [if_neg htwo]
  by_cases hthree : scalar ≤ 0xffff
  · rw [if_pos hthree]
    refine ⟨_, _, utf8ThreeBytes, rfl,
      utf8Form_eq_some.mpr (.inr (.inl ⟨by omega, by omega, rfl⟩)), rfl,
      by simp [IsTails, htail], ?_, by simp [utf8ThreeBytes]; omega⟩
    simp only [List.foldl_cons, List.foldl_nil, addTail_eq, utf8ThreeBytes]
    omega
  · rw [if_neg hthree]
    refine ⟨_, _, utf8FourBytes, rfl,
      utf8Form_eq_some.mpr (.inr (.inr ⟨by omega, by omega, rfl⟩)), rfl,
      by simp [IsTails, htail], ?_, by simp [utf8FourBytes]; omega⟩
    simp only [List.foldl_cons, List.foldl_nil, addTail_eq, utf8FourBytes]
    omega

theorem form_codes {tails : List Nat} (hform : utf8Form lead = some form)
    (hlength : tails.length = form.width - 1) (htails : IsTails tails)
    (hscalar : tails.foldl addTail (lead - form.leadMarker) = scalar)
    (hminimum : form.minimum ≤ scalar) : utf8Codes scalar = lead :: tails ∧ 0x7f < scalar := by
  have hwithin (tail : Nat) (h : tail ∈ tails) : 128 ≤ tail ∧ tail ≤ 191 :=
    tail_iff.mp (htails tail h)
  rcases utf8Form_eq_some.mp hform with ⟨hlow, hhigh, rfl⟩ | ⟨hlow, hhigh, rfl⟩ | ⟨hlow, hhigh, rfl⟩
  · obtain ⟨second, rfl⟩ := List.length_eq_one_iff.mp hlength
    have hsecond := hwithin second (by simp)
    simp only [List.foldl_cons, List.foldl_nil, addTail_eq, utf8TwoBytes] at hscalar
    have hbytes : utf8Codes scalar = [scalar / 64 % 0x20 + 0xc0, scalar % 0x40 + 0x80] := by
      unfold utf8Codes
      rw [if_neg (by omega), if_pos (by omega)]
    rw [hbytes]
    simp only [List.cons.injEq, and_true]
    omega
  · obtain ⟨second, third, rfl⟩ := List.length_eq_two.mp hlength
    have hsecond := hwithin second (by simp)
    have hthird := hwithin third (by simp)
    simp only [utf8ThreeBytes] at hminimum
    simp only [List.foldl_cons, List.foldl_nil, addTail_eq, utf8ThreeBytes] at hscalar
    have hbytes : utf8Codes scalar
        = [scalar / 4096 % 0x10 + 0xe0, scalar / 64 % 0x40 + 0x80, scalar % 0x40 + 0x80] := by
      unfold utf8Codes
      rw [if_neg (by omega), if_neg (by omega), if_pos (by omega)]
    rw [hbytes]
    simp only [List.cons.injEq, and_true]
    omega
  · obtain ⟨second, third, fourth, rfl⟩ := List.length_eq_three.mp hlength
    have hsecond := hwithin second (by simp)
    have hthird := hwithin third (by simp)
    have hfourth := hwithin fourth (by simp)
    simp only [utf8FourBytes] at hminimum
    simp only [List.foldl_cons, List.foldl_nil, addTail_eq, utf8FourBytes] at hscalar
    have hbytes : utf8Codes scalar
        = [scalar / 262144 % 0x08 + 0xf0, scalar / 4096 % 0x40 + 0x80, scalar / 64 % 0x40 + 0x80,
          scalar % 0x40 + 0x80] := by
      unfold utf8Codes
      rw [if_neg (by omega), if_neg (by omega), if_neg (by omega)]
    rw [hbytes]
    simp only [List.cons.injEq, and_true]
    omega

/-! ## Reading codes -/

namespace SourceText

variable {text : SourceText}

/-- The codes are the bytes from `start` on. -/
def Reads (text : SourceText) : Nat → List Nat → Prop
  | _, [] => True
  | start, code :: codes => text.byteAt start = some code ∧ text.Reads (start + 1) codes

variable {start : Nat}

theorem byteAt_iff {code : Nat} (hcode : code < 256) :
    text.byteAt start = some code ↔ text.bytes[start]? = some (UInt8.ofNat code) := by
  unfold byteAt
  rw [Option.map_eq_some_iff]
  constructor
  · rintro ⟨byte, hbyte, rfl⟩
    rw [hbyte, UInt8.ofNat_toNat]
  · intro hbyte
    exact ⟨_, hbyte, UInt8.toNat_ofNat_of_lt' hcode⟩

theorem reads_iff {codes : List Nat} (hcodes : ∀ code ∈ codes, code < 256) :
    ∀ start, text.Reads start codes ↔
      (text.bytes.drop start).take codes.length = codes.map UInt8.ofNat := by
  induction codes with
  | nil => simp [Reads]
  | cons code codes ih =>
    intro start
    have hrest := ih (fun other hother => hcodes other (List.mem_cons_of_mem _ hother)) (start + 1)
    rw [Reads, byteAt_iff (hcodes code List.mem_cons_self), hrest, List.length_cons, List.map_cons]
    by_cases hlt : start < text.bytes.length
    · rw [List.drop_eq_getElem_cons hlt, List.take_succ_cons, List.cons.injEq,
        List.getElem?_eq_getElem hlt, Option.some_inj]
    · have hnone : text.bytes.drop start = [] := List.drop_eq_nil_of_le (by omega)
      rw [List.getElem?_eq_none (by omega), hnone, List.take_nil]
      simp

theorem reads_bound {codes : List Nat} :
    ∀ {start : Nat}, text.Reads start codes → codes ≠ [] → start + codes.length ≤ text.length := by
  induction codes with
  | nil => exact fun _ h => absurd rfl h
  | cons code codes ih =>
    intro start h _
    have hlt := lt_length_of_byteAt h.1
    by_cases hrest : codes = []
    · rw [hrest]
      exact hlt
    · have := ih h.2 hrest
      rw [List.length_cons]
      omega

theorem utf8Scalar_tail {left cursor scalar byte : Nat} (hbyte : text.byteAt cursor = some byte)
    (htail : within byte utf8ContinuationStart utf8ContinuationEnd = true) :
    text.utf8Scalar start (left + 1) cursor scalar
      = text.utf8Scalar start left (cursor + 1) (addTail scalar byte) := by
  rw [utf8Scalar, hbyte]
  exact if_pos htail

theorem utf8Scalar_succ_ok {left cursor scalar result : Nat}
    (h : text.utf8Scalar start (left + 1) cursor scalar = .ok result) :
    ∃ byte, text.byteAt cursor = some byte ∧
      within byte utf8ContinuationStart utf8ContinuationEnd = true ∧
      text.utf8Scalar start left (cursor + 1) (addTail scalar byte) = .ok result := by
  rw [utf8Scalar] at h
  split at h
  · cases h
  · rename_i byte hbyte
    by_cases htail : within byte utf8ContinuationStart utf8ContinuationEnd = true
    · rw [if_pos htail] at h
      exact ⟨byte, hbyte, htail, h⟩
    · rw [if_neg htail] at h
      cases h

/-- The payload of the continuation bytes from `cursor` on. -/
theorem utf8Scalar_eq_ok :
    ∀ {left cursor scalar result : Nat}, text.utf8Scalar start left cursor scalar = .ok result ↔
      ∃ tails, tails.length = left ∧ IsTails tails ∧ text.Reads cursor tails ∧
        tails.foldl addTail scalar = result := by
  intro left
  induction left with intro cursor scalar result
  | zero =>
    rw [utf8Scalar, Except.ok.injEq]
    constructor
    · rintro rfl
      exact ⟨[], rfl, by simp [IsTails], trivial, rfl⟩
    · rintro ⟨tails, hlength, -, -, rfl⟩
      rw [List.length_eq_zero_iff.mp hlength]
      rfl
  | succ left ih =>
    constructor
    · intro h
      obtain ⟨byte, hbyte, htail, hmore⟩ := utf8Scalar_succ_ok h
      obtain ⟨tails, hlength, htails, hreads, hresult⟩ := ih.mp hmore
      have hall : IsTails (byte :: tails) := by
        intro tail hmem
        rcases List.mem_cons.mp hmem with heq | hmem
        · rw [heq]
          exact htail
        · exact htails tail hmem
      rw [← List.foldl_cons] at hresult
      exact ⟨byte :: tails, congrArg (· + 1) hlength, hall, ⟨hbyte, hreads⟩, hresult⟩
    · rintro ⟨tails, hlength, htails, hreads, hresult⟩
      obtain ⟨byte, tails, rfl⟩ := List.exists_cons_of_length_eq_add_one hlength
      rw [List.foldl_cons] at hresult
      rw [utf8Scalar_tail hreads.1 (htails byte List.mem_cons_self)]
      exact ih.mpr ⟨tails, Nat.succ.inj hlength,
        fun tail h => htails tail (List.mem_cons_of_mem _ h), hreads.2, hresult⟩

theorem utf8End_eq_ok {lead stop : Nat} (hlead : text.byteAt start = some lead) :
    text.utf8End start lead = .ok stop ↔
      ∃ scalar, scalar.isValidChar ∧ 0x7f < scalar ∧ text.Reads start (utf8Codes scalar) ∧
        stop = start + (utf8Codes scalar).length := by
  constructor
  · intro h
    unfold utf8End at h
    split at h
    · cases h
    · rename_i form hform
      obtain ⟨scalar, hscalar, h⟩ := Except.peel h
      obtain ⟨tails, hlength, htails, hreads, hresult⟩ := utf8Scalar_eq_ok.mp hscalar
      split_ifs at h with hrange
      cases h
      rw [not_or, not_or, surrogate_iff] at hrange
      have hmax : ¬ scalar > 1114111 := hrange.2.1
      obtain ⟨hcodes, habove⟩ :=
        form_codes hform hlength htails hresult (by have := hrange.1; omega)
      refine ⟨scalar, ?_, habove, ?_, ?_⟩
      · omega
      · rw [hcodes]
        exact ⟨hlead, hreads⟩
      · rw [hcodes, List.length_cons, hlength]
        have := form_width_pos hform
        omega
  · rintro ⟨scalar, hvalid, habove, hreads, rfl⟩
    obtain ⟨first, tails, form, hcodes, hform, hlength, htails, hscalar, hminimum⟩ :=
      codes_form hvalid habove
    rw [hcodes] at hreads ⊢
    obtain ⟨hfirst, htail⟩ := hreads
    obtain rfl : lead = first := by
      rw [hlead] at hfirst
      exact Option.some_inj.mp hfirst
    have hmax : ¬ scalar > unicodeMax := by
      show ¬ scalar > 1114111
      omega
    have hrange : ¬ (scalar < form.minimum ∨ scalar > unicodeMax ∨
        within scalar unicodeSurrogateStart unicodeSurrogateEnd = true) := by
      rw [surrogate_iff, not_or, not_or]
      exact ⟨by omega, hmax, by omega⟩
    have hwidth := form_width_pos hform
    unfold utf8End
    rw [hform]
    refine Except.bind_eq_ok.mpr ⟨scalar, utf8Scalar_eq_ok.mpr ⟨tails, hlength, htails, htail,
      hscalar⟩, ?_⟩
    rw [if_neg hrange, List.length_cons, hlength]
    congr 1
    omega

/-- **Exact.**  At a byte, `utf8End` accepts exactly the encoding of one Unicode scalar value
above ASCII. -/
theorem utf8End_exact {start lead stop : Nat} (hlead : text.byteAt start = some lead) :
    text.utf8End start lead = .ok stop ↔
      ∃ char : Char, 0x7f < char.toNat ∧ stop ≤ text.length ∧
        (text.bytes.drop start).take (stop - start) = String.utf8EncodeChar char := by
  rw [utf8End_eq_ok hlead]
  have hstart := lt_length_of_byteAt hlead
  constructor
  · rintro ⟨scalar, hvalid, habove, hreads, rfl⟩
    obtain ⟨char, hchar⟩ : ∃ char : Char, char.toNat = scalar :=
      ⟨⟨UInt32.ofNatLT scalar (isValidChar_lt hvalid), hvalid⟩, rfl⟩
    refine ⟨char, by rw [hchar]; exact habove, reads_bound hreads ?_, ?_⟩
    · obtain ⟨_, _, _, hcodes, _⟩ := codes_form hvalid habove
      rw [hcodes]
      exact List.cons_ne_nil _ _
    · rw [Nat.add_sub_cancel_left, utf8EncodeChar_eq, hchar]
      exact (reads_iff (utf8Codes_lt scalar) start).mp hreads
  · rintro ⟨char, habove, hstop, hbytes⟩
    have hlength : (utf8Codes char.toNat).length = stop - start := by
      have hcount := congrArg List.length hbytes
      rw [utf8EncodeChar_eq, List.length_map, List.length_take, List.length_drop] at hcount
      have hstop : stop ≤ text.bytes.length := hstop
      omega
    refine ⟨char.toNat, char.valid, habove, ?_, ?_⟩
    · rw [reads_iff (utf8Codes_lt _), hlength, ← utf8EncodeChar_eq]
      exact hbytes
    · obtain ⟨first, tails, _, hcodes, _⟩ := codes_form char.valid habove
      have hcodes : utf8Codes char.toNat = first :: tails := hcodes
      have hpos : 0 < (utf8Codes char.toNat).length := by
        rw [hcodes]
        exact Nat.succ_pos _
      omega

/-- An ASCII byte is an encoding that `utf8End` does not accept. -/
theorem utf8End_ascii : ¬ ∀ (text : SourceText) (start lead stop : Nat),
    text.byteAt start = some lead → (text.utf8End start lead = .ok stop ↔
      ∃ char : Char, stop ≤ text.length ∧
        (text.bytes.drop start).take (stop - start) = String.utf8EncodeChar char) := by
  intro h
  have haccepted : SourceText.utf8End ⟨0, [97]⟩ 0 97 = .ok 1 :=
    (h ⟨0, [97]⟩ 0 97 1 rfl).mpr ⟨'a', by decide, by decide⟩
  cases haccepted

/-- The bytes of é at the end of a text. -/
theorem utf8End_exact_two : (SourceText.utf8End ⟨0, [97, 195, 169]⟩ 1 195 = .ok 3) ↔
    ∃ char : Char, 0x7f < char.toNat ∧ 3 ≤ 3 ∧
      ([97, 195, 169].drop 1).take (3 - 1) = String.utf8EncodeChar char :=
  utf8End_exact rfl

end SourceText

end Blorp.Lex
