import DocComments.TypeExpr.Token
import Mathlib.Data.List.TakeWhile

/-!
# The lexemes of type specifications

Besides its signs, a type specification is written with the lexemes

    NAME   := part ('.' part)*
    part   := start char*
    STRING := '"' item* '"' | ''' item* '''
    item   := any but the quote and '\' | '\' any but a line feed
    NUMBER := ['-'] digit+ ['.' digit+]

where a name starts with an ASCII letter, an underscore or a dollar sign, goes on with word
characters and dollar signs, and the digits are those of any script.

* `lexemeAt_isWritten`: whatever the scanner takes for a lexeme is written like one.
* `lexemeAt_append`: a lexeme before a blank or the end is what the scanner takes.
* `lexemes_of_tokens`, `scan_respaced`: the lexemes of a text are written so, and lexemes that are
  written so are found again in any text that has them in it with blanks in between.
-/

namespace DocComments.TypeExpr

open Token

/-! ## The productions -/

/-- Derives `part`. -/
def IsNamePart (text : List Char) : Prop :=
  ∃ c rest, text = c :: rest ∧ isNameStart c = true ∧ ∀ d ∈ rest, isNameChar d = true

/-- Derives `NAME`. -/
inductive IsName : List Char → Prop where
  | part {text : List Char} (h : IsNamePart text) : IsName text
  | dotted {part text : List Char} (hpart : IsNamePart part) (h : IsName text) :
      IsName (part ++ '.' :: text)

/-- Derives `item*` between two quotes. -/
inductive IsQuotable (quote : Char) : List Char → Prop where
  | nil : IsQuotable quote []
  | plain {c : Char} {text : List Char} (hquote : c ≠ quote) (hslash : c ≠ '\\')
      (h : IsQuotable quote text) : IsQuotable quote (c :: text)
  | escaped {c : Char} {text : List Char} (hbreak : c ≠ '\n') (h : IsQuotable quote text) :
      IsQuotable quote ('\\' :: c :: text)

/-- The two kinds of quotes. -/
def quotes : List Char := ['\x22', '\x27']

/-- Derives `STRING`. -/
def IsQuoted (text : List Char) : Prop :=
  ∃ quote ∈ quotes, ∃ body, IsQuotable quote body ∧ text = quote :: body ++ [quote]

/-- Derives `digit+`. -/
def IsDigits (text : List Char) : Prop :=
  text ≠ [] ∧ ∀ c ∈ text, Text.isDigit c = true

/-- Derives `digit+ ['.' digit+]`. -/
inductive IsUnsigned : List Char → Prop where
  | whole {whole : List Char} (h : IsDigits whole) : IsUnsigned whole
  | decimal {whole fraction : List Char} (hwhole : IsDigits whole) (hfraction : IsDigits fraction) :
      IsUnsigned (whole ++ '.' :: fraction)

/-- Derives `NUMBER`. -/
inductive IsNumber : List Char → Prop where
  | unsigned {text : List Char} (h : IsUnsigned text) : IsNumber text
  | negative {text : List Char} (h : IsUnsigned text) : IsNumber ('-' :: text)

/-- The text of the lexeme is written like one of its kind. -/
def Lexeme.IsWritten : Lexeme → Prop
  | .symbol _ => True
  | .quoted text => IsQuoted text.toList
  | .number text => IsNumber text.toList
  | .name text => IsName text.toList

/-! ## Kinds of characters -/

/-- The codes of the blanks. -/
def blankCodes : List Nat :=
  List.range' 9 5 ++ List.range' 28 5 ++ [0x85, 0xa0, 0x1680] ++ List.range' 0x2000 11 ++
    [0x2028, 0x2029, 0x202f, 0x205f, 0x3000]

/-- The characters that a sign can begin with. -/
def signChars : List Char :=
  ['→', '-', '.', '?', '(', ')', '[', ']', '\x7b', '\x7d', '<', '>', ',', ':', '|']

theorem mem_blankCodes {c : Char} (h : Text.isBlank c = true) : c.toNat ∈ blankCodes := by
  simp only [Text.isBlank, Bool.or_eq_true, Bool.and_eq_true, decide_eq_true_eq, beq_iff_eq] at h
  simp only [blankCodes, List.mem_append, List.mem_range'_1, List.mem_cons, List.not_mem_nil,
    or_false]
  omega

/-- A blank ends a name and a number. -/
theorem not_continues_of_isBlank {c : Char} (h : Text.isBlank c = true) :
    isNameChar c = false ∧ Text.isDigit c = false ∧ c ≠ '.' := by
  have hall : ∀ n ∈ blankCodes, isNameChar (Char.ofNat n) = false ∧
      Text.isDigit (Char.ofNat n) = false ∧ Char.ofNat n ≠ '.' := by
    decide +kernel
  have hc := hall c.toNat (mem_blankCodes h)
  rwa [Char.ofNat_toNat] at hc

theorem not_isBlank_of_isDigit {c : Char} (h : Text.isDigit c = true) :
    Text.isBlank c = false := by
  by_contra hblank
  rw [(not_continues_of_isBlank (Bool.not_eq_false _ ▸ hblank)).2.1] at h
  cases h

theorem not_mem_of_isDigit {c : Char} (h : Text.isDigit c = true) :
    c ∉ signChars ∧ c ∉ quotes := by
  have hall : (signChars ++ quotes).all (fun d => !Text.isDigit d) = true := by decide +kernel
  rw [← not_or, ← List.mem_append]
  intro hmem
  have hdigit := List.all_eq_true.mp hall c hmem
  rw [h] at hdigit
  cases hdigit

theorem toNat_lt_of_isNameStart {c : Char} (h : isNameStart c = true) : c.toNat < 128 := by
  simp only [isNameStart, Bool.or_eq_true, beq_iff_eq] at h
  rcases h with (h | rfl) | rfl
  · rcases Bool.or_eq_true_iff.mp h with hupper | hlower
    · have hle : c.val ≤ 'Z'.val := (of_decide_eq_true hupper).2
      exact Nat.lt_of_le_of_lt (UInt32.le_iff_toNat_le.mp hle) (by decide)
    · have hle : c.val ≤ 'z'.val := of_decide_eq_true (Bool.and_eq_true_iff.mp hlower).2
      exact Nat.lt_of_le_of_lt (UInt32.le_iff_toNat_le.mp hle) (by decide)
  · decide
  · decide

/-- A name begins like no other lexeme. -/
theorem isNameStart_facts {c : Char} (h : isNameStart c = true) :
    Text.isBlank c = false ∧ Text.isDigit c = false ∧ c ∉ signChars ∧ c ∉ quotes := by
  have hall : ∀ n < 128, isNameStart (Char.ofNat n) = true →
      Text.isBlank (Char.ofNat n) = false ∧ Text.isDigit (Char.ofNat n) = false ∧
        Char.ofNat n ∉ signChars ∧ Char.ofNat n ∉ quotes := by
    decide +kernel
  have hc := hall c.toNat (toNat_lt_of_isNameStart h)
  rw [Char.ofNat_toNat] at hc
  exact hc h

/-- A lexeme can end before this text: it is empty or goes on with a blank. -/
def EndsLexeme (text : List Char) : Prop :=
  ∀ c ∈ text.head?, Text.isBlank c = true

theorem endsLexeme_nil : EndsLexeme [] := by
  simp [EndsLexeme]

/-! ## Names -/

theorem nameTail_char {c : Char} (h : isNameChar c = true) (rest : List Char) :
    nameTail (c :: rest) = nameTail rest + 1 := by
  have hdot : c ≠ '.' := by
    rintro rfl
    revert h
    decide +kernel
  rw [nameTail.eq_3 c rest (fun _ _ hc _ => hdot hc), if_pos h]

theorem nameTail_dot {c : Char} (h : isNameStart c = true) (rest : List Char) :
    nameTail ('.' :: c :: rest) = nameTail rest + 2 := by
  rw [nameTail, if_pos h]

theorem nameTail_of_ends {rest : List Char} (h : EndsLexeme rest) : nameTail rest = 0 := by
  cases rest with
  | nil => rfl
  | cons c rest =>
    obtain ⟨hchar, -, hdot⟩ := not_continues_of_isBlank (h c rfl)
    rw [nameTail.eq_3 c rest (fun _ _ hc _ => hdot hc), hchar]
    rfl

theorem nameTail_append {chars : List Char} (h : ∀ c ∈ chars, isNameChar c = true)
    (rest : List Char) : nameTail (chars ++ rest) = chars.length + nameTail rest := by
  induction chars with
  | nil => simp
  | cons c chars ih =>
    obtain ⟨hc, hchars⟩ := List.forall_mem_cons.mp h
    rw [List.cons_append, nameTail_char hc, ih hchars, List.length_cons]
    omega

theorem IsName.begins {text : List Char} (h : IsName text) :
    ∃ c rest, text = c :: rest ∧ isNameStart c = true := by
  cases h with
  | part h =>
    obtain ⟨c, rest, rfl, hc, -⟩ := h
    exact ⟨c, rest, rfl, hc⟩
  | dotted h _ =>
    obtain ⟨c, rest, rfl, hc, -⟩ := h
    exact ⟨c, _, rfl, hc⟩

/-- Behind a name, its length goes on as far as the name does. -/
theorem IsName.nameLength_append {text : List Char} (h : IsName text) (rest : List Char) :
    nameLength (text ++ rest) = some (text.length + nameTail rest) := by
  induction h with
  | part h =>
    obtain ⟨c, chars, rfl, hc, hchars⟩ := h
    rw [List.cons_append, nameLength, if_pos hc, nameTail_append hchars, List.length_cons]
    congr 1
    omega
  | @dotted part text hpart h ih =>
    obtain ⟨c, chars, rfl, hc, hchars⟩ := hpart
    obtain ⟨d, more, rfl, hd⟩ := h.begins
    rw [List.cons_append, nameLength, if_pos hd, Option.some.injEq] at ih
    simp only [List.cons_append, List.append_assoc]
    rw [nameLength, if_pos hc, nameTail_append hchars, nameTail_dot hd]
    simp only [List.length_cons, List.length_append] at ih ⊢
    congr 1
    omega

theorem isName_of_nameTail (text : List Char) {part : List Char} (h : IsNamePart part) :
    IsName (part ++ text.take (nameTail text)) := by
  fun_induction nameTail text generalizing part with
  | case1 => simpa using IsName.part h
  | case2 c rest hc ih =>
    -- The dot closes the part before it; a new one begins with the character after it.
    exact .dotted h (ih ⟨c, [], rfl, hc, by simp⟩)
  | case3 c rest hc => simpa using IsName.part h
  | case4 c rest hdot hc ih =>
    obtain ⟨d, chars, rfl, hd, hchars⟩ := h
    have hlonger : IsNamePart ((d :: chars) ++ [c]) := by
      refine ⟨d, chars ++ [c], rfl, hd, ?_⟩
      intro x hx
      rcases List.mem_append.mp hx with hx | hx
      · exact hchars x hx
      · rwa [List.mem_singleton.mp hx]
    simpa using ih hlonger
  | case5 c rest hdot hc => simpa using IsName.part h

theorem isName_of_nameLength {text : List Char} {n : Nat} (h : nameLength text = some n) :
    IsName (text.take n) := by
  cases text with
  | nil => cases h
  | cons c rest =>
    rw [nameLength] at h
    split at h
    · rename_i hc
      cases h
      exact isName_of_nameTail rest ⟨c, [], rfl, hc, by simp⟩
    · cases h

/-! ## Strings -/

theorem not_isBlank_of_mem_quotes {quote : Char} (h : quote ∈ quotes) :
    Text.isBlank quote = false := by
  have hall : quotes.all (fun q => !Text.isBlank q) = true := by decide
  simpa using List.all_eq_true.mp hall quote h

theorem quote_ne_backslash {quote : Char} (h : quote ∈ quotes) : quote ≠ '\\' := by
  rintro rfl
  revert h
  decide

theorem IsQuotable.closingQuote_append {quote : Char} (hquote : quote ∈ quotes)
    {body : List Char} (h : IsQuotable quote body) (rest : List Char) :
    closingQuote quote (body ++ quote :: rest) = some (body.length + 1) := by
  induction h with
  | nil =>
    rw [List.nil_append, closingQuote.eq_4 _ _ _ (fun hc => absurd hc (quote_ne_backslash hquote))
      (fun _ _ hc => absurd hc (quote_ne_backslash hquote)), if_pos rfl]
    rfl
  | plain hne hslash _ ih =>
    rw [List.cons_append, closingQuote.eq_4 _ _ _ (fun hc => absurd hc hslash)
      (fun _ _ hc => absurd hc hslash), if_neg hne, ih]
    rfl
  | escaped hbreak _ ih =>
    rw [List.cons_append, List.cons_append, closingQuote, if_neg hbreak, ih]
    rfl

theorem isQuotable_of_closingQuote {quote : Char} {text : List Char} {n : Nat}
    (h : closingQuote quote text = some n) :
    ∃ body, IsQuotable quote body ∧ text.take n = body ++ [quote] := by
  fun_induction closingQuote quote text generalizing n with
  | case1 => cases h
  | case2 => cases h
  | case3 => cases h
  | case4 c rest hbreak ih =>
    obtain ⟨m, hm, rfl⟩ := Option.map_eq_some_iff.mp h
    obtain ⟨body, hbody, htake⟩ := ih hm
    exact ⟨_, hbody.escaped hbreak, by simp [htake]⟩
  | case5 rest =>
    cases h
    exact ⟨[], .nil, rfl⟩
  | case6 c rest hend hslash hne ih =>
    obtain ⟨m, hm, rfl⟩ := Option.map_eq_some_iff.mp h
    obtain ⟨body, hbody, htake⟩ := ih hm
    have hplain : c ≠ '\\' := by
      rintro rfl
      cases rest with
      | nil => exact hend rfl rfl
      | cons d rest => exact hslash d rest rfl rfl
    exact ⟨_, hbody.plain hne hplain, by simp [htake]⟩

/-! ## Numbers -/

theorem digitsLength_append {digits : List Char} (h : ∀ c ∈ digits, Text.isDigit c = true)
    (rest : List Char) : digitsLength (digits ++ rest) = digits.length + digitsLength rest := by
  rw [digitsLength, List.takeWhile_append_of_pos h, List.length_append]
  rfl

theorem digitsLength_of_not_isDigit {rest : List Char}
    (h : ∀ c ∈ rest.head?, Text.isDigit c = false) : digitsLength rest = 0 := by
  cases rest with
  | nil => rfl
  | cons c rest => simp [digitsLength, h c rfl]

theorem EndsLexeme.digitsLength {rest : List Char} (h : EndsLexeme rest) :
    Token.digitsLength rest = 0 :=
  digitsLength_of_not_isDigit fun c hc => (not_continues_of_isBlank (h c hc)).2.1

theorem fractionLength_of_ends {rest : List Char} (h : EndsLexeme rest) :
    fractionLength rest = 0 := by
  cases rest with
  | nil => rfl
  | cons c rest =>
    have hdot := (not_continues_of_isBlank (h c rfl)).2.2
    rw [fractionLength.eq_2 _ (fun _ hc => hdot (List.cons.inj hc).1)]

theorem IsDigits.length_ne_zero {digits : List Char} (h : IsDigits digits) :
    digits.length ≠ 0 := by
  simpa using h.1

/-- Behind digits, the number goes on with more of them and with a fraction. -/
theorem IsDigits.unsignedLength_append {whole : List Char} (h : IsDigits whole)
    (rest : List Char) :
    unsignedLength (whole ++ rest) = some (whole.length + digitsLength rest +
      fractionLength (rest.drop (digitsLength rest))) := by
  have hne := h.length_ne_zero
  have hlength := digitsLength_append h.2 rest
  rw [unsignedLength, hlength, if_neg (by omega), List.drop_length_add_append]

theorem IsDigits.fractionLength_append {fraction : List Char} (h : IsDigits fraction)
    (rest : List Char) :
    fractionLength ('.' :: (fraction ++ rest)) = fraction.length + digitsLength rest + 1 := by
  have hne := h.length_ne_zero
  rw [fractionLength, digitsLength_append h.2, if_neg (by omega)]

/-- Behind a fraction, the number goes on with more digits. -/
theorem unsignedLength_decimal {whole fraction : List Char} (hwhole : IsDigits whole)
    (hfraction : IsDigits fraction) (rest : List Char) :
    unsignedLength (whole ++ '.' :: (fraction ++ rest)) =
      some (whole.length + (fraction.length + digitsLength rest + 1)) := by
  have hdot : digitsLength ('.' :: (fraction ++ rest)) = 0 :=
    digitsLength_of_not_isDigit (by simp; decide +kernel)
  rw [hwhole.unsignedLength_append, hdot, List.drop_zero, hfraction.fractionLength_append,
    Nat.add_zero]

theorem IsUnsigned.unsignedLength_append {text rest : List Char} (h : IsUnsigned text)
    (hrest : EndsLexeme rest) : unsignedLength (text ++ rest) = some text.length := by
  cases h with
  | whole h =>
    rw [h.unsignedLength_append, hrest.digitsLength, List.drop_zero, fractionLength_of_ends hrest]
    rfl
  | decimal hwhole hfraction =>
    rw [List.append_assoc, List.cons_append, unsignedLength_decimal hwhole hfraction,
      hrest.digitsLength, List.length_append]
    rfl

theorem isDigits_takeWhile {text : List Char} (h : digitsLength text ≠ 0) :
    IsDigits (text.take (digitsLength text)) := by
  have htake : text.take (digitsLength text) = text.takeWhile Text.isDigit :=
    (List.prefix_iff_eq_take.mp (List.takeWhile_prefix _)).symm
  rw [htake]
  refine ⟨fun hnil => h (by rw [digitsLength, hnil]; rfl), fun c hc => ?_⟩
  exact List.mem_takeWhile_imp hc

theorem isUnsigned_of_unsignedLength {text : List Char} {n : Nat}
    (h : unsignedLength text = some n) : IsUnsigned (text.take n) := by
  simp only [unsignedLength] at h
  split at h
  · cases h
  · rename_i hwhole
    cases h
    have hdigits := isDigits_takeWhile hwhole
    rw [List.take_add]
    generalize htail : text.drop (digitsLength text) = tail
    unfold fractionLength
    split
    · split
      · simpa using IsUnsigned.whole hdigits
      · rename_i hfraction
        exact .decimal hdigits (isDigits_takeWhile hfraction)
    · simpa using IsUnsigned.whole hdigits

theorem numberLength_of_ne {c : Char} (h : c ≠ '-') (rest : List Char) :
    numberLength (c :: rest) = unsignedLength (c :: rest) :=
  numberLength.eq_2 _ fun _ hc => h (List.cons.inj hc).1

theorem IsUnsigned.begins {text : List Char} (h : IsUnsigned text) :
    ∃ c rest, text = c :: rest ∧ Text.isDigit c = true := by
  have hbegins : ∀ {digits : List Char}, IsDigits digits →
      ∃ c rest, digits = c :: rest ∧ Text.isDigit c = true := by
    rintro (_ | ⟨c, rest⟩) ⟨hne, hall⟩
    · exact absurd rfl hne
    · exact ⟨c, rest, rfl, hall c List.mem_cons_self⟩
  cases h with
  | whole h => exact hbegins h
  | decimal h _ =>
    obtain ⟨c, rest, rfl, hc⟩ := hbegins h
    exact ⟨c, _, rfl, hc⟩

theorem ne_minus_of_isDigit {c : Char} (h : Text.isDigit c = true) : c ≠ '-' := by
  rintro rfl
  exact (not_mem_of_isDigit h).1 (by decide)

theorem IsUnsigned.numberLength_append {text : List Char} (h : IsUnsigned text)
    (rest : List Char) : numberLength (text ++ rest) = unsignedLength (text ++ rest) := by
  obtain ⟨c, more, rfl, hc⟩ := h.begins
  rw [List.cons_append, numberLength_of_ne (ne_minus_of_isDigit hc)]

theorem IsNumber.numberLength_append {text rest : List Char} (h : IsNumber text)
    (hrest : EndsLexeme rest) : numberLength (text ++ rest) = some text.length := by
  cases h with
  | unsigned h => rw [h.numberLength_append, h.unsignedLength_append hrest]
  | negative h =>
    rw [List.cons_append, numberLength, h.unsignedLength_append hrest]
    rfl

theorem isNumber_of_numberLength {text : List Char} {n : Nat} (h : numberLength text = some n) :
    IsNumber (text.take n) := by
  unfold numberLength at h
  split at h
  · obtain ⟨m, hm, rfl⟩ := Option.map_eq_some_iff.mp h
    exact .negative (isUnsigned_of_unsignedLength hm)
  · exact .unsigned (isUnsigned_of_unsignedLength h)

/-! ## One lexeme -/

/-- A symbol begins with a sign, and a minus sign only begins an arrow. -/
theorem head_of_symbolAt {text : List Char} {symbol : Symbol} (h : symbolAt text = some symbol) :
    ∃ c rest, text = c :: rest ∧ c ∈ signChars ∧ (c = '-' → rest.head? = some '>') := by
  unfold symbolAt at h
  split at h
  case h_2 => exact ⟨_, _, rfl, by decide, fun _ => rfl⟩
  case h_16 => cases h
  all_goals exact ⟨_, _, rfl, by decide, fun hminus => absurd hminus (by decide)⟩

theorem symbolAt_of_not_mem {c : Char} (h : c ∉ signChars) (rest : List Char) :
    symbolAt (c :: rest) = none := by
  cases hsymbol : symbolAt (c :: rest) with
  | none => rfl
  | some symbol =>
    obtain ⟨_, _, heq, hsign, -⟩ := head_of_symbolAt hsymbol
    cases heq
    exact absurd hsign h

theorem quotedLength_of_not_mem {c : Char} (h : c ∉ quotes) (rest : List Char) :
    quotedLength (c :: rest) = none := by
  rw [quotedLength, if_neg]
  simpa [quotes] using h

theorem numberLength_of_isNameStart {c : Char} (h : isNameStart c = true) (rest : List Char) :
    numberLength (c :: rest) = none := by
  obtain ⟨-, hdigit, hsign, -⟩ := isNameStart_facts h
  have hminus : c ≠ '-' := by
    rintro rfl
    exact hsign (by decide)
  rw [numberLength_of_ne hminus]
  simp [unsignedLength, digitsLength, hdigit]

/-- What the scanner takes for a lexeme is written like one. -/
theorem lexemeAt_isWritten {text : List Char} {lexeme : Lexeme}
    (h : lexemeAt text = some lexeme) : lexeme.IsWritten := by
  unfold lexemeAt at h
  split at h
  · cases h
    trivial
  split at h
  · rename_i n hquoted
    cases h
    rw [Lexeme.IsWritten, String.toList_ofList]
    cases text with
    | nil => cases hquoted
    | cons c rest =>
      rw [quotedLength] at hquoted
      split at hquoted
      · rename_i hc
        obtain ⟨m, hm, rfl⟩ := Option.map_eq_some_iff.mp hquoted
        obtain ⟨body, hbody, htake⟩ := isQuotable_of_closingQuote hm
        exact ⟨c, by simpa [quotes] using hc, body, hbody, by simp [htake]⟩
      · cases hquoted
  split at h
  · rename_i n hnumber
    cases h
    rw [Lexeme.IsWritten, String.toList_ofList]
    exact isNumber_of_numberLength hnumber
  split at h
  · rename_i n hname
    cases h
    rw [Lexeme.IsWritten, String.toList_ofList]
    exact isName_of_nameLength hname
  · cases h

/-- What begins with a name begins with no lexeme of another kind. -/
theorem IsName.others_none {text : List Char} (h : IsName text) (rest : List Char) :
    symbolAt (text ++ rest) = none ∧ quotedLength (text ++ rest) = none ∧
      numberLength (text ++ rest) = none := by
  obtain ⟨c, more, rfl, hc⟩ := h.begins
  obtain ⟨-, -, hsign, hquote⟩ := isNameStart_facts hc
  exact ⟨symbolAt_of_not_mem hsign _, quotedLength_of_not_mem hquote _,
    numberLength_of_isNameStart hc _⟩

theorem lexemeAt_name {text rest : List Char} (h : IsName text) (hrest : EndsLexeme rest) :
    lexemeAt (text ++ rest) = some (.name (String.ofList text)) := by
  obtain ⟨hsign, hquote, hnumber⟩ := h.others_none rest
  rw [lexemeAt, hsign, hquote, hnumber, h.nameLength_append, nameTail_of_ends hrest]
  simp

/-- What begins with a number begins with no sign and no string. -/
theorem IsNumber.others_none {text : List Char} (h : IsNumber text) (rest : List Char) :
    symbolAt (text ++ rest) = none ∧ quotedLength (text ++ rest) = none := by
  cases h with
  | unsigned h =>
    obtain ⟨c, more, rfl, hc⟩ := h.begins
    obtain ⟨hsign, hquote⟩ := not_mem_of_isDigit hc
    exact ⟨symbolAt_of_not_mem hsign _, quotedLength_of_not_mem hquote _⟩
  | negative h =>
    -- A digit follows the minus sign, so it does not begin an arrow.
    obtain ⟨c, more, rfl, hc⟩ := h.begins
    have harrow : c ≠ '>' := by
      rintro rfl
      exact (not_mem_of_isDigit hc).1 (by decide)
    refine ⟨?_, quotedLength_of_not_mem (by decide) _⟩
    cases hsymbol : symbolAt ('-' :: c :: more ++ rest) with
    | none => rfl
    | some symbol =>
      obtain ⟨_, _, heq, -, hhead⟩ := head_of_symbolAt hsymbol
      cases heq
      exact absurd (Option.some.inj (hhead rfl)) harrow

theorem lexemeAt_number {text rest : List Char} (h : IsNumber text) (hrest : EndsLexeme rest) :
    lexemeAt (text ++ rest) = some (.number (String.ofList text)) := by
  obtain ⟨hsign, hquote⟩ := h.others_none rest
  rw [lexemeAt, hsign, hquote, h.numberLength_append hrest]
  simp

theorem lexemeAt_quoted {text rest : List Char} (h : IsQuoted text) :
    lexemeAt (text ++ rest) = some (.quoted (String.ofList text)) := by
  obtain ⟨quote, hquote, body, hbody, rfl⟩ := h
  have hall : quotes.all (fun q => decide (q ∉ signChars)) = true := by decide
  have hsign : quote ∉ signChars := of_decide_eq_true (List.all_eq_true.mp hall quote hquote)
  have hlength : quotedLength (quote :: (body ++ quote :: rest)) = some (body.length + 2) := by
    rw [quotedLength, if_pos (by simpa [quotes] using hquote),
      hbody.closingQuote_append hquote]
    rfl
  simp only [List.cons_append, List.append_assoc, List.nil_append]
  rw [lexemeAt, symbolAt_of_not_mem hsign, hlength]
  simp [List.take_append, List.take_of_length_le]

theorem lexemeAt_symbol (sign : Symbol) (rest : List Char) :
    lexemeAt (sign.text.toList ++ rest) = some (.symbol sign) := by
  have hsign : symbolAt (sign.text.toList ++ rest) = some sign := by
    cases sign <;> rfl
  rw [lexemeAt, hsign]

/-- A lexeme before a blank or the end is what the scanner takes. -/
theorem lexemeAt_append {lexeme : Lexeme} {rest : List Char} (h : lexeme.IsWritten)
    (hrest : EndsLexeme rest) : lexemeAt (lexeme.text.toList ++ rest) = some lexeme := by
  cases lexeme with
  | symbol sign => exact lexemeAt_symbol sign rest
  | quoted text => simpa [Lexeme.text] using lexemeAt_quoted h
  | number text => simpa [Lexeme.text] using lexemeAt_number h hrest
  | name text => simpa [Lexeme.text] using lexemeAt_name h hrest

theorem Lexeme.IsWritten.begins {lexeme : Lexeme} (h : lexeme.IsWritten) :
    ∃ c rest, lexeme.text.toList = c :: rest ∧ Text.isBlank c = false := by
  cases lexeme with
  | symbol sign => cases sign <;> exact ⟨_, _, rfl, by decide⟩
  | quoted text =>
    obtain ⟨quote, hquote, body, -, htext⟩ := h
    exact ⟨quote, _, htext, not_isBlank_of_mem_quotes hquote⟩
  | number text =>
    rw [Lexeme.IsWritten] at h
    rw [Lexeme.text]
    generalize text.toList = chars at h ⊢
    cases h with
    | unsigned h =>
      obtain ⟨c, rest, htext, hc⟩ := h.begins
      exact ⟨c, rest, htext, not_isBlank_of_isDigit hc⟩
    | negative h => exact ⟨'-', _, rfl, by decide⟩
  | name text =>
    obtain ⟨c, rest, htext, hc⟩ := IsName.begins h
    exact ⟨c, rest, htext, (isNameStart_facts hc).1⟩

/-! ## Whole texts -/

theorem scan_isWritten {skip position : Nat} {text : List Char} {ts : List Token}
    (h : scan skip position text = .ok ts) : ∀ t ∈ ts, t.lexeme.IsWritten := by
  fun_induction scan skip position text generalizing ts with
  | case1 =>
    cases h
    simp
  | case2 skip position c rest ih => exact ih h
  | case3 position c rest hblank ih => exact ih h
  | case4 => cases h
  | case5 position c rest hblank lexeme hlexeme ih =>
    cases hscan : scan (lexeme.text.length - 1) (position + 1) rest with
    | error stray =>
      rw [hscan] at h
      cases h
    | ok more =>
      rw [hscan] at h
      cases h
      exact List.forall_mem_cons.mpr ⟨lexemeAt_isWritten hlexeme, ih hscan⟩

/-- The lexemes of a text are written as lexemes are. -/
theorem lexemes_of_tokens {text : String} {ts : List Token} (h : tokens text = .ok ts) :
    ∀ l ∈ ts.map Token.lexeme, l.IsWritten := by
  intro l hl
  obtain ⟨t, ht, rfl⟩ := List.mem_map.mp hl
  exact scan_isWritten h t ht

theorem scan_skip (text rest : List Char) (position : Nat) :
    scan text.length position (text ++ rest) = scan 0 (position + text.length) rest := by
  induction text generalizing position with
  | nil => rfl
  | cons c text ih =>
    rw [List.length_cons, List.cons_append, scan, ih]
    congr 1
    omega

/-- What the scanner takes for a lexeme is the next token. -/
theorem scan_lexeme {lexeme : Lexeme} {rest : List Char}
    (h : lexemeAt (lexeme.text.toList ++ rest) = some lexeme) (position : Nat) :
    scan 0 position (lexeme.text.toList ++ rest) =
      (scan 0 (position + lexeme.text.length) rest).map (⟨lexeme, position⟩ :: ·) := by
  obtain ⟨c, more, htext, hblank⟩ := (lexemeAt_isWritten h).begins
  have hlength : lexeme.text.length = more.length + 1 := by
    rw [← String.length_toList, htext, List.length_cons]
  rw [htext, List.cons_append] at h ⊢
  rw [scan, hblank, h]
  simp only [hlength, Nat.add_sub_cancel, scan_skip]
  rw [if_neg Bool.false_ne_true]
  congr 2
  omega

theorem scan_blanks {gap : List Char} (h : ∀ c ∈ gap, Text.isBlank c = true)
    (rest : List Char) (position : Nat) :
    scan 0 position (gap ++ rest) = scan 0 (position + gap.length) rest := by
  induction gap generalizing position with
  | nil => rfl
  | cons c gap ih =>
    obtain ⟨hc, hgap⟩ := List.forall_mem_cons.mp h
    rw [List.cons_append, scan, if_pos hc, ih hgap, List.length_cons]
    congr 1
    omega

/-- The text has the lexemes in it, one after the other, with blanks between any two of them. -/
inductive Respaced : List Lexeme → List Char → Prop where
  | nil : Respaced [] []
  | last (l : Lexeme) : Respaced [l] l.text.toList
  | cons (l : Lexeme) {next : Lexeme} {ls : List Lexeme} {gap text : List Char} (hgap : gap ≠ [])
      (hblank : ∀ c ∈ gap, Text.isBlank c = true) (h : Respaced (next :: ls) text) :
      Respaced (l :: next :: ls) (l.text.toList ++ gap ++ text)

theorem scan_respaced {ls : List Lexeme} {text : List Char} (hspaced : Respaced ls text)
    (h : ∀ l ∈ ls, l.IsWritten) (position : Nat) :
    ∃ ts, scan 0 position text = .ok ts ∧ ts.map Token.lexeme = ls := by
  induction hspaced generalizing position with
  | nil => exact ⟨[], rfl, rfl⟩
  | last l =>
    have hlexeme := lexemeAt_append (h l List.mem_cons_self) endsLexeme_nil
    have hscan := scan_lexeme hlexeme position
    rw [List.append_nil] at hscan
    exact ⟨[⟨l, position⟩], hscan, rfl⟩
  | @cons l next ls gap text hgap hblank _ ih =>
    obtain ⟨hl, hls⟩ := List.forall_mem_cons.mp h
    have hends : EndsLexeme (gap ++ text) := by
      obtain ⟨c, more, rfl⟩ := List.exists_cons_of_ne_nil hgap
      simpa [EndsLexeme] using hblank c List.mem_cons_self
    obtain ⟨ts, hts, hmap⟩ := ih hls (position + l.text.length + gap.length)
    refine ⟨⟨l, position⟩ :: ts, ?_, by rw [List.map_cons, hmap]⟩
    rw [List.append_assoc, scan_lexeme (lexemeAt_append hl hends), scan_blanks hblank, hts]
    rfl

/-- The text of the lexemes with a space between any two of them. -/
def spaced (ls : List Lexeme) : List Char :=
  [' '].intercalate (ls.map fun l => l.text.toList)

theorem respaced_spaced (ls : List Lexeme) : Respaced ls (spaced ls) := by
  induction ls with
  | nil => exact .nil
  | cons l ls ih =>
    cases ls with
    | nil => simpa [spaced] using Respaced.last l
    | cons next ls =>
      have hspace : ∀ c ∈ [' '], Text.isBlank c = true := by
        simp only [List.mem_singleton, forall_eq]
        decide
      simpa [spaced] using Respaced.cons l (List.cons_ne_nil _ _) hspace ih

/-- Written lexemes are found again in their text with spaces in between. -/
theorem tokens_spaced {ls : List Lexeme} (h : ∀ l ∈ ls, l.IsWritten) :
    ∃ ts, tokens (String.ofList (spaced ls)) = .ok ts ∧ ts.map Token.lexeme = ls := by
  rw [tokens, String.toList_ofList]
  exact scan_respaced (respaced_spaced ls) h 0

end DocComments.TypeExpr
