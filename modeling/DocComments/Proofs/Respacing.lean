import DocComments.Proofs.LongestLexemes
import DocComments.Proofs.TypeReading

/-!
# Blanks in type specifications

Blanks only separate tokens. A specification may have blanks at its end, and its tokens may stand
as far apart as one likes; it says the same. The one word that is compared with the specification
itself and not with its tokens is `interface`: with a blank behind it, it is the name of a type.

* `tokens_padded`: blanks at the end change neither the tokens nor the place of a failure.
* `parse_respaced`: a specification is read like any text that has its lexemes in it with blanks in
  between.
* `Element.resolveType_padded_iff`: which specifications blanks at the end make no difference to.
-/

namespace DocComments

namespace TypeExpr

open Token

/-! ## The end of a lexeme -/

theorem not_isBlank_of_isNameChar {c : Char} (h : isNameChar c = true) :
    Text.isBlank c = false := by
  by_contra hblank
  rw [(not_continues_of_isBlank (Bool.not_eq_false _ ▸ hblank)).1] at h
  cases h

theorem IsNamePart.not_isBlank {text : List Char} (h : IsNamePart text) :
    ∀ c ∈ text, Text.isBlank c = false := by
  obtain ⟨c, rest, rfl, hc, hrest⟩ := h
  exact List.forall_mem_cons.mpr
    ⟨(isNameStart_facts hc).1, fun d hd => not_isBlank_of_isNameChar (hrest d hd)⟩

theorem IsName.not_isBlank {text : List Char} (h : IsName text) :
    ∀ c ∈ text, Text.isBlank c = false := by
  induction h with
  | part h => exact h.not_isBlank
  | dotted hpart _ ih =>
    refine List.forall_mem_append.mpr ⟨hpart.not_isBlank, List.forall_mem_cons.mpr ⟨?_, ih⟩⟩
    decide

theorem IsUnsigned.not_isBlank {text : List Char} (h : IsUnsigned text) :
    ∀ c ∈ text, Text.isBlank c = false := by
  cases h with
  | whole h => exact fun c hc => not_isBlank_of_isDigit (h.2 c hc)
  | decimal hwhole hfraction =>
    refine List.forall_mem_append.mpr ⟨fun c hc => not_isBlank_of_isDigit (hwhole.2 c hc),
      List.forall_mem_cons.mpr ⟨by decide, fun c hc => not_isBlank_of_isDigit (hfraction.2 c hc)⟩⟩

/-- A lexeme does not end with a blank. -/
theorem Lexeme.IsWritten.ends {lexeme : Lexeme} (h : lexeme.IsWritten) {c : Char}
    (hc : lexeme.text.toList.getLast? = some c) : Text.isBlank c = false := by
  cases lexeme with
  | symbol sign =>
    have hsign : sign.text.toList.getLast?.any Text.isBlank = false := by
      cases sign <;> decide
    rw [Lexeme.text] at hc
    simpa [hc] using hsign
  | quoted text =>
    obtain ⟨quote, hquote, body, -, htext⟩ := h
    rw [Lexeme.text, htext, List.getLast?_concat] at hc
    cases hc
    exact not_isBlank_of_mem_quotes hquote
  | number text =>
    have hmem := List.mem_of_getLast? hc
    rw [Lexeme.IsWritten] at h
    rw [Lexeme.text] at hmem
    generalize text.toList = chars at h hmem
    cases h with
    | unsigned h => exact h.not_isBlank c hmem
    | negative h =>
      exact List.forall_mem_cons.mpr ⟨by decide, h.not_isBlank⟩ c hmem
  | name text => exact IsName.not_isBlank h c (List.mem_of_getLast? hc)

/-! ## Blanks at the end -/

section

variable {blanks : List Char}

/-- No lexeme reaches into the blanks at the end of a text. -/
theorem Lexeme.Begins.of_padded {lexeme : Lexeme} {text : List Char}
    (h : lexeme.Begins (text ++ blanks)) (hblanks : ∀ c ∈ blanks, Text.isBlank c = true) :
    lexeme.Begins text := by
  refine ⟨h.written, ?_⟩
  have htext : text <+: text ++ blanks := List.prefix_append _ _
  rcases Nat.le_total lexeme.text.toList.length text.length with hle | hle
  · exact List.prefix_of_prefix_length_le h.begins htext hle
  · -- What the lexeme has beyond the text is blank, so its last character would be.
    obtain ⟨tail, htail⟩ := List.prefix_of_prefix_length_le htext h.begins hle
    have hwithin : tail <+: blanks := by
      have hbegins := h.begins
      rwa [← htail, List.prefix_append_right_inj] at hbegins
    cases hlast : tail.getLast? with
    | none =>
      rw [List.getLast?_eq_none_iff.mp hlast, List.append_nil] at htail
      exact htail ▸ List.prefix_refl _
    | some c =>
      have hblank : Text.isBlank c = true :=
        hblanks c (hwithin.subset (List.mem_of_getLast? hlast))
      rw [h.written.ends (by rw [← htail, List.getLast?_append, hlast]; rfl)] at hblank
      cases hblank

theorem Lexeme.IsLongest.padded {lexeme : Lexeme} {text : List Char} (h : lexeme.IsLongest text)
    (hblanks : ∀ c ∈ blanks, Text.isBlank c = true) : lexeme.IsLongest (text ++ blanks) :=
  ⟨h.toBegins.trans (List.prefix_append _ _),
    fun other hother => h.longest other (hother.of_padded hblanks)⟩

theorem Scans.padded {rest front : List Char} {position : Nat} {ts : List Token}
    (h : Scans rest position front ts) (hblanks : ∀ c ∈ blanks, Text.isBlank c = true) :
    Scans (rest ++ blanks) position front ts := by
  induction h with
  | nil => exact .nil
  | blank hblank _ ih => exact .blank hblank ih
  | lexeme hlongest _ ih =>
    refine .lexeme ?_ ih
    simpa only [List.append_assoc] using hlongest.padded hblanks

theorem Stops.padded {c : Char} {rest : List Char} (h : Stops (c :: rest))
    (hblanks : ∀ c ∈ blanks, Text.isBlank c = true) : Stops (c :: (rest ++ blanks)) where
  notBlank := h.notBlank
  noLexeme lexeme hbegins := h.noLexeme lexeme (hbegins.of_padded hblanks)

end

/-- Blanks at the end change neither the tokens of a text nor the place at which it fails. -/
theorem tokens_padded (text : String) {blanks : String}
    (hblanks : ∀ c ∈ blanks.toList, Text.isBlank c = true) :
    tokens (text ++ blanks) = tokens text := by
  cases htokens : tokens text with
  | ok ts =>
    have hscan := ((tokens_eq_ok_iff.mp htokens).padded hblanks).scan_append
    have hend := scan_blanks hblanks [] (0 + text.toList.length)
    rw [List.append_nil] at hend
    rw [tokens, String.toList_append, ← List.nil_append blanks.toList, hscan, List.nil_append, hend]
    exact congrArg Except.ok (List.append_nil ts)
  | error stray =>
    obtain ⟨front, rest, ts, hparts, hposition, hscans, hstops⟩ := tokens_eq_error_iff.mp htokens
    refine tokens_eq_error_iff.mpr ⟨front, rest ++ blanks.toList, ts, ?_, hposition,
      hscans.padded hblanks, hstops.padded hblanks⟩
    rw [String.toList_append, hparts, List.append_assoc, List.cons_append]

theorem parse_padded (text : String) {blanks : String}
    (hblanks : ∀ c ∈ blanks.toList, Text.isBlank c = true) :
    SameResult (parse (text ++ blanks)) (parse text) := by
  rw [sameResult_iff]
  intro type
  rw [parse_eq_ok_iff, parse_eq_ok_iff, tokens_padded text hblanks]

/-- To the reader of types, `interface` is a name like any other. -/
theorem parse_interface_padded {blanks : String}
    (hblanks : ∀ c ∈ blanks.toList, Text.isBlank c = true) :
    parse ("interface" ++ blanks) = .ok (.named "interface") := by
  refine (sameResult_iff.mp (parse_padded "interface" hblanks) _).mpr ?_
  have htokens : tokens "interface" = .ok [⟨.name "interface", 0⟩] := by decide +kernel
  unfold parse
  rw [htokens]
  rfl

/-! ## Blanks between the tokens -/

/-- The type of a list of tokens does not depend on where they stand. -/
theorem ofTokens_eq_ok_congr {ts us : List Token} (h : ts.map Token.lexeme = us.map Token.lexeme)
    (type : TypeExpr) : ofTokens ts = .ok type ↔ ofTokens us = .ok type := by
  rw [ofTokens_eq_ok_iff, ofTokens_eq_ok_iff, h]

/-- **Respacing.** If a text has tokens, then the same lexemes with any blanks between them, at
least one between any two, are read as the same lexemes again. The respaced text gives the same type
as the text, or neither gives one. -/
theorem parse_respaced {text respaced : String} {ts : List Token} (htokens : tokens text = .ok ts)
    (hrespaced : Respaced (ts.map Token.lexeme) respaced.toList) :
    (∃ us, tokens respaced = .ok us ∧ us.map Token.lexeme = ts.map Token.lexeme) ∧
      SameResult (parse respaced) (parse text) := by
  obtain ⟨us, hus, hmap⟩ := scan_respaced hrespaced (lexemes_of_tokens htokens) 0
  refine ⟨⟨us, hus, hmap⟩, sameResult_iff.mpr fun type => ?_⟩
  have hrespacedTokens : tokens respaced = .ok us := hus
  have hsame := ofTokens_eq_ok_congr hmap type
  rw [parse_eq_ok_iff, parse_eq_ok_iff, htokens, hrespacedTokens]
  simpa using hsame

/-- Signs, names and numbers that stand side by side. -/
def denseText : String :=
  "(...a.b)->-1"

def denseTokens : List Token :=
  [⟨.symbol .openParen, 0⟩, ⟨.symbol .ellipsis, 1⟩, ⟨.name "a.b", 4⟩, ⟨.symbol .closeParen, 7⟩,
    ⟨.symbol .asciiArrow, 8⟩, ⟨.number "-1", 10⟩]

/-- The same lexemes with blanks in between. -/
def looseText : String :=
  "(\t... a.b \n) -> -1"

theorem parse_respaced_looseText :
    tokens denseText = .ok denseTokens ∧
    Respaced (denseTokens.map Token.lexeme) looseText.toList ∧
    (∃ us, tokens looseText = .ok us ∧ us.map Token.lexeme = denseTokens.map Token.lexeme) ∧
    SameResult (parse looseText) (parse denseText) := by
  have htokens : tokens denseText = .ok denseTokens := by decide +kernel
  have hrespaced : Respaced (denseTokens.map Token.lexeme) looseText.toList := by
    have hspace : ∀ c ∈ [' '], Text.isBlank c = true := List.all_eq_true.mp (by decide)
    have htab : ∀ c ∈ ['\t'], Text.isBlank c = true := List.all_eq_true.mp (by decide)
    have hbreak : ∀ c ∈ [' ', '\n'], Text.isBlank c = true := List.all_eq_true.mp (by decide)
    exact .cons _ (by simp) htab <| .cons _ (by simp) hspace <| .cons _ (by simp) hbreak <|
      .cons _ (by simp) hspace <| .cons _ (by simp) hspace <| .last _
  exact ⟨htokens, hrespaced, parse_respaced htokens hrespaced⟩

end TypeExpr

/-! ## The type of a declaration -/

namespace Element

theorem resolveType_of_ne (e : Element) {spec : String} (hspec : spec ≠ "")
    (hinterface : spec ≠ "interface") :
    e.resolveType spec = (TypeExpr.parse spec).mapError .badSpec := by
  rw [resolveType, if_neg (by simpa using hspec), if_neg hinterface]

theorem resolveType_interface (e : Element) : e.resolveType "interface" = .ok .interfaceType := by
  rw [resolveType, if_neg (by decide), if_pos rfl]

/-- A text that ends with a blank is not the word. -/
theorem append_ne_interface (spec : String) {blanks : String} (hne : blanks ≠ "")
    (hblanks : ∀ c ∈ blanks.toList, Text.isBlank c = true) : spec ++ blanks ≠ "interface" := by
  intro h
  have hlast : (spec.toList ++ blanks.toList).getLast? = some 'e' := by
    rw [← String.toList_append, h]
    decide
  cases hchars : blanks.toList.getLast? with
  | none => exact hne (by simpa using hchars)
  | some c =>
    rw [List.getLast?_append, hchars] at hlast
    cases hlast
    have hblank := hblanks 'e' (List.mem_of_getLast? hchars)
    revert hblank
    decide

theorem resolveType_interface_padded (e : Element) {blanks : String} (hne : blanks ≠ "")
    (hblanks : ∀ c ∈ blanks.toList, Text.isBlank c = true) :
    e.resolveType ("interface" ++ blanks) = .ok (.named "interface") := by
  rw [resolveType_of_ne e (by simp) (append_ne_interface _ hne hblanks),
    TypeExpr.parse_interface_padded hblanks]
  rfl

/-- **Blanks at the end of a specification** make no difference to the type of a declaration, unless
the specification is the word `interface`: with blanks behind it, it is not taken for that word. -/
theorem resolveType_padded_iff (e : Element) {spec blanks : String} (hspec : spec ≠ "")
    (hblanks : ∀ c ∈ blanks.toList, Text.isBlank c = true) :
    SameResult (e.resolveType (spec ++ blanks)) (e.resolveType spec) ↔
      (spec = "interface" → blanks = "") := by
  by_cases hempty : blanks = ""
  · subst hempty
    rw [String.append_empty]
    exact iff_of_true (.refl _) fun _ => rfl
  by_cases hinterface : spec = "interface"
  · subst hinterface
    rw [resolveType_interface_padded e hempty hblanks, resolveType_interface]
    exact iff_of_false (fun h => by cases h) fun h => hempty (h rfl)
  · have hpadded : spec ++ blanks ≠ "" := by simp [hspec]
    have hsame := TypeExpr.parse_padded spec hblanks
    rw [resolveType_of_ne e hpadded (append_ne_interface spec hempty hblanks),
      resolveType_of_ne e hspec hinterface]
    exact iff_of_true (hsame.mapError _ _) fun h => absurd h hinterface

/-- The whole of a program. -/
def wholeProgram : Element where
  index := 0
  nodeType := "Program"
  role := .program
  span := {}
  parent := none
  children := []
  exported := none

theorem resolveType_padded_iff_cutOff :
    "(a: 'b" ≠ "" ∧ (∀ c ∈ "\u2003 \n".toList, Text.isBlank c = true) ∧
    SameResult (wholeProgram.resolveType ("(a: 'b" ++ "\u2003 \n"))
      (wholeProgram.resolveType "(a: 'b") := by
  have hspec : "(a: 'b" ≠ "" := by decide
  have hblanks : ∀ c ∈ "\u2003 \n".toList, Text.isBlank c = true :=
    List.all_eq_true.mp (by decide)
  exact ⟨hspec, hblanks, (resolveType_padded_iff wholeProgram hspec hblanks).mpr (by decide)⟩

/-- A blank behind `interface` makes it a name. -/
theorem interface_padded_isName :
    "interface" ≠ "" ∧ (∀ c ∈ " ".toList, Text.isBlank c = true) ∧
    wholeProgram.resolveType "interface" = .ok .interfaceType ∧
    wholeProgram.resolveType ("interface" ++ " ") = .ok (.named "interface") ∧
    ¬SameResult (wholeProgram.resolveType ("interface" ++ " "))
      (wholeProgram.resolveType "interface") := by
  have hblanks : ∀ c ∈ " ".toList, Text.isBlank c = true := List.all_eq_true.mp (by decide)
  have hnamed := resolveType_interface_padded wholeProgram (by decide) hblanks
  refine ⟨by decide, hblanks, resolveType_interface _, hnamed, ?_⟩
  rw [hnamed, resolveType_interface]
  intro h
  cases h

end Element

end DocComments
