import DocComments.Proofs.Outcome
import DocComments.Proofs.TypeGrammar
import DocComments.TypeExpr.Parser
import Mathlib.Data.List.Basic
import Mathlib.Data.List.TakeWhile

/-!
# Reading a type specification

The readers of type specifications find the one admissible derivation of the tokens, or fail if
there is none. Both halves go by induction on the depth that the readers count down; a step of
either has one lemma for each reader.

* `type_alternatives`, `unquoted_eq`, `numberValue_eq`: the readers put together a union, a string
  and a number as the grammar says.
* `CompleteAt`: a reader that is given the lexemes of a phrase, before lexemes where the phrase can
  end, returns what the phrase stands for. It never runs out of depth.
* `SoundAt`: whatever a reader returns, some admissible phrase stands for it and derives the tokens
  that the reader took.
* `parse_eq_ok_iff_derives`: a specification is read as a type just if it derives the type.
-/

namespace DocComments.TypeExpr

/-! ## Values -/

theorem type_alternatives (first : SinglePhrase) (more : List SinglePhrase) :
    (TypePhrase.alternatives first more).type =
      ofAlternatives first.type (more.map SinglePhrase.type) := by
  cases more with
  | nil => rw [TypePhrase.type, List.map_nil, ofAlternatives]
  | cons second more =>
    rw [TypePhrase.type, List.map_cons, ofAlternatives]
    exact List.cons_ne_nil _ _

theorem unquoted_eq (text : String) : unquoted text = quotedValue text := by
  rw [unquoted, quotedValue, List.drop_one]

theorem forall_ne_point {digits : List Char} (h : '.' ∉ digits) :
    ∀ c ∈ digits, decide (c ≠ '.') = true := by
  intro c hc
  rw [decide_eq_true_eq]
  rintro rfl
  exact h hc

theorem unsignedValue_whole (negative : Bool) {digits : List Char} (h : '.' ∉ digits) :
    unsignedValue negative digits =
      .int (if negative then -Text.numeral digits else Text.numeral digits) := by
  have htake : digits.takeWhile (· ≠ '.') = digits :=
    List.takeWhile_eq_self_iff.mpr (forall_ne_point h)
  have hdrop : digits.dropWhile (· ≠ '.') = [] :=
    List.dropWhile_eq_nil_iff.mpr (forall_ne_point h)
  simp only [unsignedValue, htake, hdrop]

theorem unsignedValue_decimal (negative : Bool) {whole : List Char} (h : '.' ∉ whole)
    (fraction : List Char) :
    unsignedValue negative (whole ++ '.' :: fraction) =
      .double (.ofDecimal negative (Text.numeral (whole ++ fraction)) fraction.length) := by
  have htake : (whole ++ '.' :: fraction).takeWhile (· ≠ '.') = whole := by
    rw [List.takeWhile_append_of_pos (forall_ne_point h)]
    simp
  have hdrop : (whole ++ '.' :: fraction).dropWhile (· ≠ '.') = '.' :: fraction := by
    rw [List.dropWhile_append_of_pos (forall_ne_point h)]
    simp
  simp only [unsignedValue, htake, hdrop]

/-- What stands before and after the first point are the digits without it. -/
theorem unsignedValue_eq (negative : Bool) (digits : List Char) :
    unsignedValue negative digits =
      if '.' ∈ digits then
        .double (.ofDecimal negative (Text.numeral (digits.erase '.'))
          (digits.length - 1 - digits.idxOf '.'))
      else .int (if negative then -Text.numeral digits else Text.numeral digits) := by
  by_cases hpoint : '.' ∈ digits
  · obtain ⟨whole, fraction, rfl, hwhole⟩ := List.eq_append_cons_of_mem hpoint
    have herase : (whole ++ '.' :: fraction).erase '.' = whole ++ fraction := by
      rw [List.erase_append_right _ hwhole, List.erase_cons_head]
    have hplaces : (whole ++ '.' :: fraction).length - 1 -
        (whole ++ '.' :: fraction).idxOf '.' = fraction.length := by
      rw [List.idxOf_append_of_notMem hwhole, List.idxOf_cons_self, List.length_append,
        List.length_cons]
      omega
    rw [if_pos hpoint, herase, hplaces, unsignedValue_decimal negative hwhole]
  · rw [if_neg hpoint, unsignedValue_whole negative hpoint]

theorem numberValue_eq (text : String) : numberValue text = numeralValue text := by
  unfold numberValue
  split
  · rename_i digits htext
    simp [numeralValue, htext, unsignedValue_eq]
  · rename_i hsign
    have hunsigned : (text.toList.head? == some '-') = false := by
      cases htext : text.toList with
      | nil => rfl
      | cons c digits => simpa using fun hc => hsign digits (by rw [htext, hc])
    simp [numeralValue, hunsigned, unsignedValue_eq]

/-! ## Signs and labels -/

theorem map_lexeme_eq_cons {ts : List Token} {l : Lexeme} {ls : List Lexeme}
    (h : ts.map Token.lexeme = l :: ls) :
    ∃ position rest, ts = ⟨l, position⟩ :: rest ∧ rest.map Token.lexeme = ls := by
  obtain ⟨⟨l', position⟩, rest, rfl, rfl, hrest⟩ := List.map_eq_cons_iff.mp h
  exact ⟨position, rest, rfl, hrest⟩

theorem atSymbol_iff {sign : Symbol} {ts : List Token} :
    atSymbol sign ts = true ↔ (ts.map Token.lexeme).head? = some (.symbol sign) := by
  simp [atSymbol, next?]

theorem map_of_atSymbol {sign : Symbol} {ts : List Token} (h : atSymbol sign ts = true) :
    ts.map Token.lexeme = .symbol sign :: ts.tail.map Token.lexeme := by
  cases ts with
  | nil => simp [atSymbol_iff] at h
  | cons t rest =>
    rw [atSymbol_iff, List.map_cons, List.head?_cons, Option.some.injEq] at h
    rw [List.map_cons, h, List.tail_cons]

theorem map_of_atArrow {ts : List Token}
    (h : (atSymbol .arrow ts || atSymbol .asciiArrow ts) = true) :
    ∃ ascii : Bool, ts.map Token.lexeme =
      .symbol (if ascii then .asciiArrow else .arrow) :: ts.tail.map Token.lexeme := by
  rcases Bool.or_eq_true_iff.mp h with hat | hat
  · exact ⟨false, map_of_atSymbol hat⟩
  · exact ⟨true, map_of_atSymbol hat⟩

theorem not_atSymbol_of_map {sign sign' : Symbol} {ts : List Token} {ls : List Lexeme}
    (h : ts.map Token.lexeme = .symbol sign' :: ls) (hne : sign' ≠ sign) :
    ¬atSymbol sign ts = true := by
  rw [atSymbol_iff, h]
  simpa using hne

theorem not_atSymbol_of_endsType {sign : Symbol} {ts : List Token}
    (h : EndsType (ts.map Token.lexeme)) (hsign : sign.closes = false) :
    ¬atSymbol sign ts = true := by
  intro hat
  rw [map_of_atSymbol hat] at h
  rw [endsType_symbol_iff.mp h] at hsign
  cases hsign

theorem not_atSymbol_of_endsBefore {single : SinglePhrase} {ts : List Token} (sign : Symbol)
    (h : single.EndsBefore (ts.map Token.lexeme)) (hsign : sign.closes = false)
    (hbar : sign ≠ .bar) : ¬atSymbol sign ts = true := by
  intro hat
  rw [map_of_atSymbol hat] at h
  rcases h.sign with hcloses | heq
  · rw [hcloses] at hsign
    cases hsign
  · exact hbar heq

theorem expect_eq_ok_iff {sign : Symbol} {ts rest : List Token} :
    expect sign ts = .ok rest ↔ atSymbol sign ts = true ∧ rest = ts.tail := by
  unfold expect
  split
  · rename_i hat
    rw [Except.ok.injEq]
    exact ⟨fun h => ⟨hat, h.symm⟩, fun h => h.2.symm⟩
  · rename_i hat
    constructor
    · intro h
      cases h
    · rintro ⟨h, -⟩
      exact absurd h hat

theorem expect_of_map {sign : Symbol} {ts : List Token} {ls : List Lexeme}
    (h : ts.map Token.lexeme = .symbol sign :: ls) :
    ∃ rest, expect sign ts = .ok rest ∧ rest.map Token.lexeme = ls := by
  obtain ⟨position, rest, rfl, hrest⟩ := map_lexeme_eq_cons h
  exact ⟨rest, expect_eq_ok_iff.mpr ⟨atSymbol_iff.mpr rfl, rfl⟩, hrest⟩

theorem map_of_expect {sign : Symbol} {ts rest : List Token} (h : expect sign ts = .ok rest) :
    ts.map Token.lexeme = .symbol sign :: rest.map Token.lexeme := by
  obtain ⟨hat, rfl⟩ := expect_eq_ok_iff.mp h
  exact map_of_atSymbol hat

theorem skip_of_map {sign : Symbol} {present : Bool} {ts : List Token} {ls : List Lexeme}
    (h : ts.map Token.lexeme = optionally sign present ++ ls)
    (hnot : ls.head? ≠ some (.symbol sign)) :
    ∃ rest, skip sign ts = (present, rest) ∧ rest.map Token.lexeme = ls := by
  cases present with
  | true =>
    obtain ⟨position, rest, rfl, hrest⟩ := map_lexeme_eq_cons h
    refine ⟨rest, ?_, hrest⟩
    rw [skip, if_pos (atSymbol_iff.mpr rfl), List.tail_cons]
  | false =>
    refine ⟨ts, ?_, h⟩
    have hat : ¬atSymbol sign ts = true := by
      rw [atSymbol_iff, h]
      exact hnot
    rw [skip, if_neg hat]

theorem map_of_skip {sign : Symbol} {present : Bool} {ts rest : List Token}
    (h : skip sign ts = (present, rest)) :
    ts.map Token.lexeme = optionally sign present ++ rest.map Token.lexeme := by
  unfold skip at h
  split at h
  · rename_i hat
    cases h
    exact map_of_atSymbol hat
  · cases h
    rfl

/-- The label of a parameter, if it has one, and the tokens after it. -/
def readLabel (ts : List Token) : Option (String × Bool) × List Token :=
  match parameterName ts with
  | some (name, optional, rest) => (some (name, optional), rest)
  | none => (none, ts)

theorem readLabel_of_map {label : Option (String × Bool)} {type : TypePhrase} {ts : List Token}
    {ls : List Lexeme} (hends : EndsType ls)
    (h : ts.map Token.lexeme = labelLexemes label ++ (type.lexemes ++ ls)) :
    ∃ rest, readLabel ts = (label, rest) ∧ rest.map Token.lexeme = type.lexemes ++ ls := by
  cases label with
  | some label =>
    obtain ⟨name, optional⟩ := label
    cases optional with
    | false =>
      obtain ⟨_, _, rfl, hcolon⟩ := map_lexeme_eq_cons h
      obtain ⟨_, rest, rfl, hrest⟩ := map_lexeme_eq_cons hcolon
      exact ⟨rest, rfl, hrest⟩
    | true =>
      obtain ⟨_, _, rfl, hquestion⟩ := map_lexeme_eq_cons h
      obtain ⟨_, _, rfl, hcolon⟩ := map_lexeme_eq_cons hquestion
      obtain ⟨_, rest, rfl, hrest⟩ := map_lexeme_eq_cons hcolon
      exact ⟨rest, rfl, hrest⟩
  | none =>
    refine ⟨ts, ?_, h⟩
    rw [labelLexemes, List.nil_append] at h
    have hnone : parameterName ts = none := by
      unfold parameterName
      split
      · exact absurd rfl (type.unlabelled hends h.symm).1
      · exact absurd rfl (type.unlabelled hends h.symm).2
      · rfl
    rw [readLabel, hnone]

theorem map_of_readLabel {label : Option (String × Bool)} {ts rest : List Token}
    (h : readLabel ts = (label, rest)) :
    ts.map Token.lexeme = labelLexemes label ++ rest.map Token.lexeme := by
  unfold readLabel parameterName at h
  split at h
  · rename_i hname
    split at hname
    · cases hname
      cases h
      rfl
    · cases hname
      cases h
      rfl
    · cases hname
  · cases h
    rfl

/-! ## Lists, item by item -/

/-- The end of a list, or the tokens after the comma that must come otherwise. -/
def afterItem (close : Symbol) (ts : List Token) : Except Stuck (List Token) :=
  if atSymbol close ts then .ok ts else expect .comma ts

theorem map_of_afterItem {close : Symbol} {ts rest : List Token}
    (h : afterItem close ts = .ok rest) :
    atSymbol close ts = true ∧ rest = ts ∨
      ts.map Token.lexeme = .symbol .comma :: rest.map Token.lexeme := by
  unfold afterItem at h
  split at h
  · rename_i hat
    cases h
    exact .inl ⟨hat, rfl⟩
  · exact .inr (map_of_expect h)

/-- After an item the rest of the list is left, without the comma before it. -/
theorem afterItem_of_map {close : Symbol} (hclose : close ≠ .comma) {ts : List Token}
    {items : List (List Lexeme)} {comma : Bool} {ls : List Lexeme}
    (h : ts.map Token.lexeme =
      items.flatMap (.symbol .comma :: ·) ++ (optionally .comma comma ++ .symbol close :: ls)) :
    ∃ rest comma', afterItem close ts = .ok rest ∧ (comma' = true → items ≠ []) ∧
      (optionally .comma comma').length ≤ (optionally .comma comma).length ∧
      rest.map Token.lexeme =
        separated .comma items ++ (optionally .comma comma' ++ .symbol close :: ls) := by
  have hcomma : ∀ ms, ts.map Token.lexeme = .symbol .comma :: ms →
      ∃ rest, afterItem close ts = .ok rest ∧ rest.map Token.lexeme = ms := by
    intro ms hms
    rw [afterItem, if_neg (not_atSymbol_of_map hms hclose.symm)]
    exact expect_of_map hms
  cases items with
  | nil =>
    cases comma with
    | true =>
      obtain ⟨rest, hrest, hmap⟩ := hcomma _ h
      exact ⟨rest, false, hrest, by simp, by simp [optionally], hmap⟩
    | false =>
      refine ⟨ts, false, ?_, by simp, Nat.le_refl _, h⟩
      rw [afterItem, if_pos (atSymbol_iff.mpr (by rw [h]; rfl))]
  | cons item items =>
    obtain ⟨rest, hrest, hmap⟩ := hcomma _ h
    exact ⟨rest, comma, hrest, by simp, Nat.le_refl _, by rw [hmap, separated_cons]; rfl⟩

/-- With an item and what must follow it, a list is one item longer. -/
theorem map_of_listing {close : Symbol} {items : List (List Lexeme)}
    (hbegin : ∀ item ∈ items, ∀ ms ns, item ++ ms ≠ .symbol close :: ns) {comma : Bool}
    (hne : comma = true → items ≠ []) {ts rest : List Token} {ls : List Lexeme}
    (hafter : afterItem close ts = .ok rest)
    (hrest : rest.map Token.lexeme =
      separated .comma items ++ (optionally .comma comma ++ .symbol close :: ls)) :
    ∃ comma', ts.map Token.lexeme =
      items.flatMap (.symbol .comma :: ·) ++ (optionally .comma comma' ++ .symbol close :: ls) := by
  cases items with
  | nil =>
    have hnot : comma = false := by simpa using hne
    subst hnot
    rcases map_of_afterItem hafter with ⟨hat, rfl⟩ | hcomma
    · exact ⟨false, hrest⟩
    · exact ⟨true, by rw [hcomma, hrest]; rfl⟩
  | cons item items =>
    rcases map_of_afterItem hafter with ⟨hat, rfl⟩ | hcomma
    · rw [map_of_atSymbol hat, separated_cons, List.append_assoc] at hrest
      exact absurd hrest.symm (hbegin item List.mem_cons_self _ _)
    · refine ⟨comma, ?_⟩
      rw [hcomma, hrest, separated_cons]
      rfl

/-- The type of an item, what must follow it, and the other items. -/
def readItem {α : Type} (type : List Token → Except Stuck (TypeExpr × List Token)) (close : Symbol)
    (item : TypeExpr → α) (others : List Token → Except Stuck (List α × List Token))
    (ts : List Token) : Except Stuck (List α × List Token) := do
  let (type, ts) ← type ts
  let ts ← afterItem close ts
  let (more, ts) ← others ts
  return (item type :: more, ts)

theorem readFields_item (depth : Nat) (name : String) (position : Nat) (ts : List Token) :
    readFields (depth + 1) (⟨.name name, position⟩ :: ts) =
      (expect .colon (skip .question ts).2 >>=
        readItem (readType depth) .closeBrace (⟨name, ·, (skip .question ts).1⟩)
          (readFields depth)) := by
  rw [readFields]
  unfold readItem
  simp only [afterItem]
  congr
  funext rest
  congr
  funext found
  split <;> rfl

theorem readParameters_item (depth : Nat) {ts : List Token}
    (h : ¬atSymbol .closeParen ts = true) :
    readParameters (depth + 1) ts =
      readItem (readType depth) .closeParen
        (⟨·, (readLabel (skip .ellipsis ts).2).1.map (·.1),
          (readLabel (skip .ellipsis ts).2).1.any (·.2), (skip .ellipsis ts).1⟩)
        (readParameters depth) (readLabel (skip .ellipsis ts).2).2 := by
  rw [readParameters, if_neg h]
  unfold readItem
  simp only [readLabel, afterItem]
  cases hname : parameterName (skip .ellipsis ts).2 with
  | none =>
    simp only
    congr
    funext found
    split <;> rfl
  | some found =>
    simp only
    congr
    funext found
    split <;> rfl

/-! ## What a phrase derives is read -/

/-- The reading succeeds with the value, and these lexemes are left. -/
def ReadsAs {α : Type} (result : Except Stuck (α × List Token)) (value : α)
    (ls : List Lexeme) : Prop :=
  ∃ rest, result = .ok (value, rest) ∧ rest.map Token.lexeme = ls

theorem ReadsAs.bind {α β : Type} {x : Except Stuck (α × List Token)}
    {f : α × List Token → Except Stuck (β × List Token)} {a : α} {b : β} {ls ms : List Lexeme}
    (hx : ReadsAs x a ls)
    (hf : ∀ rest, rest.map Token.lexeme = ls → ReadsAs (f (a, rest)) b ms) :
    ReadsAs (x >>= f) b ms := by
  obtain ⟨rest, rfl, hrest⟩ := hx
  exact hf rest hrest

theorem ReadsAs.after {β : Type} {x : Except Stuck (List Token)}
    {f : List Token → Except Stuck (β × List Token)} {rest : List Token} {b : β}
    {ls : List Lexeme} (hx : x = .ok rest) (hf : ReadsAs (f rest) b ls) :
    ReadsAs (x >>= f) b ls := by
  subst hx
  exact hf

theorem readsAs_ok {α : Type} {value : α} {rest : List Token} {ls : List Lexeme}
    (h : rest.map Token.lexeme = ls) : ReadsAs (.ok (value, rest)) value ls :=
  ⟨rest, rfl, h⟩

section

variable (depth : Nat)

def TypePhrase.CompletesAt (type : TypePhrase) : Prop :=
  ∀ (ts : List Token) (ls : List Lexeme), type.Admissible → EndsType ls →
    3 * type.lexemes.length + 1 < depth → ts.map Token.lexeme = type.lexemes ++ ls →
    ReadsAs (readType depth ts) type.type ls

def SinglePhrase.CompletesAt (single : SinglePhrase) : Prop :=
  ∀ (ts : List Token) (ls : List Lexeme), single.Admissible → single.EndsBefore ls →
    3 * single.lexemes.length < depth → ts.map Token.lexeme = single.lexemes ++ ls →
    ReadsAs (readSingle depth ts) single.type ls

def AlternativesCompleteAt (more : List SinglePhrase) : Prop :=
  ∀ (ts : List Token) (ls : List Lexeme), (∀ single ∈ more, single.Admissible) →
    ResultsLast (more.map SinglePhrase.type) → EndsType ls →
    3 * ((more.map SinglePhrase.lexemes).flatMap (.symbol .bar :: ·)).length < depth →
    ts.map Token.lexeme = (more.map SinglePhrase.lexemes).flatMap (.symbol .bar :: ·) ++ ls →
    ReadsAs (readAlternatives depth ts) (more.map SinglePhrase.type) ls

def ArgumentsCompleteAt (first : TypePhrase) (more : List TypePhrase) : Prop :=
  ∀ (ts : List Token) (ls : List Lexeme), (∀ type ∈ first :: more, type.Admissible) →
    3 * (separated .comma ((first :: more).map TypePhrase.lexemes)).length + 2 < depth →
    ts.map Token.lexeme =
      separated .comma ((first :: more).map TypePhrase.lexemes) ++ .symbol .closeAngle :: ls →
    ReadsAs (readArguments depth ts) ((first :: more).map TypePhrase.type) ls

def FieldsCompleteAt (fields : List FieldPhrase) (comma : Bool) : Prop :=
  ∀ (ts : List Token) (ls : List Lexeme), (∀ field ∈ fields, field.Admissible) →
    (comma = true → fields ≠ []) →
    3 * (separated .comma (fields.map FieldPhrase.lexemes) ++ optionally .comma comma).length + 2 <
      depth →
    ts.map Token.lexeme = separated .comma (fields.map FieldPhrase.lexemes) ++
      (optionally .comma comma ++ .symbol .closeBrace :: ls) →
    ReadsAs (readFields depth ts) (fields.map FieldPhrase.field) ls

def ParametersCompleteAt (parameters : List ParameterPhrase) (comma : Bool) : Prop :=
  ∀ (ts : List Token) (ls : List Lexeme), (∀ parameter ∈ parameters, parameter.Admissible) →
    (comma = true → parameters ≠ []) →
    3 * (separated .comma (parameters.map ParameterPhrase.lexemes) ++
      optionally .comma comma).length + 2 < depth →
    ts.map Token.lexeme = separated .comma (parameters.map ParameterPhrase.lexemes) ++
      (optionally .comma comma ++ .symbol .closeParen :: ls) →
    ReadsAs (readParameters depth ts) (parameters.map ParameterPhrase.parameter) ls

/-- At this depth the readers read what phrases derive, up to lexemes before which the phrases can
end. The number of lexemes bounds the depth, since at most three readers are entered before one is
read. -/
structure CompleteAt : Prop where
  type : ∀ type : TypePhrase, type.CompletesAt depth
  single : ∀ single : SinglePhrase, single.CompletesAt depth
  alternatives : ∀ more, AlternativesCompleteAt depth more
  arguments : ∀ first more, ArgumentsCompleteAt depth first more
  fields : ∀ fields comma, FieldsCompleteAt depth fields comma
  parameters : ∀ parameters comma, ParametersCompleteAt depth parameters comma

end

namespace CompleteAt

variable {depth : Nat} (h : CompleteAt depth)

include h

theorem type_succ (type : TypePhrase) : type.CompletesAt (depth + 1) := by
  obtain ⟨first, more⟩ := type
  intro ts ls ha hends hdepth hts
  rw [TypePhrase.Admissible, List.map_cons, resultsLast_cons] at ha
  obtain ⟨hfirst, hmore, hrule, hrules⟩ := ha
  rw [TypePhrase.lexemes, separated_cons, List.append_assoc] at hts
  rw [TypePhrase.lexemes, separated_cons, List.length_append] at hdepth
  rw [readType, type_alternatives]
  refine (h.single first ts _ hfirst (endsBefore_alternatives hends hrule) (by omega) hts).bind
    fun rest hrest => ?_
  refine (h.alternatives more rest ls hmore hrules hends (by omega) hrest).bind
    fun rest hrest => ?_
  exact readsAs_ok hrest

theorem alternatives_succ (more : List SinglePhrase) :
    AlternativesCompleteAt (depth + 1) more := by
  intro ts ls ha hrule hends hdepth hts
  rw [readAlternatives]
  cases more with
  | nil =>
    rw [List.map_nil, List.flatMap_nil, List.nil_append] at hts
    rw [if_neg (not_atSymbol_of_endsType (hts ▸ hends) rfl)]
    exact readsAs_ok hts
  | cons single more =>
    rw [List.map_cons, resultsLast_cons] at hrule
    simp only [List.map_cons, List.flatMap_cons, List.cons_append, List.length_cons,
      List.length_append] at hdepth
    simp only [List.map_cons, List.flatMap_cons, List.cons_append, List.append_assoc] at hts
    obtain ⟨position, rest, rfl, hrest⟩ := map_lexeme_eq_cons hts
    rw [if_pos (atSymbol_iff.mpr rfl), List.tail_cons]
    refine (h.single single rest _ (ha single List.mem_cons_self)
      (endsBefore_alternatives hends hrule.1) (by omega) hrest).bind fun rest hrest => ?_
    refine (h.alternatives more rest ls (fun x hx => ha x (List.mem_cons_of_mem _ hx)) hrule.2 hends
      (by omega) hrest).bind fun rest hrest => ?_
    exact readsAs_ok hrest

theorem arguments_succ (first : TypePhrase) (more : List TypePhrase) :
    ArgumentsCompleteAt (depth + 1) first more := by
  intro ts ls ha hdepth hts
  rw [List.map_cons, separated_cons, List.length_append] at hdepth
  rw [List.map_cons, separated_cons, List.append_assoc] at hts
  rw [readArguments]
  refine (h.type first ts _ (ha first List.mem_cons_self) (endsType_listing rfl _ false ls)
    (by omega) hts).bind fun rest hrest => ?_
  dsimp only
  cases more with
  | nil =>
    obtain ⟨after, hafter, hls⟩ := expect_of_map hrest
    rw [if_neg (not_atSymbol_of_map hrest (by decide))]
    exact .after hafter (readsAs_ok hls)
  | cons next more =>
    have hle := length_separated_le .comma ((next :: more).map TypePhrase.lexemes)
    have hpositive := first.lexemes_length_pos
    obtain ⟨position, rest, rfl, hnext⟩ := map_lexeme_eq_cons hrest
    rw [if_pos (atSymbol_iff.mpr rfl), List.tail_cons]
    refine (h.arguments next more rest ls (fun x hx => ha x (List.mem_cons_of_mem _ hx)) (by omega)
      ?_).bind fun rest hrest => ?_
    · rw [hnext, List.map_cons, separated_cons]
      rfl
    · exact readsAs_ok hrest

theorem fields_succ (fields : List FieldPhrase) (comma : Bool) :
    FieldsCompleteAt (depth + 1) fields comma := by
  intro ts ls ha hne hdepth hts
  cases fields with
  | nil =>
    have hnot : comma = false := by simpa using hne
    subst hnot
    obtain ⟨position, rest, rfl, hrest⟩ := map_lexeme_eq_cons hts
    rw [readFields]
    exact readsAs_ok hrest
  | cons field fields =>
    obtain ⟨name, optional, type⟩ := field
    have hadmissible := ha _ List.mem_cons_self
    rw [FieldPhrase.Admissible] at hadmissible
    rw [List.map_cons, separated_cons, FieldPhrase.lexemes] at hdepth hts
    simp only [List.append_assoc, labelLexemes, List.cons_append] at hts
    simp only [List.length_append, labelLexemes, List.length_cons] at hdepth
    -- The name is there, and what follows it up to the type.
    obtain ⟨position, rest, rfl, hlabel⟩ := map_lexeme_eq_cons hts
    obtain ⟨colon, hskip, hcolon⟩ := skip_of_map hlabel (by simp)
    obtain ⟨start, hexpect, hstart⟩ := expect_of_map hcolon
    rw [readFields_item, hskip]
    refine .after hexpect ?_
    refine (h.type type start _ hadmissible (endsType_listing rfl _ comma ls) (by omega)
      hstart).bind fun rest hrest => ?_
    obtain ⟨after, comma', hafter, hne', hle, hmap⟩ := afterItem_of_map (by decide) hrest
    refine .after hafter ?_
    refine (h.fields fields comma' after ls (fun x hx => ha x (List.mem_cons_of_mem _ hx))
      (by simpa using hne') ?_ hmap).bind fun rest hrest => ?_
    · have hshorter := length_separated_le .comma (fields.map FieldPhrase.lexemes)
      rw [List.length_append]
      omega
    · rw [List.map_cons, FieldPhrase.field]
      exact readsAs_ok hrest

theorem parameters_succ (parameters : List ParameterPhrase) (comma : Bool) :
    ParametersCompleteAt (depth + 1) parameters comma := by
  intro ts ls ha hne hdepth hts
  cases parameters with
  | nil =>
    have hnot : comma = false := by simpa using hne
    subst hnot
    obtain ⟨position, rest, rfl, hrest⟩ := map_lexeme_eq_cons hts
    rw [readParameters, if_pos (atSymbol_iff.mpr rfl)]
    exact readsAs_ok hrest
  | cons parameter parameters =>
    have hopen : ¬atSymbol .closeParen ts = true := by
      intro hat
      rw [List.map_cons, separated_cons, List.append_assoc, map_of_atSymbol hat] at hts
      exact parameter.lexemes_ne_closeParen _ _ hts.symm
    obtain ⟨variadic, label, type⟩ := parameter
    have hadmissible := ha _ List.mem_cons_self
    rw [ParameterPhrase.Admissible] at hadmissible
    rw [List.map_cons, separated_cons, ParameterPhrase.lexemes] at hdepth hts
    simp only [List.append_assoc] at hts
    simp only [List.length_append] at hdepth
    -- An ellipsis and a label are read as far as they are there.
    obtain ⟨labelled, hskip, hlabelled⟩ := skip_of_map hts (by
      obtain ⟨l, rest, hbegin, hl⟩ := labelled_begin label type
      rw [← List.append_assoc, hbegin, List.cons_append, List.head?_cons]
      rintro ⟨⟩
      cases hl)
    obtain ⟨start, hlabel, hstart⟩ :=
      readLabel_of_map (endsType_listing rfl _ comma ls) hlabelled
    rw [readParameters_item depth hopen, hskip]
    simp only [hlabel]
    refine (h.type type start _ hadmissible (endsType_listing rfl _ comma ls) (by omega)
      hstart).bind fun rest hrest => ?_
    obtain ⟨after, comma', hafter, hne', hle, hmap⟩ := afterItem_of_map (by decide) hrest
    refine .after hafter ?_
    refine (h.parameters parameters comma' after ls (fun x hx => ha x (List.mem_cons_of_mem _ hx))
      (by simpa using hne') ?_ hmap).bind fun rest hrest => ?_
    · have hshorter := length_separated_le .comma (parameters.map ParameterPhrase.lexemes)
      have hpositive := type.lexemes_length_pos
      rw [List.length_append]
      omega
    · rw [List.map_cons, ParameterPhrase.parameter]
      exact readsAs_ok hrest

theorem nullable_succ (inner : SinglePhrase) :
    (SinglePhrase.nullable inner).CompletesAt (depth + 1) := by
  intro ts ls ha hends hdepth hts
  simp only [SinglePhrase.EndsBefore, SinglePhrase.type, endsInResult] at hends
  rw [SinglePhrase.Admissible] at ha
  rw [SinglePhrase.lexemes] at hdepth hts
  rw [List.length_cons] at hdepth
  obtain ⟨position, rest, rfl, hrest⟩ := map_lexeme_eq_cons hts
  rw [readSingle, SinglePhrase.type]
  exact (h.single inner rest ls ha hends (by omega) hrest).bind fun rest hrest => readsAs_ok hrest

theorem array_succ (element : TypePhrase) :
    (SinglePhrase.array element).CompletesAt (depth + 1) := by
  intro ts ls ha hends hdepth hts
  rw [SinglePhrase.Admissible] at ha
  simp only [SinglePhrase.lexemes, List.cons_append, List.append_assoc, List.length_cons,
    List.length_append, List.nil_append, List.length_nil] at hdepth hts
  obtain ⟨position, rest, rfl, hrest⟩ := map_lexeme_eq_cons hts
  rw [readSingle, SinglePhrase.type]
  refine (h.type element rest _ ha (endsType_symbol_iff.mpr rfl) (by omega) hrest).bind
    fun rest hrest => ?_
  obtain ⟨after, hafter, hls⟩ := expect_of_map hrest
  exact .after hafter (readsAs_ok hls)

theorem object_succ (fields : List FieldPhrase) (comma : Bool) :
    (SinglePhrase.object comma fields).CompletesAt (depth + 1) := by
  intro ts ls ha hends hdepth hts
  rw [SinglePhrase.Admissible] at ha
  simp only [SinglePhrase.lexemes, List.cons_append, List.append_assoc, List.length_cons,
    List.length_append, List.nil_append, List.length_nil] at hdepth hts
  obtain ⟨position, rest, rfl, hrest⟩ := map_lexeme_eq_cons hts
  rw [readSingle, SinglePhrase.type]
  refine (h.fields fields comma rest ls ha.1 ha.2 ?_ hrest).bind fun rest hrest =>
    readsAs_ok hrest
  rw [List.length_append]
  omega

theorem function_succ (parameters : List ParameterPhrase) (comma : Bool) :
    (SinglePhrase.function comma parameters).CompletesAt (depth + 1) := by
  intro ts ls ha hends hdepth hts
  rw [SinglePhrase.Admissible] at ha
  simp only [SinglePhrase.lexemes, List.cons_append, List.append_assoc, List.length_cons,
    List.length_append, List.nil_append, List.length_nil] at hdepth hts
  obtain ⟨position, rest, rfl, hrest⟩ := map_lexeme_eq_cons hts
  rw [readSingle, SinglePhrase.type]
  refine (h.parameters parameters comma rest ls ha.1 ha.2 ?_ hrest).bind fun rest hrest => ?_
  · rw [List.length_append]
    omega
  have harrow := not_atSymbol_of_endsBefore .arrow (hrest ▸ hends) rfl (by decide)
  have hascii := not_atSymbol_of_endsBefore .asciiArrow (hrest ▸ hends) rfl (by decide)
  simp only [harrow, hascii]
  exact readsAs_ok hrest

theorem arrow_succ (parameters : List ParameterPhrase) (comma ascii : Bool)
    (result : TypePhrase) :
    (SinglePhrase.arrow comma parameters ascii result).CompletesAt (depth + 1) := by
  intro ts ls ha hends hdepth hts
  rw [SinglePhrase.Admissible] at ha
  simp only [SinglePhrase.lexemes, List.cons_append, List.append_assoc, List.length_cons,
    List.length_append, List.nil_append] at hdepth hts
  obtain ⟨position, rest, rfl, hrest⟩ := map_lexeme_eq_cons hts
  rw [readSingle, SinglePhrase.type]
  refine (h.parameters parameters comma rest _ ha.1 ha.2.1 ?_ hrest).bind fun rest hrest => ?_
  · rw [List.length_append]
    omega
  obtain ⟨position, rest, rfl, hresult⟩ := map_lexeme_eq_cons hrest
  have hat : (atSymbol .arrow (⟨.symbol (if ascii then .asciiArrow else .arrow), position⟩ :: rest) ||
      atSymbol .asciiArrow
        (⟨.symbol (if ascii then .asciiArrow else .arrow), position⟩ :: rest)) = true := by
    cases ascii <;> rfl
  dsimp only
  rw [if_pos hat, List.tail_cons]
  exact (h.type result rest ls ha.2.2 hends.endsType_of_arrow (by omega) hresult).bind
    fun rest hrest => readsAs_ok hrest

theorem generic_succ (name : String) (first : TypePhrase) (more : List TypePhrase) :
    (SinglePhrase.generic name first more).CompletesAt (depth + 1) := by
  intro ts ls ha hends hdepth hts
  rw [SinglePhrase.Admissible, ← List.forall_mem_cons] at ha
  simp only [SinglePhrase.lexemes, ← List.map_cons, List.cons_append, List.append_assoc,
    List.length_cons, List.length_append, List.nil_append, List.length_nil] at hdepth hts
  obtain ⟨position, angle, rfl, hangle⟩ := map_lexeme_eq_cons hts
  obtain ⟨position', rest, rfl, hrest⟩ := map_lexeme_eq_cons hangle
  rw [readSingle, if_pos (atSymbol_iff.mpr rfl), List.tail_cons, SinglePhrase.type]
  exact (h.arguments first more rest ls ha (by omega) hrest).bind fun rest hrest =>
    readsAs_ok hrest

theorem single_succ (single : SinglePhrase) : single.CompletesAt (depth + 1) := by
  intro ts ls ha hends hdepth hts
  cases single with
  | nullable inner => exact h.nullable_succ inner ts ls ha hends hdepth hts
  | array element => exact h.array_succ element ts ls ha hends hdepth hts
  | object comma fields => exact h.object_succ fields comma ts ls ha hends hdepth hts
  | function comma parameters => exact h.function_succ parameters comma ts ls ha hends hdepth hts
  | arrow comma parameters ascii result =>
    exact h.arrow_succ parameters comma ascii result ts ls ha hends hdepth hts
  | generic name first more => exact h.generic_succ name first more ts ls ha hends hdepth hts
  | quoted text =>
    rw [SinglePhrase.lexemes] at hts
    obtain ⟨position, rest, rfl, hrest⟩ := map_lexeme_eq_cons hts
    rw [readSingle, SinglePhrase.type, unquoted_eq]
    exact readsAs_ok hrest
  | number text =>
    rw [SinglePhrase.lexemes] at hts
    obtain ⟨position, rest, rfl, hrest⟩ := map_lexeme_eq_cons hts
    rw [readSingle, SinglePhrase.type, numberValue_eq]
    exact readsAs_ok hrest
  | named name =>
    rw [SinglePhrase.lexemes, List.singleton_append] at hts
    obtain ⟨position, rest, rfl, hrest⟩ := map_lexeme_eq_cons hts
    have hangle := not_atSymbol_of_endsBefore .openAngle (hrest ▸ hends) rfl (by decide)
    rw [readSingle, if_neg hangle, SinglePhrase.type]
    exact readsAs_ok hrest

end CompleteAt

theorem completeAt (depth : Nat) : CompleteAt depth := by
  induction depth with
  | zero =>
    exact ⟨fun _ _ _ _ _ hdepth => absurd hdepth (Nat.not_lt_zero _),
      fun _ _ _ _ _ hdepth => absurd hdepth (Nat.not_lt_zero _),
      fun _ _ _ _ _ _ hdepth => absurd hdepth (Nat.not_lt_zero _),
      fun _ _ _ _ _ hdepth => absurd hdepth (Nat.not_lt_zero _),
      fun _ _ _ _ _ _ hdepth => absurd hdepth (Nat.not_lt_zero _),
      fun _ _ _ _ _ _ hdepth => absurd hdepth (Nat.not_lt_zero _)⟩
  | succ depth ih =>
    exact ⟨ih.type_succ, ih.single_succ, ih.alternatives_succ, ih.arguments_succ, ih.fields_succ,
      ih.parameters_succ⟩

/-! ## What is read is derived -/

/-- A phrase stands for the type and derives the tokens up to `rest`, where no bar is left. -/
def TypeDerives (ts : List Token) (t : TypeExpr) (rest : List Token) : Prop :=
  ∃ type : TypePhrase, type.Admissible ∧ type.type = t ∧
    ts.map Token.lexeme = type.lexemes ++ rest.map Token.lexeme ∧ ¬atSymbol .bar rest = true

/-- A phrase stands for the type and derives the tokens up to `rest`, where no bar is left after a
result. -/
def SingleDerives (ts : List Token) (t : TypeExpr) (rest : List Token) : Prop :=
  ∃ single : SinglePhrase, single.Admissible ∧ single.type = t ∧
    ts.map Token.lexeme = single.lexemes ++ rest.map Token.lexeme ∧
    (endsInResult t = true → ¬atSymbol .bar rest = true)

def AlternativesDerive (ts : List Token) (types : List TypeExpr) (rest : List Token) : Prop :=
  ∃ more : List SinglePhrase, (∀ single ∈ more, single.Admissible) ∧
    more.map SinglePhrase.type = types ∧ ResultsLast types ∧
    ts.map Token.lexeme = (more.map SinglePhrase.lexemes).flatMap (.symbol .bar :: ·) ++
      rest.map Token.lexeme ∧ ¬atSymbol .bar rest = true

def ArgumentsDerive (ts : List Token) (types : List TypeExpr) (rest : List Token) : Prop :=
  ∃ (first : TypePhrase) (more : List TypePhrase), (∀ type ∈ first :: more, type.Admissible) ∧
    (first :: more).map TypePhrase.type = types ∧
    ts.map Token.lexeme = separated .comma ((first :: more).map TypePhrase.lexemes) ++
      .symbol .closeAngle :: rest.map Token.lexeme

def FieldsDerive (ts : List Token) (found : List (Field TypeExpr)) (rest : List Token) : Prop :=
  ∃ (fields : List FieldPhrase) (comma : Bool), (∀ field ∈ fields, field.Admissible) ∧
    (comma = true → fields ≠ []) ∧ fields.map FieldPhrase.field = found ∧
    ts.map Token.lexeme = separated .comma (fields.map FieldPhrase.lexemes) ++
      (optionally .comma comma ++ .symbol .closeBrace :: rest.map Token.lexeme)

def ParametersDerive (ts : List Token) (found : List (Parameter TypeExpr)) (rest : List Token) :
    Prop :=
  ∃ (parameters : List ParameterPhrase) (comma : Bool),
    (∀ parameter ∈ parameters, parameter.Admissible) ∧ (comma = true → parameters ≠ []) ∧
    parameters.map ParameterPhrase.parameter = found ∧
    ts.map Token.lexeme = separated .comma (parameters.map ParameterPhrase.lexemes) ++
      (optionally .comma comma ++ .symbol .closeParen :: rest.map Token.lexeme)

/-- At this depth whatever a reader returns is what a phrase stands for that derives the tokens
which the reader took. -/
structure SoundAt (depth : Nat) : Prop where
  type : ∀ {ts t rest}, readType depth ts = .ok (t, rest) → TypeDerives ts t rest
  single : ∀ {ts t rest}, readSingle depth ts = .ok (t, rest) → SingleDerives ts t rest
  alternatives : ∀ {ts types rest},
    readAlternatives depth ts = .ok (types, rest) → AlternativesDerive ts types rest
  arguments : ∀ {ts types rest},
    readArguments depth ts = .ok (types, rest) → ArgumentsDerive ts types rest
  fields : ∀ {ts found rest}, readFields depth ts = .ok (found, rest) → FieldsDerive ts found rest
  parameters : ∀ {ts found rest},
    readParameters depth ts = .ok (found, rest) → ParametersDerive ts found rest

/-- A bar follows an alternative if there are others, so that it does not end in a result. -/
theorem not_endsInResult_of_more {t : TypeExpr} {middle : List Token} {ls : List Lexeme}
    {more : List SinglePhrase} (hresult : endsInResult t = true → ¬atSymbol .bar middle = true)
    (hmap : middle.map Token.lexeme =
      (more.map SinglePhrase.lexemes).flatMap (.symbol .bar :: ·) ++ ls)
    (hne : more.map SinglePhrase.type ≠ []) : endsInResult t = false := by
  cases more with
  | nil => exact absurd rfl hne
  | cons next more =>
    have hat : atSymbol .bar middle = true := by
      rw [atSymbol_iff, hmap]
      rfl
    exact Bool.eq_false_iff.mpr fun htrue => hresult htrue hat

namespace SoundAt

variable {depth : Nat} (h : SoundAt depth) {ts rest : List Token} {position : Nat}

include h

theorem type_succ {t : TypeExpr} (hread : readType (depth + 1) ts = .ok (t, rest)) :
    TypeDerives ts t rest := by
  rw [readType] at hread
  obtain ⟨⟨first, middle⟩, hfirst, hread⟩ := except_bind_eq_ok.mp hread
  obtain ⟨⟨types, last⟩, hmore, hread⟩ := except_bind_eq_ok.mp hread
  cases hread
  obtain ⟨single, ha, rfl, hsingle, hresult⟩ := h.single hfirst
  obtain ⟨more, has, rfl, hrule, hmap, hbar⟩ := h.alternatives hmore
  refine ⟨.alternatives single more, ?_, type_alternatives single more, ?_, hbar⟩
  · rw [TypePhrase.Admissible, List.map_cons, resultsLast_cons]
    exact ⟨ha, has, not_endsInResult_of_more hresult hmap, hrule⟩
  · rw [TypePhrase.lexemes, separated_cons, hsingle, hmap, List.append_assoc]

theorem alternatives_succ {types : List TypeExpr}
    (hread : readAlternatives (depth + 1) ts = .ok (types, rest)) :
    AlternativesDerive ts types rest := by
  rw [readAlternatives] at hread
  split at hread
  · rename_i hat
    obtain ⟨⟨first, middle⟩, hfirst, hread⟩ := except_bind_eq_ok.mp hread
    obtain ⟨⟨types, last⟩, hmore, hread⟩ := except_bind_eq_ok.mp hread
    cases hread
    obtain ⟨single, ha, rfl, hsingle, hresult⟩ := h.single hfirst
    obtain ⟨more, has, rfl, hrule, hmap, hbar⟩ := h.alternatives hmore
    refine ⟨single :: more, List.forall_mem_cons.mpr ⟨ha, has⟩, rfl, ?_, ?_, hbar⟩
    · rw [resultsLast_cons]
      exact ⟨not_endsInResult_of_more hresult hmap, hrule⟩
    · rw [map_of_atSymbol hat, hsingle, hmap]
      simp
  · rename_i hat
    cases hread
    exact ⟨[], by simp, rfl, by simp [ResultsLast], rfl, hat⟩

theorem arguments_succ {types : List TypeExpr}
    (hread : readArguments (depth + 1) ts = .ok (types, rest)) :
    ArgumentsDerive ts types rest := by
  rw [readArguments] at hread
  obtain ⟨⟨t, middle⟩, htype, hread⟩ := except_bind_eq_ok.mp hread
  obtain ⟨type, ha, rfl, htype, -⟩ := h.type htype
  dsimp only at hread
  split at hread
  · rename_i hat
    obtain ⟨⟨types, last⟩, hmore, hread⟩ := except_bind_eq_ok.mp hread
    cases hread
    obtain ⟨next, more, has, rfl, hmap⟩ := h.arguments hmore
    refine ⟨type, next :: more, List.forall_mem_cons.mpr ⟨ha, has⟩, rfl, ?_⟩
    rw [htype, map_of_atSymbol hat, hmap]
    simp [separated_cons]
  · obtain ⟨last, hexpect, hread⟩ := except_bind_eq_ok.mp hread
    cases hread
    refine ⟨type, [], by simpa using ha, rfl, ?_⟩
    rw [htype, map_of_expect hexpect]
    simp [separated_cons]

theorem fields_succ {found : List (Field TypeExpr)}
    (hread : readFields (depth + 1) ts = .ok (found, rest)) : FieldsDerive ts found rest := by
  cases ts with
  | nil => simp [readFields] at hread
  | cons token ts =>
    obtain ⟨lexeme, position⟩ := token
    cases lexeme with
    | symbol sign =>
      cases sign with
      | closeBrace =>
        rw [readFields] at hread
        cases hread
        exact ⟨[], false, by simp, by simp, rfl, rfl⟩
      | _ => simp [readFields] at hread
    | quoted text => simp [readFields] at hread
    | number text => simp [readFields] at hread
    | name name =>
      rw [readFields_item] at hread
      cases hskip : skip .question ts with
      | mk optional colon =>
      rw [hskip] at hread
      obtain ⟨start, hexpect, hread⟩ := except_bind_eq_ok.mp hread
      obtain ⟨⟨t, middle⟩, htype, hread⟩ := except_bind_eq_ok.mp hread
      obtain ⟨after, hafter, hread⟩ := except_bind_eq_ok.mp hread
      obtain ⟨⟨found, last⟩, hmore, hread⟩ := except_bind_eq_ok.mp hread
      cases hread
      obtain ⟨type, ha, rfl, htype, -⟩ := h.type htype
      obtain ⟨fields, comma, has, hne, rfl, hmap⟩ := h.fields hmore
      obtain ⟨comma', hlisting⟩ := map_of_listing
        (List.forall_mem_map.mpr fun field _ => field.lexemes_ne_closeBrace)
        (by simpa using hne) hafter hmap
      refine ⟨.mk name optional type :: fields, comma', ?_, by simp, ?_, ?_⟩
      · exact List.forall_mem_cons.mpr ⟨by rwa [FieldPhrase.Admissible], has⟩
      · rw [List.map_cons, FieldPhrase.field]
      · rw [List.map_cons, map_of_skip hskip, map_of_expect hexpect, htype, hlisting, List.map_cons,
          separated_cons, FieldPhrase.lexemes, labelLexemes]
        simp

theorem parameters_succ {found : List (Parameter TypeExpr)}
    (hread : readParameters (depth + 1) ts = .ok (found, rest)) :
    ParametersDerive ts found rest := by
  by_cases hat : atSymbol .closeParen ts = true
  · rw [readParameters, if_pos hat] at hread
    cases hread
    exact ⟨[], false, by simp, by simp, rfl, map_of_atSymbol hat⟩
  · rw [readParameters_item depth hat] at hread
    cases hskip : skip .ellipsis ts with
    | mk variadic labelled =>
    cases hlabel : readLabel labelled with
    | mk label start =>
    simp only [hskip, hlabel] at hread
    obtain ⟨⟨t, middle⟩, htype, hread⟩ := except_bind_eq_ok.mp hread
    obtain ⟨after, hafter, hread⟩ := except_bind_eq_ok.mp hread
    obtain ⟨⟨found, last⟩, hmore, hread⟩ := except_bind_eq_ok.mp hread
    cases hread
    obtain ⟨type, ha, rfl, htype, -⟩ := h.type htype
    obtain ⟨parameters, comma, has, hne, rfl, hmap⟩ := h.parameters hmore
    obtain ⟨comma', hlisting⟩ := map_of_listing
      (List.forall_mem_map.mpr fun parameter _ => parameter.lexemes_ne_closeParen)
      (by simpa using hne) hafter hmap
    refine ⟨.mk variadic label type :: parameters, comma', ?_, by simp, ?_, ?_⟩
    · exact List.forall_mem_cons.mpr ⟨by rwa [ParameterPhrase.Admissible], has⟩
    · rw [List.map_cons, ParameterPhrase.parameter]
    · rw [map_of_skip hskip, map_of_readLabel hlabel, htype, hlisting, List.map_cons, separated_cons,
        ParameterPhrase.lexemes]
      simp

theorem nullable_succ {t : TypeExpr}
    (hread : readSingle (depth + 1) (⟨.symbol .question, position⟩ :: ts) = .ok (t, rest)) :
    SingleDerives (⟨.symbol .question, position⟩ :: ts) t rest := by
  rw [readSingle] at hread
  obtain ⟨⟨t, last⟩, hinner, hread⟩ := except_bind_eq_ok.mp hread
  cases hread
  obtain ⟨inner, ha, rfl, hmap, hresult⟩ := h.single hinner
  refine ⟨.nullable inner, ?_, ?_, ?_, hresult⟩
  · rwa [SinglePhrase.Admissible]
  · rw [SinglePhrase.type]
  · rw [List.map_cons, hmap, SinglePhrase.lexemes, List.cons_append]

theorem array_succ {t : TypeExpr}
    (hread : readSingle (depth + 1) (⟨.symbol .openBracket, position⟩ :: ts) = .ok (t, rest)) :
    SingleDerives (⟨.symbol .openBracket, position⟩ :: ts) t rest := by
  rw [readSingle] at hread
  obtain ⟨⟨t, middle⟩, helement, hread⟩ := except_bind_eq_ok.mp hread
  obtain ⟨last, hclose, hread⟩ := except_bind_eq_ok.mp hread
  cases hread
  obtain ⟨element, ha, rfl, hmap, -⟩ := h.type helement
  refine ⟨.array element, ?_, ?_, ?_, by simp [endsInResult]⟩
  · rwa [SinglePhrase.Admissible]
  · rw [SinglePhrase.type]
  · rw [List.map_cons, hmap, map_of_expect hclose, SinglePhrase.lexemes]
    simp

theorem object_succ {t : TypeExpr}
    (hread : readSingle (depth + 1) (⟨.symbol .openBrace, position⟩ :: ts) = .ok (t, rest)) :
    SingleDerives (⟨.symbol .openBrace, position⟩ :: ts) t rest := by
  rw [readSingle] at hread
  obtain ⟨⟨found, last⟩, hfields, hread⟩ := except_bind_eq_ok.mp hread
  cases hread
  obtain ⟨fields, comma, ha, hne, rfl, hmap⟩ := h.fields hfields
  refine ⟨.object comma fields, ?_, ?_, ?_, by simp [endsInResult]⟩
  · rw [SinglePhrase.Admissible]
    exact ⟨ha, hne⟩
  · rw [SinglePhrase.type]
  · rw [List.map_cons, hmap, SinglePhrase.lexemes]
    simp

theorem function_succ {t : TypeExpr}
    (hread : readSingle (depth + 1) (⟨.symbol .openParen, position⟩ :: ts) = .ok (t, rest)) :
    SingleDerives (⟨.symbol .openParen, position⟩ :: ts) t rest := by
  rw [readSingle] at hread
  obtain ⟨⟨found, middle⟩, hparameters, hread⟩ := except_bind_eq_ok.mp hread
  obtain ⟨parameters, comma, ha, hne, rfl, hmap⟩ := h.parameters hparameters
  dsimp only at hread
  split at hread
  · rename_i hat
    obtain ⟨⟨t, last⟩, hresult, hread⟩ := except_bind_eq_ok.mp hread
    cases hread
    obtain ⟨result, haresult, rfl, hrest, hbar⟩ := h.type hresult
    obtain ⟨ascii, hsign⟩ := map_of_atArrow hat
    refine ⟨.arrow comma parameters ascii result, ?_, ?_, ?_, fun _ => hbar⟩
    · rw [SinglePhrase.Admissible]
      exact ⟨ha, hne, haresult⟩
    · rw [SinglePhrase.type]
    · rw [List.map_cons, hmap, hsign, hrest, SinglePhrase.lexemes]
      simp
  · cases hread
    refine ⟨.function comma parameters, ?_, ?_, ?_, by simp [endsInResult]⟩
    · rw [SinglePhrase.Admissible]
      exact ⟨ha, hne⟩
    · rw [SinglePhrase.type]
    · rw [List.map_cons, hmap, SinglePhrase.lexemes]
      simp

theorem name_succ {name : String} {t : TypeExpr}
    (hread : readSingle (depth + 1) (⟨.name name, position⟩ :: ts) = .ok (t, rest)) :
    SingleDerives (⟨.name name, position⟩ :: ts) t rest := by
  rw [readSingle] at hread
  split at hread
  · rename_i hat
    obtain ⟨⟨types, last⟩, harguments, hread⟩ := except_bind_eq_ok.mp hread
    cases hread
    obtain ⟨first, more, ha, rfl, hmap⟩ := h.arguments harguments
    refine ⟨.generic name first more, ?_, ?_, ?_, by simp [endsInResult]⟩
    · rw [SinglePhrase.Admissible]
      exact List.forall_mem_cons.mp ha
    · rw [SinglePhrase.type, List.map_cons]
    · rw [List.map_cons, map_of_atSymbol hat, hmap, SinglePhrase.lexemes]
      simp
  · cases hread
    refine ⟨.named name, ?_, ?_, ?_, by simp [endsInResult]⟩
    · rw [SinglePhrase.Admissible]
      trivial
    · rw [SinglePhrase.type]
    · rw [List.map_cons, SinglePhrase.lexemes, List.singleton_append]

theorem single_succ {t : TypeExpr} (hread : readSingle (depth + 1) ts = .ok (t, rest)) :
    SingleDerives ts t rest := by
  cases ts with
  | nil => simp [readSingle] at hread
  | cons token ts =>
    obtain ⟨lexeme, position⟩ := token
    cases lexeme with
    | symbol sign =>
      cases sign with
      | question => exact h.nullable_succ hread
      | openBracket => exact h.array_succ hread
      | openBrace => exact h.object_succ hread
      | openParen => exact h.function_succ hread
      | _ => simp [readSingle] at hread
    | quoted text =>
      rw [readSingle] at hread
      cases hread
      refine ⟨.quoted text, ?_, ?_, ?_, by simp [endsInResult]⟩
      · rw [SinglePhrase.Admissible]
        trivial
      · rw [SinglePhrase.type, unquoted_eq]
      · rw [List.map_cons, SinglePhrase.lexemes, List.singleton_append]
    | number text =>
      rw [readSingle] at hread
      cases hread
      refine ⟨.number text, ?_, ?_, ?_, by simp [endsInResult]⟩
      · rw [SinglePhrase.Admissible]
        trivial
      · rw [SinglePhrase.type, numberValue_eq]
      · rw [List.map_cons, SinglePhrase.lexemes, List.singleton_append]
    | name name => exact h.name_succ hread

end SoundAt

theorem soundAt (depth : Nat) : SoundAt depth := by
  induction depth with
  | zero => constructor <;> intro ts t rest hread <;> cases hread
  | succ depth ih =>
    exact ⟨ih.type_succ, ih.single_succ, ih.alternatives_succ, ih.arguments_succ, ih.fields_succ,
      ih.parameters_succ⟩

/-! ## Whole specifications -/

/-- A list of tokens is a type just if an admissible phrase for the type derives it. -/
theorem ofTokens_eq_ok_iff {ts : List Token} {t : TypeExpr} :
    ofTokens ts = .ok t ↔ ∃ type : TypePhrase,
      type.Admissible ∧ ts.map Token.lexeme = type.lexemes ∧ type.type = t := by
  constructor
  · intro h
    obtain ⟨⟨found, rest⟩, hread, h⟩ := except_bind_eq_ok.mp h
    cases rest with
    | nil =>
      cases h
      obtain ⟨type, ha, htype, hmap, -⟩ := (soundAt _).type hread
      exact ⟨type, ha, by simpa using hmap, htype⟩
    | cons token rest => cases h
  · rintro ⟨type, ha, hmap, rfl⟩
    have hlength : ts.length = type.lexemes.length := by
      rw [← hmap, List.length_map]
    obtain ⟨rest, hread, hrest⟩ := (completeAt (4 * ts.length + 4)).type type ts [] ha endsType_nil
      (by omega) (by rw [hmap, List.append_nil])
    rw [List.map_eq_nil_iff] at hrest
    subst hrest
    rw [ofTokens, read, hread]
    rfl

theorem parse_eq_ok_iff {text : String} {t : TypeExpr} :
    parse text = .ok t ↔ ∃ ts, tokens text = .ok ts ∧ ofTokens ts = .ok t := by
  unfold parse
  split
  · rename_i stray htokens
    simp [htokens]
  · rename_i ts htokens
    split
    · rename_i type htype
      simp [htokens, htype]
    · rename_i stuck hstuck
      simp [htokens, hstuck]

theorem text_of_parse_error {text : String} {error : SpecError} (h : parse text = .error error) :
    error.text = text := by
  unfold parse at h
  split at h
  · cases h
    rfl
  · split at h
    · cases h
    · cases h
      rfl

/-- The text has tokens, and the phrase is an admissible derivation of them. -/
def Derives (text : String) (type : TypePhrase) : Prop :=
  ∃ ts, tokens text = .ok ts ∧ ts.map Token.lexeme = type.lexemes ∧ type.Admissible

/-- **What a type specification is read as.** A text is read as the types that it derives. It has
at most one derivation; if it has none, the reading fails with an error about the text. -/
theorem parse_eq_ok_iff_derives (text : String) :
    (∀ t, parse text = .ok t ↔ ∃ type : TypePhrase, Derives text type ∧ type.type = t) ∧
    (∀ type other : TypePhrase, Derives text type → Derives text other → type = other) ∧
    ((∀ type, ¬Derives text type) → ∃ error, parse text = .error error ∧ error.text = text) := by
  have hparse : ∀ t, parse text = .ok t ↔ ∃ type, Derives text type ∧ type.type = t := by
    intro t
    rw [parse_eq_ok_iff]
    constructor
    · rintro ⟨ts, htokens, hts⟩
      obtain ⟨type, ha, hmap, htype⟩ := ofTokens_eq_ok_iff.mp hts
      exact ⟨type, ⟨ts, htokens, hmap, ha⟩, htype⟩
    · rintro ⟨type, ⟨ts, htokens, hmap, ha⟩, htype⟩
      exact ⟨ts, htokens, ofTokens_eq_ok_iff.mpr ⟨type, ha, hmap, htype⟩⟩
  refine ⟨hparse, ?_, ?_⟩
  · rintro type other ⟨ts, htokens, hmap, ha⟩ ⟨ts', htokens', hmap', ha'⟩
    cases htokens.symm.trans htokens'
    have hsame : type.lexemes ++ [] = other.lexemes ++ [] := by rw [← hmap, ← hmap']
    exact (type.determined other [] [] ha ha' endsType_nil endsType_nil hsame).1
  · intro hnone
    cases hresult : parse text with
    | ok t =>
      obtain ⟨type, hderives, -⟩ := (hparse t).mp hresult
      exact absurd hderives (hnone type)
    | error error => exact ⟨error, rfl, text_of_parse_error hresult⟩

end DocComments.TypeExpr
