import DocComments.Proofs.TypeLexemes
import DocComments.Proofs.TypeReading
import Mathlib.Data.List.Basic

/-!
# The types that can be written

A type specification has no brackets to group a type with, and no way to write some trees at all:
a union within a union, a nullable union, an alternative after a result. What is left are the types
in normal form, and each of them is read from some text.

A phrase is writable if it is admissible and its lexemes are written as lexemes are. The text of
such a phrase, with spaces between its lexemes, is read as the type it stands for, and whatever is
read comes from such a phrase. So the types that are read are those of writable phrases.

* `exists_parse_iff`: a type is read from some text just if a writable phrase stands for it.
* `TypePhrase.isNormal`: writable phrases stand for types in normal form, by recursion on phrases.
* `IsNormal.spelled`: a type in normal form has a writable phrase, by induction on the type.
* `exists_parse_iff_isNormal`: the types that can be read are those in normal form.
-/

namespace DocComments

open TypeExpr

/-! ## Normal forms -/

/-- A text can be quoted, a whole number can be any, and a floating-point number is the value of a
decimal. -/
def Literal.IsWritable : Literal → Prop
  | .text value => ∃ quote ∈ quotes, IsQuotable quote value.toList
  | .int _ => True
  | .double value =>
    ∃ negative digits places, 0 < places ∧ value = .ofDecimal negative digits places

namespace TypeExpr

def isUnion : TypeExpr → Bool
  | .union _ => true
  | _ => false

/-- Types in normal form: all names are names of the type language, generic types have arguments,
only parameters with a name are optional, a union has several members and is no member of a union
and not nullable, and no member but the last ends in a result. -/
inductive IsNormal : TypeExpr → Prop where
  | named {name : String} (hname : IsName name.toList) : IsNormal (.named name)
  | generic {name : String} {arguments : List TypeExpr} (hname : IsName name.toList)
      (hne : arguments ≠ []) (h : ∀ type ∈ arguments, IsNormal type) :
      IsNormal (.generic name arguments)
  | nullable {type : TypeExpr} (hunion : type.isUnion = false) (h : IsNormal type) :
      IsNormal (.nullable type)
  | array {type : TypeExpr} (h : IsNormal type) : IsNormal (.array type)
  | object {fields : List (Field TypeExpr)} (hname : ∀ field ∈ fields, IsName field.name.toList)
      (h : ∀ field ∈ fields, IsNormal field.type) : IsNormal (.object fields)
  | function {parameters : List (Parameter TypeExpr)} {result : Option TypeExpr}
      (hname : ∀ parameter ∈ parameters, ∀ name ∈ parameter.name, IsName name.toList)
      (hoptional : ∀ parameter ∈ parameters, parameter.optional = true → parameter.name ≠ none)
      (h : ∀ parameter ∈ parameters, IsNormal parameter.type)
      (hresult : ∀ type ∈ result, IsNormal type) : IsNormal (.function parameters result)
  | union {types : List TypeExpr} (hseveral : 2 ≤ types.length)
      (hflat : ∀ type ∈ types, type.isUnion = false) (hlast : ResultsLast types)
      (h : ∀ type ∈ types, IsNormal type) : IsNormal (.union types)
  | literal {value : Literal} (h : value.IsWritable) : IsNormal (.literal value)

/-! ## Writable phrases -/

/-- All the lexemes are written as lexemes are. -/
def AllWritten (ls : List Lexeme) : Prop :=
  ∀ l ∈ ls, l.IsWritten

@[simp] theorem allWritten_nil : AllWritten [] := by
  simp [AllWritten]

@[simp] theorem allWritten_cons {l : Lexeme} {ls : List Lexeme} :
    AllWritten (l :: ls) ↔ l.IsWritten ∧ AllWritten ls :=
  List.forall_mem_cons

@[simp] theorem allWritten_append {ls ms : List Lexeme} :
    AllWritten (ls ++ ms) ↔ AllWritten ls ∧ AllWritten ms :=
  List.forall_mem_append

@[simp] theorem isWritten_symbol (sign : Symbol) : (Lexeme.symbol sign).IsWritten :=
  trivial

@[simp] theorem allWritten_optionally (sign : Symbol) (present : Bool) :
    AllWritten (optionally sign present) := by
  cases present <;> simp [optionally]

@[simp] theorem allWritten_separated {sign : Symbol} {items : List (List Lexeme)} :
    AllWritten (separated sign items) ↔ ∀ item ∈ items, AllWritten item := by
  cases items with
  | nil => simp [separated]
  | cons item items =>
    induction items generalizing item with
    | nil => simp [separated]
    | cons next items ih =>
      have hnext : separated sign (item :: next :: items) =
          item ++ .symbol sign :: separated sign (next :: items) := by
        simp [separated]
      simp [hnext, ih]

theorem allWritten_label {label : Option (String × Bool)} :
    AllWritten (labelLexemes label) ↔ ∀ l ∈ label, IsName l.1.toList := by
  cases label with
  | none => simp [labelLexemes]
  | some label => simp [labelLexemes, Lexeme.IsWritten]

def TypePhrase.Writable (type : TypePhrase) : Prop :=
  type.Admissible ∧ AllWritten type.lexemes

def SinglePhrase.Writable (single : SinglePhrase) : Prop :=
  single.Admissible ∧ AllWritten single.lexemes

def FieldPhrase.Writable (field : FieldPhrase) : Prop :=
  field.Admissible ∧ AllWritten field.lexemes

def ParameterPhrase.Writable (parameter : ParameterPhrase) : Prop :=
  parameter.Admissible ∧ AllWritten parameter.lexemes

theorem writable_alternatives {first : SinglePhrase} {more : List SinglePhrase} :
    (TypePhrase.alternatives first more).Writable ↔
      (∀ single ∈ first :: more, single.Writable) ∧
        ResultsLast ((first :: more).map SinglePhrase.type) := by
  have hlexemes : AllWritten (TypePhrase.alternatives first more).lexemes ↔
      AllWritten first.lexemes ∧ ∀ single ∈ more, AllWritten single.lexemes := by
    simp [TypePhrase.lexemes]
  rw [TypePhrase.Writable, TypePhrase.Admissible, hlexemes, List.forall_mem_cons]
  simp only [SinglePhrase.Writable, forall₂_and]
  grind

theorem writable_nullable {inner : SinglePhrase} :
    (SinglePhrase.nullable inner).Writable ↔ inner.Writable := by
  simp [SinglePhrase.Writable, SinglePhrase.Admissible, SinglePhrase.lexemes]

theorem writable_array {element : TypePhrase} :
    (SinglePhrase.array element).Writable ↔ element.Writable := by
  simp [SinglePhrase.Writable, TypePhrase.Writable, SinglePhrase.Admissible, SinglePhrase.lexemes]

theorem writable_object {comma : Bool} {fields : List FieldPhrase} :
    (SinglePhrase.object comma fields).Writable ↔
      (∀ field ∈ fields, field.Writable) ∧ (comma = true → fields ≠ []) := by
  have hlexemes : AllWritten (SinglePhrase.object comma fields).lexemes ↔
      ∀ field ∈ fields, AllWritten field.lexemes := by
    simp [SinglePhrase.lexemes]
  rw [SinglePhrase.Writable, SinglePhrase.Admissible, hlexemes, and_right_comm]
  simp only [FieldPhrase.Writable, forall₂_and]

theorem writable_function {comma : Bool} {parameters : List ParameterPhrase} :
    (SinglePhrase.function comma parameters).Writable ↔
      (∀ parameter ∈ parameters, parameter.Writable) ∧ (comma = true → parameters ≠ []) := by
  have hlexemes : AllWritten (SinglePhrase.function comma parameters).lexemes ↔
      ∀ parameter ∈ parameters, AllWritten parameter.lexemes := by
    simp [SinglePhrase.lexemes]
  rw [SinglePhrase.Writable, SinglePhrase.Admissible, hlexemes, and_right_comm]
  simp only [ParameterPhrase.Writable, forall₂_and]

theorem writable_arrow {comma ascii : Bool} {parameters : List ParameterPhrase}
    {result : TypePhrase} :
    (SinglePhrase.arrow comma parameters ascii result).Writable ↔
      (∀ parameter ∈ parameters, parameter.Writable) ∧ (comma = true → parameters ≠ []) ∧
        result.Writable := by
  have hlexemes : AllWritten (SinglePhrase.arrow comma parameters ascii result).lexemes ↔
      (∀ parameter ∈ parameters, AllWritten parameter.lexemes) ∧ AllWritten result.lexemes := by
    simp [SinglePhrase.lexemes]
  rw [SinglePhrase.Writable, SinglePhrase.Admissible, hlexemes]
  simp only [ParameterPhrase.Writable, TypePhrase.Writable, forall₂_and]
  grind

theorem writable_quoted {text : String} :
    (SinglePhrase.quoted text).Writable ↔ IsQuoted text.toList := by
  simp [SinglePhrase.Writable, SinglePhrase.Admissible, SinglePhrase.lexemes, Lexeme.IsWritten]

theorem writable_number {text : String} :
    (SinglePhrase.number text).Writable ↔ IsNumber text.toList := by
  simp [SinglePhrase.Writable, SinglePhrase.Admissible, SinglePhrase.lexemes, Lexeme.IsWritten]

theorem writable_named {name : String} :
    (SinglePhrase.named name).Writable ↔ IsName name.toList := by
  simp [SinglePhrase.Writable, SinglePhrase.Admissible, SinglePhrase.lexemes, Lexeme.IsWritten]

theorem writable_generic {name : String} {first : TypePhrase} {more : List TypePhrase} :
    (SinglePhrase.generic name first more).Writable ↔
      IsName name.toList ∧ ∀ type ∈ first :: more, type.Writable := by
  have hlexemes : AllWritten (SinglePhrase.generic name first more).lexemes ↔
      IsName name.toList ∧ ∀ type ∈ first :: more, AllWritten type.lexemes := by
    simp [SinglePhrase.lexemes, Lexeme.IsWritten]
  rw [SinglePhrase.Writable, SinglePhrase.Admissible, hlexemes, ← List.forall_mem_cons,
    and_left_comm]
  simp only [TypePhrase.Writable, forall₂_and]

theorem writable_field {name : String} {optional : Bool} {type : TypePhrase} :
    (FieldPhrase.mk name optional type).Writable ↔ IsName name.toList ∧ type.Writable := by
  have hlexemes : AllWritten (FieldPhrase.mk name optional type).lexemes ↔
      IsName name.toList ∧ AllWritten type.lexemes := by
    simp [FieldPhrase.lexemes, allWritten_label]
  rw [FieldPhrase.Writable, FieldPhrase.Admissible, hlexemes, and_left_comm, TypePhrase.Writable]

theorem writable_parameter {variadic : Bool} {label : Option (String × Bool)}
    {type : TypePhrase} :
    (ParameterPhrase.mk variadic label type).Writable ↔
      (∀ l ∈ label, IsName l.1.toList) ∧ type.Writable := by
  have hlexemes : AllWritten (ParameterPhrase.mk variadic label type).lexemes ↔
      (∀ l ∈ label, IsName l.1.toList) ∧ AllWritten type.lexemes := by
    rw [ParameterPhrase.lexemes, allWritten_append, allWritten_append, allWritten_label]
    exact and_iff_right (allWritten_optionally _ _)
  rw [ParameterPhrase.Writable, ParameterPhrase.Admissible, hlexemes, and_left_comm,
    TypePhrase.Writable]

theorem writable_single {single : SinglePhrase} (h : single.Writable) :
    (TypePhrase.alternatives single []).Writable := by
  rw [writable_alternatives]
  exact ⟨by simpa using h, by simp [ResultsLast]⟩

/-! ## Reading the text of a phrase -/

/-- The text of a phrase has a space between any two of its lexemes. -/
def TypePhrase.text (type : TypePhrase) : String :=
  String.ofList (spaced type.lexemes)

theorem TypePhrase.Writable.parse_text {type : TypePhrase} (h : type.Writable) :
    parse type.text = .ok type.type := by
  obtain ⟨ts, hts, hmap⟩ := tokens_spaced h.2
  exact parse_eq_ok_iff.mpr ⟨ts, hts, ofTokens_eq_ok_iff.mpr ⟨type, h.1, hmap, rfl⟩⟩

theorem exists_parse_iff {t : TypeExpr} :
    (∃ text, parse text = .ok t) ↔ ∃ type : TypePhrase, type.Writable ∧ type.type = t := by
  constructor
  · rintro ⟨text, h⟩
    obtain ⟨ts, htokens, hts⟩ := parse_eq_ok_iff.mp h
    obtain ⟨type, ha, hmap, htype⟩ := ofTokens_eq_ok_iff.mp hts
    have hwritten : AllWritten type.lexemes := hmap ▸ lexemes_of_tokens htokens
    exact ⟨type, ⟨ha, hwritten⟩, htype⟩
  · rintro ⟨type, h, rfl⟩
    exact ⟨type.text, h.parse_text⟩

/-! ## Literals -/

theorem quotedValue_of_eq {text : String} {quote : Char} {body : List Char}
    (h : text.toList = quote :: body ++ [quote]) : quotedValue text = String.ofList body := by
  rw [quotedValue, h]
  simp

theorem isWritable_quotedValue {text : String} (h : IsQuoted text.toList) :
    (Literal.text (quotedValue text)).IsWritable := by
  obtain ⟨quote, hquote, body, hbody, htext⟩ := h
  refine ⟨quote, hquote, ?_⟩
  rwa [quotedValue_of_eq htext, String.toList_ofList]

theorem exists_quoted {value : String} (h : (Literal.text value).IsWritable) :
    ∃ text : String, IsQuoted text.toList ∧ quotedValue text = value := by
  obtain ⟨quote, hquote, hbody⟩ := h
  refine ⟨String.ofList (quote :: value.toList ++ [quote]), ?_, ?_⟩
  · exact ⟨quote, hquote, value.toList, hbody, String.toList_ofList⟩
  · rw [quotedValue_of_eq String.toList_ofList, String.ofList_toList]

theorem numeralValue_negative {text : String} {digits : List Char}
    (h : text.toList = '-' :: digits) : numeralValue text = unsignedValue true digits := by
  rw [← numberValue_eq, numberValue, h]
  rfl

theorem numeralValue_unsigned {text : String} (h : IsUnsigned text.toList) :
    numeralValue text = unsignedValue false text.toList := by
  obtain ⟨c, rest, htext, hc⟩ := h.begins
  rw [← numberValue_eq, numberValue, htext]
  split
  · rename_i heq
    exact absurd (List.cons.inj heq).1 (ne_minus_of_isDigit hc)
  · rfl

theorem IsDigits.point_notMem {digits : List Char} (h : IsDigits digits) : '.' ∉ digits := by
  intro hpoint
  exact (not_mem_of_isDigit (h.2 '.' hpoint)).1 (by decide)

theorem isWritable_unsignedValue (negative : Bool) {text : List Char} (h : IsUnsigned text) :
    (unsignedValue negative text).IsWritable := by
  cases h with
  | whole h =>
    rw [unsignedValue_whole negative h.point_notMem]
    trivial
  | decimal hwhole hfraction =>
    rw [unsignedValue_decimal negative hwhole.point_notMem]
    exact ⟨_, _, _, List.length_pos_iff.mpr hfraction.1, rfl⟩

theorem isWritable_numeralValue {text : String} (h : IsNumber text.toList) :
    (numeralValue text).IsWritable := by
  generalize hchars : text.toList = chars at h
  cases h with
  | unsigned h =>
    subst hchars
    rw [numeralValue_unsigned h]
    exact isWritable_unsignedValue false h
  | negative h =>
    rw [numeralValue_negative hchars]
    exact isWritable_unsignedValue true h

theorem digit?_of_isDigit {c : Char} (h : c.isDigit = true) :
    Text.digit? c = some (c.toNat - 48) := by
  have hlt : c.toNat < 128 := by
    simp only [Char.isDigit, Bool.and_eq_true, decide_eq_true_eq, UInt32.le_iff_toNat_le] at h
    exact Nat.lt_of_le_of_lt h.2 (by decide)
  rw [Text.digit?, if_pos hlt, if_pos h]

theorem isDigit_of_mem_toDigits {n : Nat} {c : Char} (h : c ∈ Nat.toDigits 10 n) :
    c.isDigit = true :=
  Nat.isDigit_of_mem_toDigits (by omega) (by omega) h

theorem isDigits_toDigits (n : Nat) : IsDigits (Nat.toDigits 10 n) := by
  refine ⟨Nat.toDigits_ne_nil, fun c hc => ?_⟩
  rw [Text.isDigit, digit?_of_isDigit (isDigit_of_mem_toDigits hc)]
  rfl

theorem numeral_toDigits (n : Nat) : Text.numeral (Nat.toDigits 10 n) = n := by
  have hfold : ∀ (digits : List Char) (init : Nat), (∀ c ∈ digits, c.isDigit = true) →
      digits.foldl (fun n c => 10 * n + (Text.digit? c).getD 0) init =
        Nat.ofDigitChars 10 digits init := by
    intro digits
    induction digits with
    | nil => exact fun _ _ => rfl
    | cons c digits ih =>
      intro init h
      obtain ⟨hc, hdigits⟩ := List.forall_mem_cons.mp h
      rw [List.foldl_cons, digit?_of_isDigit hc, ih _ hdigits]
      rfl
  rw [Text.numeral, hfold _ _ fun _ => isDigit_of_mem_toDigits]
  exact Nat.ofDigitChars_toDigits (by omega) (by omega)

theorem numeral_zeros (count : Nat) (digits : List Char) :
    Text.numeral (List.replicate count '0' ++ digits) = Text.numeral digits := by
  induction count with
  | zero => rfl
  | succ count ih => exact ih

/-- Every number with this many places has digits before and after its point. -/
theorem exists_decimal (n : Nat) {places : Nat} (hplaces : 0 < places) :
    ∃ whole fraction, IsDigits whole ∧ IsDigits fraction ∧ fraction.length = places ∧
      Text.numeral (whole ++ fraction) = n := by
  -- With enough zeros in front of it there are digits for all places and more.
  let digits := List.replicate places '0' ++ Nat.toDigits 10 n
  have hpositive : 0 < (Nat.toDigits 10 n).length :=
    List.length_pos_iff.mpr Nat.toDigits_ne_nil
  have hlength : digits.length = places + (Nat.toDigits 10 n).length := by
    simp [digits]
  have hall : ∀ c ∈ digits, Text.isDigit c = true := by
    intro c hc
    rcases List.mem_append.mp hc with hc | hc
    · rw [List.eq_of_mem_replicate hc]
      decide
    · exact (isDigits_toDigits n).2 c hc
  refine ⟨digits.take (digits.length - places), digits.drop (digits.length - places),
    ⟨?_, fun c hc => hall c (List.mem_of_mem_take hc)⟩,
    ⟨?_, fun c hc => hall c (List.mem_of_mem_drop hc)⟩, ?_, ?_⟩
  · rw [← List.length_pos_iff, List.length_take]
    omega
  · rw [← List.length_pos_iff, List.length_drop]
    omega
  · rw [List.length_drop]
    omega
  · rw [List.take_append_drop, numeral_zeros, numeral_toDigits]

theorem exists_unsigned (negative : Bool) {digits : List Char} (h : IsUnsigned digits) :
    ∃ text : String, IsNumber text.toList ∧ numeralValue text = unsignedValue negative digits := by
  cases negative with
  | false =>
    refine ⟨String.ofList digits, ?_, ?_⟩
    · rw [String.toList_ofList]
      exact .unsigned h
    · rw [numeralValue_unsigned (by rwa [String.toList_ofList]), String.toList_ofList]
  | true =>
    refine ⟨String.ofList ('-' :: digits), ?_, ?_⟩
    · rw [String.toList_ofList]
      exact .negative h
    · rw [numeralValue_negative String.toList_ofList]

theorem exists_int (value : Int) :
    ∃ text : String, IsNumber text.toList ∧ numeralValue text = .int value := by
  have hdigits := isDigits_toDigits value.natAbs
  obtain ⟨text, htext, hvalue⟩ := exists_unsigned (decide (value < 0)) (.whole hdigits)
  refine ⟨text, htext, ?_⟩
  rw [hvalue, unsignedValue_whole _ hdigits.point_notMem, numeral_toDigits]
  congr 1
  by_cases h : value < 0
  · rw [if_pos (by simpa using h)]
    omega
  · rw [if_neg (by simpa using h)]
    omega

theorem exists_double (negative : Bool) (digits : Nat) {places : Nat} (hplaces : 0 < places) :
    ∃ text : String, IsNumber text.toList ∧
      numeralValue text = .double (.ofDecimal negative digits places) := by
  obtain ⟨whole, fraction, hwhole, hfraction, hlength, hnumeral⟩ := exists_decimal digits hplaces
  obtain ⟨text, htext, hvalue⟩ := exists_unsigned negative (.decimal hwhole hfraction)
  refine ⟨text, htext, ?_⟩
  rw [hvalue, unsignedValue_decimal negative hwhole.point_notMem, hnumeral, hlength]

/-! ## Phrases stand for types in normal form -/

theorem isNormal_ofAlternatives {first : TypeExpr} {more : List TypeExpr}
    (h : ∀ type ∈ first :: more, type.IsNormal ∧ type.isUnion = false)
    (hlast : ResultsLast (first :: more)) : (ofAlternatives first more).IsNormal := by
  cases more with
  | nil => exact (h first List.mem_cons_self).1
  | cons next more =>
    exact .union (by simp) (fun type htype => (h type htype).2) hlast
      fun type htype => (h type htype).1

/-- The name and the type of a parameter are as in normal forms. -/
structure IsNormalParameter (parameter : Parameter TypeExpr) : Prop where
  name : ∀ name ∈ parameter.name, IsName name.toList
  optional : parameter.optional = true → parameter.name ≠ none
  type : parameter.type.IsNormal

theorem isNormal_function {phrases : List ParameterPhrase} {result : Option TypeExpr}
    (h : ∀ phrase ∈ phrases, IsNormalParameter phrase.parameter)
    (hresult : ∀ type ∈ result, type.IsNormal) :
    (TypeExpr.function (phrases.map ParameterPhrase.parameter) result).IsNormal := by
  rw [← List.forall_mem_map] at h
  exact .function (fun p hp => (h p hp).name) (fun p hp => (h p hp).optional)
    (fun p hp => (h p hp).type) hresult

mutual

theorem TypePhrase.isNormal : ∀ type : TypePhrase, type.Writable → type.type.IsNormal
  | .alternatives first more => by
    intro h
    obtain ⟨hall, hlast⟩ := writable_alternatives.mp h
    obtain ⟨hfirst, hmore⟩ := List.forall_mem_cons.mp hall
    rw [type_alternatives]
    refine isNormal_ofAlternatives (List.forall_mem_cons.mpr ⟨first.isNormal hfirst, ?_⟩) hlast
    rw [List.forall_mem_map]
    exact fun single hsingle => single.isNormal (hmore single hsingle)

theorem SinglePhrase.isNormal :
    ∀ single : SinglePhrase, single.Writable → single.type.IsNormal ∧ single.type.isUnion = false
  | .nullable inner => by
    intro h
    obtain ⟨hinner, hunion⟩ := inner.isNormal (writable_nullable.mp h)
    rw [SinglePhrase.type]
    exact ⟨.nullable hunion hinner, rfl⟩
  | .array element => by
    intro h
    rw [SinglePhrase.type]
    exact ⟨.array (element.isNormal (writable_array.mp h)), rfl⟩
  | .object comma fields => by
    intro h
    have hfields := (writable_object.mp h).1
    rw [SinglePhrase.type]
    refine ⟨.object ?_ ?_, rfl⟩
    · exact List.forall_mem_map.mpr fun field hfield => (field.isNormal (hfields field hfield)).1
    · exact List.forall_mem_map.mpr fun field hfield => (field.isNormal (hfields field hfield)).2
  | .function comma parameters => by
    intro h
    have hparameters := (writable_function.mp h).1
    rw [SinglePhrase.type]
    refine ⟨isNormal_function ?_ (by simp), rfl⟩
    exact fun parameter hp => parameter.isNormal (hparameters parameter hp)
  | .arrow comma parameters ascii result => by
    intro h
    obtain ⟨hparameters, -, hresult⟩ := writable_arrow.mp h
    have hnormal := result.isNormal hresult
    rw [SinglePhrase.type]
    refine ⟨isNormal_function ?_ (by simpa using hnormal), rfl⟩
    exact fun parameter hp => parameter.isNormal (hparameters parameter hp)
  | .quoted text => by
    intro h
    rw [SinglePhrase.type]
    exact ⟨.literal (isWritable_quotedValue (writable_quoted.mp h)), rfl⟩
  | .number text => by
    intro h
    rw [SinglePhrase.type]
    exact ⟨.literal (isWritable_numeralValue (writable_number.mp h)), rfl⟩
  | .named name => by
    intro h
    rw [SinglePhrase.type]
    exact ⟨.named (writable_named.mp h), rfl⟩
  | .generic name first more => by
    intro h
    obtain ⟨hname, hall⟩ := writable_generic.mp h
    obtain ⟨hfirst, hmore⟩ := List.forall_mem_cons.mp hall
    rw [SinglePhrase.type]
    refine ⟨.generic hname (by simp) (List.forall_mem_cons.mpr ⟨first.isNormal hfirst, ?_⟩), rfl⟩
    rw [List.forall_mem_map]
    exact fun type htype => type.isNormal (hmore type htype)

theorem FieldPhrase.isNormal : ∀ field : FieldPhrase, field.Writable →
    IsName field.field.name.toList ∧ field.field.type.IsNormal
  | .mk name optional type => by
    intro h
    obtain ⟨hname, htype⟩ := writable_field.mp h
    rw [FieldPhrase.field]
    exact ⟨hname, type.isNormal htype⟩

theorem ParameterPhrase.isNormal :
    ∀ parameter : ParameterPhrase, parameter.Writable → IsNormalParameter parameter.parameter
  | .mk variadic label type => by
    intro h
    obtain ⟨hlabel, htype⟩ := writable_parameter.mp h
    rw [ParameterPhrase.parameter]
    refine ⟨?_, ?_, type.isNormal htype⟩
    · cases label with
      | none => simp
      | some label => simpa using hlabel
    · cases label with
      | none => simp
      | some label => simp

end

theorem isNormal_of_parse {text : String} {t : TypeExpr} (h : parse text = .ok t) :
    t.IsNormal := by
  obtain ⟨type, hwritable, rfl⟩ := exists_parse_iff.mp ⟨text, h⟩
  exact type.isNormal hwritable

/-! ## Types in normal form have phrases -/

/-- A writable phrase stands for the type, one without alternatives if it is no union. -/
structure Spelled (t : TypeExpr) : Prop where
  type : ∃ type : TypePhrase, type.Writable ∧ type.type = t
  single : t.isUnion = false → ∃ single : SinglePhrase, single.Writable ∧ single.type = t

theorem Spelled.ofSingle {t : TypeExpr} (single : SinglePhrase) (h : single.Writable)
    (ht : single.type = t) : Spelled t where
  type := ⟨.alternatives single [], writable_single h, by rw [TypePhrase.type, ht]⟩
  single := fun _ => ⟨single, h, ht⟩

/-- A list of things that all come from somewhere comes from a list. -/
theorem exists_map_eq {α β : Type} {f : α → β} {P : α → Prop} {items : List β}
    (h : ∀ b ∈ items, ∃ a, P a ∧ f a = b) :
    ∃ sources : List α, (∀ a ∈ sources, P a) ∧ sources.map f = items := by
  induction items with
  | nil => exact ⟨[], by simp, rfl⟩
  | cons b items ih =>
    obtain ⟨⟨a, ha, rfl⟩, hitems⟩ := List.forall_mem_cons.mp h
    obtain ⟨sources, hsources, rfl⟩ := ih hitems
    exact ⟨a :: sources, List.forall_mem_cons.mpr ⟨ha, hsources⟩, rfl⟩

theorem exists_fields {fields : List (Field TypeExpr)}
    (hname : ∀ field ∈ fields, IsName field.name.toList)
    (h : ∀ field ∈ fields, Spelled field.type) :
    ∃ phrases : List FieldPhrase, (∀ phrase ∈ phrases, phrase.Writable) ∧
      phrases.map FieldPhrase.field = fields := by
  refine exists_map_eq fun field hfield => ?_
  obtain ⟨type, hwritable, htype⟩ := (h field hfield).type
  refine ⟨.mk field.name field.optional type, ?_, ?_⟩
  · exact writable_field.mpr ⟨hname field hfield, hwritable⟩
  · rw [FieldPhrase.field, htype]

theorem exists_parameters {parameters : List (Parameter TypeExpr)}
    (hname : ∀ parameter ∈ parameters, ∀ name ∈ parameter.name, IsName name.toList)
    (hoptional : ∀ parameter ∈ parameters, parameter.optional = true → parameter.name ≠ none)
    (h : ∀ parameter ∈ parameters, Spelled parameter.type) :
    ∃ phrases : List ParameterPhrase, (∀ phrase ∈ phrases, phrase.Writable) ∧
      phrases.map ParameterPhrase.parameter = parameters := by
  refine exists_map_eq fun parameter hparameter => ?_
  obtain ⟨type, hwritable, htype⟩ := (h parameter hparameter).type
  have hname := hname parameter hparameter
  have hoptional := hoptional parameter hparameter
  obtain ⟨own, name, optional, variadic⟩ := parameter
  refine ⟨.mk variadic (name.map (·, optional)) type, ?_, ?_⟩
  · rw [writable_parameter]
    refine ⟨fun l hl => ?_, hwritable⟩
    obtain ⟨n, hn, rfl⟩ := Option.map_eq_some_iff.mp hl
    exact hname n hn
  · rw [ParameterPhrase.parameter, htype]
    cases name with
    | none => simpa using hoptional
    | some name => simp

theorem spelled_function {parameters : List (Parameter TypeExpr)} {result : Option TypeExpr}
    {phrases : List ParameterPhrase} (hphrases : ∀ phrase ∈ phrases, phrase.Writable)
    (hmap : phrases.map ParameterPhrase.parameter = parameters)
    (hresult : ∀ type ∈ result, Spelled type) : Spelled (.function parameters result) := by
  cases result with
  | none =>
    refine .ofSingle (.function false phrases) ?_ (by rw [SinglePhrase.type, hmap])
    exact writable_function.mpr ⟨hphrases, by simp⟩
  | some t =>
    obtain ⟨type, hwritable, rfl⟩ := (hresult t rfl).type
    refine .ofSingle (.arrow false phrases false type) ?_
      (by rw [SinglePhrase.type, hmap])
    exact writable_arrow.mpr ⟨hphrases, by simp, hwritable⟩

theorem spelled_union {types : List TypeExpr} (hseveral : 2 ≤ types.length)
    (hflat : ∀ type ∈ types, type.isUnion = false) (hlast : ResultsLast types)
    (h : ∀ type ∈ types, Spelled type) : Spelled (.union types) := by
  obtain ⟨singles, hsingles, rfl⟩ := exists_map_eq fun type htype =>
    (h type htype).single (hflat type htype)
  match singles, hseveral with
  | first :: next :: more, _ =>
    refine ⟨⟨.alternatives first (next :: more), ?_, by rw [TypePhrase.type]; rfl⟩,
      by simp [isUnion]⟩
    exact writable_alternatives.mpr ⟨hsingles, hlast⟩

theorem spelled_literal {value : Literal} (h : value.IsWritable) : Spelled (.literal value) := by
  have hnumber : (∃ text : String, IsNumber text.toList ∧ numeralValue text = value) →
      Spelled (.literal value) := by
    rintro ⟨text, htext, rfl⟩
    exact .ofSingle (.number text) (writable_number.mpr htext) (by rw [SinglePhrase.type])
  cases value with
  | text value =>
    obtain ⟨text, htext, rfl⟩ := exists_quoted h
    exact .ofSingle (.quoted text) (writable_quoted.mpr htext) (by rw [SinglePhrase.type])
  | int value => exact hnumber (exists_int value)
  | double value =>
    obtain ⟨negative, digits, places, hplaces, rfl⟩ := h
    exact hnumber (exists_double negative digits hplaces)

theorem IsNormal.spelled {t : TypeExpr} (h : t.IsNormal) : Spelled t := by
  induction h with
  | @named name hname =>
    exact .ofSingle (.named name) (writable_named.mpr hname) (by rw [SinglePhrase.type])
  | @generic name arguments hname hne _ ih =>
    obtain ⟨types, htypes, rfl⟩ := exists_map_eq fun type htype => (ih type htype).type
    match types, hne with
    | first :: more, _ =>
      refine .ofSingle (.generic name first more) ?_ (by rw [SinglePhrase.type]; rfl)
      exact writable_generic.mpr ⟨hname, htypes⟩
  | nullable hunion _ ih =>
    obtain ⟨inner, hinner, rfl⟩ := ih.single hunion
    exact .ofSingle (.nullable inner) (writable_nullable.mpr hinner) (by rw [SinglePhrase.type])
  | array _ ih =>
    obtain ⟨element, helement, rfl⟩ := ih.type
    exact .ofSingle (.array element) (writable_array.mpr helement) (by rw [SinglePhrase.type])
  | object hname _ ih =>
    obtain ⟨phrases, hphrases, rfl⟩ := exists_fields hname ih
    refine .ofSingle (.object false phrases) ?_ (by rw [SinglePhrase.type])
    exact writable_object.mpr ⟨hphrases, by simp⟩
  | function hname hoptional _ _ ih ihresult =>
    obtain ⟨phrases, hphrases, hmap⟩ := exists_parameters hname hoptional ih
    exact spelled_function hphrases hmap ihresult
  | union hseveral hflat hlast _ ih => exact spelled_union hseveral hflat hlast ih
  | literal h => exact spelled_literal h

/-- **The types that can be written.** A type is read from some text just if it is in normal
form. -/
theorem exists_parse_iff_isNormal (t : TypeExpr) :
    (∃ text, parse text = .ok t) ↔ t.IsNormal := by
  constructor
  · rintro ⟨text, h⟩
    exact isNormal_of_parse h
  · intro h
    exact exists_parse_iff.mpr h.spelled.type

end TypeExpr

end DocComments
