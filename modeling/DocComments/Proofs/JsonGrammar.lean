import DocComments.Json.Basic
import Mathlib.Tactic.SplitIfs

/-!
# The grammar of JSON

A JSON text follows the grammar

    text    := blanks value blanks
    value   := 'null' | 'true' | 'false' | number | string
             | '[' blanks ']' | '[' items ']'
             | '{' blanks '}' | '{' members '}'
    items   := blanks value blanks [',' items]
    members := blanks string blanks ':' blanks value blanks [',' members]
    number  := ['-'] whole ['.' digits] [('e' | 'E') ['+' | '-'] digits]
    whole   := '0' | nonzero digit*
    string  := '"' char* '"'
    char    := any but '"', '\' and control characters
             | '\' ('"' | '\' | '/' | 'b' | 'f' | 'n' | 'r' | 't')
             | '\' 'u' hex hex hex hex

A document is exact if it holds no floating-point number: those are not all numbers of the
grammar, since the infinities have no numeral.

* `isString_quoted`, `isNumber_numeral`: the leaves of a document are written as the grammar says.
* `Exact.isValue_chars`: so is a document at any level of indentation, if it is exact.
* `Exact.isText_render`: the text of an exact document is a JSON text.
-/

namespace DocComments.Json

/-! ## The productions -/

/-- Derives `blanks`. -/
def IsBlanks (text : List Char) : Prop :=
  ∀ c ∈ text, c = ' ' ∨ c = '\t' ∨ c = '\n' ∨ c = '\r'

/-- Derives `digits`. -/
def IsDigits (text : List Char) : Prop :=
  text ≠ [] ∧ ∀ c ∈ text, c.isDigit

/-- Derives `whole`. -/
def IsWhole (text : List Char) : Prop :=
  IsDigits text ∧ (text.head? = some '0' → text = ['0'])

/-- Derives `number`. -/
inductive IsNumber : List Char → Prop where
  | mk {sign whole fraction power : List Char} (hsign : sign = [] ∨ sign = ['-'])
      (hwhole : IsWhole whole)
      (hfraction : fraction = [] ∨ ∃ digits, IsDigits digits ∧ fraction = '.' :: digits)
      (hpower : power = [] ∨ ∃ e ∈ ['e', 'E'], ∃ sign ∈ [[], ['+'], ['-']], ∃ digits,
        IsDigits digits ∧ power = e :: (sign ++ digits)) :
      IsNumber (sign ++ whole ++ fraction ++ power)

/-- Is it a hexadecimal digit? -/
def isHexDigit (c : Char) : Bool :=
  c.isDigit || ('a' ≤ c && c ≤ 'f') || ('A' ≤ c && c ≤ 'F')

/-- Derives `char`. -/
inductive IsChar : List Char → Prop where
  | plain {c : Char} (hcode : 32 ≤ c.toNat) (hquote : c ≠ '\x22') (hslash : c ≠ '\\') : IsChar [c]
  | short {c : Char} (h : c ∈ ['\x22', '\\', '/', 'b', 'f', 'n', 'r', 't']) : IsChar ['\\', c]
  | code {digits : List Char} (hlength : digits.length = 4) (hhex : ∀ c ∈ digits, isHexDigit c) :
      IsChar ('\\' :: 'u' :: digits)

/-- Derives `string`. -/
inductive IsString : List Char → Prop where
  | mk {chars : List (List Char)} (h : ∀ c ∈ chars, IsChar c) :
      IsString ('\x22' :: chars.flatten ++ ['\x22'])

mutual

/-- Derives `value`. -/
inductive IsValue : List Char → Prop where
  | null : IsValue "null".toList
  | true : IsValue "true".toList
  | false : IsValue "false".toList
  | number {text : List Char} (h : IsNumber text) : IsValue text
  | string {text : List Char} (h : IsString text) : IsValue text
  | emptyArray {blanks : List Char} (h : IsBlanks blanks) : IsValue ('[' :: blanks ++ [']'])
  | array {items : List Char} (h : IsItems items) : IsValue ('[' :: items ++ [']'])
  | emptyObject {blanks : List Char} (h : IsBlanks blanks) :
      IsValue ('\x7b' :: blanks ++ ['\x7d'])
  | object {members : List Char} (h : IsMembers members) :
      IsValue ('\x7b' :: members ++ ['\x7d'])

/-- Derives `items`. -/
inductive IsItems : List Char → Prop where
  | last {before value after : List Char} (hbefore : IsBlanks before) (hvalue : IsValue value)
      (hafter : IsBlanks after) : IsItems (before ++ value ++ after)
  | more {before value after items : List Char} (hbefore : IsBlanks before)
      (hvalue : IsValue value) (hafter : IsBlanks after) (hitems : IsItems items) :
      IsItems (before ++ value ++ after ++ ',' :: items)

/-- Derives `members`. -/
inductive IsMembers : List Char → Prop where
  | last {start name middle before value after : List Char} (hstart : IsBlanks start)
      (hname : IsString name) (hmiddle : IsBlanks middle) (hbefore : IsBlanks before)
      (hvalue : IsValue value) (hafter : IsBlanks after) :
      IsMembers (start ++ name ++ middle ++ ':' :: before ++ value ++ after)
  | more {start name middle before value after members : List Char} (hstart : IsBlanks start)
      (hname : IsString name) (hmiddle : IsBlanks middle) (hbefore : IsBlanks before)
      (hvalue : IsValue value) (hafter : IsBlanks after) (hmembers : IsMembers members) :
      IsMembers (start ++ name ++ middle ++ ':' :: before ++ value ++ after ++ ',' :: members)

end

/-- Derives `text`. -/
def IsText (text : List Char) : Prop :=
  ∃ before value after, IsBlanks before ∧ IsValue value ∧ IsBlanks after ∧
    text = before ++ value ++ after

/-! ## Leaves -/

theorem isBlanks_nil : IsBlanks [] := by
  simp [IsBlanks]

theorem isBlanks_newline (level : Nat) : IsBlanks (newline level) := by
  intro c hc
  rw [newline, List.mem_cons, List.mem_replicate] at hc
  rcases hc with rfl | ⟨-, rfl⟩
  · simp
  · simp

theorem isDigits_toDigits (n : Nat) : IsDigits (Nat.toDigits 10 n) :=
  ⟨Nat.toDigits_ne_nil, fun _ hc => Nat.isDigit_of_mem_toDigits (by omega) (by omega) hc⟩

theorem head?_toDigits {n : Nat} (h : (Nat.toDigits 10 n).head? = some '0') : n = 0 := by
  induction n using Nat.strongRecOn with
  | ind n ih =>
    by_cases hlt : n < 10
    · rw [Nat.toDigits_of_lt_base hlt, List.head?_cons, Option.some.injEq] at h
      exact Nat.digitChar_eq_zero.mp h
    · -- The first digit of a longer number is the first digit of its tenth.
      rw [Nat.toDigits_of_base_le (by omega) (by omega), List.head?_append] at h
      cases hfirst : (Nat.toDigits 10 (n / 10)).head? with
      | none => exact absurd (List.head?_eq_none_iff.mp hfirst) Nat.toDigits_ne_nil
      | some c =>
        rw [hfirst, Option.some_or] at h
        have := ih (n / 10) (by omega) (hfirst.trans h)
        omega

theorem isWhole_toDigits (n : Nat) : IsWhole (Nat.toDigits 10 n) := by
  refine ⟨isDigits_toDigits n, fun h => ?_⟩
  rw [head?_toDigits h]
  rfl

theorem isNumber_numeral (value : Int) : IsNumber (numeral value) := by
  have hwhole := isWhole_toDigits value.natAbs
  unfold numeral
  by_cases h : value < 0
  · simpa [h] using IsNumber.mk (.inr rfl) hwhole (.inl rfl) (.inl rfl)
  · simpa [h] using IsNumber.mk (.inl rfl) hwhole (.inl rfl) (.inl rfl)

theorem hexDigits_control : ∀ n < 32,
    Text.hexDigits 4 n = ['0', '0', (n / 16).digitChar, (n % 16).digitChar] := by
  decide

theorem isHexDigit_digitChar : ∀ n < 16, isHexDigit n.digitChar := by
  decide

theorem isChar_escapedChar (c : Char) : IsChar (escapedChar c) := by
  unfold escapedChar
  split_ifs with hquote hn hr ht hb hf hcode
  · exact .short (by rcases hquote with rfl | rfl <;> simp)
  iterate 5
    · exact .short (by simp)
  · have hhigh := isHexDigit_digitChar (c.toNat / 16) (by omega)
    have hlow := isHexDigit_digitChar (c.toNat % 16) (by omega)
    rw [hexDigits_control _ hcode]
    exact .code rfl (by simp [hhigh, hlow, show isHexDigit '0' from rfl])
  · rw [not_or] at hquote
    exact .plain (by omega) hquote.1 hquote.2

theorem isString_quoted (text : String) : IsString (quoted text) := by
  rw [quoted, List.flatMap_def]
  refine .mk fun chars hchars => ?_
  obtain ⟨c, -, rfl⟩ := List.mem_map.mp hchars
  exact isChar_escapedChar c

/-! ## Documents -/

/-- The document holds no floating-point number. -/
inductive Exact : Json → Prop where
  | bool (value : Bool) : Exact (.bool value)
  | int (value : Int) : Exact (.int value)
  | text (value : String) : Exact (.text value)
  | array {items : List Json} (h : ∀ item ∈ items, Exact item) : Exact (.array items)
  | object {fields : List (String × Json)} (h : ∀ field ∈ fields, Exact field.2) :
      Exact (.object fields)

theorem isItems_itemChars {level : Nat} {before value after : List Char} {items : List Json}
    (hbefore : IsBlanks before) (hvalue : IsValue value) (hafter : IsBlanks after)
    (hitems : ∀ item ∈ items, IsValue (item.chars level)) :
    IsItems (before ++ value ++ itemChars level items ++ after) := by
  induction items generalizing before value with
  | nil => simpa [itemChars] using IsItems.last hbefore hvalue hafter
  | cons item items ih =>
    rw [List.forall_mem_cons] at hitems
    have hmore := ih (isBlanks_newline level) hitems.1 hitems.2
    simpa [itemChars] using IsItems.more hbefore hvalue isBlanks_nil hmore

theorem isMembers_fieldsChars {level : Nat} {start after : List Char} {field : String × Json}
    {fields : List (String × Json)} (hstart : IsBlanks start) (hafter : IsBlanks after)
    (hfields : ∀ f ∈ field :: fields, IsValue (f.2.chars level)) :
    IsMembers (start ++ fieldChars level field ++ fieldsChars level fields ++ after) := by
  have hspace : IsBlanks [' '] := by simp [IsBlanks]
  induction fields generalizing start field with
  | nil =>
    obtain ⟨name, value⟩ := field
    have hvalue := hfields (name, value) (by simp)
    simpa [fieldChars, fieldsChars] using
      IsMembers.last hstart (isString_quoted name) isBlanks_nil hspace hvalue hafter
  | cons next fields ih =>
    obtain ⟨name, value⟩ := field
    rw [List.forall_mem_cons] at hfields
    have hmore := ih (isBlanks_newline level) hfields.2
    simpa [fieldChars, fieldsChars] using
      IsMembers.more hstart (isString_quoted name) isBlanks_nil hspace hfields.1 isBlanks_nil hmore

theorem Exact.isValue_chars {document : Json} (h : document.Exact) (level : Nat) :
    IsValue (document.chars level) := by
  induction h generalizing level with
  | bool value =>
    cases value
    · exact .false
    · exact .true
  | int value => exact .number (isNumber_numeral value)
  | text value => exact .string (isString_quoted value)
  | @array items _ ih =>
    cases items with
    | nil => exact .emptyArray isBlanks_nil
    | cons item items =>
      rw [List.forall_mem_cons] at ih
      have hitems := isItems_itemChars (isBlanks_newline (level + 1)) (ih.1 (level + 1))
        (isBlanks_newline level) fun i hi => ih.2 i hi (level + 1)
      simpa [chars] using IsValue.array hitems
  | @object fields _ ih =>
    cases fields with
    | nil => exact .emptyObject isBlanks_nil
    | cons field fields =>
      have hmembers := isMembers_fieldsChars (isBlanks_newline (level + 1))
        (isBlanks_newline level) fun f hf => ih f hf (level + 1)
      simpa [chars] using IsValue.object hmembers

theorem Exact.isText_render {document : Json} (h : document.Exact) :
    IsText document.render.toList := by
  refine ⟨[], document.chars 0, [], isBlanks_nil, h.isValue_chars 0, isBlanks_nil, ?_⟩
  simp [render]

end DocComments.Json
