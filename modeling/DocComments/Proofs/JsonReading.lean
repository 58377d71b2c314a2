import DocComments.Proofs.JsonGrammar

/-!
# Reading JSON

A reader of JSON texts that hold neither null nor numbers with a fraction or a power. It works in
two passes: the text is cut into lexemes, and these are put together on a stack of the arrays and
objects that are still open. The reader knows nothing of how documents are indented.

* `readString_escapedChars`, `readNumeral_numeral`: strings and numerals are read back.
* `scan_lexeme`: a lexeme is cut off the text, and the rest is cut as if it stood alone.
* `value_…`, `after_…`: what the reader does at each sign of a text.
* `Exact.readsBack`: an exact document is read back from its text at any level of indentation,
  inside whatever is open, and the reader goes on right after it.
* `Exact.read_render`: an exact document is read back from its text.
-/

namespace DocComments.Json

/-! ## Lexemes -/

/-- A unit of a JSON text. -/
inductive Lexeme where
  | openArray | closeArray | openObject | closeObject | comma | colon
  | flag (value : Bool)
  | int (value : Int)
  | text (value : String)

def isBlank (c : Char) : Bool :=
  c == ' ' || c == '\t' || c == '\n' || c == '\r'

/-- The character that a letter stands for after a backslash. -/
def shortEscape? : Char → Option Char
  | '\x22' => some '\x22'
  | '\\' => some '\\'
  | '/' => some '/'
  | 'b' => some '\x08'
  | 'f' => some '\x0c'
  | 'n' => some '\n'
  | 'r' => some '\r'
  | 't' => some '\t'
  | _ => none

def hexDigit? (c : Char) : Option Nat :=
  if c.isDigit then some (c.toNat - 48)
  else if 'a' ≤ c ∧ c ≤ 'f' then some (c.toNat - 87)
  else if 'A' ≤ c ∧ c ≤ 'F' then some (c.toNat - 55)
  else none

/-- The character with a code in hexadecimal; half of a surrogate pair is no character. -/
def codeChar? (digits : List Char) : Option Char := do
  let code ← digits.foldlM (fun code c => (hexDigit? c).map (16 * code + ·)) 0
  if code.isValidChar then some (Char.ofNat code) else none

/-- A character that is written with `length` characters, before what was read after it. -/
def prepend (c : Char) (length : Nat) : List Char × Nat → List Char × Nat
  | (more, n) => (c :: more, length + n)

/-- Reads a string after its opening quote. The result is its characters and the number of
characters they are written with, the closing quote included. -/
def readString : List Char → Option (List Char × Nat)
  | [] => none
  | '\x22' :: _ => some ([], 1)
  | '\\' :: 'u' :: a :: b :: c :: d :: rest => do
    let char ← codeChar? [a, b, c, d]
    (readString rest).map (prepend char 6)
  | '\\' :: c :: rest => do
    let char ← shortEscape? c
    (readString rest).map (prepend char 2)
  | c :: rest => if c.toNat < 32 ∨ c = '\\' then none else (readString rest).map (prepend c 1)

/-- Reads digits: the number and how many they are. -/
def readDigits (input : List Char) : Option (Nat × Nat) :=
  let digits := input.takeWhile Char.isDigit
  if digits.isEmpty then none else some (Nat.ofDigitChars 10 digits 0, digits.length)

/-- Reads a numeral: the number and how many characters it is written with. -/
def readNumeral : List Char → Option (Int × Nat)
  | '-' :: rest => (readDigits rest).map fun (n, length) => (-n, length + 1)
  | input => (readDigits input).map fun (n, length) => (n, length)

/-- The lexeme at the start of a text and how many characters it is written with. -/
def lexemeAt : List Char → Option (Lexeme × Nat)
  | '[' :: _ => some (.openArray, 1)
  | ']' :: _ => some (.closeArray, 1)
  | '\x7b' :: _ => some (.openObject, 1)
  | '\x7d' :: _ => some (.closeObject, 1)
  | ',' :: _ => some (.comma, 1)
  | ':' :: _ => some (.colon, 1)
  | 't' :: 'r' :: 'u' :: 'e' :: _ => some (.flag true, 4)
  | 'f' :: 'a' :: 'l' :: 's' :: 'e' :: _ => some (.flag false, 5)
  | '\x22' :: rest => (readString rest).map fun (chars, n) => (.text (String.ofList chars), n + 1)
  | input => (readNumeral input).map fun (value, length) => (.int value, length)

/-- The lexemes of a text after `skip` characters that an earlier lexeme has taken. -/
def scan : (skip : Nat) → List Char → Option (List Lexeme)
  | _, [] => some []
  | skip + 1, _ :: rest => scan skip rest
  | 0, c :: rest =>
    if isBlank c then scan 0 rest
    else do
      let (lexeme, length) ← lexemeAt (c :: rest)
      (scan (length - 1) rest).map (lexeme :: ·)

/-! ## Values -/

/-- An array or an object that is still open, with what it holds before the value that is due. -/
inductive Open where
  | array (items : List Json)
  /-- The value that is due has the name. -/
  | object (fields : List (String × Json)) (name : String)

mutual

/-- Reads on where a value is due. Only an array that is empty may close instead. -/
def build : List Open → List Lexeme → Option Json
  | .array [] :: opened, .closeArray :: rest => close (.array []) opened rest
  | opened, .openArray :: rest => build (.array [] :: opened) rest
  | opened, .openObject :: .closeObject :: rest => close (.object []) opened rest
  | opened, .openObject :: .text name :: .colon :: rest => build (.object [] name :: opened) rest
  | opened, .flag value :: rest => close (.bool value) opened rest
  | opened, .int value :: rest => close (.int value) opened rest
  | opened, .text value :: rest => close (.text value) opened rest
  | _, _ => none

/-- Reads on after a value that is complete. -/
def close (value : Json) : List Open → List Lexeme → Option Json
  | [], [] => some value
  | .array items :: opened, .comma :: rest => build (.array (items ++ [value]) :: opened) rest
  | .array items :: opened, .closeArray :: rest => close (.array (items ++ [value])) opened rest
  | .object fields name :: opened, .comma :: .text next :: .colon :: rest =>
    build (.object (fields ++ [(name, value)]) next :: opened) rest
  | .object fields name :: opened, .closeObject :: rest =>
    close (.object (fields ++ [(name, value)])) opened rest
  | _, _ => none

end

/-- Reads a JSON text. -/
def read (input : String) : Option Json :=
  (scan 0 input.toList).bind (build [])

/-! ## Reading the leaves back -/

theorem codeChar?_hexDigits : ∀ n < 32,
    codeChar? ['0', '0', (n / 16).digitChar, (n % 16).digitChar] = some (Char.ofNat n) := by
  decide

theorem readString_escapedChar (c : Char) (rest : List Char) :
    readString (escapedChar c ++ rest) =
      (readString rest).map (prepend c (escapedChar c).length) := by
  unfold escapedChar
  split_ifs with hquote hn hr ht hb hf hcode
  · rcases hquote with rfl | rfl <;> simp [readString, shortEscape?]
  iterate 5
    · subst c
      simp [readString, shortEscape?]
  · have hchar := codeChar?_hexDigits c.toNat hcode
    rw [Char.ofNat_toNat] at hchar
    simp [hexDigits_control _ hcode, readString, hchar]
  · rw [not_or] at hquote
    simp [readString, hquote, hcode]

theorem readString_escapedChars (chars rest : List Char) :
    readString (chars.flatMap escapedChar ++ '\x22' :: rest) =
      some (chars, (chars.flatMap escapedChar).length + 1) := by
  induction chars with
  | nil => rfl
  | cons c chars ih =>
    rw [List.flatMap_cons, List.append_assoc, readString_escapedChar, ih]
    simp [prepend, Nat.add_assoc]

/-- The text does not go on with a digit, so a numeral before it has ended. -/
def EndsNumeral (rest : List Char) : Prop :=
  ∀ c ∈ rest.head?, c.isDigit = false

theorem readDigits_toDigits (n : Nat) {rest : List Char} (hrest : EndsNumeral rest) :
    readDigits (Nat.toDigits 10 n ++ rest) = some (n, (Nat.toDigits 10 n).length) := by
  have hstop : rest.takeWhile Char.isDigit = [] := by
    cases rest with
    | nil => rfl
    | cons c rest => simp [hrest c rfl]
  have hdigits : (Nat.toDigits 10 n ++ rest).takeWhile Char.isDigit = Nat.toDigits 10 n := by
    rw [List.takeWhile_append_of_pos (isDigits_toDigits n).2, hstop, List.append_nil]
  simp [readDigits, hdigits, Nat.toDigits_ne_nil, Nat.ofDigitChars_ten_toDigits]

/-- A numeral starts with a sign or a digit, and not with both. -/
theorem exists_numeral_cons (value : Int) : ∃ c taken, numeral value = c :: taken ∧
    if value < 0 then c = '-' else c.isDigit := by
  obtain ⟨hne, hdigits⟩ := isDigits_toDigits value.natAbs
  unfold numeral
  by_cases h : value < 0
  · exact ⟨'-', Nat.toDigits 10 value.natAbs, by simp [h]⟩
  · obtain ⟨c, taken, hcons⟩ := List.exists_cons_of_ne_nil hne
    exact ⟨c, taken, by simp [h, hcons], by simp [h, hdigits c (by simp [hcons])]⟩

theorem readNumeral_numeral (value : Int) {rest : List Char} (hrest : EndsNumeral rest) :
    readNumeral (numeral value ++ rest) = some (value, (numeral value).length) := by
  have hread := readDigits_toDigits value.natAbs hrest
  obtain ⟨c, taken, hcons, hc⟩ := exists_numeral_cons value
  by_cases h : value < 0
  · have hvalue : -(value.natAbs : Int) = value := by omega
    have hnumeral : numeral value = '-' :: Nat.toDigits 10 value.natAbs := if_pos h
    rw [hnumeral, List.cons_append, readNumeral, hread]
    simp only [Option.map_some, hvalue, List.length_cons]
  · have hsign : ∀ more, numeral value ++ rest = '-' :: more → False := by
      intro more heq
      rw [hcons, List.cons_append, List.cons.injEq] at heq
      rw [if_neg h, heq.1] at hc
      exact absurd hc (by decide)
    have hvalue : (value.natAbs : Int) = value := by omega
    have hnumeral : numeral value = Nat.toDigits 10 value.natAbs := if_neg h
    rw [readNumeral.eq_2 _ hsign, hnumeral, hread]
    simp only [Option.map_some, hvalue]

theorem lexemeAt_number {c : Char} (hc : c = '-' ∨ c.isDigit) (rest : List Char) :
    lexemeAt (c :: rest) =
      (readNumeral (c :: rest)).map fun (value, length) => (.int value, length) := by
  unfold lexemeAt
  -- No other lexeme starts with a sign or a digit.
  split
  iterate 9
    · next heq =>
      cases heq
      exact absurd hc (by decide)
  · rfl

/-! ## Cutting a text -/

theorem scan_skip (taken rest : List Char) : scan taken.length (taken ++ rest) = scan 0 rest := by
  induction taken with
  | nil => rfl
  | cons c taken ih => simpa [scan] using ih

theorem lexemeAt_blank {c : Char} (hc : isBlank c) (rest : List Char) :
    lexemeAt (c :: rest) = none := by
  simp only [isBlank, Bool.or_eq_true, beq_iff_eq] at hc
  rcases hc with ((rfl | rfl) | rfl) | rfl <;> rfl

theorem scan_lexeme (taken : List Char) {c : Char} {rest : List Char} {lexeme : Lexeme}
    (h : lexemeAt (c :: (taken ++ rest)) = some (lexeme, taken.length + 1)) :
    scan 0 (c :: (taken ++ rest)) = (scan 0 rest).map (lexeme :: ·) := by
  cases hc : isBlank c with
  | true =>
    rw [lexemeAt_blank hc] at h
    cases h
  | false => simp [scan, hc, h, scan_skip]

theorem scan_sign {c : Char} {rest : List Char} {lexeme : Lexeme}
    (h : lexemeAt (c :: rest) = some (lexeme, 1)) :
    scan 0 (c :: rest) = (scan 0 rest).map (lexeme :: ·) :=
  scan_lexeme [] h

theorem scan_blank {c : Char} (hc : isBlank c) (rest : List Char) :
    scan 0 (c :: rest) = scan 0 rest := by
  simp [scan, hc]

theorem scan_newline (level : Nat) (rest : List Char) :
    scan 0 (newline level ++ rest) = scan 0 rest := by
  have hspaces : ∀ n, scan 0 (List.replicate n ' ' ++ rest) = scan 0 rest := by
    intro n
    induction n with
    | zero => rfl
    | succ n ih => rw [List.replicate_succ, List.cons_append, scan_blank rfl, ih]
  rw [newline, List.cons_append, scan_blank rfl, hspaces]

theorem scan_quoted (text : String) (rest : List Char) :
    scan 0 (quoted text ++ rest) = (scan 0 rest).map (.text text :: ·) := by
  have hread := readString_escapedChars text.toList rest
  rw [quoted, List.cons_append, List.cons_append]
  exact scan_lexeme _ (by simp [lexemeAt, hread])

theorem scan_numeral (value : Int) {rest : List Char} (hrest : EndsNumeral rest) :
    scan 0 (numeral value ++ rest) = (scan 0 rest).map (.int value :: ·) := by
  have hread := readNumeral_numeral value hrest
  obtain ⟨c, taken, hcons, hc⟩ := exists_numeral_cons value
  have hstart : c = '-' ∨ c.isDigit := by
    split at hc
    · exact .inl hc
    · exact .inr hc
  rw [hcons, List.cons_append] at hread ⊢
  exact scan_lexeme taken (by rw [lexemeAt_number hstart, hread]; rfl)

/-- A name and its colon, as they are written before a value. -/
theorem scan_label (level : Nat) (name : String) (rest : List Char) :
    scan 0 (newline level ++ (quoted name ++ ':' :: ' ' :: rest)) =
      (scan 0 rest).map (.text name :: .colon :: ·) := by
  rw [scan_newline, scan_quoted, scan_sign rfl, scan_blank rfl, Option.map_map]
  rfl

/-! ## The reader at each sign -/

/-- Reads a text where a value is due. -/
def value (opened : List Open) (input : List Char) : Option Json :=
  (scan 0 input).bind (build opened)

/-- Reads a text after a value that is complete. -/
def after (complete : Json) (opened : List Open) (input : List Char) : Option Json :=
  (scan 0 input).bind (close complete opened)

theorem value_newline (opened : List Open) (level : Nat) (rest : List Char) :
    value opened (newline level ++ rest) = value opened rest := by
  rw [value, scan_newline, value]

theorem after_newline (complete : Json) (opened : List Open) (level : Nat) (rest : List Char) :
    after complete opened (newline level ++ rest) = after complete opened rest := by
  rw [after, scan_newline, after]

theorem bind_scan {input rest : List Char} {more : List Lexeme → List Lexeme}
    {step next : List Lexeme → Option Json} (hscan : scan 0 input = (scan 0 rest).map more)
    (hstep : ∀ lexemes, step (more lexemes) = next lexemes) :
    (scan 0 input).bind step = (scan 0 rest).bind next := by
  rw [hscan, Option.bind_map]
  exact congrArg _ (funext hstep)

theorem value_flag (flag : Bool) (opened : List Open) (rest : List Char) :
    value opened ((if flag then "true" else "false").toList ++ rest) =
      after (.bool flag) opened rest := by
  cases flag with
  | true => exact bind_scan (scan_lexeme ['r', 'u', 'e'] rfl) fun _ => by simp [build]
  | false => exact bind_scan (scan_lexeme ['a', 'l', 's', 'e'] rfl) fun _ => by simp [build]

theorem value_numeral (number : Int) (opened : List Open) {rest : List Char}
    (hrest : EndsNumeral rest) :
    value opened (numeral number ++ rest) = after (.int number) opened rest :=
  bind_scan (scan_numeral number hrest) fun _ => by simp [build]

theorem value_quoted (text : String) (opened : List Open) (rest : List Char) :
    value opened (quoted text ++ rest) = after (.text text) opened rest :=
  bind_scan (scan_quoted text rest) fun _ => by simp [build]

theorem value_openArray (opened : List Open) (rest : List Char) :
    value opened ('[' :: rest) = value (.array [] :: opened) rest :=
  bind_scan (scan_sign rfl) fun _ => by simp [build]

theorem value_closeArray (opened : List Open) (rest : List Char) :
    value (.array [] :: opened) (']' :: rest) = after (.array []) opened rest :=
  bind_scan (scan_sign rfl) fun _ => by simp [build]

theorem value_emptyObject (opened : List Open) (rest : List Char) :
    value opened ('\x7b' :: '\x7d' :: rest) = after (.object []) opened rest := by
  have hscan : scan 0 ('\x7b' :: '\x7d' :: rest) =
      (scan 0 rest).map (.openObject :: .closeObject :: ·) := by
    rw [scan_sign rfl, scan_sign rfl, Option.map_map]
    rfl
  exact bind_scan hscan fun _ => by simp [build]

theorem value_openObject (opened : List Open) (level : Nat) (name : String) (rest : List Char) :
    value opened ('\x7b' :: (newline level ++ (quoted name ++ ':' :: ' ' :: rest))) =
      value (.object [] name :: opened) rest := by
  have hscan : scan 0 ('\x7b' :: (newline level ++ (quoted name ++ ':' :: ' ' :: rest))) =
      (scan 0 rest).map (.openObject :: .text name :: .colon :: ·) := by
    rw [scan_sign rfl, scan_label, Option.map_map]
    rfl
  exact bind_scan hscan fun _ => by simp [build]

theorem after_commaArray (complete : Json) (items : List Json) (opened : List Open)
    (rest : List Char) : after complete (.array items :: opened) (',' :: rest) =
      value (.array (items ++ [complete]) :: opened) rest :=
  bind_scan (scan_sign rfl) fun _ => by simp [close]

theorem after_closeArray (complete : Json) (items : List Json) (opened : List Open)
    (rest : List Char) : after complete (.array items :: opened) (']' :: rest) =
      after (.array (items ++ [complete])) opened rest :=
  bind_scan (scan_sign rfl) fun _ => by simp [close]

theorem after_commaObject (complete : Json) (fields : List (String × Json)) (name next : String)
    (opened : List Open) (level : Nat) (rest : List Char) :
    after complete (.object fields name :: opened)
        (',' :: (newline level ++ (quoted next ++ ':' :: ' ' :: rest))) =
      value (.object (fields ++ [(name, complete)]) next :: opened) rest := by
  have hscan : scan 0 (',' :: (newline level ++ (quoted next ++ ':' :: ' ' :: rest))) =
      (scan 0 rest).map (.comma :: .text next :: .colon :: ·) := by
    rw [scan_sign rfl, scan_label, Option.map_map]
    rfl
  exact bind_scan hscan fun _ => by simp [close]

theorem after_closeObject (complete : Json) (fields : List (String × Json)) (name : String)
    (opened : List Open) (rest : List Char) :
    after complete (.object fields name :: opened) ('\x7d' :: rest) =
      after (.object (fields ++ [(name, complete)])) opened rest :=
  bind_scan (scan_sign rfl) fun _ => by simp [close]

/-! ## Reading documents back -/

theorem endsNumeral_itemChars (level outer : Nat) (items : List Json) (rest : List Char) :
    EndsNumeral (itemChars level items ++ (newline outer ++ rest)) := by
  cases items <;> simp [EndsNumeral, itemChars, newline]

theorem endsNumeral_fieldsChars (level outer : Nat) (fields : List (String × Json))
    (rest : List Char) : EndsNumeral (fieldsChars level fields ++ (newline outer ++ rest)) := by
  cases fields <;> simp [EndsNumeral, fieldsChars, newline]

/-- The text of the document is read as the document, inside whatever is open. -/
def ReadsBack (document : Json) : Prop :=
  ∀ level opened rest, EndsNumeral rest →
    value opened (document.chars level ++ rest) = after document opened rest

theorem after_itemChars {items : List Json} (hitems : ∀ item ∈ items, item.ReadsBack)
    (level outer : Nat) (first : Json) (before : List Json) (opened : List Open)
    (rest : List Char) :
    after first (.array before :: opened)
        (itemChars level items ++ (newline outer ++ ']' :: rest)) =
      after (.array (before ++ first :: items)) opened rest := by
  induction items generalizing first before with
  | nil => rw [itemChars, List.nil_append, after_newline, after_closeArray]
  | cons item items ih =>
    rw [List.forall_mem_cons] at hitems
    have hread := hitems.1 level (.array (before ++ [first]) :: opened) _
      (endsNumeral_itemChars level outer items (']' :: rest))
    simp only [itemChars, List.cons_append, List.append_assoc]
    rw [after_commaArray, value_newline, hread, ih hitems.2]
    simp

theorem after_fieldsChars {fields : List (String × Json)}
    (hfields : ∀ field ∈ fields, field.2.ReadsBack) (level outer : Nat) (first : Json)
    (before : List (String × Json)) (name : String) (opened : List Open) (rest : List Char) :
    after first (.object before name :: opened)
        (fieldsChars level fields ++ (newline outer ++ '\x7d' :: rest)) =
      after (.object (before ++ (name, first) :: fields)) opened rest := by
  induction fields generalizing first before name with
  | nil => rw [fieldsChars, List.nil_append, after_newline, after_closeObject]
  | cons field fields ih =>
    obtain ⟨next, document⟩ := field
    rw [List.forall_mem_cons] at hfields
    have hread := hfields.1 level (.object (before ++ [(name, first)]) next :: opened) _
      (endsNumeral_fieldsChars level outer fields ('\x7d' :: rest))
    simp only [fieldsChars, fieldChars, List.cons_append, List.append_assoc]
    rw [after_commaObject, hread, ih hfields.2]
    simp

theorem Exact.readsBack {document : Json} (h : document.Exact) : document.ReadsBack := by
  intro level opened rest hrest
  induction h generalizing level opened rest with
  | bool flag => exact value_flag flag opened rest
  | int number => exact value_numeral number opened hrest
  | text text => exact value_quoted text opened rest
  | @array items _ ih =>
    cases items with
    | nil => exact (value_openArray opened _).trans (value_closeArray opened rest)
    | cons item items =>
      rw [List.forall_mem_cons] at ih
      have hread := ih.1 (level + 1) (.array [] :: opened) _
        (endsNumeral_itemChars (level + 1) level items (']' :: rest))
      simp only [chars, List.cons_append, List.append_assoc, List.nil_append]
      rw [value_openArray, value_newline, hread, after_itemChars ih.2]
      rfl
  | @object fields _ ih =>
    cases fields with
    | nil => exact value_emptyObject opened rest
    | cons field fields =>
      obtain ⟨name, document⟩ := field
      rw [List.forall_mem_cons] at ih
      have hread := ih.1 (level + 1) (.object [] name :: opened) _
        (endsNumeral_fieldsChars (level + 1) level fields ('\x7d' :: rest))
      simp only [chars, fieldChars, List.cons_append, List.append_assoc, List.nil_append]
      rw [value_openObject, hread, after_fieldsChars ih.2]
      rfl

theorem Exact.read_render {document : Json} (h : document.Exact) :
    read document.render = some document := by
  have hread := h.readsBack 0 [] [] (by simp [EndsNumeral])
  rw [List.append_nil] at hread
  rw [read, render, String.toList_ofList]
  exact hread.trans (by simp [after, scan, close])

example : read "[1,\t[] , \x7b\"a\": \"\\u0041\\/\"\x7d,true]" =
    some (.array [.int 1, .array [], .object [("a", .text "A/")], .bool true]) := by
  cbv

end DocComments.Json
