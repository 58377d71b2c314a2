import DocComments.TypeExpr.Basic
import DocComments.TypeExpr.Token

/-!
# The grammar of type specifications

A type specification follows the grammar

    type   := single ('|' single)*
    single := '?' single
            | '[' type ']'
            | '{' [field (',' field)* [',']] '}'
            | '(' [param (',' param)* [',']] ')' [('→' | '->') type]
            | STRING
            | NUMBER
            | NAME ['<' type (',' type)* '>']
    param  := ['...'] [NAME ['?'] ':'] type
    field  := NAME ['?'] ':' type

A phrase is a derivation of it, with the lexemes it derives and the type it stands for. By the
grammar alone a bar after `(a) → b` could join two alternatives of the result or of the type
itself. It belongs to the result: a phrase is admissible if no alternative but the last ends in a
result.

* `TypePhrase.unlabelled`: no type is mistaken for the label of a parameter.
* `determined_listing`, `determined_alternatives`, …: one lemma for each production says that its
  parts can be told from the lexemes.
* `TypePhrase.determined`: the grammar is unambiguous on admissible phrases.
-/

namespace DocComments.TypeExpr

mutual

/-- Derives `type := single ('|' single)*`. -/
inductive TypePhrase where
  | alternatives (first : SinglePhrase) (more : List SinglePhrase)

/-- Derives `single`, with one constructor for each form it can take. -/
inductive SinglePhrase where
  /-- Written `'?' single`. -/
  | nullable (inner : SinglePhrase)
  /-- Written `'[' type ']'`. -/
  | array (element : TypePhrase)
  /-- Written `'{' [field (',' field)* [',']] '}'`. -/
  | object (comma : Bool) (fields : List FieldPhrase)
  /-- Written `'(' [param (',' param)* [',']] ')'`. -/
  | function (comma : Bool) (parameters : List ParameterPhrase)
  /-- Written `'(' [param (',' param)* [',']] ')' ('→' | '->') type`. -/
  | arrow (comma : Bool) (parameters : List ParameterPhrase) (ascii : Bool) (result : TypePhrase)
  /-- Written `STRING`. -/
  | quoted (text : String)
  /-- Written `NUMBER`. -/
  | number (text : String)
  /-- Written `NAME`. -/
  | named (name : String)
  /-- Written `NAME '<' type (',' type)* '>'`. -/
  | generic (name : String) (first : TypePhrase) (more : List TypePhrase)

/-- Derives `field := NAME ['?'] ':' type`. -/
inductive FieldPhrase where
  | mk (name : String) (optional : Bool) (type : TypePhrase)

/-- Derives `param := ['...'] [NAME ['?'] ':'] type`; the label is the name with its mark. -/
inductive ParameterPhrase where
  | mk (variadic : Bool) (label : Option (String × Bool)) (type : TypePhrase)

end

/-- A sign that may be there. -/
def optionally (sign : Symbol) (present : Bool) : List Lexeme :=
  if present then [.symbol sign] else []

/-- The name before a field or a parameter. -/
def labelLexemes : Option (String × Bool) → List Lexeme
  | none => []
  | some (name, optional) => .name name :: optionally .question optional ++ [.symbol .colon]

/-- Items with a sign between them. -/
def separated (sign : Symbol) (items : List (List Lexeme)) : List Lexeme :=
  [.symbol sign].intercalate items

mutual

/-- The lexemes that a type derives. -/
def TypePhrase.lexemes : TypePhrase → List Lexeme
  | .alternatives first more => separated .bar (first.lexemes :: more.map SinglePhrase.lexemes)

def SinglePhrase.lexemes : SinglePhrase → List Lexeme
  | .nullable inner => .symbol .question :: inner.lexemes
  | .array element => .symbol .openBracket :: element.lexemes ++ [.symbol .closeBracket]
  | .object comma fields =>
    .symbol .openBrace :: separated .comma (fields.map FieldPhrase.lexemes) ++
      optionally .comma comma ++ [.symbol .closeBrace]
  | .function comma parameters =>
    .symbol .openParen :: separated .comma (parameters.map ParameterPhrase.lexemes) ++
      optionally .comma comma ++ [.symbol .closeParen]
  | .arrow comma parameters ascii result =>
    .symbol .openParen :: separated .comma (parameters.map ParameterPhrase.lexemes) ++
      optionally .comma comma ++ [.symbol .closeParen] ++
      .symbol (if ascii then .asciiArrow else .arrow) :: result.lexemes
  | .quoted text => [.quoted text]
  | .number text => [.number text]
  | .named name => [.name name]
  | .generic name first more =>
    .name name :: .symbol .openAngle ::
      separated .comma (first.lexemes :: more.map TypePhrase.lexemes) ++ [.symbol .closeAngle]

def FieldPhrase.lexemes : FieldPhrase → List Lexeme
  | .mk name optional type => labelLexemes (some (name, optional)) ++ type.lexemes

def ParameterPhrase.lexemes : ParameterPhrase → List Lexeme
  | .mk variadic label type =>
    optionally .ellipsis variadic ++ (labelLexemes label ++ type.lexemes)

end

/-- A quoted text stands for all of it but its first and its last character. -/
def quotedValue (text : String) : String :=
  String.ofList text.toList.tail.dropLast

/-- A number stands for its digits, negative with a minus before them. With a point it is floating;
the digits without the point are then scaled down by the places after it. -/
def numeralValue (text : String) : Literal :=
  let negative := text.toList.head? == some '-'
  let digits := if negative then text.toList.tail else text.toList
  if '.' ∈ digits then
    .double (.ofDecimal negative (Text.numeral (digits.erase '.'))
      (digits.length - 1 - digits.idxOf '.'))
  else .int (if negative then -Text.numeral digits else Text.numeral digits)

mutual

/-- The type that a derivation stands for. Several alternatives are a union. -/
def TypePhrase.type : TypePhrase → TypeExpr
  | .alternatives first [] => first.type
  | .alternatives first (second :: more) =>
    .union (first.type :: second.type :: more.map SinglePhrase.type)

def SinglePhrase.type : SinglePhrase → TypeExpr
  | .nullable inner => .nullable inner.type
  | .array element => .array element.type
  | .object _ fields => .object (fields.map FieldPhrase.field)
  | .function _ parameters => .function (parameters.map ParameterPhrase.parameter) none
  | .arrow _ parameters _ result =>
    .function (parameters.map ParameterPhrase.parameter) (some result.type)
  | .quoted text => .literal (.text (quotedValue text))
  | .number text => .literal (numeralValue text)
  | .named name => .named name
  | .generic name first more => .generic name (first.type :: more.map TypePhrase.type)

def FieldPhrase.field : FieldPhrase → Field TypeExpr
  | .mk name optional type => ⟨name, type.type, optional⟩

def ParameterPhrase.parameter : ParameterPhrase → Parameter TypeExpr
  | .mk variadic label type => ⟨type.type, label.map (·.1), label.any (·.2), variadic⟩

end

/-- Is it a function with a result, maybe under question marks? -/
def endsInResult : TypeExpr → Bool
  | .function _ (some _) => true
  | .nullable type => endsInResult type
  | _ => false

/-- No type but the last ends in a result. -/
def ResultsLast (types : List TypeExpr) : Prop :=
  ∀ type ∈ types.dropLast, endsInResult type = false

mutual

/-- No alternative but the last ends in a result, and a comma ends only lists that have an item. -/
def TypePhrase.Admissible : TypePhrase → Prop
  | .alternatives first more =>
    first.Admissible ∧ (∀ single ∈ more, single.Admissible) ∧
      ResultsLast ((first :: more).map SinglePhrase.type)

def SinglePhrase.Admissible : SinglePhrase → Prop
  | .nullable inner => inner.Admissible
  | .array element => element.Admissible
  | .object comma fields => (∀ field ∈ fields, field.Admissible) ∧ (comma = true → fields ≠ [])
  | .function comma parameters =>
    (∀ parameter ∈ parameters, parameter.Admissible) ∧ (comma = true → parameters ≠ [])
  | .arrow comma parameters _ result =>
    (∀ parameter ∈ parameters, parameter.Admissible) ∧ (comma = true → parameters ≠ []) ∧
      result.Admissible
  | .quoted _ | .number _ | .named _ => True
  | .generic _ first more => first.Admissible ∧ ∀ type ∈ more, type.Admissible

def FieldPhrase.Admissible : FieldPhrase → Prop
  | .mk _ _ type => type.Admissible

def ParameterPhrase.Admissible : ParameterPhrase → Prop
  | .mk _ _ type => type.Admissible

end

/-- The bar after `() → a` belongs to the result, so it cannot begin an alternative to it. -/
example (a b : SinglePhrase) :
    ¬(TypePhrase.alternatives (.arrow false [] false (.alternatives a [])) [b]).Admissible := by
  simp [TypePhrase.Admissible, SinglePhrase.type, ResultsLast, endsInResult]

theorem separated_cons (sign : Symbol) (item : List Lexeme) (items : List (List Lexeme)) :
    separated sign (item :: items) = item ++ items.flatMap (.symbol sign :: ·) := by
  induction items generalizing item with
  | nil => simp [separated]
  | cons next rest ih =>
    have hnext : separated sign (item :: next :: rest) =
        item ++ .symbol sign :: separated sign (next :: rest) := by
      simp [separated]
    rw [hnext, ih]
    simp

theorem length_separated_le (sign : Symbol) (items : List (List Lexeme)) :
    (separated sign items).length ≤ (items.flatMap (.symbol sign :: ·)).length := by
  cases items with
  | nil => exact Nat.le_refl _
  | cons item items =>
    rw [separated_cons, List.flatMap_cons, List.length_append, List.length_append, List.length_cons]
    omega

theorem resultsLast_cons {type : TypeExpr} {types : List TypeExpr} :
    ResultsLast (type :: types) ↔
      (types ≠ [] → endsInResult type = false) ∧ ResultsLast types := by
  cases types with
  | nil => simp [ResultsLast]
  | cons next rest => simp [ResultsLast]

/-! ## What a phrase begins with and what may follow it -/

/-- The signs that begin a type. -/
def Symbol.opens : Symbol → Bool
  | .question | .openBracket | .openBrace | .openParen => true
  | _ => false

/-- The signs that can stand after a type, apart from the bar. -/
def Symbol.closes : Symbol → Bool
  | .closeBracket | .closeBrace | .closeParen | .closeAngle | .comma => true
  | _ => false

/-- Can a type begin with the lexeme? -/
def Lexeme.beginsType : Lexeme → Bool
  | .symbol sign => sign.opens
  | _ => true

/-- A type can end before these lexemes. -/
def EndsType (ls : List Lexeme) : Prop :=
  ∀ l ∈ ls.head?, ∃ sign : Symbol, l = .symbol sign ∧ sign.closes = true

/-- The phrase can end before these lexemes: where a type can, or before a further alternative. -/
def SinglePhrase.EndsBefore (single : SinglePhrase) (ls : List Lexeme) : Prop :=
  EndsType ls ∨ endsInResult single.type = false ∧ ls.head? = some (.symbol .bar)

theorem endsType_nil : EndsType [] := by
  simp [EndsType]

theorem endsType_symbol_iff {sign : Symbol} {ls : List Lexeme} :
    EndsType (.symbol sign :: ls) ↔ sign.closes = true := by
  simp [EndsType]

theorem SinglePhrase.EndsBefore.sign {single : SinglePhrase} {sign : Symbol} {ls : List Lexeme}
    (h : single.EndsBefore (.symbol sign :: ls)) : sign.closes = true ∨ sign = .bar := by
  rcases h with h | ⟨-, h⟩
  · exact .inl (endsType_symbol_iff.mp h)
  · cases h
    exact .inr rfl

/-- A result takes all alternatives, so no bar follows it. -/
theorem SinglePhrase.EndsBefore.endsType_of_arrow {parameters : List ParameterPhrase}
    {comma ascii : Bool} {result : TypePhrase} {ls : List Lexeme}
    (h : (SinglePhrase.arrow comma parameters ascii result).EndsBefore ls) : EndsType ls := by
  rcases h with h | ⟨hresult, -⟩
  · exact h
  · simp [SinglePhrase.type, endsInResult] at hresult

theorem SinglePhrase.lexemes_begin (single : SinglePhrase) :
    ∃ l ls, single.lexemes = l :: ls ∧ l.beginsType = true := by
  cases single <;> rw [SinglePhrase.lexemes] <;> exact ⟨_, _, rfl, rfl⟩

theorem TypePhrase.lexemes_begin (type : TypePhrase) :
    ∃ l ls, type.lexemes = l :: ls ∧ l.beginsType = true := by
  obtain ⟨first, more⟩ := type
  obtain ⟨l, ls, hfirst, hl⟩ := first.lexemes_begin
  rw [TypePhrase.lexemes, separated_cons, hfirst]
  exact ⟨l, _, rfl, hl⟩

theorem TypePhrase.lexemes_length_pos (type : TypePhrase) : 0 < type.lexemes.length := by
  obtain ⟨l, ls, hbegin, -⟩ := type.lexemes_begin
  rw [hbegin]
  exact Nat.zero_lt_succ _

/-- A label and a type begin as a type does. -/
theorem labelled_begin (label : Option (String × Bool)) (type : TypePhrase) :
    ∃ l ls, labelLexemes label ++ type.lexemes = l :: ls ∧ l.beginsType = true := by
  cases label with
  | none => exact type.lexemes_begin
  | some label => exact ⟨.name label.1, _, rfl, rfl⟩

theorem TypePhrase.lexemes_ne_closeAngle (type : TypePhrase) (ls ms : List Lexeme) :
    type.lexemes ++ ls ≠ .symbol .closeAngle :: ms := by
  obtain ⟨l, rest, hbegin, hl⟩ := type.lexemes_begin
  rw [hbegin]
  intro h
  cases h
  cases hl

theorem FieldPhrase.lexemes_ne_closeBrace (field : FieldPhrase) (ls ms : List Lexeme) :
    field.lexemes ++ ls ≠ .symbol .closeBrace :: ms := by
  obtain ⟨name, optional, type⟩ := field
  simp [FieldPhrase.lexemes, labelLexemes]

theorem ParameterPhrase.lexemes_ne_closeParen (parameter : ParameterPhrase) (ls ms : List Lexeme) :
    parameter.lexemes ++ ls ≠ .symbol .closeParen :: ms := by
  obtain ⟨variadic, label, type⟩ := parameter
  obtain ⟨l, rest, hbegin, hl⟩ := labelled_begin label type
  rw [ParameterPhrase.lexemes, hbegin]
  cases variadic with
  | true => simp [optionally]
  | false =>
    intro h
    cases h
    cases hl

/-- A type that begins with a name is not taken for a label. -/
theorem TypePhrase.unlabelled (type : TypePhrase) {ls : List Lexeme} (hends : EndsType ls)
    {name : String} {sign : Symbol} {rest : List Lexeme}
    (h : type.lexemes ++ ls = .name name :: .symbol sign :: rest) :
    sign ≠ .colon ∧ sign ≠ .question := by
  obtain ⟨first, more⟩ := type
  rw [TypePhrase.lexemes, separated_cons] at h
  cases first with
  | named own =>
    cases more with
    | nil =>
      simp only [SinglePhrase.lexemes, List.map_nil, List.flatMap_nil, List.append_nil,
        List.singleton_append, List.cons.injEq] at h
      rw [h.2] at hends
      have hcloses := endsType_symbol_iff.mp hends
      constructor <;> rintro rfl <;> cases hcloses
    | cons next more =>
      simp only [SinglePhrase.lexemes, List.map_cons, List.flatMap_cons, List.cons_append,
        List.nil_append, List.cons.injEq, Lexeme.symbol.injEq] at h
      rw [← h.2.1]
      decide
  | generic own argument arguments =>
    simp only [SinglePhrase.lexemes, List.cons_append, List.cons.injEq, Lexeme.symbol.injEq] at h
    rw [← h.2.1]
    decide
  | _ => simp [SinglePhrase.lexemes] at h

/-! ## Unambiguity -/

/-- No other phrase of its kind derives the lexemes of the phrase, whatever comes after them. -/
def Determined {α : Type} (lexemes : α → List Lexeme) (admissible : α → Prop)
    (endsBefore : α → List Lexeme → Prop) (phrase : α) : Prop :=
  ∀ other ls ms, admissible phrase → admissible other → endsBefore phrase ls →
    endsBefore other ms → lexemes phrase ++ ls = lexemes other ++ ms → phrase = other ∧ ls = ms

def TypePhrase.Determined : TypePhrase → Prop :=
  TypeExpr.Determined lexemes Admissible fun _ => EndsType

def SinglePhrase.Determined : SinglePhrase → Prop :=
  TypeExpr.Determined lexemes Admissible EndsBefore

def FieldPhrase.Determined : FieldPhrase → Prop :=
  TypeExpr.Determined lexemes Admissible fun _ => EndsType

def ParameterPhrase.Determined : ParameterPhrase → Prop :=
  TypeExpr.Determined lexemes Admissible fun _ => EndsType

section Lists

variable {α : Type} {lexemes : α → List Lexeme} {admissible : α → Prop} {close : Symbol}

theorem endsType_listing (hclose : close.closes = true) (items : List (List Lexeme)) (comma : Bool)
    (ls : List Lexeme) :
    EndsType (items.flatMap (.symbol .comma :: ·) ++ (optionally .comma comma ++
      .symbol close :: ls)) := by
  cases items with
  | cons item items => exact endsType_symbol_iff.mpr rfl
  | nil =>
    cases comma with
    | true => exact endsType_symbol_iff.mpr rfl
    | false => exact endsType_symbol_iff.mpr hclose

/-- The end of a list is no further item. -/
theorem close_ne_items (hcomma : close ≠ .comma)
    (hbegin : ∀ item ls ms, lexemes item ++ ls ≠ .symbol close :: ms) (item : α) (items : List α)
    (comma : Bool) (ls ms : List Lexeme) :
    optionally .comma comma ++ .symbol close :: ls ≠
      ((item :: items).map lexemes).flatMap (.symbol .comma :: ·) ++ ms := by
  intro h
  cases comma with
  | false => simp [optionally, hcomma] at h
  | true =>
    simp only [optionally, if_true, List.map_cons, List.flatMap_cons, List.nil_append,
      List.cons_append, List.append_assoc, List.cons.injEq, true_and] at h
    exact absurd h.symm (hbegin _ _ _)

/-- Items with a comma before each are determined up to the sign that closes the list. -/
theorem determined_items (hclose : close.closes = true) (hcomma : close ≠ .comma)
    (hbegin : ∀ item ls ms, lexemes item ++ ls ≠ .symbol close :: ms) {items others : List α}
    (hitems : ∀ item ∈ items, Determined lexemes admissible (fun _ => EndsType) item)
    (ha : ∀ item ∈ items, admissible item) (ha' : ∀ item ∈ others, admissible item)
    {comma comma' : Bool} {ls ms : List Lexeme}
    (h : (items.map lexemes).flatMap (.symbol .comma :: ·) ++
        (optionally .comma comma ++ .symbol close :: ls) =
      (others.map lexemes).flatMap (.symbol .comma :: ·) ++
        (optionally .comma comma' ++ .symbol close :: ms)) :
    items = others ∧ comma = comma' ∧ ls = ms := by
  induction items generalizing others with
  | nil =>
    cases others with
    | nil => cases comma <;> cases comma' <;> simp_all [optionally]
    | cons other others => exact absurd h (close_ne_items hcomma hbegin other others comma ls _)
  | cons item items ih =>
    cases others with
    | nil => exact absurd h.symm (close_ne_items hcomma hbegin item items comma' ms _)
    | cons other others =>
      simp only [List.map_cons, List.flatMap_cons, List.cons_append, List.append_assoc,
        List.cons.injEq, true_and] at h
      obtain ⟨rfl, hrest⟩ := hitems item List.mem_cons_self other _ _ (ha item List.mem_cons_self)
        (ha' other List.mem_cons_self) (endsType_listing hclose _ _ _)
        (endsType_listing hclose _ _ _) h
      obtain ⟨rfl, hcommas, hends⟩ := ih (fun x hx => hitems x (List.mem_cons_of_mem _ hx))
        (fun x hx => ha x (List.mem_cons_of_mem _ hx))
        (fun x hx => ha' x (List.mem_cons_of_mem _ hx)) hrest
      exact ⟨rfl, hcommas, hends⟩

/-- A list, whose last item a comma may follow, is determined by its lexemes. -/
theorem determined_listing (hclose : close.closes = true) (hcomma : close ≠ .comma)
    (hbegin : ∀ item ls ms, lexemes item ++ ls ≠ .symbol close :: ms) {items others : List α}
    (hitems : ∀ item ∈ items, Determined lexemes admissible (fun _ => EndsType) item)
    (ha : ∀ item ∈ items, admissible item) (ha' : ∀ item ∈ others, admissible item)
    {comma comma' : Bool} (hne : comma = true → items ≠ []) (hne' : comma' = true → others ≠ [])
    {ls ms : List Lexeme}
    (h : separated .comma (items.map lexemes) ++
        (optionally .comma comma ++ .symbol close :: ls) =
      separated .comma (others.map lexemes) ++
        (optionally .comma comma' ++ .symbol close :: ms)) :
    items = others ∧ comma = comma' ∧ ls = ms := by
  cases items with
  | nil =>
    cases others with
    | nil => cases comma <;> cases comma' <;> simp_all [optionally]
    | cons other others =>
      have hnot : comma = false := by simpa using hne
      rw [List.map_cons, separated_cons, List.append_assoc, hnot] at h
      exact absurd h.symm (hbegin _ _ _)
  | cons item items =>
    cases others with
    | nil =>
      have hnot : comma' = false := by simpa using hne'
      rw [List.map_cons, separated_cons, List.append_assoc, hnot] at h
      exact absurd h (hbegin _ _ _)
    | cons other others =>
      -- With a comma before the first items too, the lists have a comma before each item.
      refine determined_items hclose hcomma hbegin hitems ha ha' ?_
      simpa [separated_cons] using h

end Lists

theorem endsBefore_alternatives {single : SinglePhrase} {more : List SinglePhrase}
    {ls : List Lexeme} (hends : EndsType ls)
    (hrule : more.map SinglePhrase.type ≠ [] → endsInResult single.type = false) :
    single.EndsBefore ((more.map SinglePhrase.lexemes).flatMap (.symbol .bar :: ·) ++ ls) := by
  cases more with
  | nil => exact .inl hends
  | cons next rest => exact .inr ⟨hrule (by simp), rfl⟩

/-- Alternatives with a bar before each are determined up to where the type ends. -/
theorem determined_more {more others : List SinglePhrase}
    (hmore : ∀ single ∈ more, single.Determined) (ha : ∀ single ∈ more, single.Admissible)
    (ha' : ∀ single ∈ others, single.Admissible)
    (hrule : ResultsLast (more.map SinglePhrase.type))
    (hrule' : ResultsLast (others.map SinglePhrase.type))
    {ls ms : List Lexeme} (hls : EndsType ls) (hms : EndsType ms)
    (h : (more.map SinglePhrase.lexemes).flatMap (.symbol .bar :: ·) ++ ls =
      (others.map SinglePhrase.lexemes).flatMap (.symbol .bar :: ·) ++ ms) :
    more = others ∧ ls = ms := by
  induction more generalizing others with
  | nil =>
    cases others with
    | nil => exact ⟨rfl, h⟩
    | cons other others =>
      rw [List.map_nil, List.flatMap_nil, List.nil_append] at h
      rw [h] at hls
      cases endsType_symbol_iff.mp hls
  | cons single more ih =>
    cases others with
    | nil =>
      rw [List.map_nil, List.flatMap_nil, List.nil_append] at h
      rw [← h] at hms
      cases endsType_symbol_iff.mp hms
    | cons other others =>
      simp only [List.map_cons, List.flatMap_cons, List.cons_append, List.append_assoc,
        List.cons.injEq, true_and] at h
      rw [List.map_cons, resultsLast_cons] at hrule hrule'
      obtain ⟨rfl, hrest⟩ := hmore single List.mem_cons_self other _ _ (ha single List.mem_cons_self)
        (ha' other List.mem_cons_self) (endsBefore_alternatives hls hrule.1)
        (endsBefore_alternatives hms hrule'.1) h
      obtain ⟨rfl, hends⟩ := ih (fun x hx => hmore x (List.mem_cons_of_mem _ hx))
        (fun x hx => ha x (List.mem_cons_of_mem _ hx))
        (fun x hx => ha' x (List.mem_cons_of_mem _ hx)) hrule.2 hrule'.2 hrest
      exact ⟨rfl, hends⟩

theorem determined_alternatives {first : SinglePhrase} {more : List SinglePhrase}
    (hfirst : first.Determined) (hmore : ∀ single ∈ more, single.Determined) :
    (TypePhrase.alternatives first more).Determined := by
  rintro ⟨first', more'⟩ ls ms ha ha' hls hms h
  rw [TypePhrase.Admissible, List.map_cons, resultsLast_cons] at ha ha'
  rw [TypePhrase.lexemes, TypePhrase.lexemes, separated_cons, separated_cons, List.append_assoc,
    List.append_assoc] at h
  obtain ⟨ha, hall, hrule, hrules⟩ := ha
  obtain ⟨ha', hall', hrule', hrules'⟩ := ha'
  obtain ⟨rfl, hrest⟩ := hfirst first' _ _ ha ha' (endsBefore_alternatives hls hrule)
    (endsBefore_alternatives hms hrule') h
  obtain ⟨rfl, hends⟩ := determined_more hmore hall hall' hrules hrules' hls hms hrest
  exact ⟨rfl, hends⟩

theorem determined_nullable {inner : SinglePhrase} (hinner : inner.Determined) :
    (SinglePhrase.nullable inner).Determined := by
  intro other ls ms ha ha' hls hms h
  cases other with
  | nullable inner' =>
    simp only [SinglePhrase.lexemes, List.cons_append, List.cons.injEq, true_and] at h
    simp only [SinglePhrase.Admissible] at ha ha'
    simp only [SinglePhrase.EndsBefore, SinglePhrase.type, endsInResult] at hls hms
    obtain ⟨rfl, hends⟩ := hinner inner' ls ms ha ha' hls hms h
    exact ⟨rfl, hends⟩
  | _ => simp [SinglePhrase.lexemes] at h

theorem determined_array {element : TypePhrase} (helement : element.Determined) :
    (SinglePhrase.array element).Determined := by
  intro other ls ms ha ha' hls hms h
  cases other with
  | array element' =>
    simp only [SinglePhrase.lexemes, List.cons_append, List.append_assoc, List.nil_append,
      List.cons.injEq, true_and] at h
    simp only [SinglePhrase.Admissible] at ha ha'
    obtain ⟨rfl, hends⟩ :=
      helement element' _ _ ha ha' (endsType_symbol_iff.mpr rfl) (endsType_symbol_iff.mpr rfl) h
    exact ⟨rfl, List.cons.inj hends |>.2⟩
  | _ => simp [SinglePhrase.lexemes] at h

theorem determined_object {fields : List FieldPhrase} {comma : Bool}
    (hfields : ∀ field ∈ fields, field.Determined) :
    (SinglePhrase.object comma fields).Determined := by
  intro other ls ms ha ha' hls hms h
  cases other with
  | object comma' fields' =>
    simp only [SinglePhrase.lexemes, List.cons_append, List.append_assoc, List.nil_append,
      List.cons.injEq, true_and] at h
    simp only [SinglePhrase.Admissible] at ha ha'
    obtain ⟨rfl, rfl, hends⟩ := determined_listing rfl (by decide)
      FieldPhrase.lexemes_ne_closeBrace hfields ha.1 ha'.1 ha.2 ha'.2 h
    exact ⟨rfl, hends⟩
  | _ => simp [SinglePhrase.lexemes] at h

theorem determined_function {parameters : List ParameterPhrase} {comma : Bool}
    (hparameters : ∀ parameter ∈ parameters, parameter.Determined) :
    (SinglePhrase.function comma parameters).Determined := by
  intro other ls ms ha ha' hls hms h
  cases other with
  | function comma' parameters' =>
    simp only [SinglePhrase.lexemes, List.cons_append, List.append_assoc, List.nil_append,
      List.cons.injEq, true_and] at h
    simp only [SinglePhrase.Admissible] at ha ha'
    obtain ⟨rfl, rfl, hends⟩ := determined_listing rfl (by decide)
      ParameterPhrase.lexemes_ne_closeParen hparameters ha.1 ha'.1 ha.2 ha'.2 h
    exact ⟨rfl, hends⟩
  | arrow comma' parameters' ascii result =>
    simp only [SinglePhrase.lexemes, List.cons_append, List.append_assoc, List.nil_append,
      List.cons.injEq, true_and] at h
    simp only [SinglePhrase.Admissible] at ha ha'
    obtain ⟨-, -, rfl⟩ := determined_listing rfl (by decide)
      ParameterPhrase.lexemes_ne_closeParen hparameters ha.1 ha'.1 ha.2 ha'.2.1 h
    exact absurd hls.sign (by cases ascii <;> decide)
  | _ => simp [SinglePhrase.lexemes] at h

theorem determined_arrow {parameters : List ParameterPhrase} {comma ascii : Bool}
    {result : TypePhrase} (hparameters : ∀ parameter ∈ parameters, parameter.Determined)
    (hresult : result.Determined) :
    (SinglePhrase.arrow comma parameters ascii result).Determined := by
  intro other ls ms ha ha' hls hms h
  cases other with
  | function comma' parameters' =>
    simp only [SinglePhrase.lexemes, List.cons_append, List.append_assoc, List.nil_append,
      List.cons.injEq, true_and] at h
    simp only [SinglePhrase.Admissible] at ha ha'
    obtain ⟨-, -, rfl⟩ := determined_listing rfl (by decide)
      ParameterPhrase.lexemes_ne_closeParen hparameters ha.1 ha'.1 ha.2.1 ha'.2 h
    exact absurd hms.sign (by cases ascii <;> decide)
  | arrow comma' parameters' ascii' result' =>
    simp only [SinglePhrase.lexemes, List.cons_append, List.append_assoc, List.nil_append,
      List.cons.injEq, true_and] at h
    simp only [SinglePhrase.Admissible] at ha ha'
    obtain ⟨rfl, rfl, hrest⟩ := determined_listing rfl (by decide)
      ParameterPhrase.lexemes_ne_closeParen hparameters ha.1 ha'.1 ha.2.1 ha'.2.1 h
    obtain ⟨hsign, hrest⟩ := List.cons.inj hrest
    have hascii : ascii = ascii' := by
      revert hsign
      cases ascii <;> cases ascii' <;> decide
    obtain ⟨rfl, hends⟩ := hresult result' ls ms ha.2.2 ha'.2.2 hls.endsType_of_arrow
      hms.endsType_of_arrow hrest
    exact ⟨by rw [hascii], hends⟩
  | _ => simp [SinglePhrase.lexemes] at h

theorem determined_named (name : String) : (SinglePhrase.named name).Determined := by
  intro other ls ms ha ha' hls hms h
  cases other with
  | named name' => simpa [SinglePhrase.lexemes] using h
  | generic name' first more =>
    simp only [SinglePhrase.lexemes, List.cons_append, List.nil_append, List.cons.injEq] at h
    rw [h.2] at hls
    exact absurd hls.sign (by decide)
  | _ => simp [SinglePhrase.lexemes] at h

/-- In a list of arguments no comma can be left over. -/
theorem determined_arguments {types others : List TypePhrase}
    (htypes : ∀ type ∈ types, type.Determined) (ha : ∀ type ∈ types, type.Admissible)
    (ha' : ∀ type ∈ others, type.Admissible) {ls ms : List Lexeme}
    (h : separated .comma (types.map TypePhrase.lexemes) ++ .symbol .closeAngle :: ls =
      separated .comma (others.map TypePhrase.lexemes) ++ .symbol .closeAngle :: ms) :
    types = others ∧ ls = ms := by
  have hlisting := @determined_listing _ _ _ .closeAngle rfl (by decide)
    TypePhrase.lexemes_ne_closeAngle types others htypes ha ha' false false (by simp) (by simp)
    ls ms h
  exact ⟨hlisting.1, hlisting.2.2⟩

theorem determined_generic {name : String} {first : TypePhrase} {more : List TypePhrase}
    (hfirst : first.Determined) (hmore : ∀ type ∈ more, type.Determined) :
    (SinglePhrase.generic name first more).Determined := by
  intro other ls ms ha ha' hls hms h
  cases other with
  | named name' =>
    simp only [SinglePhrase.lexemes, List.cons_append, List.nil_append, List.cons.injEq] at h
    rw [← h.2] at hms
    exact absurd hms.sign (by decide)
  | generic name' first' more' =>
    simp only [SinglePhrase.lexemes, ← List.map_cons, List.cons_append, List.append_assoc,
      List.nil_append, List.cons.injEq, true_and, Lexeme.name.injEq] at h
    rw [SinglePhrase.Admissible, ← List.forall_mem_cons] at ha ha'
    obtain ⟨rfl, harguments⟩ := h
    obtain ⟨hsame, hends⟩ := determined_arguments
      (List.forall_mem_cons.mpr ⟨hfirst, hmore⟩) ha ha' harguments
    obtain ⟨rfl, rfl⟩ := List.cons.inj hsame
    exact ⟨rfl, hends⟩
  | _ => simp [SinglePhrase.lexemes] at h

theorem determined_quoted (text : String) : (SinglePhrase.quoted text).Determined := by
  intro other ls ms ha ha' hls hms h
  cases other <;> simp_all [SinglePhrase.lexemes]

theorem determined_number (text : String) : (SinglePhrase.number text).Determined := by
  intro other ls ms ha ha' hls hms h
  cases other <;> simp_all [SinglePhrase.lexemes]

theorem label_unique {name name' : String} {optional optional' : Bool} {ls ms : List Lexeme}
    (h : labelLexemes (some (name, optional)) ++ ls =
      labelLexemes (some (name', optional')) ++ ms) :
    name = name' ∧ optional = optional' ∧ ls = ms := by
  cases optional <;> cases optional' <;> simp_all [labelLexemes, optionally]

theorem determined_field {name : String} {optional : Bool} {type : TypePhrase}
    (htype : type.Determined) : (FieldPhrase.mk name optional type).Determined := by
  rintro ⟨name', optional', type'⟩ ls ms ha ha' hls hms h
  rw [FieldPhrase.Admissible] at ha ha'
  rw [FieldPhrase.lexemes, FieldPhrase.lexemes, List.append_assoc, List.append_assoc] at h
  obtain ⟨rfl, rfl, hrest⟩ := label_unique h
  obtain ⟨rfl, hends⟩ := htype type' ls ms ha ha' hls hms hrest
  exact ⟨rfl, hends⟩

/-- What a label says shows in the lexemes, since no type looks like one. -/
theorem labelled_unique {label label' : Option (String × Bool)} {type type' : TypePhrase}
    {ls ms : List Lexeme} (hls : EndsType ls) (hms : EndsType ms)
    (h : labelLexemes label ++ (type.lexemes ++ ls) =
      labelLexemes label' ++ (type'.lexemes ++ ms)) :
    label = label' ∧ type.lexemes ++ ls = type'.lexemes ++ ms := by
  cases label with
  | none =>
    cases label' with
    | none => exact ⟨rfl, h⟩
    | some label' =>
      obtain ⟨name, optional⟩ := label'
      cases optional with
      | true => exact absurd rfl (type.unlabelled hls h).2
      | false => exact absurd rfl (type.unlabelled hls h).1
  | some label =>
    obtain ⟨name, optional⟩ := label
    cases label' with
    | none =>
      cases optional with
      | true => exact absurd rfl (type'.unlabelled hms h.symm).2
      | false => exact absurd rfl (type'.unlabelled hms h.symm).1
    | some label' =>
      obtain ⟨rfl, rfl, htypes⟩ := label_unique h
      exact ⟨rfl, htypes⟩

theorem determined_parameter {variadic : Bool} {label : Option (String × Bool)}
    {type : TypePhrase} (htype : type.Determined) :
    (ParameterPhrase.mk variadic label type).Determined := by
  rintro ⟨variadic', label', type'⟩ ls ms ha ha' hls hms h
  rw [ParameterPhrase.Admissible] at ha ha'
  have hmarked : variadic = variadic' ∧
      labelLexemes label ++ (type.lexemes ++ ls) = labelLexemes label' ++ (type'.lexemes ++ ms) := by
    obtain ⟨l, rest, hbegin, hl⟩ := labelled_begin label type
    obtain ⟨l', rest', hbegin', hl'⟩ := labelled_begin label' type'
    rw [ParameterPhrase.lexemes, ParameterPhrase.lexemes] at h
    rw [← List.append_assoc, ← List.append_assoc, hbegin, hbegin']
    rw [hbegin, hbegin'] at h
    cases variadic with
    | true =>
      cases variadic' with
      | true => exact ⟨rfl, (List.cons.inj h).2⟩
      | false =>
        rw [← (List.cons.inj h).1] at hl'
        cases hl'
    | false =>
      cases variadic' with
      | true =>
        rw [(List.cons.inj h).1] at hl
        cases hl
      | false => exact ⟨rfl, h⟩
  obtain ⟨rfl, hlabelled⟩ := hmarked
  obtain ⟨rfl, hrest⟩ := labelled_unique hls hms hlabelled
  obtain ⟨rfl, hends⟩ := htype type' ls ms ha ha' hls hms hrest
  exact ⟨rfl, hends⟩

mutual

theorem TypePhrase.determined : ∀ type : TypePhrase, type.Determined
  | .alternatives first more =>
    determined_alternatives first.determined fun single _ => single.determined

theorem SinglePhrase.determined : ∀ single : SinglePhrase, single.Determined
  | .nullable inner => determined_nullable inner.determined
  | .array element => determined_array element.determined
  | .object _ fields => determined_object fun field _ => field.determined
  | .function _ parameters => determined_function fun parameter _ => parameter.determined
  | .arrow _ parameters _ result =>
    determined_arrow (fun parameter _ => parameter.determined) result.determined
  | .quoted text => determined_quoted text
  | .number text => determined_number text
  | .named name => determined_named name
  | .generic _ first more => determined_generic first.determined fun type _ => type.determined

theorem FieldPhrase.determined : ∀ field : FieldPhrase, field.Determined
  | .mk _ _ type => determined_field type.determined

theorem ParameterPhrase.determined : ∀ parameter : ParameterPhrase, parameter.Determined
  | .mk _ _ type => determined_parameter type.determined

end

end DocComments.TypeExpr
