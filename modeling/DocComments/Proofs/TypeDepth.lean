import DocComments.Proofs.TypeLookahead

/-!
# The depth of the readers of types

The readers of types call each other one level down, and each call that does not shorten the tokens
is followed by one that does within three levels. So three levels for each token are enough: the
readers never come to the bottom, and whatever stands there has no influence on what is read.

* `Readers`: the six readers of one level, and the level above other readers (`Readers.step`).
* `readers_succ`: the readers of types are such levels, one above the other.
* `AgreesBelow`: readers that agree on all tokens for which a bound is enough; a level higher they
  agree for a bound that is greater by one.
* `read_of_above`, `readType_eq_read`: every tower of levels that is high enough reads the same.
-/

namespace DocComments.TypeExpr

/-! ## Levels of readers -/

/-- The readers that call each other. -/
@[ext]
structure Readers where
  type : List Token → Except Stuck (TypeExpr × List Token)
  single : List Token → Except Stuck (TypeExpr × List Token)
  alternatives : List Token → Except Stuck (List TypeExpr × List Token)
  arguments : List Token → Except Stuck (List TypeExpr × List Token)
  fields : List Token → Except Stuck (List (Field TypeExpr) × List Token)
  parameters : List Token → Except Stuck (List (Parameter TypeExpr) × List Token)

namespace Readers

variable (r : Readers)

/-- The alternatives from one on, put together. -/
def joined {α : Type} (join : TypeExpr → List TypeExpr → α) (ts : List Token) :
    Except Stuck (α × List Token) := do
  let (first, ts) ← r.single ts
  let (more, ts) ← r.alternatives ts
  return (join first more, ts)

/-- The arguments from one on, if others come after its comma. -/
def further (type : TypeExpr) (ts : List Token) : Except Stuck (List TypeExpr × List Token) := do
  let (more, ts) ← r.arguments ts
  return (type :: more, ts)

/-- The name with the arguments after it. -/
def generic (name : String) (ts : List Token) : Except Stuck (TypeExpr × List Token) := do
  let (arguments, rest) ← r.arguments ts
  return (.generic name arguments, rest)

/-- The function with its result, after the arrow. -/
def result (parameters : List (Parameter TypeExpr)) (ts : List Token) :
    Except Stuck (TypeExpr × List Token) := do
  let (result, rest) ← r.type ts
  return (.function parameters (some result), rest)

/-- The fields from one on, after its name and the question mark that it may have. -/
def field (name : String) (optional : Bool) (ts : List Token) :
    Except Stuck (List (Field TypeExpr) × List Token) :=
  expect .colon ts >>= readItem r.type .closeBrace (⟨name, ·, optional⟩) r.fields

/-- The parameters from one on, with this label and after it. -/
def labelled (variadic : Bool) (label : Option (String × Bool)) :
    List Token → Except Stuck (List (Parameter TypeExpr) × List Token) :=
  readItem r.type .closeParen (⟨·, label.map (·.1), label.any (·.2), variadic⟩) r.parameters

/-- The parameters from one on, after the ellipsis that it may have. -/
def parameter (variadic : Bool) (ts : List Token) :
    Except Stuck (List (Parameter TypeExpr) × List Token) :=
  r.labelled variadic (readLabel ts).1 (readLabel ts).2

/-- The readers of the next level, which leave to these what they do not read themselves. -/
def step : Readers where
  type := r.joined ofAlternatives
  single ts :=
    match ts with
    | [] => .error ⟨.unexpectedEnd, []⟩
    | ⟨.symbol .question, _⟩ :: rest => do
      let (type, rest) ← r.single rest
      return (.nullable type, rest)
    | ⟨.symbol .openBracket, _⟩ :: rest => do
      let (type, rest) ← r.type rest
      let rest ← expect .closeBracket rest
      return (.array type, rest)
    | ⟨.symbol .openBrace, _⟩ :: rest => do
      let (fields, rest) ← r.fields rest
      return (.object fields, rest)
    | ⟨.symbol .openParen, _⟩ :: rest => do
      let (parameters, rest) ← r.parameters rest
      if atSymbol .arrow rest || atSymbol .asciiArrow rest then r.result parameters rest.tail
      else .ok (.function parameters none, rest)
    | ⟨.quoted text, _⟩ :: rest => .ok (.literal (.text (unquoted text)), rest)
    | ⟨.number text, _⟩ :: rest => .ok (.literal (numberValue text), rest)
    | ⟨.name name, _⟩ :: rest =>
      if atSymbol .openAngle rest then r.generic name rest.tail else .ok (.named name, rest)
    | token :: _ => .error ⟨.unexpected token.lexeme, ts⟩
  alternatives ts := if atSymbol .bar ts then r.joined List.cons ts.tail else .ok ([], ts)
  arguments ts := do
    let (type, ts) ← r.type ts
    if atSymbol .comma ts then r.further type ts.tail
    else
      let ts ← expect .closeAngle ts
      return ([type], ts)
  fields ts :=
    match ts with
    | [] => .error ⟨.unexpectedEnd, []⟩
    | ⟨.symbol .closeBrace, _⟩ :: rest => .ok ([], rest)
    | ⟨.name name, _⟩ :: rest => r.field name (skip .question rest).1 (skip .question rest).2
    | token :: _ => .error ⟨.expectedField token.lexeme, ts⟩
  parameters ts :=
    if atSymbol .closeParen ts then .ok ([], ts.tail)
    else r.parameter (skip .ellipsis ts).1 (skip .ellipsis ts).2

/-- The readers so many levels above these. -/
def above : Nat → Readers
  | 0 => r
  | depth + 1 => (above depth).step

end Readers

/-- The readers of types at a depth. -/
def readers (depth : Nat) : Readers where
  type := readType depth
  single := readSingle depth
  alternatives := readAlternatives depth
  arguments := readArguments depth
  fields := readFields depth
  parameters := readParameters depth

theorem readers_succ (depth : Nat) : readers (depth + 1) = (readers depth).step := by
  apply Readers.ext
  · rfl
  · rfl
  · rfl
  · rfl
  · funext ts
    cases ts with
    | nil => rfl
    | cons token ts =>
      obtain ⟨lexeme, position⟩ := token
      cases lexeme with
      | symbol sign => cases sign <;> rfl
      | name name => exact readFields_item depth name position ts
      | _ => rfl
  · funext ts
    by_cases hat : atSymbol .closeParen ts = true
    · simp only [readers, Readers.step, readParameters, if_pos hat]
    · simp only [readers, Readers.step, if_neg hat]
      exact readParameters_item depth hat

/-! ## Readers that agree -/

section Lengths

variable {ts rest : List Token}

theorem length_le_of_afterItem {close : Symbol} (hafter : afterItem close ts = .ok rest) :
    rest.length ≤ ts.length := by
  rcases map_of_afterItem hafter with ⟨-, rfl⟩ | hcomma
  · exact Nat.le_refl _
  · have hlength := congrArg List.length hcomma
    simp only [List.length_map, List.length_cons] at hlength
    omega

theorem length_lt_of_expect {sign : Symbol} (hexpect : expect sign ts = .ok rest) :
    rest.length < ts.length := by
  obtain ⟨hat, rfl⟩ := expect_eq_ok_iff.mp hexpect
  exact length_tail_lt hat

end Lengths

namespace Readers

/-- The readers agree on all tokens for which the bound is enough. A list of items begins with a
type, a type with a single type, and that with a token: so there are three levels for each. -/
structure AgreesBelow (bound : Nat) (r r' : Readers) : Prop where
  type : ∀ {ts}, 3 * ts.length + 1 < bound → r.type ts = r'.type ts
  single : ∀ {ts}, 3 * ts.length < bound → r.single ts = r'.single ts
  alternatives : ∀ {ts}, 3 * ts.length < bound → r.alternatives ts = r'.alternatives ts
  arguments : ∀ {ts}, 3 * ts.length + 2 < bound → r.arguments ts = r'.arguments ts
  fields : ∀ {ts}, 3 * ts.length + 2 < bound → r.fields ts = r'.fields ts
  parameters : ∀ {ts}, 3 * ts.length + 2 < bound → r.parameters ts = r'.parameters ts

namespace AgreesBelow

variable {bound depth : Nat} {r : Readers} (h : r.AgreesBelow bound (readers depth)) {ts : List Token}

include h

theorem item_succ {α : Type} {close : Symbol} {item : TypeExpr → α}
    {others others' : List Token → Except Stuck (List α × List Token)}
    (hts : 3 * ts.length + 1 < bound)
    (hothers : ∀ rest, rest.length < ts.length → others rest = others' rest) :
    readItem r.type close item others ts = readItem (readers depth).type close item others' ts := by
  unfold readItem
  rw [h.type hts]
  refine except_bind_congr ?_
  rintro ⟨type, middle⟩ htype
  have hshorter := ((soundAt depth).type htype).length_lt
  refine except_bind_congr fun rest hafter => ?_
  have hle := length_le_of_afterItem hafter
  rw [hothers rest (by omega)]

theorem joined_succ {α : Type} (join : TypeExpr → List TypeExpr → α)
    (hts : 3 * ts.length < bound) : r.joined join ts = (readers depth).joined join ts := by
  unfold joined
  rw [h.single hts]
  refine except_bind_congr ?_
  rintro ⟨first, middle⟩ hfirst
  have hshorter := ((soundAt depth).single hfirst).length_lt
  simp only
  rw [h.alternatives (by omega)]

theorem type_succ (hts : 3 * ts.length + 1 < bound + 1) :
    r.step.type ts = (readers depth).step.type ts :=
  h.joined_succ ofAlternatives (by omega)

theorem alternatives_succ (hts : 3 * ts.length < bound + 1) :
    r.step.alternatives ts = (readers depth).step.alternatives ts := by
  simp only [step]
  split
  · rename_i hat
    have htail := length_tail_lt hat
    exact h.joined_succ List.cons (by omega)
  · rfl

theorem arguments_succ (hts : 3 * ts.length + 2 < bound + 1) :
    r.step.arguments ts = (readers depth).step.arguments ts := by
  simp only [step]
  rw [h.type (by omega)]
  refine except_bind_congr ?_
  rintro ⟨type, middle⟩ htype
  have hshorter := ((soundAt depth).type htype).length_lt
  simp only
  split
  · rename_i hat
    have htail := length_tail_lt hat
    simp only [further]
    rw [h.arguments (by omega)]
  · rfl

theorem fields_succ (hts : 3 * ts.length + 2 < bound + 1) :
    r.step.fields ts = (readers depth).step.fields ts := by
  cases ts with
  | nil => rfl
  | cons token ts =>
    obtain ⟨lexeme, position⟩ := token
    cases lexeme with
    | name name =>
      simp only [step, field]
      refine except_bind_congr fun rest hcolon => ?_
      have hshorter := length_lt_of_expect hcolon
      have hskip := (skip_suffix .question ts).length_le
      rw [List.length_cons] at hts
      exact h.item_succ (by omega) fun last hlast => h.fields (by omega)
    | symbol sign => cases sign <;> rfl
    | _ => rfl

theorem parameters_succ (hts : 3 * ts.length + 2 < bound + 1) :
    r.step.parameters ts = (readers depth).step.parameters ts := by
  simp only [step]
  split
  · rfl
  · have hskip := (skip_suffix .ellipsis ts).length_le
    have hlabel := (readLabel_suffix (skip .ellipsis ts).2).length_le
    simp only [parameter, labelled]
    exact h.item_succ (by omega) fun last hlast => h.parameters (by omega)

theorem single_succ (hts : 3 * ts.length < bound + 1) :
    r.step.single ts = (readers depth).step.single ts := by
  cases ts with
  | nil => rfl
  | cons token ts =>
    rw [List.length_cons] at hts
    obtain ⟨lexeme, position⟩ := token
    cases lexeme with
    | symbol sign =>
      cases sign with
      | question => simp only [step, h.single (show 3 * ts.length < bound by omega)]
      | openBracket => simp only [step, h.type (show 3 * ts.length + 1 < bound by omega)]
      | openBrace => simp only [step, h.fields (show 3 * ts.length + 2 < bound by omega)]
      | openParen =>
        simp only [step]
        rw [h.parameters (by omega)]
        refine except_bind_congr ?_
        rintro ⟨parameters, rest⟩ hparameters
        have hle : rest.length ≤ ts.length := by
          have hsuffix := (shortensAt depth).parameters ts
          rw [show readParameters depth ts = .ok (parameters, rest) from hparameters] at hsuffix
          exact hsuffix.length_le
        have htail : rest.tail.length ≤ rest.length := (List.tail_suffix rest).length_le
        simp only [result]
        rw [h.type (by omega)]
      | _ => rfl
    | name name =>
      simp only [step]
      split
      · have htail : ts.tail.length ≤ ts.length := (List.tail_suffix ts).length_le
        simp only [generic]
        rw [h.arguments (by omega)]
      · rfl
    | _ => rfl

theorem succ : r.step.AgreesBelow (bound + 1) (readers (depth + 1)) := by
  rw [readers_succ]
  exact ⟨h.type_succ, h.single_succ, h.alternatives_succ, h.arguments_succ, h.fields_succ,
    h.parameters_succ⟩

end AgreesBelow

/-- High above any readers, what they do has no influence on tokens for which the bound is
enough. -/
theorem above_agrees (base : Readers) (bound : Nat) {count depth : Nat} (hcount : bound ≤ count)
    (hdepth : bound ≤ depth) : (base.above count).AgreesBelow bound (readers depth) := by
  induction bound generalizing count depth with
  | zero => constructor <;> exact fun hlt => absurd hlt (Nat.not_lt_zero _)
  | succ bound ih =>
    obtain ⟨count, rfl⟩ := Nat.exists_eq_succ_of_ne_zero (Nat.ne_of_gt (Nat.zero_lt_of_lt hcount))
    obtain ⟨depth, rfl⟩ := Nat.exists_eq_succ_of_ne_zero (Nat.ne_of_gt (Nat.zero_lt_of_lt hdepth))
    exact (ih (Nat.le_of_succ_le_succ hcount) (Nat.le_of_succ_le_succ hdepth)).succ

end Readers

variable {ts : List Token} {depth : Nat}

theorem read_of_above (base : Readers) (h : 3 * ts.length + 1 < depth) :
    (base.above depth).type ts = read ts := by
  have hagrees : (base.above depth).AgreesBelow (3 * ts.length + 2) (readers (4 * ts.length + 4)) :=
    base.above_agrees _ h (by omega)
  exact hagrees.type (Nat.lt_succ_self _)

theorem readType_eq_read (h : 3 * ts.length + 1 < depth) : readType depth ts = read ts := by
  rw [← read_of_above (readers 0) h]
  exact (((readers 0).above_agrees (3 * ts.length + 2) h h).type (Nat.lt_succ_self _)).symm

end DocComments.TypeExpr
