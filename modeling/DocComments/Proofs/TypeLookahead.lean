import DocComments.Proofs.TypeCompletion

/-!
# How far the readers of types look ahead

Two runs are compared that are given the same tokens up to a token `t` and others after it. As long
as the readers leave `t`, they cannot tell the two apart: they look at one token and take it or
not. Only the label of a parameter is looked for further ahead, since a name and a question mark
are the beginning of a label only before a colon.

* `ShortensAt`: readers leave an end of the tokens that they are given.
* `Stable`: a run that leaves `t` has the same outcome whatever comes after `t`.
* `NamesParameter`, `MarksName`: a question mark after a name that may begin a parameter.
* `StableAt`: elsewhere all readers are stable, by induction on the depth with one lemma for each.
-/

namespace DocComments.TypeExpr

/-! ## What the readers leave -/

/-- The tokens that a reading leaves, whether it succeeds or fails. -/
def remaining {α : Type} : Except Stuck (α × List Token) → List Token
  | .ok found => found.2
  | .error stuck => stuck.rest

section Remaining

variable {α β : Type} {ts : List Token}

theorem remaining_bind {x : Except Stuck (α × List Token)}
    {f : α × List Token → Except Stuck (β × List Token)} (hx : remaining x <:+ ts)
    (hf : ∀ found, remaining (f found) <:+ found.2) : remaining (x >>= f) <:+ ts := by
  cases x with
  | ok found => exact (hf found).trans hx
  | error stuck => exact hx

theorem remaining_expect_bind {sign : Symbol} {f : List Token → Except Stuck (β × List Token)}
    (hf : ∀ rest, remaining (f rest) <:+ rest) : remaining (expect sign ts >>= f) <:+ ts := by
  unfold expect
  split
  · exact (hf _).trans (List.tail_suffix ts)
  · exact List.suffix_refl ts

theorem remaining_afterItem_bind {close : Symbol}
    {f : List Token → Except Stuck (β × List Token)} (hf : ∀ rest, remaining (f rest) <:+ rest) :
    remaining (afterItem close ts >>= f) <:+ ts := by
  unfold afterItem
  split
  · exact hf ts
  · exact remaining_expect_bind hf

theorem skip_suffix (sign : Symbol) (ts : List Token) : (skip sign ts).2 <:+ ts := by
  unfold skip
  split
  · exact List.tail_suffix ts
  · exact List.suffix_refl ts

/-- After a name, a label needs a colon, maybe with a question mark before it. -/
theorem readLabel_name (name : String) (position : Nat) (ts : List Token) :
    readLabel (⟨.name name, position⟩ :: ts) =
      if atSymbol .colon ts then (some (name, false), ts.tail)
      else if atSymbol .question ts && atSymbol .colon ts.tail then
        (some (name, true), ts.tail.tail)
      else (none, ⟨.name name, position⟩ :: ts) := by
  unfold readLabel parameterName
  split
  · rename_i hname
    split at hname
    · rename_i heq
      cases heq
      cases hname
      rfl
    · rename_i heq
      cases heq
      cases hname
      rfl
    · cases hname
  · rename_i hname
    split at hname
    · cases hname
    · cases hname
    · rename_i hcolon hquestion
      rw [if_neg, if_neg]
      · intro hat
        simp only [Bool.and_eq_true] at hat
        obtain ⟨p, rest, rfl, -⟩ := map_lexeme_eq_cons (map_of_atSymbol hat.1)
        obtain ⟨q, rest', rfl, -⟩ := map_lexeme_eq_cons (map_of_atSymbol hat.2)
        exact hquestion _ _ _ _ _ rfl
      · intro hat
        obtain ⟨p, rest, rfl, -⟩ := map_lexeme_eq_cons (map_of_atSymbol hat)
        exact hcolon _ _ _ _ rfl

theorem readLabel_suffix (ts : List Token) : (readLabel ts).2 <:+ ts := by
  unfold readLabel parameterName
  split
  · rename_i hname
    split at hname
    · cases hname
      exact ⟨[_, _], rfl⟩
    · cases hname
      exact ⟨[_, _, _], rfl⟩
    · cases hname
  · exact List.suffix_refl ts

theorem remaining_readItem {type : List Token → Except Stuck (TypeExpr × List Token)}
    {close : Symbol} {item : TypeExpr → α}
    {others : List Token → Except Stuck (List α × List Token)} {rest : List Token}
    (htype : remaining (type ts) <:+ rest) (hothers : ∀ rest, remaining (others rest) <:+ rest) :
    remaining (readItem type close item others ts) <:+ rest := by
  refine remaining_bind htype fun found => ?_
  refine remaining_afterItem_bind fun last => ?_
  exact remaining_bind (hothers last) fun _ => List.suffix_refl _

end Remaining

/-- Before a token that no type begins with, nothing is taken. -/
theorem readSingle_unexpected (depth : Nat) {token : Token}
    (hbegins : token.lexeme.beginsType = false) (ts : List Token) :
    readSingle (depth + 1) (token :: ts) = .error ⟨.unexpected token.lexeme, token :: ts⟩ := by
  obtain ⟨lexeme, position⟩ := token
  cases lexeme with
  | symbol sign => cases sign <;> first | rfl | cases hbegins
  | _ => cases hbegins

/-- At this depth every reader leaves an end of its tokens. -/
structure ShortensAt (depth : Nat) : Prop where
  type : ∀ ts, remaining (readType depth ts) <:+ ts
  single : ∀ ts, remaining (readSingle depth ts) <:+ ts
  alternatives : ∀ ts, remaining (readAlternatives depth ts) <:+ ts
  arguments : ∀ ts, remaining (readArguments depth ts) <:+ ts
  fields : ∀ ts, remaining (readFields depth ts) <:+ ts
  parameters : ∀ ts, remaining (readParameters depth ts) <:+ ts

namespace ShortensAt

variable {depth : Nat} (h : ShortensAt depth) (ts : List Token)

include h

theorem type_succ : remaining (readType (depth + 1) ts) <:+ ts := by
  rw [readType]
  refine remaining_bind (h.single ts) fun first => ?_
  exact remaining_bind (h.alternatives _) fun _ => List.suffix_refl _

theorem alternatives_succ : remaining (readAlternatives (depth + 1) ts) <:+ ts := by
  rw [readAlternatives]
  split
  · refine remaining_bind ((h.single _).trans (List.tail_suffix ts)) fun first => ?_
    exact remaining_bind (h.alternatives _) fun _ => List.suffix_refl _
  · exact List.suffix_refl ts

theorem arguments_succ : remaining (readArguments (depth + 1) ts) <:+ ts := by
  rw [readArguments]
  refine remaining_bind (h.type ts) fun found => ?_
  dsimp only
  split
  · exact remaining_bind ((h.arguments _).trans (List.tail_suffix _)) fun _ => List.suffix_refl _
  · exact remaining_expect_bind fun _ => List.suffix_refl _

/-- A token that a type can begin with is taken. -/
theorem begin_succ {token : Token} (hbegins : token.lexeme.beginsType = true) :
    remaining (readSingle (depth + 1) (token :: ts)) <:+ ts := by
  obtain ⟨lexeme, position⟩ := token
  cases lexeme with
  | symbol sign =>
    cases sign with
    | question =>
      rw [readSingle]
      exact remaining_bind (h.single ts) fun _ => List.suffix_refl _
    | openBracket =>
      rw [readSingle]
      refine remaining_bind (h.type ts) fun _ => ?_
      exact remaining_expect_bind fun _ => List.suffix_refl _
    | openBrace =>
      rw [readSingle]
      exact remaining_bind (h.fields ts) fun _ => List.suffix_refl _
    | openParen =>
      rw [readSingle]
      refine remaining_bind (h.parameters ts) fun found => ?_
      dsimp only
      split
      · exact remaining_bind ((h.type _).trans (List.tail_suffix _)) fun _ => List.suffix_refl _
      · exact List.suffix_refl _
    | _ => cases hbegins
  | quoted text => exact List.suffix_refl ts
  | number text => exact List.suffix_refl ts
  | name name =>
    rw [readSingle]
    split
    · exact remaining_bind ((h.arguments _).trans (List.tail_suffix ts)) fun _ =>
        List.suffix_refl _
    · exact List.suffix_refl ts

theorem single_succ : remaining (readSingle (depth + 1) ts) <:+ ts := by
  cases ts with
  | nil => exact List.suffix_refl []
  | cons token ts =>
    cases hbegins : token.lexeme.beginsType with
    | true => exact (h.begin_succ ts hbegins).trans (List.suffix_cons token ts)
    | false =>
      rw [readSingle_unexpected depth hbegins]
      exact List.suffix_refl _

/-- A name takes the field with it, or what begins as one. -/
theorem name_succ (name : String) (position : Nat) :
    remaining (readFields (depth + 1) (⟨.name name, position⟩ :: ts)) <:+ ts := by
  rw [readFields_item]
  refine List.IsSuffix.trans (remaining_expect_bind fun rest => ?_) (skip_suffix .question ts)
  exact remaining_readItem (h.type rest) h.fields

theorem fields_succ : remaining (readFields (depth + 1) ts) <:+ ts := by
  cases ts with
  | nil => exact List.suffix_refl []
  | cons token ts =>
    obtain ⟨lexeme, position⟩ := token
    cases lexeme with
    | symbol sign =>
      cases sign with
      | closeBrace => exact List.suffix_cons _ ts
      | _ => exact List.suffix_refl _
    | name name => exact (h.name_succ ts name position).trans (List.suffix_cons _ ts)
    | _ => exact List.suffix_refl _

theorem parameters_succ : remaining (readParameters (depth + 1) ts) <:+ ts := by
  by_cases hat : atSymbol .closeParen ts = true
  · rw [readParameters, if_pos hat]
    exact List.tail_suffix ts
  · rw [readParameters_item depth hat]
    refine remaining_readItem ?_ h.parameters
    exact ((h.type _).trans (readLabel_suffix _)).trans (skip_suffix .ellipsis ts)

end ShortensAt

theorem shortensAt (depth : Nat) : ShortensAt depth := by
  induction depth with
  | zero => constructor <;> exact List.suffix_refl
  | succ depth ih =>
    exact ⟨ih.type_succ, ih.single_succ, ih.alternatives_succ, ih.arguments_succ, ih.fields_succ,
      ih.parameters_succ⟩

/-! ## Runs that differ after one token -/

variable {t : Token} {rest rest' : List Token}

/-- The second run has the outcome of the first with other tokens after `t`, if the first leaves
`t` and has not run out of depth. -/
structure Stable {α : Type} (t : Token) (rest rest' : List Token)
    (x x' : Except Stuck (α × List Token)) : Prop where
  ok : ∀ {a left}, x = .ok (a, left ++ t :: rest) → x' = .ok (a, left ++ t :: rest')
  error : ∀ {problem left}, problem ≠ .unexpectedEnd → x = .error ⟨problem, left ++ t :: rest⟩ →
    x' = .error ⟨problem, left ++ t :: rest'⟩

section Stable

variable {α β : Type} {us : List Token} {x x' : Except Stuck (α × List Token)}

theorem stable_ok (a : α) (us : List Token) :
    Stable t rest rest' (.ok (a, us ++ t :: rest)) (.ok (a, us ++ t :: rest')) := by
  constructor
  · intro b left h
    simp only [Except.ok.injEq, Prod.mk.injEq, List.append_cancel_right_eq] at h
    rw [h.1, h.2]
  · intro problem left _ h
    cases h

theorem stable_error (problem : Problem) (us : List Token) :
    Stable (α := α) t rest rest' (.error ⟨problem, us ++ t :: rest⟩)
      (.error ⟨problem, us ++ t :: rest'⟩) := by
  constructor
  · intro b left h
    cases h
  · intro problem' left _ h
    simp only [Except.error.injEq, Stuck.mk.injEq, List.append_cancel_right_eq] at h
    rw [h.1, h.2]

/-- A run that has taken `t` does not leave it. -/
theorem stable_of_past (h : remaining x <:+ rest) : Stable t rest rest' x x' := by
  have hshort : ∀ left, ¬(left ++ t :: rest) <:+ rest := by
    intro left hsuffix
    have hlength := hsuffix.length_le
    simp only [List.length_append, List.length_cons] at hlength
    omega
  constructor
  · rintro a left rfl
    exact absurd h (hshort left)
  · rintro problem left _ rfl
    exact absurd h (hshort left)

theorem stable_of_unexpectedEnd (left : List Token) :
    Stable t rest rest' (.error ⟨.unexpectedEnd, left⟩) x' := by
  constructor
  · intro a left h
    cases h
  · intro problem left hne h
    cases h
    exact absurd rfl hne

/-- A step that leaves `t` found it left by the step before. -/
theorem Stable.bind {f f' : α × List Token → Except Stuck (β × List Token)}
    (hx : Stable t rest rest' x x') (hshort : remaining x <:+ us ++ t :: rest)
    (hleft : ∀ found, remaining (f found) <:+ found.2)
    (hf : ∀ a left, left <:+ us → x = .ok (a, left ++ t :: rest) →
      Stable t rest rest' (f (a, left ++ t :: rest)) (f' (a, left ++ t :: rest'))) :
    Stable t rest rest' (x >>= f) (x' >>= f') := by
  have hfound : ∀ {a found left}, x = .ok (a, found) →
      remaining (f (a, found)) = left ++ t :: rest →
      ∃ more, more <:+ us ∧ found = more ++ t :: rest := by
    intro a found left hok hremaining
    have hsuffix := hleft (a, found)
    rw [hremaining] at hsuffix
    obtain ⟨taken, rfl⟩ := hsuffix
    refine ⟨taken ++ left, ?_, by rw [List.append_assoc]⟩
    rw [hok] at hshort
    obtain ⟨before, hbefore⟩ := hshort
    exact ⟨before, by simpa [remaining, ← List.append_assoc] using hbefore⟩
  constructor
  · intro b left h
    obtain ⟨⟨a, found⟩, hok, hb⟩ := except_bind_eq_ok.mp h
    obtain ⟨more, hmore, rfl⟩ := hfound hok (by rw [hb]; rfl)
    rw [hx.ok hok]
    exact (hf a more hmore hok).ok hb
  · intro problem left hne h
    rcases except_bind_eq_error.mp h with herror | ⟨⟨a, found⟩, hok, hb⟩
    · rw [hx.error hne herror]
      rfl
    · obtain ⟨more, hmore, rfl⟩ := hfound hok (by rw [hb]; rfl)
      rw [hx.ok hok]
      exact (hf a more hmore hok).error hne hb

theorem lexeme_of_atSymbol {sign : Symbol} {u : Token} {ts : List Token}
    (h : atSymbol sign (u :: ts) = true) : u.lexeme = .symbol sign := by
  simpa [atSymbol_iff] using h

theorem next?_unread (us rest rest' : List Token) :
    next? (us ++ t :: rest') = next? (us ++ t :: rest) := by
  cases us <;> rfl

theorem atSymbol_unread (sign : Symbol) (us rest rest' : List Token) :
    atSymbol sign (us ++ t :: rest') = atSymbol sign (us ++ t :: rest) := by
  rw [atSymbol, atSymbol, next?_unread us rest rest']

theorem stable_tail {f f' : List Token → Except Stuck (α × List Token)}
    (hleft : ∀ ts, remaining (f ts) <:+ ts)
    (hf : ∀ left, left <:+ us →
      Stable t rest rest' (f (left ++ t :: rest)) (f' (left ++ t :: rest'))) :
    Stable t rest rest' (f (us ++ t :: rest).tail) (f' (us ++ t :: rest').tail) := by
  cases us with
  | nil => exact stable_of_past (hleft rest)
  | cons u us => exact hf us (List.suffix_cons u us)

theorem stable_expect_bind {sign : Symbol} {f f' : List Token → Except Stuck (α × List Token)}
    (hleft : ∀ ts, remaining (f ts) <:+ ts)
    (hf : ∀ left, us.map Token.lexeme = .symbol sign :: left.map Token.lexeme →
      Stable t rest rest' (f (left ++ t :: rest)) (f' (left ++ t :: rest'))) :
    Stable t rest rest' (expect sign (us ++ t :: rest) >>= f)
      (expect sign (us ++ t :: rest') >>= f') := by
  unfold expect
  rw [atSymbol_unread sign us rest rest', next?_unread us rest rest']
  by_cases hat : atSymbol sign (us ++ t :: rest) = true
  · rw [if_pos hat, if_pos hat]
    cases us with
    | nil => exact stable_of_past (hleft rest)
    | cons u us =>
      exact hf us (by rw [List.map_cons, lexeme_of_atSymbol hat])
  · rw [if_neg hat, if_neg hat]
    exact stable_error _ us

/-- Either the sign is `t`, or it is looked for before `t`. -/
theorem skip_unread (sign : Symbol) (us : List Token) :
    (skip sign (us ++ t :: rest)).2 <:+ rest ∨
      ∃ present left, us.map Token.lexeme = optionally sign present ++ left.map Token.lexeme ∧
        skip sign (us ++ t :: rest) = (present, left ++ t :: rest) ∧
        skip sign (us ++ t :: rest') = (present, left ++ t :: rest') := by
  unfold skip
  rw [atSymbol_unread sign us rest rest']
  by_cases hat : atSymbol sign (us ++ t :: rest) = true
  · rw [if_pos hat, if_pos hat]
    cases us with
    | nil => exact .inl (List.suffix_refl rest)
    | cons u us =>
      refine .inr ⟨true, us, ?_, rfl, rfl⟩
      rw [List.map_cons, lexeme_of_atSymbol hat]
      rfl
  · rw [if_neg hat, if_neg hat]
    exact .inr ⟨false, us, rfl, rfl, rfl⟩

end Stable

/-! ## Names that a question mark may follow -/

/-- Whole parameters with a comma after each, and the name after an ellipsis or not that may begin
another. -/
inductive NameAfterParameters : List Lexeme → Prop
  | name (variadic : Bool) (name : String) :
    NameAfterParameters (optionally .ellipsis variadic ++ [.name name])
  | item {parameter : ParameterPhrase} {ls : List Lexeme} : parameter.Admissible →
    NameAfterParameters ls → NameAfterParameters (parameter.lexemes ++ .symbol .comma :: ls)

/-- The last lexeme is a name that a parameter begins with. -/
def NamesParameter (ls : List Lexeme) : Prop :=
  ∃ before after, NameAfterParameters after ∧ ls = before ++ .symbol .openParen :: after

theorem NamesParameter.append {ls : List Lexeme} (before : List Lexeme) (h : NamesParameter ls) :
    NamesParameter (before ++ ls) := by
  obtain ⟨earlier, after, hafter, rfl⟩ := h
  exact ⟨before ++ earlier, after, hafter, by rw [List.append_assoc]⟩

/-- What begins a parameter after one begins it after two. -/
theorem NamesParameter.item {ls : List Lexeme} {parameter : ParameterPhrase}
    (ha : parameter.Admissible) (h : NamesParameter (.symbol .openParen :: ls)) :
    NamesParameter (.symbol .openParen :: (parameter.lexemes ++ .symbol .comma :: ls)) := by
  obtain ⟨before, after, hafter, hls⟩ := h
  cases before with
  | nil =>
    cases hls
    exact ⟨[], _, .item ha hafter, rfl⟩
  | cons l before =>
    rw [List.cons_append, List.cons.injEq] at hls
    have hnames : NamesParameter ls := ⟨before, after, hafter, hls.2⟩
    have hmore := hnames.append (.symbol .openParen :: (parameter.lexemes ++ [.symbol .comma]))
    simpa using hmore

/-- The token is a question mark that may mark the name before it. -/
def MarksName (t : Token) (before : List Lexeme) : Prop :=
  t.lexeme = .symbol .question ∧ NamesParameter before

/-- In `(a ? b)` the question mark is at fault, and `(a?: b)` begins with the same tokens. -/
example : MarksName ⟨.symbol .question, 3⟩ [.symbol .openParen, .name "a"] :=
  ⟨rfl, [], _, .name false "a", rfl⟩

theorem MarksName.append {ls : List Lexeme} (before : List Lexeme) (h : MarksName t ls) :
    MarksName t (before ++ ls) :=
  ⟨h.1, h.2.append before⟩

theorem MarksName.of_suffix {left us : List Token} (hsuffix : left <:+ us)
    (h : MarksName t (left.map Token.lexeme)) : MarksName t (us.map Token.lexeme) := by
  obtain ⟨taken, rfl⟩ := hsuffix
  rw [List.map_append]
  exact h.append _

/-- A label is read before `t`, or with `t` as its colon, or looked for from the name `t` on. -/
theorem readLabel_unread {us : List Token}
    (hmark : t.lexeme = .symbol .question → ∀ name, us.map Token.lexeme ≠ [.name name]) :
    (readLabel (us ++ t :: rest)).2 <:+ rest ∨
      (us = [] ∧ t.lexeme.beginsType = true ∧ readLabel (t :: rest) = (none, t :: rest)) ∨
      ∃ label left, us.map Token.lexeme = labelLexemes label ++ left.map Token.lexeme ∧
        readLabel (us ++ t :: rest) = (label, left ++ t :: rest) ∧
        readLabel (us ++ t :: rest') = (label, left ++ t :: rest') := by
  cases us with
  | nil =>
    obtain ⟨lexeme, position⟩ := t
    cases lexeme with
    | name name =>
      rw [List.nil_append, readLabel_name]
      split
      · exact .inl (List.tail_suffix rest)
      split
      · exact .inl ((List.tail_suffix _).trans (List.tail_suffix rest))
      · exact .inr (.inl ⟨rfl, rfl, rfl⟩)
    | _ => exact .inr (.inr ⟨none, [], rfl, rfl, rfl⟩)
  | cons u us =>
    obtain ⟨lexeme, position⟩ := u
    cases lexeme with
    | name name =>
      rw [List.cons_append, List.cons_append, readLabel_name, readLabel_name,
        atSymbol_unread .colon us rest rest', atSymbol_unread .question us rest rest']
      by_cases hcolon : atSymbol .colon (us ++ t :: rest) = true
      · rw [if_pos hcolon, if_pos hcolon]
        cases us with
        | nil => exact .inl (List.suffix_refl rest)
        | cons v us =>
          refine .inr (.inr ⟨some (name, false), us, ?_, rfl, rfl⟩)
          rw [List.map_cons, List.map_cons, lexeme_of_atSymbol hcolon]
          rfl
      · rw [if_neg hcolon, if_neg hcolon]
        cases us with
        | nil =>
          have hquestion : atSymbol .question ([] ++ t :: rest) = false :=
            Bool.eq_false_iff.mpr fun hat => hmark (lexeme_of_atSymbol hat) name rfl
          rw [hquestion, Bool.false_and, Bool.false_and]
          exact .inr (.inr ⟨none, [_], rfl, rfl, rfl⟩)
        | cons v us =>
          rw [List.cons_append, List.cons_append, List.tail_cons, List.tail_cons,
            atSymbol_unread .colon us rest rest']
          by_cases hboth : (atSymbol .question (v :: (us ++ t :: rest)) &&
              atSymbol .colon (us ++ t :: rest)) = true
          · rw [if_pos hboth, if_pos hboth]
            obtain ⟨hquestion, hcolon⟩ := Bool.and_eq_true_iff.mp hboth
            cases us with
            | nil => exact .inl (List.suffix_refl rest)
            | cons w us =>
              refine .inr (.inr ⟨some (name, true), us, ?_, rfl, rfl⟩)
              rw [List.map_cons, List.map_cons, List.map_cons, lexeme_of_atSymbol hquestion,
                lexeme_of_atSymbol hcolon]
              rfl
          · rw [if_neg hboth, if_neg hboth]
            exact .inr (.inr ⟨none, ⟨.name name, position⟩ :: v :: us, rfl, rfl, rfl⟩)
    | _ => exact .inr (.inr ⟨none, _ :: us, rfl, rfl, rfl⟩)

/-! ## Stable readers -/

/-- At this depth every reader is stable, unless `t` may mark a name, and so is each with more
depth against it. -/
structure StableAt (t : Token) (rest rest' : List Token) (depth : Nat) : Prop where
  type : ∀ {depth' us}, depth ≤ depth' → ¬MarksName t (us.map Token.lexeme) →
    Stable t rest rest' (readType depth (us ++ t :: rest)) (readType depth' (us ++ t :: rest'))
  single : ∀ {depth' us}, depth ≤ depth' → ¬MarksName t (us.map Token.lexeme) →
    Stable t rest rest' (readSingle depth (us ++ t :: rest)) (readSingle depth' (us ++ t :: rest'))
  alternatives : ∀ {depth' us}, depth ≤ depth' → ¬MarksName t (us.map Token.lexeme) →
    Stable t rest rest' (readAlternatives depth (us ++ t :: rest))
      (readAlternatives depth' (us ++ t :: rest'))
  arguments : ∀ {depth' us}, depth ≤ depth' → ¬MarksName t (us.map Token.lexeme) →
    Stable t rest rest' (readArguments depth (us ++ t :: rest))
      (readArguments depth' (us ++ t :: rest'))
  fields : ∀ {depth' us}, depth ≤ depth' → ¬MarksName t (us.map Token.lexeme) →
    Stable t rest rest' (readFields depth (us ++ t :: rest)) (readFields depth' (us ++ t :: rest'))
  parameters : ∀ {depth' us}, depth ≤ depth' → (atSymbol .closeParen (us ++ t :: rest) = true ∨
      ¬MarksName t (.symbol .openParen :: us.map Token.lexeme)) →
    Stable t rest rest' (readParameters depth (us ++ t :: rest))
      (readParameters depth' (us ++ t :: rest'))

/-- An item is stable if its type is and the others are, which come after a comma or not at all. -/
theorem stable_readItem {α : Type} {depth depth' : Nat} {us : List Token} {close : Symbol}
    {item : TypeExpr → α} {others others' : List Token → Except Stuck (List α × List Token)}
    (htype : Stable t rest rest' (readType depth (us ++ t :: rest))
      (readType depth' (us ++ t :: rest')))
    (hleft : ∀ ts, remaining (others ts) <:+ ts)
    (hothers : ∀ (type : TypePhrase) left, type.Admissible →
      (atSymbol close (left ++ t :: rest) = true ∧
          us.map Token.lexeme = type.lexemes ++ left.map Token.lexeme ∨
        us.map Token.lexeme = type.lexemes ++ .symbol .comma :: left.map Token.lexeme) →
      Stable t rest rest' (others (left ++ t :: rest)) (others' (left ++ t :: rest'))) :
    Stable t rest rest' (readItem (readType depth) close item others (us ++ t :: rest))
      (readItem (readType depth') close item others' (us ++ t :: rest')) := by
  refine htype.bind ((shortensAt depth).type _) (fun found => ?_) fun a left hsuffix hread => ?_
  · refine remaining_afterItem_bind fun last => ?_
    exact remaining_bind (hleft last) fun _ => List.suffix_refl _
  obtain ⟨type, ha, -, hmap, -⟩ := (soundAt depth).type hread
  have hus : us.map Token.lexeme = type.lexemes ++ left.map Token.lexeme := by
    simpa [← List.append_assoc] using hmap
  have hmore : ∀ last, Stable t rest rest' (others (last ++ t :: rest))
      (others' (last ++ t :: rest')) →
      Stable t rest rest'
        (others (last ++ t :: rest) >>= fun found => .ok (item a :: found.1, found.2))
        (others' (last ++ t :: rest') >>= fun found => .ok (item a :: found.1, found.2)) :=
    fun last hlast => hlast.bind (hleft _) (fun _ => List.suffix_refl _) fun more left _ _ =>
      stable_ok (item a :: more) left
  dsimp only
  unfold afterItem
  rw [atSymbol_unread close left rest rest']
  by_cases hclose : atSymbol close (left ++ t :: rest) = true
  · rw [if_pos hclose, if_pos hclose]
    exact hmore left (hothers type left ha (.inl ⟨hclose, hus⟩))
  · rw [if_neg hclose, if_neg hclose]
    refine stable_expect_bind (fun ts => remaining_bind (hleft ts) fun _ => List.suffix_refl _)
      fun last hlast => ?_
    exact hmore last (hothers type last ha (.inr (by rw [hus, hlast])))

/-- An item whose type begins with `t` takes it, if there is depth for that. -/
theorem stable_readItem_begin {α : Type} {depth : Nat} {close : Symbol} {item : TypeExpr → α}
    {others : List Token → Except Stuck (List α × List Token)}
    {x' : Except Stuck (List α × List Token)} (hbegins : t.lexeme.beginsType = true)
    (hleft : ∀ ts, remaining (others ts) <:+ ts) :
    Stable t rest rest' (readItem (readType depth) close item others (t :: rest)) x' := by
  rcases depth with _ | _ | depth
  · exact stable_of_unexpectedEnd _
  · exact stable_of_unexpectedEnd _
  · refine stable_of_past (remaining_readItem ?_ hleft)
    rw [readType]
    refine remaining_bind ((shortensAt depth).begin_succ rest hbegins) fun found => ?_
    exact remaining_bind ((shortensAt (depth + 1)).alternatives _) fun _ => List.suffix_refl _

namespace StableAt

variable {depth depth' : Nat} (h : StableAt t rest rest' depth) {us : List Token}

include h

theorem type_succ (hdepth : depth ≤ depth') (hmark : ¬MarksName t (us.map Token.lexeme)) :
    Stable t rest rest' (readType (depth + 1) (us ++ t :: rest))
      (readType (depth' + 1) (us ++ t :: rest')) := by
  rw [readType, readType]
  refine (h.single hdepth hmark).bind ((shortensAt depth).single _) (fun found => ?_)
    fun first left hleft _ => ?_
  · exact remaining_bind ((shortensAt depth).alternatives _) fun _ => List.suffix_refl _
  refine (h.alternatives hdepth (mt (.of_suffix hleft) hmark)).bind
    ((shortensAt depth).alternatives _) (fun _ => List.suffix_refl _) fun more last _ _ => ?_
  exact stable_ok _ last

theorem alternatives_succ (hdepth : depth ≤ depth') (hmark : ¬MarksName t (us.map Token.lexeme)) :
    Stable t rest rest' (readAlternatives (depth + 1) (us ++ t :: rest))
      (readAlternatives (depth' + 1) (us ++ t :: rest')) := by
  rw [readAlternatives, readAlternatives, atSymbol_unread .bar us rest rest']
  by_cases hbar : atSymbol .bar (us ++ t :: rest) = true
  · rw [if_pos hbar, if_pos hbar]
    refine (stable_tail (shortensAt depth).single fun left hleft =>
      h.single hdepth (mt (.of_suffix hleft) hmark)).bind
      (((shortensAt depth).single _).trans (List.tail_suffix _)) (fun found => ?_)
      fun type left hleft _ => ?_
    · exact remaining_bind ((shortensAt depth).alternatives _) fun _ => List.suffix_refl _
    refine (h.alternatives hdepth (mt (.of_suffix hleft) hmark)).bind
      ((shortensAt depth).alternatives _) (fun _ => List.suffix_refl _) fun more last _ _ => ?_
    exact stable_ok _ last
  · rw [if_neg hbar, if_neg hbar]
    exact stable_ok [] us

theorem arguments_succ (hdepth : depth ≤ depth') (hmark : ¬MarksName t (us.map Token.lexeme)) :
    Stable t rest rest' (readArguments (depth + 1) (us ++ t :: rest))
      (readArguments (depth' + 1) (us ++ t :: rest')) := by
  rw [readArguments, readArguments]
  refine (h.type hdepth hmark).bind ((shortensAt depth).type _) (fun found => ?_)
    fun type left hleft _ => ?_
  · dsimp only
    split
    · exact remaining_bind (((shortensAt depth).arguments _).trans (List.tail_suffix _))
        fun _ => List.suffix_refl _
    · exact remaining_expect_bind fun _ => List.suffix_refl _
  dsimp only
  rw [atSymbol_unread .comma left rest rest']
  by_cases hcomma : atSymbol .comma (left ++ t :: rest) = true
  · rw [if_pos hcomma, if_pos hcomma]
    refine (stable_tail (shortensAt depth).arguments fun last hlast =>
      h.arguments hdepth (mt (.of_suffix (hlast.trans hleft)) hmark)).bind
      (((shortensAt depth).arguments _).trans (List.tail_suffix _)) (fun _ => List.suffix_refl _)
      fun more last _ _ => ?_
    exact stable_ok _ last
  · rw [if_neg hcomma, if_neg hcomma]
    exact stable_expect_bind (fun _ => List.suffix_refl _) fun last _ => stable_ok _ last

theorem fields_succ (hdepth : depth ≤ depth') (hmark : ¬MarksName t (us.map Token.lexeme)) :
    Stable t rest rest' (readFields (depth + 1) (us ++ t :: rest))
      (readFields (depth' + 1) (us ++ t :: rest')) := by
  cases us with
  | nil =>
    obtain ⟨lexeme, position⟩ := t
    cases lexeme with
    | symbol sign =>
      cases sign with
      | closeBrace => exact stable_of_past (List.suffix_refl rest)
      | _ => exact stable_error _ []
    | name name => exact stable_of_past ((shortensAt depth).name_succ rest name position)
    | _ => exact stable_error _ []
  | cons u us =>
    obtain ⟨lexeme, position⟩ := u
    cases lexeme with
    | symbol sign =>
      cases sign with
      | closeBrace => exact stable_ok [] us
      | _ => exact stable_error _ (_ :: us)
    | name name =>
      rw [List.cons_append, List.cons_append, readFields_item, readFields_item]
      rcases skip_unread .question us with hpast | ⟨optional, left, hus, hskip, hskip'⟩
      · refine stable_of_past (List.IsSuffix.trans (remaining_expect_bind fun ts => ?_) hpast)
        exact remaining_readItem ((shortensAt depth).type ts) (shortensAt depth).fields
      rw [hskip, hskip']
      refine stable_expect_bind (fun ts => ?_) fun last hlast => ?_
      · exact remaining_readItem ((shortensAt depth).type ts) (shortensAt depth).fields
      rw [List.map_cons, hus, hlast] at hmark
      have hnot : ∀ ls, last.map Token.lexeme = ls → ¬MarksName t ls := by
        rintro ls rfl hmarks
        refine hmark ?_
        have hmore := hmarks.append (.name name :: (optionally .question optional ++
          [.symbol .colon]))
        simpa using hmore
      refine stable_readItem (h.type hdepth (hnot _ rfl)) (shortensAt depth).fields ?_
      rintro type after - (⟨-, hafter⟩ | hafter)
      · exact h.fields hdepth fun hmarks => hnot _ hafter (hmarks.append _)
      · refine h.fields hdepth fun hmarks => hnot _ hafter ?_
        have hmore := hmarks.append (type.lexemes ++ [.symbol .comma])
        simpa using hmore
    | _ => exact stable_error _ (_ :: us)

theorem parameters_succ (hdepth : depth ≤ depth')
    (hcontext : atSymbol .closeParen (us ++ t :: rest) = true ∨
      ¬MarksName t (.symbol .openParen :: us.map Token.lexeme)) :
    Stable t rest rest' (readParameters (depth + 1) (us ++ t :: rest))
      (readParameters (depth' + 1) (us ++ t :: rest')) := by
  by_cases hat : atSymbol .closeParen (us ++ t :: rest) = true
  · rw [readParameters, readParameters, atSymbol_unread .closeParen us rest rest', if_pos hat,
      if_pos hat]
    cases us with
    | nil => exact stable_of_past (List.suffix_refl rest)
    | cons u us => exact stable_ok [] us
  have hmark := hcontext.resolve_left hat
  have hat' : ¬atSymbol .closeParen (us ++ t :: rest') = true := by
    rwa [atSymbol_unread .closeParen us rest rest']
  rw [readParameters_item depth hat, readParameters_item depth' hat']
  rcases skip_unread .ellipsis us with hpast | ⟨variadic, labelled, hus, hskip, hskip'⟩
  · refine stable_of_past (remaining_readItem ?_ (shortensAt depth).parameters)
    exact (((shortensAt depth).type _).trans (readLabel_suffix _)).trans hpast
  rw [hskip, hskip']
  have hname : t.lexeme = .symbol .question → ∀ name, labelled.map Token.lexeme ≠ [.name name] := by
    intro hquestion name hlabelled
    rw [hus, hlabelled] at hmark
    exact hmark ⟨hquestion, [], _, .name variadic name, rfl⟩
  -- The label takes `t`, or `t` is a name that the type takes, or both are read from before `t`.
  rcases readLabel_unread hname with hpast | ⟨rfl, hbegins, hlabel⟩ |
    ⟨label, left, hlabelled, hlabel, hlabel'⟩
  · refine stable_of_past (remaining_readItem ?_ (shortensAt depth).parameters)
    exact ((shortensAt depth).type _).trans hpast
  · rw [List.nil_append, hlabel]
    exact stable_readItem_begin hbegins (shortensAt depth).parameters
  rw [hlabel, hlabel']
  rw [hus, hlabelled] at hmark
  refine stable_readItem (h.type hdepth fun hmarks => ?_) (shortensAt depth).parameters ?_
  · have hmore := hmarks.append (.symbol .openParen ::
      (optionally .ellipsis variadic ++ labelLexemes label))
    exact hmark (by simpa using hmore)
  · rintro type after ha (⟨hclose, -⟩ | hafter)
    · exact h.parameters hdepth (.inl hclose)
    · refine h.parameters hdepth (.inr fun hmarks => hmark ⟨hmarks.1, ?_⟩)
      have hparameter : (ParameterPhrase.mk variadic label type).Admissible := by
        rwa [ParameterPhrase.Admissible]
      have hmore := hmarks.2.item hparameter
      simpa [ParameterPhrase.lexemes, hafter] using hmore

theorem function_succ {position : Nat} (hdepth : depth ≤ depth')
    (hmark : ¬MarksName t (.symbol .openParen :: us.map Token.lexeme)) :
    Stable t rest rest'
      (readSingle (depth + 1) (⟨.symbol .openParen, position⟩ :: (us ++ t :: rest)))
      (readSingle (depth' + 1) (⟨.symbol .openParen, position⟩ :: (us ++ t :: rest'))) := by
  have hmark' : ¬MarksName t (us.map Token.lexeme) := mt (.append [_]) hmark
  rw [readSingle, readSingle]
  refine (h.parameters hdepth (.inr hmark)).bind ((shortensAt depth).parameters _)
    (fun found => ?_) fun parameters left hleft _ => ?_
  · dsimp only
    split
    · exact remaining_bind (((shortensAt depth).type _).trans (List.tail_suffix _))
        fun _ => List.suffix_refl _
    · exact List.suffix_refl _
  dsimp only
  rw [atSymbol_unread .arrow left rest rest', atSymbol_unread .asciiArrow left rest rest']
  split
  · refine (stable_tail (shortensAt depth).type fun last hlast =>
      h.type hdepth (mt (.of_suffix (hlast.trans hleft)) hmark')).bind
      (((shortensAt depth).type _).trans (List.tail_suffix _)) (fun _ => List.suffix_refl _)
      fun result last _ _ => ?_
    exact stable_ok _ last
  · exact stable_ok _ left

theorem name_succ {name : String} {position : Nat} (hdepth : depth ≤ depth')
    (hmark : ¬MarksName t (us.map Token.lexeme)) :
    Stable t rest rest' (readSingle (depth + 1) (⟨.name name, position⟩ :: (us ++ t :: rest)))
      (readSingle (depth' + 1) (⟨.name name, position⟩ :: (us ++ t :: rest'))) := by
  rw [readSingle, readSingle, atSymbol_unread .openAngle us rest rest']
  split
  · refine (stable_tail (shortensAt depth).arguments fun left hleft =>
      h.arguments hdepth (mt (.of_suffix hleft) hmark)).bind
      (((shortensAt depth).arguments _).trans (List.tail_suffix _)) (fun _ => List.suffix_refl _)
      fun more left _ _ => ?_
    exact stable_ok _ left
  · exact stable_ok _ us

theorem single_succ (hdepth : depth ≤ depth') (hmark : ¬MarksName t (us.map Token.lexeme)) :
    Stable t rest rest' (readSingle (depth + 1) (us ++ t :: rest))
      (readSingle (depth' + 1) (us ++ t :: rest')) := by
  cases us with
  | nil =>
    cases hbegins : t.lexeme.beginsType with
    | true => exact stable_of_past ((shortensAt depth).begin_succ rest hbegins)
    | false =>
      rw [List.nil_append, List.nil_append, readSingle_unexpected depth hbegins,
        readSingle_unexpected depth' hbegins]
      exact stable_error _ []
  | cons u us =>
    have hmark' : ¬MarksName t (us.map Token.lexeme) := mt (.append [_]) hmark
    obtain ⟨lexeme, position⟩ := u
    rw [List.cons_append, List.cons_append]
    cases lexeme with
    | symbol sign =>
      cases sign with
      | question =>
        rw [readSingle, readSingle]
        refine (h.single hdepth hmark').bind ((shortensAt depth).single _)
          (fun _ => List.suffix_refl _) fun inner left _ _ => ?_
        exact stable_ok _ left
      | openBracket =>
        rw [readSingle, readSingle]
        refine (h.type hdepth hmark').bind ((shortensAt depth).type _) (fun found => ?_)
          fun element left _ _ => ?_
        · exact remaining_expect_bind fun _ => List.suffix_refl _
        · exact stable_expect_bind (fun _ => List.suffix_refl _) fun last _ => stable_ok _ last
      | openBrace =>
        rw [readSingle, readSingle]
        refine (h.fields hdepth hmark').bind ((shortensAt depth).fields _)
          (fun _ => List.suffix_refl _) fun fields left _ _ => ?_
        exact stable_ok _ left
      | openParen => exact h.function_succ hdepth hmark
      | _ => exact stable_error _ (_ :: us)
    | quoted text => exact stable_ok _ us
    | number text => exact stable_ok _ us
    | name name => exact h.name_succ hdepth hmark'

end StableAt

theorem stableAt (t : Token) (rest rest' : List Token) (depth : Nat) :
    StableAt t rest rest' depth := by
  induction depth with
  | zero => constructor <;> intros <;> exact stable_of_unexpectedEnd _
  | succ depth ih =>
    constructor
    all_goals
      intro depth' us hdepth hmark
      obtain ⟨more, rfl⟩ := Nat.exists_eq_add_of_le' hdepth
    · exact ih.type_succ (Nat.le_add_left ..) hmark
    · exact ih.single_succ (Nat.le_add_left ..) hmark
    · exact ih.alternatives_succ (Nat.le_add_left ..) hmark
    · exact ih.arguments_succ (Nat.le_add_left ..) hmark
    · exact ih.fields_succ (Nat.le_add_left ..) hmark
    · exact ih.parameters_succ (Nat.le_add_left ..) hmark

end DocComments.TypeExpr
