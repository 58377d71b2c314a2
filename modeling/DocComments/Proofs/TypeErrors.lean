import DocComments.Proofs.TypeLookahead

/-!
# Where the error of a type specification points

A rejected specification points at the first token that is wrong. The tokens before it begin some
specification that is accepted. With it they do not, apart from one place: a question mark after
the name that a parameter begins with may still mark the name as optional, and the colon that
decides it comes after.

* `Viable`: lexemes that begin an accepted specification.
* `not_isType_of_stuck`: a type that began with the tokens up to the one at fault would have been
  rejected as well.
* `parse_error_position`: where the error points.
-/

namespace DocComments.TypeExpr

theorem ofTokens_suffix {ts : List Token} {stuck : Stuck} (h : ofTokens ts = .error stuck) :
    stuck.rest <:+ ts := by
  have hsuffix := (shortensAt (4 * ts.length + 4)).type ts
  rcases except_bind_eq_error.mp h with hread | ⟨⟨type, rest⟩, hread, h⟩
  · rw [read] at hread
    rwa [hread] at hsuffix
  · rw [read] at hread
    rw [hread] at hsuffix
    cases rest with
    | nil => cases h
    | cons token rest =>
      cases h
      exact hsuffix

/-- No type begins with the tokens up to the one at fault. -/
theorem not_isType_of_stuck {t : Token} {us rest : List Token} {problem : Problem}
    (h : ofTokens (us ++ t :: rest) = .error ⟨problem, t :: rest⟩)
    (hmark : ¬MarksName t (us.map Token.lexeme)) (rest' : List Token) :
    ¬IsType ((us ++ t :: rest').map Token.lexeme) := by
  rintro ⟨type, ha, hlexemes⟩
  have hproblem : problem ≠ .unexpectedEnd := fun hend => by
    cases (ofTokens_interrupted h).atEnd hend
  -- Both runs get the depth that the longer one needs.
  let depth' := max (4 * (us ++ t :: rest).length + 4) (4 * (us ++ t :: rest').length + 4)
  have hread' : ReadsAs (readType depth' (us ++ t :: rest')) type.type [] := by
    refine (completeAt depth').type type _ [] ha endsType_nil ?_ (by rw [hlexemes, List.append_nil])
    have hlength : type.lexemes.length = (us ++ t :: rest').length := by
      rw [hlexemes, List.length_map]
    omega
  obtain ⟨last, hread', hlast⟩ := hread'
  have hstable := (stableAt t rest rest' _).type (le_max_left _ _ : _ ≤ depth') hmark
  rcases except_bind_eq_error.mp h with hread | ⟨⟨found, left⟩, hread, h⟩
  · have hfails : readType depth' (us ++ t :: rest') = .error ⟨problem, [] ++ t :: rest'⟩ :=
      hstable.error hproblem hread
    rw [hread'] at hfails
    cases hfails
  · cases left with
    | nil => cases h
    | cons token left =>
      cases h
      have hleaves : readType depth' (us ++ t :: rest') = .ok (found, [] ++ t :: rest') :=
        hstable.ok hread
      rw [hread'] at hleaves
      cases hleaves
      cases hlast

/-- A text has these lexemes and is read as a type. -/
def IsAccepted (ls : List Lexeme) : Prop :=
  ∃ text ts type, tokens text = .ok ts ∧ ts.map Token.lexeme = ls ∧ parse text = .ok type

/-- The lexemes begin an accepted list. -/
def Viable (ls : List Lexeme) : Prop :=
  ∃ more, IsAccepted (ls ++ more)

theorem IsAccepted.isType {ls : List Lexeme} (h : IsAccepted ls) : IsType ls := by
  obtain ⟨text, ts, t, htokens, rfl, hparse⟩ := h
  obtain ⟨ts', htokens', hts⟩ := parse_eq_ok_iff.mp hparse
  rw [htokens] at htokens'
  cases htokens'
  obtain ⟨type, ha, hmap, -⟩ := ofTokens_eq_ok_iff.mp hts
  exact ⟨type, ha, hmap.symm⟩

theorem IsType.isAccepted {ls : List Lexeme} (h : IsType ls) (hwritten : AllWritten ls) :
    IsAccepted ls := by
  obtain ⟨ts, htokens, hmap⟩ := tokens_spaced hwritten
  obtain ⟨type, ha, hlexemes⟩ := h
  have hts : ofTokens ts = .ok type.type :=
    ofTokens_eq_ok_iff.mpr ⟨type, ha, by rw [hmap, hlexemes], rfl⟩
  exact ⟨_, ts, type.type, htokens, hmap, parse_eq_ok_iff.mpr ⟨ts, htokens, hts⟩⟩

theorem position_of_parse_error {text : String} {ts : List Token} {error : SpecError}
    (htokens : tokens text = .ok ts) (h : parse text = .error error) :
    ∃ stuck, ofTokens ts = .error stuck ∧
      error.position = (stuck.rest.head?.map Token.position).getD text.length := by
  unfold parse at h
  rw [htokens] at h
  cases hts : ofTokens ts with
  | ok type => simp [hts] at h
  | error stuck =>
    simp only [hts, Except.error.injEq] at h
    exact ⟨stuck, rfl, by rw [← h]⟩

/-- **The error of a type specification points at the first wrong token**, or at the end. The
tokens before it begin a specification that is accepted, and with it they begin none unless it may
mark the name before it. -/
theorem parse_error_position {text : String} {ts : List Token} {error : SpecError}
    (htokens : tokens text = .ok ts) (herror : parse text = .error error) :
    ∃ k ≤ ts.length, error.position = (ts[k]?.map Token.position).getD text.length ∧
      Viable ((ts.take k).map Token.lexeme) ∧
      ∀ t, ts[k]? = some t → MarksName t ((ts.take k).map Token.lexeme) ∨
        ¬Viable ((ts.take (k + 1)).map Token.lexeme) := by
  obtain ⟨⟨problem, rest⟩, hstuck, hposition⟩ := position_of_parse_error htokens herror
  obtain ⟨us, rfl⟩ := ofTokens_suffix hstuck
  have hhead : (us ++ rest)[us.length]? = rest.head? := by
    rw [List.getElem?_append_right (Nat.le_refl _), Nat.sub_self, List.head?_eq_getElem?]
  refine ⟨us.length, by simp, by rw [hposition, hhead], ?_, ?_⟩
  · rw [List.take_left]
    obtain ⟨-, taken, more, hmap, hmore, hwhole⟩ := ofTokens_interrupted hstuck
    rw [List.map_append, List.append_cancel_right_eq] at hmap
    subst hmap
    refine ⟨more, hwhole.isAccepted (allWritten_append.mpr ⟨?_, hmore⟩)⟩
    have hwritten := lexemes_of_tokens htokens
    rw [List.map_append] at hwritten
    exact (allWritten_append.mp hwritten).1
  · intro t ht
    rw [hhead] at ht
    obtain ⟨rest, rfl⟩ := List.head?_eq_some_iff.mp ht
    rw [List.take_left, List.take_length_add_append, or_iff_not_imp_left]
    rintro hmark ⟨more, haccepted⟩
    refine not_isType_of_stuck hstuck hmark (more.map (⟨·, 0⟩)) ?_
    have hmore : (more.map fun l => (⟨l, 0⟩ : Token)).map Token.lexeme = more := by
      rw [List.map_map]
      exact List.map_id more
    rw [List.map_append, List.map_cons, hmore]
    simpa using haccepted.isType

/-- An array with two element types. -/
def misplacedComma : String :=
  "(a: [b, c])"

def misplacedCommaTokens : List Token :=
  [⟨.symbol .openParen, 0⟩, ⟨.name "a", 1⟩, ⟨.symbol .colon, 2⟩, ⟨.symbol .openBracket, 4⟩,
    ⟨.name "b", 5⟩, ⟨.symbol .comma, 6⟩, ⟨.name "c", 8⟩, ⟨.symbol .closeBracket, 9⟩,
    ⟨.symbol .closeParen, 10⟩]

theorem parse_error_position_misplacedComma :
    tokens misplacedComma = .ok misplacedCommaTokens ∧
      parse misplacedComma = .error
        ⟨misplacedComma, 6, .token (.expected .closeBracket (some (.symbol .comma)))⟩ ∧
      Viable ((misplacedCommaTokens.take 5).map Token.lexeme) ∧
      ¬Viable ((misplacedCommaTokens.take 6).map Token.lexeme) := by
  have htokens : tokens misplacedComma = .ok misplacedCommaTokens := by decide +kernel
  have herror : parse misplacedComma = .error
      ⟨misplacedComma, 6, .token (.expected .closeBracket (some (.symbol .comma)))⟩ := by
    unfold parse
    rw [htokens]
    rfl
  obtain ⟨k, hk, hposition, hviable, hwrong⟩ := parse_error_position htokens herror
  have hindex : ∀ k ≤ misplacedCommaTokens.length,
      6 = (misplacedCommaTokens[k]?.map Token.position).getD misplacedComma.length → k = 5 := by
    decide +kernel
  obtain rfl := hindex k hk hposition
  refine ⟨htokens, herror, hviable, (hwrong _ rfl).resolve_left fun hmarks => ?_⟩
  cases hmarks.1

end DocComments.TypeExpr
