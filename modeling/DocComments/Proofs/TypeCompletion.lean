import DocComments.Proofs.NormalTypes

/-!
# Completing a type specification

A reader that fails has taken some tokens, up to the one at fault. They are the beginning of a
phrase: with lexemes that close what is open they become a whole one. And a reader that has depth
enough for its tokens misses a token only where there is none.

* `Interrupted`: a failure that leaves the beginning of a whole text of some kind.
* `IsListing`: fields and parameters alike, with what closes their list.
* `CompletableAt`: at a given depth all readers that fail are interrupted so, by induction on the
  depth with one lemma for each reader.
* `ofTokens_interrupted`: whatever tokens are rejected, those before the fault begin a type.
-/

namespace DocComments.TypeExpr

/-! ## Whole texts -/

/-- The lexemes of an admissible phrase. -/
def IsType (ls : List Lexeme) : Prop :=
  ∃ type : TypePhrase, type.Admissible ∧ type.lexemes = ls

def IsSingle (ls : List Lexeme) : Prop :=
  ∃ single : SinglePhrase, single.Admissible ∧ single.lexemes = ls

def IsAlternatives (ls : List Lexeme) : Prop :=
  ∃ more : List SinglePhrase, (∀ single ∈ more, single.Admissible) ∧
    ResultsLast (more.map SinglePhrase.type) ∧
    (more.map SinglePhrase.lexemes).flatMap (.symbol .bar :: ·) = ls

/-- Arguments and the angle bracket after them. -/
def IsArguments (ls : List Lexeme) : Prop :=
  ∃ (first : TypePhrase) (more : List TypePhrase), first.Admissible ∧
    (∀ type ∈ more, type.Admissible) ∧
    separated .comma (first.lexemes :: more.map TypePhrase.lexemes) ++ [.symbol .closeAngle] = ls

/-- Items with commas between them, maybe a comma after the last, and the sign that closes the
list. -/
def IsListing {α : Type} (lexemes : α → List Lexeme) (admissible : α → Prop) (close : Symbol)
    (ls : List Lexeme) : Prop :=
  ∃ (items : List α) (comma : Bool), (∀ item ∈ items, admissible item) ∧
    (comma = true → items ≠ []) ∧
    separated .comma (items.map lexemes) ++ (optionally .comma comma ++ [.symbol close]) = ls

abbrev IsFields : List Lexeme → Prop :=
  IsListing FieldPhrase.lexemes FieldPhrase.Admissible .closeBrace

abbrev IsParameters : List Lexeme → Prop :=
  IsListing ParameterPhrase.lexemes ParameterPhrase.Admissible .closeParen

section Listing

variable {α : Type} {lexemes : α → List Lexeme} {admissible : α → Prop} {close : Symbol}

theorem isListing_nil : IsListing lexemes admissible close [.symbol close] :=
  ⟨[], false, by simp, by simp, rfl⟩

theorem isListing_singleton {item : α} (h : admissible item) :
    IsListing lexemes admissible close (lexemes item ++ [.symbol close]) := by
  refine ⟨[item], false, by simpa using h, by simp, ?_⟩
  simp [separated_cons, optionally]

/-- With an item and a comma before it, a list is one item longer. -/
theorem IsListing.cons {item : α} (h : admissible item) {ls : List Lexeme}
    (hls : IsListing lexemes admissible close ls) :
    IsListing lexemes admissible close (lexemes item ++ .symbol .comma :: ls) := by
  obtain ⟨items, comma, hitems, hne, rfl⟩ := hls
  cases items with
  | nil =>
    have hnot : comma = false := by simpa using hne
    subst hnot
    refine ⟨[item], true, by simpa using h, by simp, ?_⟩
    simp [optionally, separated]
  | cons next items =>
    refine ⟨item :: next :: items, comma, List.forall_mem_cons.mpr ⟨h, hitems⟩, by simp, ?_⟩
    simp [separated_cons]

end Listing

theorem IsSingle.isType {ls : List Lexeme} (h : IsSingle ls) : IsType ls := by
  obtain ⟨single, ha, rfl⟩ := h
  refine ⟨.alternatives single [], ?_, ?_⟩
  · rw [TypePhrase.Admissible]
    exact ⟨ha, by simp, by simp [ResultsLast]⟩
  · simp [TypePhrase.lexemes, separated_cons]

/-- Some type, to complete a text with. -/
def filler : TypePhrase :=
  .alternatives (.named "a") []

theorem filler_lexemes : filler.lexemes = [.name "a"] := by
  simp [filler, TypePhrase.lexemes, SinglePhrase.lexemes, separated_cons]

theorem filler_admissible : filler.Admissible := by
  simp [filler, TypePhrase.Admissible, SinglePhrase.Admissible, ResultsLast]

theorem filler_written : AllWritten filler.lexemes := by
  rw [filler_lexemes, allWritten_cons]
  exact ⟨.part ⟨'a', [], rfl, by decide, by simp⟩, allWritten_nil⟩

theorem isSingle_filler : IsSingle filler.lexemes :=
  ⟨.named "a", by rw [SinglePhrase.Admissible]; trivial, by
    rw [filler_lexemes, SinglePhrase.lexemes]⟩

/-! ## Failures that can be mended -/

/-- The reading took the beginning of a whole text, which written lexemes complete, and missed a
token only at the end. -/
structure Interrupted (whole : List Lexeme → Prop) (ts : List Token) (stuck : Stuck) : Prop where
  atEnd : stuck.problem = .unexpectedEnd → stuck.rest = []
  completes : ∃ taken more, ts.map Token.lexeme = taken ++ stuck.rest.map Token.lexeme ∧
    AllWritten more ∧ whole (taken ++ more)

variable {whole whole' : List Lexeme → Prop} {ts rest : List Token} {stuck : Stuck}

/-- A failure within a part is one within the whole. -/
theorem Interrupted.within (h : Interrupted whole rest stuck) (before after : List Lexeme)
    (hts : ts.map Token.lexeme = before ++ rest.map Token.lexeme) (hafter : AllWritten after)
    (hwhole : ∀ ls, whole ls → whole' (before ++ (ls ++ after))) :
    Interrupted whole' ts stuck := by
  obtain ⟨hend, taken, more, hrest, hmore, hls⟩ := h
  refine ⟨hend, before ++ taken, more ++ after, ?_, ?_, ?_⟩
  · rw [hts, hrest, List.append_assoc]
  · exact allWritten_append.mpr ⟨hmore, hafter⟩
  · have hwholes := hwhole _ hls
    rwa [List.append_assoc] at hwholes ⊢

/-- A token that is not the sign which must come leaves what comes before it. -/
theorem interrupted_of_expect {sign : Symbol} (h : expect sign rest = .error stuck)
    {taken more : List Lexeme} (hts : ts.map Token.lexeme = taken ++ rest.map Token.lexeme)
    (hmore : AllWritten more) (hwhole : whole (taken ++ more)) : Interrupted whole ts stuck := by
  unfold expect at h
  split at h
  · cases h
  · cases h
    exact ⟨by simp, taken, more, hts, hmore, hwhole⟩

theorem interrupted_of_afterItem {close : Symbol} (h : afterItem close rest = .error stuck)
    {taken more : List Lexeme} (hts : ts.map Token.lexeme = taken ++ rest.map Token.lexeme)
    (hmore : AllWritten more) (hwhole : whole (taken ++ more)) : Interrupted whole ts stuck := by
  unfold afterItem at h
  split at h
  · cases h
  · exact interrupted_of_expect h hts hmore hwhole

/-! ## Lengths -/

theorem TypeDerives.length_lt {t : TypeExpr} (h : TypeDerives ts t rest) :
    rest.length < ts.length := by
  obtain ⟨type, -, -, hmap, -⟩ := h
  have hlength := congrArg List.length hmap
  have hpositive := type.lexemes_length_pos
  simp only [List.length_map, List.length_append] at hlength
  omega

theorem SingleDerives.length_lt {t : TypeExpr} (h : SingleDerives ts t rest) :
    rest.length < ts.length := by
  obtain ⟨single, -, -, hmap, -⟩ := h
  have hlength := congrArg List.length hmap
  obtain ⟨l, ls, hbegin, -⟩ := single.lexemes_begin
  simp only [hbegin, List.length_map, List.length_append, List.length_cons] at hlength
  omega

theorem length_tail_lt {sign : Symbol} (h : atSymbol sign ts = true) :
    ts.tail.length < ts.length := by
  cases ts with
  | nil => simp [atSymbol, next?] at h
  | cons token ts => simp

theorem interrupted_of_item {α β : Type} {lexemes : α → List Lexeme} {admissible : α → Prop}
    {close : Symbol} {before : List Lexeme} {phrase : TypePhrase → α} {depth : Nat}
    {item : TypeExpr → β} {others : List Token → Except Stuck (List β × List Token)}
    (hphrase : ∀ type, lexemes (phrase type) = before ++ type.lexemes)
    (hadmissible : ∀ type : TypePhrase, type.Admissible → admissible (phrase type))
    (hts : ts.map Token.lexeme = before ++ rest.map Token.lexeme)
    (htype : readType depth rest = .error stuck → Interrupted IsType rest stuck)
    (hothers : ∀ last : List Token, last.length < rest.length → others last = .error stuck →
      ¬atSymbol close last = true ∧ Interrupted (IsListing lexemes admissible close) last stuck)
    (hread : readItem (readType depth) close item others rest = .error stuck) :
    Interrupted (IsListing lexemes admissible close) ts stuck := by
  rcases except_bind_eq_error.mp hread with hread | ⟨⟨t, middle⟩, hfirst, hread⟩
  · refine (htype hread).within before [.symbol close] hts (by simp) ?_
    rintro ls ⟨type, ha, rfl⟩
    rw [← List.append_assoc, ← hphrase]
    exact isListing_singleton (hadmissible type ha)
  have hderives := (soundAt depth).type hfirst
  have hlength := hderives.length_lt
  obtain ⟨type, ha, -, hmap, -⟩ := hderives
  rw [hmap, ← List.append_assoc, ← hphrase] at hts
  rcases except_bind_eq_error.mp hread with hread | ⟨last, hafter, hread⟩
  · exact interrupted_of_afterItem hread hts (by simp) (isListing_singleton (hadmissible type ha))
  rcases except_bind_eq_error.mp hread with hmore | ⟨_, _, hread⟩
  · rcases map_of_afterItem hafter with ⟨hclose, rfl⟩ | hcomma
    · exact absurd hclose (hothers last hlength hmore).1
    · have hshorter := congrArg List.length hcomma
      simp only [List.length_map, List.length_cons] at hshorter
      refine (hothers last (by omega) hmore).2.within (lexemes (phrase type) ++ [.symbol .comma])
        [] ?_ allWritten_nil fun ls hls => ?_
      · rw [hts, hcomma]
        simp
      · simpa using hls.cons (hadmissible type ha)
  · cases hread

/-! ## Readers -/

/-- At this depth every reader that fails is interrupted. Its tokens bound the depth, as at most
three readers are entered before one is taken. -/
structure CompletableAt (depth : Nat) : Prop where
  type : ∀ {ts stuck}, 3 * ts.length + 1 < depth → readType depth ts = .error stuck →
    Interrupted IsType ts stuck
  single : ∀ {ts stuck}, 3 * ts.length < depth → readSingle depth ts = .error stuck →
    Interrupted IsSingle ts stuck
  alternatives : ∀ {ts stuck}, 3 * ts.length < depth → readAlternatives depth ts = .error stuck →
    atSymbol .bar ts = true ∧ Interrupted IsAlternatives ts stuck
  arguments : ∀ {ts stuck}, 3 * ts.length + 2 < depth → readArguments depth ts = .error stuck →
    Interrupted IsArguments ts stuck
  fields : ∀ {ts stuck}, 3 * ts.length + 2 < depth → readFields depth ts = .error stuck →
    ¬atSymbol .closeBrace ts = true ∧ Interrupted IsFields ts stuck
  parameters : ∀ {ts stuck}, 3 * ts.length + 2 < depth → readParameters depth ts = .error stuck →
    ¬atSymbol .closeParen ts = true ∧ Interrupted IsParameters ts stuck

/-- An alternative before a bar goes before others, since no bar follows a result. -/
theorem IsAlternatives.cons {t : TypeExpr} {single : SinglePhrase} (ha : single.Admissible)
    (ht : single.type = t) {middle : List Token}
    (hresult : endsInResult t = true → ¬atSymbol .bar middle = true)
    (hbar : atSymbol .bar middle = true) {ls : List Lexeme} (h : IsAlternatives ls) :
    IsAlternatives (.symbol .bar :: (single.lexemes ++ ls)) := by
  obtain ⟨more, hmore, hrule, rfl⟩ := h
  refine ⟨single :: more, List.forall_mem_cons.mpr ⟨ha, hmore⟩, ?_, by simp⟩
  rw [List.map_cons, resultsLast_cons, ht]
  exact ⟨fun _ => Bool.eq_false_iff.mpr fun htrue => hresult htrue hbar, hrule⟩

/-- Alternatives with a bar before each are a type without the first bar. -/
theorem IsAlternatives.isType {ls : List Lexeme} (h : IsAlternatives (.symbol .bar :: ls)) :
    IsType ls := by
  obtain ⟨more, hmore, hrule, hls⟩ := h
  cases more with
  | nil => simp at hls
  | cons first more =>
    simp only [List.map_cons, List.flatMap_cons, List.cons_append, List.cons.injEq,
      true_and] at hls
    refine ⟨.alternatives first more, ?_, ?_⟩
    · rw [TypePhrase.Admissible]
      obtain ⟨hfirst, hothers⟩ := List.forall_mem_cons.mp hmore
      exact ⟨hfirst, hothers, hrule⟩
    · rw [TypePhrase.lexemes, separated_cons, hls]

namespace CompletableAt

variable {depth : Nat} (h : CompletableAt depth)

include h

theorem type_succ (hdepth : 3 * ts.length + 1 < depth + 1)
    (hread : readType (depth + 1) ts = .error stuck) : Interrupted IsType ts stuck := by
  rw [readType] at hread
  rcases except_bind_eq_error.mp hread with hread | ⟨⟨first, middle⟩, hfirst, hread⟩
  · refine (h.single (by omega) hread).within [] [] rfl allWritten_nil fun ls hls => ?_
    simpa using hls.isType
  rcases except_bind_eq_error.mp hread with hread | ⟨_, _, hread⟩
  · have hderives := (soundAt depth).single hfirst
    have hlength := hderives.length_lt
    obtain ⟨single, ha, ht, hmap, hresult⟩ := hderives
    obtain ⟨hbar, hinterrupted⟩ := h.alternatives (by omega) hread
    refine hinterrupted.within single.lexemes [] hmap allWritten_nil fun ls hls => ?_
    rw [List.append_nil]
    exact (hls.cons ha ht hresult hbar).isType
  · cases hread

theorem alternatives_succ (hdepth : 3 * ts.length < depth + 1)
    (hread : readAlternatives (depth + 1) ts = .error stuck) :
    atSymbol .bar ts = true ∧ Interrupted IsAlternatives ts stuck := by
  rw [readAlternatives] at hread
  split at hread
  · rename_i hat
    have htail := length_tail_lt hat
    refine ⟨hat, ?_⟩
    rcases except_bind_eq_error.mp hread with hread | ⟨⟨first, middle⟩, hfirst, hread⟩
    · refine (h.single (by omega) hread).within [.symbol .bar] [] (map_of_atSymbol hat)
        allWritten_nil ?_
      rintro ls ⟨single, ha, rfl⟩
      exact ⟨[single], by simpa using ha, by simp [ResultsLast], by simp⟩
    rcases except_bind_eq_error.mp hread with hread | ⟨_, _, hread⟩
    · have hderives := (soundAt depth).single hfirst
      have hlength := hderives.length_lt
      obtain ⟨single, ha, ht, hmap, hresult⟩ := hderives
      obtain ⟨hbar, hinterrupted⟩ := h.alternatives (by omega) hread
      refine hinterrupted.within (.symbol .bar :: single.lexemes) [] ?_ allWritten_nil
        fun ls hls => ?_
      · rw [map_of_atSymbol hat, hmap, List.cons_append]
      · rw [List.append_nil]
        exact hls.cons ha ht hresult hbar
    · cases hread
  · cases hread

theorem arguments_succ (hdepth : 3 * ts.length + 2 < depth + 1)
    (hread : readArguments (depth + 1) ts = .error stuck) : Interrupted IsArguments ts stuck := by
  rw [readArguments] at hread
  rcases except_bind_eq_error.mp hread with hread | ⟨⟨t, middle⟩, htype, hread⟩
  · refine (h.type (by omega) hread).within [] [.symbol .closeAngle] rfl (by simp) ?_
    rintro ls ⟨type, ha, rfl⟩
    exact ⟨type, [], ha, by simp, by simp [separated_cons]⟩
  have hderives := (soundAt depth).type htype
  have hlength := hderives.length_lt
  obtain ⟨type, ha, -, hmap, -⟩ := hderives
  dsimp only at hread
  split at hread
  · rename_i hat
    have htail := length_tail_lt hat
    rcases except_bind_eq_error.mp hread with hread | ⟨_, _, hread⟩
    · refine (h.arguments (by omega) hread).within (type.lexemes ++ [.symbol .comma]) [] ?_
        allWritten_nil ?_
      · rw [hmap, map_of_atSymbol hat]
        simp
      · rintro ls ⟨first, more, hfirst, hmore, rfl⟩
        exact ⟨type, first :: more, ha, List.forall_mem_cons.mpr ⟨hfirst, hmore⟩, by
          simp [separated_cons]⟩
    · cases hread
  · rcases except_bind_eq_error.mp hread with hread | ⟨_, _, hread⟩
    · have hwhole : IsArguments (type.lexemes ++ [.symbol .closeAngle]) :=
        ⟨type, [], ha, by simp, by simp [separated_cons]⟩
      exact interrupted_of_expect hread hmap (by simp) hwhole
    · cases hread

theorem fields_succ (hdepth : 3 * ts.length + 2 < depth + 1)
    (hread : readFields (depth + 1) ts = .error stuck) :
    ¬atSymbol .closeBrace ts = true ∧ Interrupted IsFields ts stuck := by
  have hnothing : ∀ problem, (problem = .unexpectedEnd → ts = []) →
      Interrupted IsFields ts ⟨problem, ts⟩ := fun problem hend =>
    ⟨hend, [], [.symbol .closeBrace], rfl, by simp, isListing_nil⟩
  cases ts with
  | nil =>
    cases hread
    exact ⟨by simp [atSymbol_iff], hnothing _ fun _ => rfl⟩
  | cons token ts =>
    obtain ⟨lexeme, position⟩ := token
    cases lexeme with
    | symbol sign =>
      cases sign with
      | closeBrace => simp [readFields] at hread
      | _ =>
        cases hread
        exact ⟨by simp [atSymbol_iff], hnothing _ (by simp)⟩
    | quoted text =>
      cases hread
      exact ⟨by simp [atSymbol_iff], hnothing _ (by simp)⟩
    | number text =>
      cases hread
      exact ⟨by simp [atSymbol_iff], hnothing _ (by simp)⟩
    | name name =>
      refine ⟨by simp [atSymbol_iff], ?_⟩
      rw [readFields_item] at hread
      cases hskip : skip .question ts with
      | mk optional colon =>
      rw [hskip] at hread
      have hmap := map_of_skip hskip
      rcases except_bind_eq_error.mp hread with hread | ⟨start, hexpect, hread⟩
      · have hfield : IsFields ((FieldPhrase.mk name optional filler).lexemes ++
            [.symbol .closeBrace]) :=
          isListing_singleton (by rw [FieldPhrase.Admissible]; exact filler_admissible)
        have hwhole : IsFields ((.name name :: optionally .question optional) ++
            (.symbol .colon :: (filler.lexemes ++ [.symbol .closeBrace]))) := by
          simpa [FieldPhrase.lexemes, labelLexemes] using hfield
        refine interrupted_of_expect hread ?_ (by simpa using filler_written) hwhole
        rw [List.map_cons, hmap, List.cons_append]
      · have hlabel : (⟨.name name, position⟩ :: ts : List Token).map Token.lexeme =
            labelLexemes (some (name, optional)) ++ start.map Token.lexeme := by
          rw [List.map_cons, hmap, map_of_expect hexpect, labelLexemes]
          simp
        have hlength := congrArg List.length hlabel
        simp only [List.length_map, List.length_append, List.length_cons, labelLexemes]
          at hlength hdepth
        have hphrase : ∀ type, (FieldPhrase.mk name optional type).lexemes =
            labelLexemes (some (name, optional)) ++ type.lexemes := fun type => by
          rw [FieldPhrase.lexemes]
        refine interrupted_of_item hphrase ?_ hlabel (h.type (by omega))
          (fun last hlast => h.fields (by omega)) hread
        simp [FieldPhrase.Admissible]

theorem parameters_succ (hdepth : 3 * ts.length + 2 < depth + 1)
    (hread : readParameters (depth + 1) ts = .error stuck) :
    ¬atSymbol .closeParen ts = true ∧ Interrupted IsParameters ts stuck := by
  by_cases hat : atSymbol .closeParen ts = true
  · rw [readParameters, if_pos hat] at hread
    cases hread
  refine ⟨hat, ?_⟩
  rw [readParameters_item depth hat] at hread
  cases hskip : skip .ellipsis ts with
  | mk variadic labelled =>
  cases hlabel : readLabel labelled with
  | mk label start =>
  simp only [hskip, hlabel] at hread
  have hmap : ts.map Token.lexeme =
      (optionally .ellipsis variadic ++ labelLexemes label) ++ start.map Token.lexeme := by
    rw [map_of_skip hskip, map_of_readLabel hlabel, List.append_assoc]
  have hlength := congrArg List.length hmap
  simp only [List.length_map, List.length_append] at hlength
  have hphrase : ∀ type, (ParameterPhrase.mk variadic label type).lexemes =
      (optionally .ellipsis variadic ++ labelLexemes label) ++ type.lexemes := fun type => by
    rw [ParameterPhrase.lexemes, List.append_assoc]
  refine interrupted_of_item hphrase ?_ hmap (h.type (by omega))
    (fun last hlast => h.parameters (by omega)) hread
  simp [ParameterPhrase.Admissible]

theorem function_succ {position : Nat} (hdepth : 3 * ts.length + 2 < depth)
    (hread : readSingle (depth + 1) (⟨.symbol .openParen, position⟩ :: ts) = .error stuck) :
    Interrupted IsSingle (⟨.symbol .openParen, position⟩ :: ts) stuck := by
  rw [readSingle] at hread
  rcases except_bind_eq_error.mp hread with hread | ⟨⟨found, middle⟩, hparameters, hread⟩
  · refine (h.parameters hdepth hread).2.within [.symbol .openParen] [] rfl allWritten_nil ?_
    rintro ls ⟨parameters, comma, ha, hne, rfl⟩
    refine ⟨.function comma parameters, ?_, ?_⟩
    · rw [SinglePhrase.Admissible]
      exact ⟨ha, hne⟩
    · simp [SinglePhrase.lexemes]
  obtain ⟨parameters, comma, ha, hne, -, hmap⟩ := (soundAt depth).parameters hparameters
  dsimp only at hread
  split at hread
  · rename_i hat
    rcases except_bind_eq_error.mp hread with hread | ⟨_, _, hread⟩
    · obtain ⟨ascii, hsign⟩ := map_of_atArrow hat
      rw [hsign] at hmap
      have hlength := congrArg List.length hmap
      simp only [List.length_map, List.length_append, List.length_cons] at hlength
      refine (h.type (by omega) hread).within
        (.symbol .openParen :: (separated .comma (parameters.map ParameterPhrase.lexemes) ++
          (optionally .comma comma ++ [.symbol .closeParen,
            .symbol (if ascii then .asciiArrow else .arrow)]))) [] ?_ allWritten_nil ?_
      · rw [List.map_cons, hmap]
        simp
      · rintro ls ⟨result, haresult, rfl⟩
        refine ⟨.arrow comma parameters ascii result, ?_, ?_⟩
        · rw [SinglePhrase.Admissible]
          exact ⟨ha, hne, haresult⟩
        · simp [SinglePhrase.lexemes]
    · cases hread
  · cases hread

theorem array_succ {position : Nat} (hdepth : 3 * ts.length + 1 < depth)
    (hread : readSingle (depth + 1) (⟨.symbol .openBracket, position⟩ :: ts) = .error stuck) :
    Interrupted IsSingle (⟨.symbol .openBracket, position⟩ :: ts) stuck := by
  have hwhole : ∀ {ls}, IsType ls →
      IsSingle ([.symbol .openBracket] ++ (ls ++ [.symbol .closeBracket])) := by
    rintro ls ⟨element, ha, rfl⟩
    exact ⟨.array element, by rwa [SinglePhrase.Admissible], by simp [SinglePhrase.lexemes]⟩
  rw [readSingle] at hread
  rcases except_bind_eq_error.mp hread with hread | ⟨⟨t, middle⟩, helement, hread⟩
  · exact (h.type hdepth hread).within _ _ rfl (by simp) fun _ => hwhole
  obtain ⟨element, ha, -, hmap, -⟩ := (soundAt depth).type helement
  rcases except_bind_eq_error.mp hread with hread | ⟨_, _, hread⟩
  · have hcomplete := hwhole ⟨element, ha, rfl⟩
    rw [← List.append_assoc] at hcomplete
    refine interrupted_of_expect hread ?_ (by simp) hcomplete
    rw [List.map_cons, hmap]
    rfl
  · cases hread

theorem single_succ (hdepth : 3 * ts.length < depth + 1)
    (hread : readSingle (depth + 1) ts = .error stuck) : Interrupted IsSingle ts stuck := by
  have hnothing : ∀ problem, (problem = .unexpectedEnd → ts = []) →
      Interrupted IsSingle ts ⟨problem, ts⟩ := fun problem hend =>
    ⟨hend, [], filler.lexemes, rfl, filler_written, isSingle_filler⟩
  cases ts with
  | nil =>
    cases hread
    exact hnothing _ fun _ => rfl
  | cons token ts =>
    rw [List.length_cons] at hdepth
    obtain ⟨lexeme, position⟩ := token
    cases lexeme with
    | symbol sign =>
      cases sign with
      | question =>
        rw [readSingle] at hread
        rcases except_bind_eq_error.mp hread with hread | ⟨_, _, hread⟩
        · refine (h.single (by omega) hread).within [.symbol .question] [] rfl allWritten_nil ?_
          rintro ls ⟨inner, ha, rfl⟩
          exact ⟨.nullable inner, by rwa [SinglePhrase.Admissible], by simp [SinglePhrase.lexemes]⟩
        · cases hread
      | openBracket => exact h.array_succ (by omega) hread
      | openBrace =>
        rw [readSingle] at hread
        rcases except_bind_eq_error.mp hread with hread | ⟨_, _, hread⟩
        · refine (h.fields (by omega) hread).2.within [.symbol .openBrace] [] rfl allWritten_nil ?_
          rintro ls ⟨fields, comma, ha, hne, rfl⟩
          refine ⟨.object comma fields, ?_, ?_⟩
          · rw [SinglePhrase.Admissible]
            exact ⟨ha, hne⟩
          · simp [SinglePhrase.lexemes]
        · cases hread
      | openParen => exact h.function_succ (by omega) hread
      | _ =>
        cases hread
        exact hnothing _ (by simp)
    | quoted text => cases hread
    | number text => cases hread
    | name name =>
      rw [readSingle] at hread
      split at hread
      · rename_i hat
        have htail := length_tail_lt hat
        rcases except_bind_eq_error.mp hread with hread | ⟨_, _, hread⟩
        · refine (h.arguments (by omega) hread).within [.name name, .symbol .openAngle] [] ?_
            allWritten_nil ?_
          · rw [List.map_cons, map_of_atSymbol hat]
            rfl
          · rintro ls ⟨first, more, hfirst, hmore, rfl⟩
            refine ⟨.generic name first more, ?_, ?_⟩
            · rw [SinglePhrase.Admissible]
              exact ⟨hfirst, hmore⟩
            · simp [SinglePhrase.lexemes]
        · cases hread
      · cases hread

end CompletableAt

theorem completableAt (depth : Nat) : CompletableAt depth := by
  induction depth with
  | zero => constructor <;> intro ts stuck hdepth <;> omega
  | succ depth ih =>
    exact ⟨ih.type_succ, ih.single_succ, ih.alternatives_succ, ih.arguments_succ, ih.fields_succ,
      ih.parameters_succ⟩

theorem ofTokens_interrupted (h : ofTokens ts = .error stuck) : Interrupted IsType ts stuck := by
  rcases except_bind_eq_error.mp h with hread | ⟨⟨t, rest⟩, hread, h⟩
  · exact (completableAt _).type (by omega) hread
  · obtain ⟨type, ha, -, hmap, -⟩ := (soundAt _).type hread
    cases rest with
    | nil => cases h
    | cons token rest =>
      cases h
      exact ⟨by simp, type.lexemes, [], hmap, allWritten_nil, type, ha, by rw [List.append_nil]⟩

end DocComments.TypeExpr
