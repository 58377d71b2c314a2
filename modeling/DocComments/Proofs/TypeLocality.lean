import DocComments.Proofs.TypeDepth

/-!
# What a type depends on

A reader that succeeds has looked at the tokens that it took and at the one after them, which told
it to stop. Only the label of a parameter is looked for two tokens ahead. But a name with a question
mark after it is no type that can be followed by the rest of a list of parameters, so where the
reading succeeds, a question mark after a name was part of a label.

* `SameUpTo`: tokens with the same lexemes up to a place, and the same or none at it.
* `Local`: what a reader returns, another one returns for tokens that are the same so far. Readers
  that are made of local ones are local.
* `localTo_readers`: all readers of types are local, by induction on the depth.
* `read_dependsOn`: a type depends on its own tokens and the next.
-/

namespace DocComments.TypeExpr

/-! ## Tokens that are the same so far -/

/-- The lexemes are the same up to this place, and at it, where both may end. -/
def SameUpTo (n : Nat) (ts ts' : List Token) : Prop :=
  ∀ i ≤ n, ts'[i]?.map Token.lexeme = ts[i]?.map Token.lexeme

namespace SameUpTo

variable {n m : Nat} {ts ts' : List Token} {t : Token}

theorem mono (h : SameUpTo n ts ts') (hle : m ≤ n) : SameUpTo m ts ts' :=
  fun i hi => h i (Nat.le_trans hi hle)

theorem drop (h : SameUpTo (n + m) ts ts') : SameUpTo m (ts.drop n) (ts'.drop n) := by
  intro i hi
  rw [List.getElem?_drop, List.getElem?_drop]
  exact h (n + i) (by omega)

theorem next?_eq (h : SameUpTo n ts ts') : next? ts' = next? ts := by
  have hfirst := h 0 (Nat.zero_le n)
  rwa [← List.head?_eq_getElem?, ← List.head?_eq_getElem?] at hfirst

theorem atSymbol_eq (h : SameUpTo n ts ts') (sign : Symbol) :
    atSymbol sign ts' = atSymbol sign ts := by
  rw [atSymbol, atSymbol, h.next?_eq]

theorem exists_cons (h : SameUpTo n (t :: ts) ts') :
    ∃ position rest, ts' = ⟨t.lexeme, position⟩ :: rest := by
  have hfirst := h.next?_eq
  cases ts' with
  | nil => cases hfirst
  | cons t' rest =>
    obtain ⟨lexeme, position⟩ := t'
    cases hfirst
    exact ⟨position, rest, rfl⟩

theorem tail {t' : Token} (h : SameUpTo (n + 1) (t :: ts) (t' :: ts')) : SameUpTo n ts ts' := by
  intro i hi
  have hnext := h (i + 1) (by omega)
  rwa [List.getElem?_cons_succ, List.getElem?_cons_succ] at hnext

theorem length_le (h : SameUpTo n ts ts') (hn : n ≤ ts.length) : n ≤ ts'.length := by
  cases n with
  | zero => exact Nat.zero_le _
  | succ n =>
    have hlast := h n (Nat.le_succ n)
    rw [List.getElem?_eq_getElem hn] at hlast
    obtain ⟨t', ht', -⟩ := Option.map_eq_some_iff.mp hlast
    exact (List.getElem?_eq_some_iff.mp ht').1

end SameUpTo

/-! ## Labels -/

section Labels

variable {ts ts' rest : List Token}

/-- A label is found again in tokens that are the same up to its end. -/
theorem readLabel_some {label : String × Bool} (h : readLabel ts = (some label, rest)) :
    ∃ n ≤ ts.length, rest = ts.drop n ∧
      ∀ ts', SameUpTo n ts ts' → readLabel ts' = (some label, ts'.drop n) := by
  unfold readLabel parameterName at h
  split at h
  · rename_i hname
    split at hname
    · cases hname
      cases h
      refine ⟨2, by simp, rfl, fun ts' hts => ?_⟩
      obtain ⟨p, ts', rfl⟩ := hts.exists_cons
      obtain ⟨q, ts', rfl⟩ := hts.tail.exists_cons
      rfl
    · cases hname
      cases h
      refine ⟨3, by simp, rfl, fun ts' hts => ?_⟩
      obtain ⟨p, ts', rfl⟩ := hts.exists_cons
      obtain ⟨q, ts', rfl⟩ := hts.tail.exists_cons
      obtain ⟨o, ts', rfl⟩ := hts.tail.tail.exists_cons
      rfl
    · cases hname
  · cases h

theorem eq_of_readLabel_none (h : readLabel ts = (none, rest)) : rest = ts := by
  unfold readLabel at h
  split at h
  · cases h
  · cases h
    rfl

/-- One token after a name tells that there is no label, unless it is a question mark. -/
theorem readLabel_none (h : readLabel ts = (none, ts)) (hts : SameUpTo 1 ts ts')
    (hmark : ∀ name position us, ts = ⟨.name name, position⟩ :: us →
      ¬atSymbol .question us = true) : readLabel ts' = (none, ts') := by
  cases ts with
  | nil =>
    have hnext := hts.next?_eq
    cases ts' with
    | nil => rfl
    | cons t' ts' => cases hnext
  | cons t ts =>
    obtain ⟨lexeme, position⟩ := t
    obtain ⟨position', ts', rfl⟩ := hts.exists_cons
    cases lexeme with
    | name name =>
      have hquestion : atSymbol .question ts' = false := by
        rw [hts.tail.atSymbol_eq]
        simpa using hmark name position ts rfl
      rw [readLabel_name] at h ⊢
      rw [hts.tail.atSymbol_eq]
      split at h
      · cases h
      · rename_i hcolon
        rw [if_neg hcolon, hquestion, Bool.false_and]
        rfl
    | _ => rfl

end Labels

/-! ## Local readers -/

/-- What the first reader returns with the tokens after some place, the second one returns for all
tokens that are the same up to there, and leaves those after the same place. -/
def Local {α : Type} (f f' : List Token → Except Stuck (α × List Token)) : Prop :=
  ∀ ts a rest, f ts = .ok (a, rest) → ∃ n ≤ ts.length, rest = ts.drop n ∧
    ∀ ts', SameUpTo n ts ts' → f' ts' = .ok (a, ts'.drop n)

namespace Local

variable {α β : Type} {f f' g g' : List Token → Except Stuck (α × List Token)}

protected theorem pure (a : α) : Local (fun ts => .ok (a, ts)) fun ts => .ok (a, ts) := by
  rintro ts b rest ⟨⟩
  exact ⟨0, Nat.zero_le _, rfl, fun ts' _ => rfl⟩

theorem fail (stuck : List Token → Stuck) : Local (fun ts => .error (stuck ts)) f' := by
  rintro ts a rest ⟨⟩

protected theorem bind {k k' : α × List Token → Except Stuck (β × List Token)} (hf : Local f f')
    (hk : ∀ a, Local (fun ts => k (a, ts)) fun ts => k' (a, ts)) :
    Local (fun ts => f ts >>= k) fun ts => f' ts >>= k' := by
  intro ts b rest hread
  obtain ⟨⟨a, middle⟩, hfirst, hread⟩ := except_bind_eq_ok.mp hread
  obtain ⟨n, hn, rfl, hsame⟩ := hf ts a middle hfirst
  obtain ⟨m, hm, rfl, hsame'⟩ := hk a _ b rest hread
  rw [List.length_drop] at hm
  refine ⟨n + m, by omega, by rw [List.drop_drop], fun ts' hts => ?_⟩
  dsimp only
  rw [hsame ts' (hts.mono (Nat.le_add_right n m)), ← List.drop_drop]
  exact hsame' _ hts.drop

/-- A branch that is chosen by the next token. -/
theorem ite (sign : Symbol) (hf : Local f f') (hg : Local g g') :
    Local (fun ts => if atSymbol sign ts then f ts else g ts)
      fun ts => if atSymbol sign ts then f' ts else g' ts := by
  intro ts a rest hread
  dsimp only at hread ⊢
  split at hread
  · rename_i hat
    obtain ⟨n, hn, hrest, hsame⟩ := hf ts a rest hread
    refine ⟨n, hn, hrest, fun ts' hts => ?_⟩
    rw [hts.atSymbol_eq, if_pos hat]
    exact hsame ts' hts
  · rename_i hat
    obtain ⟨n, hn, hrest, hsame⟩ := hg ts a rest hread
    refine ⟨n, hn, hrest, fun ts' hts => ?_⟩
    rw [hts.atSymbol_eq, if_neg hat]
    exact hsame ts' hts

/-- The next token is taken if it passes a test. -/
theorem take (test : Option Lexeme → Bool) (hnone : test none = false) (hf : Local f f')
    (hg : Local g g') :
    Local (fun ts => if test (next? ts) then f ts.tail else g ts)
      fun ts => if test (next? ts) then f' ts.tail else g' ts := by
  intro ts a rest hread
  dsimp only at hread ⊢
  split at hread
  · rename_i htest
    cases ts with
    | nil =>
      rw [show test (next? []) = false from hnone] at htest
      cases htest
    | cons t ts =>
      obtain ⟨n, hn, hrest, hsame⟩ := hf ts a rest hread
      refine ⟨n + 1, Nat.succ_le_succ hn, hrest, fun ts' hts => ?_⟩
      rw [hts.next?_eq, if_pos htest]
      obtain ⟨position, ts', rfl⟩ := hts.exists_cons
      exact hsame ts' hts.tail
  · rename_i htest
    obtain ⟨n, hn, hrest, hsame⟩ := hg ts a rest hread
    refine ⟨n, hn, hrest, fun ts' hts => ?_⟩
    rw [hts.next?_eq, if_neg htest]
    exact hsame ts' hts

theorem takeSign (sign : Symbol) (hf : Local f f') (hg : Local g g') :
    Local (fun ts => if atSymbol sign ts then f ts.tail else g ts)
      fun ts => if atSymbol sign ts then f' ts.tail else g' ts :=
  take (· == some (.symbol sign)) rfl hf hg

protected theorem expect (sign : Symbol) (hf : Local f f') :
    Local (fun ts => expect sign ts >>= f) fun ts => expect sign ts >>= f' := by
  have hbranch : ∀ (k : List Token → Except Stuck (α × List Token)) (ts : List Token),
      (TypeExpr.expect sign ts >>= k) = if atSymbol sign ts then k ts.tail
        else .error ⟨.expected sign (next? ts), ts⟩ := by
    intro k ts
    unfold TypeExpr.expect
    split <;> rfl
  simp only [hbranch]
  exact takeSign sign hf (fail _)

protected theorem afterItem (close : Symbol) (hf : Local f f') :
    Local (fun ts => afterItem close ts >>= f) fun ts => afterItem close ts >>= f' := by
  have hbranch : ∀ (k : List Token → Except Stuck (α × List Token)) (ts : List Token),
      (TypeExpr.afterItem close ts >>= k) = if atSymbol close ts then k ts
        else TypeExpr.expect .comma ts >>= k := by
    intro k ts
    unfold TypeExpr.afterItem
    split <;> rfl
  simp only [hbranch]
  exact ite close hf (.expect .comma hf)

protected theorem readItem {type type' : List Token → Except Stuck (TypeExpr × List Token)}
    {others others' : List Token → Except Stuck (List β × List Token)} (htype : Local type type')
    (close : Symbol) (item : TypeExpr → β) (hothers : Local others others') :
    Local (readItem type close item others) (readItem type' close item others') := by
  refine htype.bind fun found => ?_
  refine Local.afterItem close ?_
  exact hothers.bind fun more => .pure _

protected theorem skip (sign : Symbol) {k k' : Bool → List Token → Except Stuck (α × List Token)}
    (hk : ∀ present, Local (k present) (k' present)) :
    Local (fun ts => k (skip sign ts).1 (skip sign ts).2)
      fun ts => k' (skip sign ts).1 (skip sign ts).2 := by
  have hbranch : ∀ (k : Bool → List Token → Except Stuck (α × List Token)) (ts : List Token),
      k (TypeExpr.skip sign ts).1 (TypeExpr.skip sign ts).2 =
        if atSymbol sign ts then k true ts.tail else k false ts := by
    intro k ts
    unfold TypeExpr.skip
    split <;> rfl
  simp only [hbranch]
  exact takeSign sign (hk true) (hk false)

/-- Where one reader is local in relation to many, the place is the same for all. -/
theorem uniform {ι : Type} {many : ι → List Token → Except Stuck (α × List Token)}
    (h : ∀ i, Local f (many i)) (i : ι) {ts rest : List Token} {a : α}
    (hread : f ts = .ok (a, rest)) : ∃ n ≤ ts.length, rest = ts.drop n ∧
      ∀ j ts', SameUpTo n ts ts' → many j ts' = .ok (a, ts'.drop n) := by
  obtain ⟨n, hn, hrest, -⟩ := h i ts a rest hread
  refine ⟨n, hn, hrest, fun j => ?_⟩
  obtain ⟨m, hm, hrest', hsame⟩ := h j ts a rest hread
  have hlength := congrArg List.length (hrest.symm.trans hrest')
  simp only [List.length_drop] at hlength
  obtain rfl : n = m := by omega
  exact hsame

/-- The first token is taken, and what depends on its lexeme comes after it. -/
theorem cons (hnil : ∀ found, f [] ≠ .ok found)
    (hcons : ∀ lexeme position position',
      Local (fun ts => f (⟨lexeme, position⟩ :: ts)) fun ts => f' (⟨lexeme, position'⟩ :: ts)) :
    Local f f' := by
  intro ts a rest hread
  cases ts with
  | nil => exact absurd hread (hnil _)
  | cons t ts =>
    obtain ⟨lexeme, position⟩ := t
    obtain ⟨n, hn, hrest, hsame⟩ := uniform (hcons lexeme position) position hread
    refine ⟨n + 1, Nat.succ_le_succ hn, hrest, fun ts' hts => ?_⟩
    obtain ⟨position', ts', rfl⟩ := hts.exists_cons
    exact hsame position' ts' hts.tail

/-- A label is taken, if a name with a question mark after it cannot be read without one. -/
protected theorem label
    {k k' : Option (String × Bool) → List Token → Except Stuck (α × List Token)}
    (hk : ∀ label, Local (k label) (k' label))
    (hshort : ∀ ts a rest, k none ts = .ok (a, rest) → rest.length < ts.length)
    (hmark : ∀ name position ts found, atSymbol .question ts = true →
      k none (⟨.name name, position⟩ :: ts) ≠ .ok found) :
    Local (fun ts => k (readLabel ts).1 (readLabel ts).2)
      fun ts => k' (readLabel ts).1 (readLabel ts).2 := by
  intro ts a rest hread
  dsimp only at hread ⊢
  rcases hlabel : readLabel ts with ⟨label, middle⟩
  rw [hlabel] at hread
  cases label with
  | some label =>
    obtain ⟨m, hm, rfl, hsome⟩ := readLabel_some hlabel
    obtain ⟨n, hn, rfl, hsame⟩ := hk _ _ a rest hread
    rw [List.length_drop] at hn
    refine ⟨m + n, by omega, by rw [List.drop_drop], fun ts' hts => ?_⟩
    rw [hsome ts' (hts.mono (Nat.le_add_right m n)), ← List.drop_drop]
    exact hsame _ hts.drop
  | none =>
    obtain rfl := eq_of_readLabel_none hlabel
    obtain ⟨n, hn, rfl, hsame⟩ := hk none _ a rest hread
    refine ⟨n, hn, rfl, fun ts' hts => ?_⟩
    -- Something is taken, so that the token after a name is among those that are the same.
    have hone : 1 ≤ n := by
      have hlength := hshort _ a _ hread
      rw [List.length_drop] at hlength
      omega
    have hnone : readLabel ts' = (none, ts') := by
      refine readLabel_none hlabel (hts.mono hone) ?_
      rintro name position us rfl hquestion
      exact hmark name position us _ hquestion hread
    rw [hnone]
    exact hsame ts' hts

end Local

/-! ## The readers of types -/

/-- The readers of one level are local in relation to those of another. -/
structure LocalTo (r r' : Readers) : Prop where
  type : Local r.type r'.type
  single : Local r.single r'.single
  alternatives : Local r.alternatives r'.alternatives
  arguments : Local r.arguments r'.arguments
  fields : Local r.fields r'.fields
  parameters : Local r.parameters r'.parameters

namespace LocalTo

variable {r r' : Readers} (h : LocalTo r r')

include h

theorem joined {α : Type} (join : TypeExpr → List TypeExpr → α) :
    Local (r.joined join) (r'.joined join) := by
  refine h.single.bind fun first => ?_
  exact h.alternatives.bind fun more => .pure _

theorem alternatives_step : Local r.step.alternatives r'.step.alternatives :=
  .takeSign .bar (h.joined List.cons) (.pure _)

theorem arguments_step : Local r.step.arguments r'.step.arguments := by
  have hfurther : ∀ type, Local (r.further type) (r'.further type) :=
    fun type => h.arguments.bind fun more => .pure _
  refine h.type.bind fun type => ?_
  exact .takeSign .comma (hfurther type) (.expect .closeAngle (.pure _))

theorem fields_step : Local r.step.fields r'.step.fields := by
  refine .cons (by rintro found ⟨⟩) fun lexeme position position' => ?_
  cases lexeme with
  | symbol sign =>
    cases sign with
    | closeBrace => exact .pure _
    | _ => exact .fail _
  | name name =>
    simp only [Readers.step]
    exact .skip .question fun optional => .expect .colon (h.type.readItem _ _ h.fields)
  | _ => exact .fail _

theorem function_step (position position' : Nat) :
    Local (fun ts => r.step.single (⟨.symbol .openParen, position⟩ :: ts))
      fun ts => r'.step.single (⟨.symbol .openParen, position'⟩ :: ts) := by
  have hresult : ∀ parameters, Local (r.result parameters) (r'.result parameters) :=
    fun parameters => h.type.bind fun result => .pure _
  refine h.parameters.bind fun parameters => ?_
  exact .take (fun l => l == some (.symbol .arrow) || l == some (.symbol .asciiArrow)) rfl
    (hresult parameters) (.pure _)

theorem name_step (name : String) (position position' : Nat) :
    Local (fun ts => r.step.single (⟨.name name, position⟩ :: ts))
      fun ts => r'.step.single (⟨.name name, position'⟩ :: ts) := by
  have hgeneric : Local (r.generic name) (r'.generic name) :=
    h.arguments.bind fun arguments => .pure _
  exact .takeSign .openAngle hgeneric (.pure _)

theorem single_step : Local r.step.single r'.step.single := by
  refine .cons (by rintro found ⟨⟩) fun lexeme position position' => ?_
  cases lexeme with
  | symbol sign =>
    cases sign with
    | question => exact h.single.bind fun inner => .pure _
    | openBracket => exact h.type.bind fun element => .expect .closeBracket (.pure _)
    | openBrace => exact h.fields.bind fun fields => .pure _
    | openParen => exact h.function_step position position'
    | _ => exact .fail _
  | quoted text => exact .pure _
  | number text => exact .pure _
  | name name => exact h.name_step name position position'

end LocalTo

section Parameters

variable {depth depth' : Nat} {α : Type} {item : TypeExpr → α}
  {others : List Token → Except Stuck (List α × List Token)} {ts rest : List Token}

theorem length_lt_of_item {close : Symbol} (hothers : ∀ ts, remaining (others ts) <:+ ts)
    {found : List α} (h : readItem (readType depth) close item others ts = .ok (found, rest)) :
    rest.length < ts.length := by
  obtain ⟨⟨type, middle⟩, htype, h⟩ := except_bind_eq_ok.mp h
  have hshorter := ((soundAt depth).type htype).length_lt
  obtain ⟨last, hafter, h⟩ := except_bind_eq_ok.mp h
  have hle := length_le_of_afterItem hafter
  obtain ⟨⟨more, left⟩, hmore, h⟩ := except_bind_eq_ok.mp h
  cases h
  have hsuffix := hothers last
  rw [hmore] at hsuffix
  have hleft : rest.length ≤ last.length := hsuffix.length_le
  omega

/-- Before a question mark, a name is all of the type. -/
theorem readType_of_mark {name : String} {position : Nat} {type : TypeExpr}
    (hmark : atSymbol .question ts = true)
    (h : readType depth (⟨.name name, position⟩ :: ts) = .ok (type, rest)) : rest = ts := by
  have hnot : ∀ sign, Symbol.question ≠ sign → ¬atSymbol sign ts = true :=
    fun sign hne => not_atSymbol_of_map (map_of_atSymbol hmark) hne
  rcases depth with _ | _ | depth
  · cases h
  · cases h
  · rw [readType, readSingle, if_neg (hnot .openAngle (by decide))] at h
    obtain ⟨⟨first, middle⟩, hfirst, h⟩ := except_bind_eq_ok.mp h
    cases hfirst
    dsimp only at h
    rw [readAlternatives, if_neg (hnot .bar (by decide))] at h
    cases h
    rfl

/-- A name with a question mark after it begins no parameter without a label. -/
theorem not_labelled_of_mark {variadic : Bool} {name : String} {position : Nat}
    {found : List (Parameter TypeExpr) × List Token} (hmark : atSymbol .question ts = true) :
    (readers depth).labelled variadic none (⟨.name name, position⟩ :: ts) ≠ .ok found := by
  intro h
  obtain ⟨⟨type, middle⟩, htype, hread⟩ := except_bind_eq_ok.mp h
  obtain rfl := readType_of_mark hmark htype
  obtain ⟨last, hafter, -⟩ := except_bind_eq_ok.mp hread
  have hmap := map_of_atSymbol hmark
  rcases map_of_afterItem hafter with ⟨hclose, -⟩ | hcomma
  · exact not_atSymbol_of_map hmap (by decide) hclose
  · rw [hmap] at hcomma
    cases hcomma

theorem LocalTo.parameters_step (h : LocalTo (readers depth) (readers depth')) :
    Local (readers depth).step.parameters (readers depth').step.parameters := by
  have hparameter : ∀ variadic,
      Local ((readers depth).parameter variadic) ((readers depth').parameter variadic) :=
    fun variadic => .label (fun label => h.type.readItem _ _ h.parameters)
      (fun ts found rest hread => length_lt_of_item (shortensAt depth).parameters hread)
      fun name position ts found hmark => not_labelled_of_mark hmark
  exact .takeSign .closeParen (.pure _) (.skip .ellipsis hparameter)

end Parameters

theorem localTo_readers {depth depth' : Nat} (hle : depth ≤ depth') :
    LocalTo (readers depth) (readers depth') := by
  induction depth generalizing depth' with
  | zero => constructor <;> exact .fail _
  | succ depth ih =>
    obtain ⟨depth', rfl⟩ := Nat.exists_eq_succ_of_ne_zero (Nat.ne_of_gt (Nat.zero_lt_of_lt hle))
    have h := ih (Nat.le_of_succ_le_succ hle)
    rw [readers_succ, readers_succ]
    exact ⟨h.joined _, h.single_step, h.alternatives_step, h.arguments_step, h.fields_step,
      h.parameters_step⟩

theorem local_read : Local read read := by
  intro ts type rest hread
  -- Other tokens are read with another depth, so each is read with what suffices for both.
  have hlocal : ∀ more,
      Local (readType (4 * ts.length + 4)) (readType (4 * ts.length + 4 + more)) :=
    fun more => (localTo_readers (Nat.le_add_right (4 * ts.length + 4) more)).type
  obtain ⟨n, hn, hrest, hsame⟩ := Local.uniform hlocal 0 hread
  refine ⟨n, hn, hrest, fun ts' hts => ?_⟩
  rw [← hsame (4 * ts'.length + 4) ts' hts]
  exact (readType_eq_read (by omega)).symm

/-- **What a type depends on.** The reading of a type from a place on ends, whatever stands where
the depth would run out. If it succeeds it has moved on and is still among the tokens, and it does
the same with all tokens that have the same lexemes from the one place to the other, and the same
one or the end there. -/
theorem read_dependsOn (tokens : List Token) (position : Nat) :
    (∀ (base : Readers) (depth : Nat), 3 * (tokens.drop position).length + 1 < depth →
      (base.above depth).type (tokens.drop position) = read (tokens.drop position)) ∧
    ∀ type rest, read (tokens.drop position) = .ok (type, rest) →
      ∃ after, position < after ∧ after ≤ tokens.length ∧ rest = tokens.drop after ∧
        ∀ tokens' : List Token,
          (∀ i, position ≤ i → i ≤ after →
            tokens'[i]?.map Token.lexeme = tokens[i]?.map Token.lexeme) →
          after ≤ tokens'.length ∧
            read (tokens'.drop position) = .ok (type, tokens'.drop after) := by
  refine ⟨fun base depth hdepth => read_of_above base hdepth, fun type rest hread => ?_⟩
  obtain ⟨n, hn, rfl, hsame⟩ := local_read _ type rest hread
  have hlt := ((soundAt _).type hread).length_lt
  simp only [List.length_drop] at hn hlt
  refine ⟨position + n, by omega, by omega, by rw [List.drop_drop], fun tokens' hagree => ?_⟩
  have hsuffix : SameUpTo n (tokens.drop position) (tokens'.drop position) := by
    intro i hi
    rw [List.getElem?_drop, List.getElem?_drop]
    exact hagree (position + i) (by omega) (by omega)
  have hlength := hsuffix.length_le (by rw [List.length_drop]; omega)
  rw [List.length_drop] at hlength
  refine ⟨by omega, ?_⟩
  rw [hsame _ hsuffix, List.drop_drop]

/-- The tokens of `, (a?: b) → c d | e`, in which a type begins with the parenthesis. -/
def typeAmongOthers : List Token := [
  ⟨.symbol .comma, 0⟩, ⟨.symbol .openParen, 2⟩, ⟨.name "a", 3⟩, ⟨.symbol .question, 4⟩,
  ⟨.symbol .colon, 5⟩, ⟨.name "b", 7⟩, ⟨.symbol .closeParen, 8⟩, ⟨.symbol .arrow, 10⟩,
  ⟨.name "c", 12⟩, ⟨.name "d", 14⟩, ⟨.symbol .bar, 16⟩, ⟨.name "e", 18⟩]

theorem read_dependsOn_typeAmongOthers :
    ((readers 0).above 40).type (typeAmongOthers.drop 1) = read (typeAmongOthers.drop 1) ∧
    read (typeAmongOthers.drop 1) =
      .ok (.function [⟨.named "b", some "a", true, false⟩] (some (.named "c")),
        typeAmongOthers.drop 9) ∧
    read ((typeAmongOthers.take 10).drop 1) =
      .ok (.function [⟨.named "b", some "a", true, false⟩] (some (.named "c")),
        (typeAmongOthers.take 10).drop 9) := by
  obtain ⟨hdepth, hdepends⟩ := read_dependsOn typeAmongOthers 1
  have hread : read (typeAmongOthers.drop 1) =
      .ok (.function [⟨.named "b", some "a", true, false⟩] (some (.named "c")),
        typeAmongOthers.drop 9) := by rfl
  obtain ⟨after, -, hle, hrest, hsame⟩ := hdepends _ _ hread
  have hlength := congrArg List.length hrest
  have htotal : typeAmongOthers.length = 12 := rfl
  simp only [List.length_drop, htotal] at hlength hle
  obtain rfl : after = 9 := by omega
  refine ⟨hdepth _ 40 (by decide), hread, (hsame (typeAmongOthers.take 10) ?_).2⟩
  intro i _ hi
  rw [List.getElem?_take_of_lt (by omega)]

end DocComments.TypeExpr
