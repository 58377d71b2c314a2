import DocComments.Proofs.TypeLexemes

/-!
# The tokens of a text

A type specification is read from the front on. Blanks are dropped, and everywhere else the longest
lexeme that can be read is the next token. What stands behind a token has no part in it: the lexeme
stays the longest if the text is cut short there.

* `lexemeAt_eq_some_iff`, `lexemeAt_eq_none_iff`: the scanner takes the longest lexeme that the text
  begins with, and fails only where there is none.
* `Scans`: a front of a text is cut into tokens; `Scans.cut`: it still is if the rest is cut short.
* `tokens_eq_ok_iff`, `tokens_eq_error_iff`: a text has tokens if all of it is cut into them, and
  none if something comes first that begins no lexeme.
* `Tiles`: the tokens and blanks make up the text.
* `tokens_lossless`: the tokens are all that the text is made up of, and it fails at one place as
  soon as it reaches beyond it.
-/

namespace DocComments.TypeExpr

open Token

/-! ## The longest lexeme -/

/-- The text begins with the lexeme. -/
structure Lexeme.Begins (lexeme : Lexeme) (text : List Char) : Prop where
  written : lexeme.IsWritten
  begins : lexeme.text.toList <+: text

/-- The lexeme is the longest that the text begins with. -/
structure Lexeme.IsLongest (lexeme : Lexeme) (text : List Char) : Prop
    extends lexeme.Begins text where
  longest : ∀ other : Lexeme, other.Begins text → other.text.length ≤ lexeme.text.length

/-- The number at the start is at least as long as any number that the text begins with. -/
theorem IsUnsigned.exists_unsignedLength {text : List Char} (h : IsUnsigned text)
    (rest : List Char) : ∃ n, unsignedLength (text ++ rest) = some n ∧ text.length ≤ n := by
  cases h with
  | whole h => exact ⟨_, h.unsignedLength_append rest, by omega⟩
  | decimal hwhole hfraction =>
    rw [List.append_assoc, List.cons_append]
    refine ⟨_, unsignedLength_decimal hwhole hfraction rest, ?_⟩
    rw [List.length_append, List.length_cons]
    omega

theorem IsNumber.exists_numberLength {text : List Char} (h : IsNumber text) (rest : List Char) :
    ∃ n, numberLength (text ++ rest) = some n ∧ text.length ≤ n := by
  cases h with
  | unsigned h =>
    rw [h.numberLength_append]
    exact h.exists_unsignedLength rest
  | negative h =>
    obtain ⟨n, hn, hle⟩ := h.exists_unsignedLength rest
    exact ⟨n + 1, by rw [List.cons_append, numberLength, hn]; rfl, Nat.succ_le_succ hle⟩

theorem length_le_taken (text : String) {rest : List Char} {n : Nat} (h : text.toList.length ≤ n) :
    text.length ≤ (String.ofList ((text.toList ++ rest).take n)).length := by
  rw [String.length_ofList, List.length_take, List.length_append, ← String.length_toList]
  omega

/-- The scanner takes no less than any lexeme that the text begins with. -/
theorem Lexeme.IsWritten.exists_lexemeAt {lexeme : Lexeme} (h : lexeme.IsWritten)
    (rest : List Char) :
    ∃ found, lexemeAt (lexeme.text.toList ++ rest) = some found ∧
      lexeme.text.length ≤ found.text.length := by
  cases lexeme with
  | symbol sign => exact ⟨_, lexemeAt_symbol sign rest, Nat.le_refl _⟩
  | quoted text => exact ⟨_, lexemeAt_quoted h, by simp [Lexeme.text]⟩
  | number text =>
    obtain ⟨n, hn, hle⟩ := IsNumber.exists_numberLength h rest
    obtain ⟨hsign, hquote⟩ := IsNumber.others_none h rest
    refine ⟨.number (String.ofList ((text.toList ++ rest).take n)), ?_, length_le_taken text hle⟩
    rw [Lexeme.text, lexemeAt, hsign, hquote, hn]
  | name text =>
    obtain ⟨hsign, hquote, hnumber⟩ := IsName.others_none h rest
    have hlength := IsName.nameLength_append h rest
    refine ⟨.name (String.ofList ((text.toList ++ rest).take (text.toList.length + nameTail rest))),
      ?_, length_le_taken text (Nat.le_add_right _ _)⟩
    rw [Lexeme.text, lexemeAt, hsign, hquote, hnumber, hlength]

theorem symbolAt_isPrefix {text : List Char} {sign : Symbol} (h : symbolAt text = some sign) :
    sign.text.toList <+: text := by
  unfold symbolAt at h
  split at h
  case h_16 => cases h
  all_goals
    cases h
    exact ⟨_, rfl⟩

theorem taken_isPrefix (text : List Char) (n : Nat) :
    (String.ofList (text.take n)).toList <+: text := by
  rw [String.toList_ofList]
  exact List.take_prefix _ _

theorem lexemeAt_begins {text : List Char} {lexeme : Lexeme} (h : lexemeAt text = some lexeme) :
    lexeme.Begins text := by
  refine ⟨lexemeAt_isWritten h, ?_⟩
  unfold lexemeAt at h
  split at h
  · rename_i sign hsign
    cases h
    exact symbolAt_isPrefix hsign
  split at h
  · cases h
    exact taken_isPrefix text _
  split at h
  · cases h
    exact taken_isPrefix text _
  split at h
  · cases h
    exact taken_isPrefix text _
  · cases h

theorem Lexeme.Begins.exists_lexemeAt {lexeme : Lexeme} {text : List Char}
    (h : lexeme.Begins text) :
    ∃ found, lexemeAt text = some found ∧ lexeme.text.length ≤ found.text.length := by
  obtain ⟨hwritten, rest, rfl⟩ := h
  exact hwritten.exists_lexemeAt rest

/-- The text of a lexeme tells its kind. -/
theorem Lexeme.IsWritten.eq_of_text_eq {lexeme other : Lexeme} (h : lexeme.IsWritten)
    (hother : other.IsWritten) (htext : lexeme.text = other.text) : lexeme = other := by
  have hfound := lexemeAt_append h endsLexeme_nil
  rw [htext, lexemeAt_append hother endsLexeme_nil] at hfound
  exact (Option.some.inj hfound).symm

/-- The scanner takes the longest lexeme that the text begins with. -/
theorem lexemeAt_eq_some_iff {text : List Char} {lexeme : Lexeme} :
    lexemeAt text = some lexeme ↔ lexeme.IsLongest text := by
  constructor
  · intro h
    refine ⟨lexemeAt_begins h, fun other hother => ?_⟩
    obtain ⟨found, hfound, hle⟩ := hother.exists_lexemeAt
    rw [h] at hfound
    cases hfound
    exact hle
  · intro h
    obtain ⟨found, hfound, hle⟩ := h.toBegins.exists_lexemeAt
    have hbegins := lexemeAt_begins hfound
    have hlength : lexeme.text.length = found.text.length :=
      Nat.le_antisymm hle (h.longest found hbegins)
    have htext : lexeme.text.toList = found.text.toList := by
      rw [← String.length_toList, ← String.length_toList] at hlength
      exact (List.prefix_of_prefix_length_le h.begins hbegins.begins hlength.le).eq_of_length hlength
    rw [hfound, h.written.eq_of_text_eq hbegins.written (String.toList_inj.mp htext)]

theorem lexemeAt_eq_none_iff {text : List Char} :
    lexemeAt text = none ↔ ∀ lexeme : Lexeme, ¬lexeme.Begins text := by
  constructor
  · intro h lexeme hbegins
    obtain ⟨found, hfound, -⟩ := hbegins.exists_lexemeAt
    rw [h] at hfound
    cases hfound
  · intro h
    cases hfound : lexemeAt text with
    | none => rfl
    | some lexeme => exact absurd (lexemeAt_begins hfound) (h lexeme)

theorem Lexeme.Begins.trans {lexeme : Lexeme} {cut text : List Char} (h : lexeme.Begins cut)
    (hcut : cut <+: text) : lexeme.Begins text :=
  ⟨h.written, h.begins.trans hcut⟩

/-- The longest lexeme stays the longest if the text is cut short behind it. -/
theorem Lexeme.IsLongest.cut {lexeme : Lexeme} {text cut : List Char} (h : lexeme.IsLongest text)
    (hcut : cut <+: text) (hbegins : lexeme.text.toList <+: cut) : lexeme.IsLongest cut :=
  ⟨⟨h.written, hbegins⟩, fun other hother => h.longest other (hother.trans hcut)⟩

theorem Lexeme.IsWritten.length_pos {lexeme : Lexeme} (h : lexeme.IsWritten) :
    0 < lexeme.text.length := by
  obtain ⟨c, more, htext, -⟩ := h.begins
  rw [← String.length_toList, htext]
  exact Nat.succ_pos _

/-! ## Runs of the scanner -/

/-- Nothing more is read here: neither a blank nor a lexeme comes next. -/
structure Stops (rest : List Char) : Prop where
  notBlank : ∀ c ∈ rest.head?, Text.isBlank c = false
  noLexeme : ∀ lexeme : Lexeme, ¬lexeme.Begins rest

/-- Before `rest`, the text `front` that starts at `position` is cut into the tokens. -/
inductive Scans (rest : List Char) : Nat → List Char → List Token → Prop where
  | nil {position : Nat} : Scans rest position [] []
  | blank {position : Nat} {c : Char} {front : List Char} {ts : List Token}
      (hblank : Text.isBlank c = true) (h : Scans rest (position + 1) front ts) :
      Scans rest position (c :: front) ts
  | lexeme {position : Nat} {lexeme : Lexeme} {front : List Char} {ts : List Token}
      (hlongest : lexeme.IsLongest (lexeme.text.toList ++ (front ++ rest)))
      (h : Scans rest (position + lexeme.text.length) front ts) :
      Scans rest position (lexeme.text.toList ++ front) (⟨lexeme, position⟩ :: ts)

theorem stops_nil : Stops [] where
  notBlank := by simp
  noLexeme lexeme h := by
    have hlength := h.begins.length_le
    have hpos := h.written.length_pos
    rw [String.length_toList, List.length_nil] at hlength
    omega

theorem scan_stray {c : Char} {rest : List Char} (h : Stops (c :: rest)) (position : Nat) :
    scan 0 position (c :: rest) = .error ⟨c, position⟩ := by
  have hblank : Text.isBlank c = false := h.notBlank c rfl
  rw [scan, hblank, lexemeAt_eq_none_iff.mpr h.noLexeme]
  rfl

/-- The scanner goes on behind what is cut into tokens. -/
theorem Scans.scan_append {rest front : List Char} {position : Nat} {ts : List Token}
    (h : Scans rest position front ts) :
    scan 0 position (front ++ rest) = (scan 0 (position + front.length) rest).map (ts ++ ·) := by
  induction h with
  | @nil position =>
    rw [List.nil_append, List.length_nil, Nat.add_zero]
    cases scan 0 position rest <;> rfl
  | @blank position c front ts hblank _ ih =>
    rw [List.cons_append, scan, if_pos hblank, ih, List.length_cons]
    congr 2
    omega
  | @lexeme position lexeme front ts hlongest _ ih =>
    rw [List.append_assoc, scan_lexeme (lexemeAt_eq_some_iff.mpr hlongest), ih,
      List.length_append, String.length_toList, ← Nat.add_assoc]
    cases scan 0 (position + lexeme.text.length + front.length) rest <;> rfl

/-- Every text is cut into tokens up to a place where nothing more is read. -/
theorem exists_scans (text : List Char) (position : Nat) :
    ∃ front rest ts, text = front ++ rest ∧ Scans rest position front ts ∧ Stops rest := by
  -- By length: a lexeme takes more than the first character.
  induction hlength : text.length using Nat.strong_induction_on generalizing text position with
  | h length ih =>
    cases text with
    | nil => exact ⟨[], [], [], rfl, .nil, stops_nil⟩
    | cons c more =>
      cases hblank : Text.isBlank c with
      | true =>
        obtain ⟨front, rest, ts, rfl, hscans, hstops⟩ :=
          ih more.length (by simp [← hlength]) more (position + 1) rfl
        exact ⟨c :: front, rest, ts, rfl, .blank hblank hscans, hstops⟩
      | false =>
        cases hlexeme : lexemeAt (c :: more) with
        | none =>
          refine ⟨[], c :: more, [], rfl, .nil, ?_, lexemeAt_eq_none_iff.mp hlexeme⟩
          simpa using hblank
        | some lexeme =>
          have hlongest := lexemeAt_eq_some_iff.mp hlexeme
          obtain ⟨behind, hbehind⟩ := hlongest.begins
          have hshorter : behind.length < length := by
            have hpos := hlongest.written.length_pos
            rw [← hlength, ← hbehind, List.length_append, String.length_toList]
            omega
          obtain ⟨front, rest, ts, rfl, hscans, hstops⟩ :=
            ih behind.length hshorter behind (position + lexeme.text.length) rfl
          rw [← hbehind] at hlongest ⊢
          exact ⟨lexeme.text.toList ++ front, rest, ⟨lexeme, position⟩ :: ts,
            (List.append_assoc _ _ _).symm, .lexeme hlongest hscans, hstops⟩

/-- The tokens of a text are what it is cut into up to its end. -/
theorem tokens_eq_ok_iff {text : String} {ts : List Token} :
    tokens text = .ok ts ↔ Scans [] 0 text.toList ts := by
  constructor
  · intro h
    obtain ⟨front, rest, us, hparts, hscans, hstops⟩ := exists_scans text.toList 0
    rw [tokens, hparts, hscans.scan_append] at h
    cases rest with
    | nil =>
      rw [hparts, List.append_nil]
      have hsame : (Except.ok (us ++ []) : Except Stray (List Token)) = .ok ts := h
      cases hsame
      rwa [List.append_nil]
    | cons c rest =>
      rw [scan_stray hstops] at h
      cases h
  · intro h
    have hscan := h.scan_append
    rw [List.append_nil] at hscan
    rw [tokens, hscan]
    exact congrArg Except.ok (List.append_nil ts)

/-- A text has no tokens if it is cut into tokens up to a place before its end. -/
theorem tokens_eq_error_iff {text : String} {stray : Stray} :
    tokens text = .error stray ↔ ∃ front rest ts, text.toList = front ++ stray.char :: rest ∧
      front.length = stray.position ∧ Scans (stray.char :: rest) 0 front ts ∧
        Stops (stray.char :: rest) := by
  constructor
  · intro h
    obtain ⟨front, rest, ts, hparts, hscans, hstops⟩ := exists_scans text.toList 0
    rw [tokens, hparts, hscans.scan_append] at h
    cases rest with
    | nil => cases h
    | cons c rest =>
      rw [scan_stray hstops, Nat.zero_add] at h
      cases h
      exact ⟨front, rest, ts, hparts, rfl, hscans, hstops⟩
  · rintro ⟨front, rest, ts, hparts, hposition, hscans, hstops⟩
    rw [tokens, hparts, hscans.scan_append, scan_stray hstops, Nat.zero_add, hposition]
    rfl

/-- What is cut into tokens still is if the rest is cut short. -/
theorem Scans.cut {rest cut front : List Char} {position : Nat} {ts : List Token}
    (h : Scans rest position front ts) (hcut : cut <+: rest) : Scans cut position front ts := by
  induction h with
  | nil => exact .nil
  | blank hblank _ ih => exact .blank hblank ih
  | @lexeme position lexeme front ts hlongest _ ih =>
    refine .lexeme (hlongest.cut ?_ (List.prefix_append _ _)) ih
    rwa [List.prefix_append_right_inj, List.prefix_append_right_inj]

theorem Stops.cut {c : Char} {rest cut : List Char} (h : Stops (c :: rest)) (hcut : cut <+: rest) :
    Stops (c :: cut) where
  notBlank := h.notBlank
  noLexeme lexeme hbegins :=
    h.noLexeme lexeme (hbegins.trans (List.cons_prefix_cons.mpr ⟨rfl, hcut⟩))

/-! ## Places in the text -/

/-- The token stands on the place. -/
def Token.Covers (t : Token) (place : Nat) : Prop :=
  t.position ≤ place ∧ place < t.position + t.lexeme.text.length

/-- From the place `start` on, the text is made up of the tokens and of blanks. -/
structure Tiles (text : List Char) (start : Nat) (ts : List Token) : Prop where
  behind : ∀ t ∈ ts, start ≤ t.position
  longest : ∀ t ∈ ts, t.lexeme.IsLongest (text.drop t.position)
  disjoint : ts.Pairwise fun t u => t.position + t.lexeme.text.length ≤ u.position
  blank : ∀ place c, start ≤ place → text[place]? = some c → (∀ t ∈ ts, ¬t.Covers place) →
    Text.isBlank c = true

/-- What a text is cut into makes it up. -/
theorem Scans.tiles {text front : List Char} {start : Nat} {ts : List Token}
    (h : Scans [] start front ts) (hfront : text.drop start = front) : Tiles text start ts := by
  induction h with
  | nil =>
    refine ⟨by simp, by simp, .nil, fun place c hplace hc _ => ?_⟩
    have hlength := (List.getElem?_eq_some_iff.mp hc).1
    have hend := List.drop_eq_nil_iff.mp hfront
    omega
  | @blank start c front ts hblank _ ih =>
    have hnext : text.drop (start + 1) = front := by
      rw [← List.tail_drop, hfront]
      rfl
    have htiles := ih hnext
    refine ⟨fun t ht => (Nat.le_succ _).trans (htiles.behind t ht), htiles.longest,
      htiles.disjoint, fun place d hplace hd hcovered => ?_⟩
    rcases Nat.eq_or_lt_of_le hplace with rfl | hlater
    · rw [← List.head?_drop, hfront] at hd
      cases hd
      exact hblank
    · exact htiles.blank place d hlater hd hcovered
  | @lexeme start lexeme front ts hlongest _ ih =>
    have hnext : text.drop (start + lexeme.text.length) = front := by
      rw [← List.drop_drop, hfront, ← String.length_toList, List.drop_left]
    have htiles := ih hnext
    refine ⟨?_, ?_, ?_, fun place d hplace hd hcovered => ?_⟩
    · refine List.forall_mem_cons.mpr ⟨Nat.le_refl _, fun t ht => ?_⟩
      have hbehind := htiles.behind t ht
      omega
    · refine List.forall_mem_cons.mpr ⟨?_, htiles.longest⟩
      rw [hfront]
      rwa [List.append_nil] at hlongest
    · exact List.pairwise_cons.mpr ⟨htiles.behind, htiles.disjoint⟩
    · obtain ⟨hfirst, hothers⟩ := List.forall_mem_cons.mp hcovered
      have hlater : start + lexeme.text.length ≤ place := by
        by_contra hlt
        exact hfirst ⟨hplace, Nat.not_le.mp hlt⟩
      exact htiles.blank place d hlater hd hothers

section

variable {text : List Char} {start : Nat} {ts : List Token}

theorem Tiles.eq_nil (h : Tiles text start ts) (hend : text.drop start = []) : ts = [] := by
  by_contra hne
  obtain ⟨t, us, rfl⟩ := List.exists_cons_of_ne_nil hne
  have hlongest := h.longest t List.mem_cons_self
  have hdrop : text.drop t.position = [] := by
    have hbehind := h.behind t List.mem_cons_self
    rw [List.drop_eq_nil_iff] at hend ⊢
    omega
  rw [hdrop] at hlongest
  exact stops_nil.noLexeme _ hlongest.toBegins

/-- A blank is no part of a token, since no lexeme begins with one. -/
theorem Tiles.skip {c : Char} (h : Tiles text start ts) (hc : text[start]? = some c)
    (hblank : Text.isBlank c = true) : Tiles text (start + 1) ts := by
  refine ⟨fun t ht => ?_, h.longest, h.disjoint,
    fun place d hplace => h.blank place d (Nat.le_of_succ_le hplace)⟩
  refine Nat.lt_of_le_of_ne (h.behind t ht) ?_
  rintro rfl
  obtain ⟨hwritten, hbegins⟩ := (h.longest t ht).toBegins
  obtain ⟨d, more, htext, hd⟩ := hwritten.begins
  rw [htext] at hbegins
  have hhead : (text.drop t.position).head? = some d := by
    obtain ⟨rest, hrest⟩ := hbegins
    rw [← hrest]
    rfl
  rw [List.head?_drop, hc] at hhead
  cases hhead
  rw [hblank] at hd
  cases hd

/-- What is not blank begins the first token. -/
theorem Tiles.exists_first {c : Char} (h : Tiles text start ts) (hc : text[start]? = some c)
    (hblank : Text.isBlank c = false) :
    ∃ lexeme us, ts = ⟨lexeme, start⟩ :: us ∧ lexeme.IsLongest (text.drop start) ∧
      Tiles text (start + lexeme.text.length) us := by
  obtain ⟨t, ht, hcovers⟩ : ∃ t ∈ ts, t.Covers start := by
    by_contra hnone
    rw [h.blank start c (Nat.le_refl _) hc fun t ht hcovers => hnone ⟨t, ht, hcovers⟩] at hblank
    cases hblank
  cases ts with
  | nil => cases ht
  | cons first us =>
    obtain ⟨hfirst, hothers⟩ := List.pairwise_cons.mp h.disjoint
    have hfirstBehind := h.behind first List.mem_cons_self
    have hfirstLongest := h.longest first List.mem_cons_self
    have hposition : first.position = start := by
      rcases List.mem_cons.mp ht with rfl | ht
      · exact Nat.le_antisymm hcovers.1 hfirstBehind
      · -- A later token that stood on the place would come before the end of the first one.
        have hlater := hfirst t ht
        have hreach := hcovers.1
        omega
    obtain ⟨lexeme, position⟩ := first
    obtain rfl : position = start := hposition
    refine ⟨lexeme, us, rfl, hfirstLongest, hfirst, fun u hu => h.longest u (.tail _ hu), hothers,
      fun place d hplace hd hcovered => ?_⟩
    refine h.blank place d ((Nat.le_add_right _ _).trans hplace) hd ?_
    refine List.forall_mem_cons.mpr ⟨fun hcovers => ?_, hcovered⟩
    exact absurd hplace (Nat.not_le.mpr hcovers.2)

/-- Tokens that make up a text are those that it is cut into. -/
theorem Tiles.scans (h : Tiles text start ts) : Scans [] start (text.drop start) ts := by
  -- By the length of what is left, along the same choice between blank and lexeme as the scanner's.
  induction hlength : (text.drop start).length using Nat.strong_induction_on
    generalizing start ts with
  | h length ih =>
    cases hdrop : text.drop start with
    | nil =>
      rw [h.eq_nil hdrop]
      exact .nil
    | cons c more =>
      have hc : text[start]? = some c := by
        rw [← List.head?_drop, hdrop]
        rfl
      cases hblank : Text.isBlank c with
      | true =>
        have hnext : text.drop (start + 1) = more := by
          rw [← List.tail_drop, hdrop]
          rfl
        refine .blank hblank ?_
        rw [← hnext]
        refine ih _ ?_ (h.skip hc hblank) rfl
        rw [hnext, ← hlength, hdrop, List.length_cons]
        exact Nat.lt_succ_self _
      | false =>
        obtain ⟨lexeme, us, rfl, hlongest, hrest⟩ := h.exists_first hc hblank
        obtain ⟨behind, hbehind⟩ := hlongest.begins
        have hnext : text.drop (start + lexeme.text.length) = behind := by
          rw [← List.drop_drop, ← hbehind, ← String.length_toList, List.drop_left]
        have hscans : Scans [] (start + lexeme.text.length) behind us := by
          rw [← hnext]
          refine ih _ ?_ hrest rfl
          have hpos := hlongest.written.length_pos
          rw [hnext, ← hlength, ← hbehind, List.length_append, String.length_toList]
          omega
        rw [← hdrop, ← hbehind]
        rw [← hbehind] at hlongest
        exact .lexeme (by rwa [List.append_nil]) hscans

end

/-- The tokens are cut out of the text: each is the longest lexeme at its place, they do not
overlap, and between them there are only blanks. -/
structure AreCut (ts : List Token) (text : List Char) : Prop where
  increasing : ts.Pairwise fun t u => t.position < u.position
  slice : ∀ t ∈ ts, t.lexeme.text.toList = (text.drop t.position).take t.lexeme.text.length
  disjoint : ts.Pairwise fun t u => t.position + t.lexeme.text.length ≤ u.position
  blank : ∀ place c, text[place]? = some c → (∀ t ∈ ts, ¬t.Covers place) → Text.isBlank c = true
  longest : ∀ t ∈ ts, t.lexeme.IsLongest (text.drop t.position)

theorem Tiles.areCut {text : List Char} {ts : List Token} (h : Tiles text 0 ts) :
    AreCut ts text where
  increasing := by
    refine h.disjoint.imp_of_mem fun {t u} ht _ hdisjoint => ?_
    have hpos := (h.longest t ht).written.length_pos
    omega
  slice t ht := by
    have hslice := List.prefix_iff_eq_take.mp (h.longest t ht).begins
    rwa [String.length_toList] at hslice
  disjoint := h.disjoint
  blank place c := h.blank place c (Nat.zero_le _)
  longest := h.longest

/-- The tokens of a text are the only ones that are cut out of it. -/
theorem tokens_eq_ok_iff_areCut {text : String} {ts : List Token} :
    tokens text = .ok ts ↔ AreCut ts text.toList := by
  rw [tokens_eq_ok_iff]
  constructor
  · intro h
    exact (h.tiles List.drop_zero).areCut
  · intro h
    have htiles : Tiles text.toList 0 ts :=
      ⟨fun _ _ => Nat.zero_le _, h.longest, h.disjoint, fun place c _ => h.blank place c⟩
    simpa using htiles.scans

/-- The first `n` characters of the text. -/
def cutAt (text : String) (n : Nat) : String :=
  String.ofList (text.toList.take n)

/-- **Tokens lose nothing, and a failure has one place.** The tokens of a text are its longest
lexemes, each a slice of the text at its position; they follow each other without overlap, and all
else is blank. There is one such list at most, and it is found if there is one. A text without
tokens fails at a character that is not blank and begins no lexeme. What comes before it has
tokens, and however much of the text is read beyond, it fails at that character. -/
theorem tokens_lossless (text : String) :
    (∀ ts, tokens text = .ok ts ↔ AreCut ts text.toList) ∧
    ∀ stray, tokens text = .error stray →
      (text.toList[stray.position]? = some stray.char ∧ Text.isBlank stray.char = false ∧
        ∀ lexeme : Lexeme, ¬lexeme.Begins (text.toList.drop stray.position)) ∧
      (∃ ts, tokens (cutAt text stray.position) = .ok ts) ∧
      ∀ q, stray.position < q → tokens (cutAt text q) = .error stray := by
  refine ⟨fun ts => tokens_eq_ok_iff_areCut, fun stray hstray => ?_⟩
  obtain ⟨front, rest, ts, hparts, hposition, hscans, hstops⟩ := tokens_eq_error_iff.mp hstray
  have hdrop : text.toList.drop stray.position = stray.char :: rest := by
    rw [hparts, ← hposition, List.drop_left]
  refine ⟨⟨?_, hstops.notBlank _ rfl, ?_⟩, ⟨ts, ?_⟩, fun q hq => ?_⟩
  · rw [← List.head?_drop, hdrop]
    rfl
  · rw [hdrop]
    exact hstops.noLexeme
  · rw [tokens_eq_ok_iff, cutAt, String.toList_ofList, hparts, ← hposition, List.take_left]
    exact hscans.cut List.nil_prefix
  · obtain ⟨n, rfl⟩ := Nat.exists_eq_add_of_lt hq
    have hcut : rest.take n <+: rest := List.take_prefix _ _
    refine tokens_eq_error_iff.mpr ⟨front, _, ts, ?_, hposition, hscans.cut ?_, hstops.cut hcut⟩
    · rw [cutAt, String.toList_ofList, hparts, ← hposition, Nat.add_assoc,
        List.take_length_add_append, List.take_succ_cons]
    · exact List.cons_prefix_cons.mpr ⟨rfl, hcut⟩

/-- A dot behind a number, with no digit behind it. -/
def strayDot : String :=
  "a.b → -1.x"

theorem tokens_lossless_strayDot :
    tokens strayDot = .error ⟨'.', 8⟩ ∧
    (∃ ts, tokens (cutAt strayDot 8) = .ok ts) ∧ tokens (cutAt strayDot 9) = .error ⟨'.', 8⟩ := by
  have hstray : tokens strayDot = .error ⟨'.', 8⟩ := by decide +kernel
  obtain ⟨-, hbefore, hbeyond⟩ := (tokens_lossless strayDot).2 _ hstray
  exact ⟨hstray, hbefore, hbeyond 9 (Nat.lt_succ_self _)⟩

end DocComments.TypeExpr
