import DocComments.Proofs.SingleComments
import DocComments.Proofs.TypeLexemes

/-!
# The classes of comment lines

A text opens with a run of blanks and a run of characters of names, both as long as they can be.
What follows the two decides what line the text is:

    DECLARATION   := BLANK* NAMECHAR* SEPARATOR ' '* spec
    SEPARATOR     := ':' | '::' | ':-' | '::-'
    DOCUMENTATION := BLANK+ text
    EMPTY         := BLANK*

A separator takes in all it can, so a specification does not begin with a space, nor right behind
the separator with a sign that would make it longer. With that the parts of a declaration are
determined by the text, and every choice of parts is read back.

* `Opens.classify`: the class of a text, told from the runs that it opens with.
* `exists_separator`, `Stands.afterSeparator`: a separator is cut off, and found again.
* `classify_exact`: which texts are lines of which class, and how they are put together.
* `unnamed_spec_agrees_iff`: when a declaration without a name has the specification that its text
  has as the whole comment of a member.
-/

namespace DocComments.Line

/-! ## Runs -/

/-- The text does not begin with a character of the kind. -/
def StopsAt (kind : Char → Bool) (text : List Char) : Prop :=
  ∀ c, text.head? = some c → kind c = false

theorem stopsAt_dropWhile (kind : Char → Bool) (text : List Char) :
    StopsAt kind (text.dropWhile kind) := by
  intro c hc
  have hnot := List.head?_dropWhile_not kind text
  rw [hc] at hnot
  simpa using hnot

/-- A run is all that is taken, if the rest does not go on with it. -/
theorem takeWhile_run {kind : Char → Bool} {run rest : List Char}
    (hrun : ∀ c ∈ run, kind c = true) (hrest : StopsAt kind rest) :
    (run ++ rest).takeWhile kind = run ∧ (run ++ rest).dropWhile kind = rest := by
  rw [List.takeWhile_append_of_pos hrun, List.dropWhile_append_of_pos hrun]
  cases rest with
  | nil => simp
  | cons c rest =>
    have hc : kind c = false := hrest c rfl
    simp [hc]

/-- The text opens with blanks and then characters of names, as many as there are of each. -/
structure Opens (text blanks name rest : List Char) : Prop where
  parts : text = blanks ++ (name ++ rest)
  blanks : ∀ c ∈ blanks, Text.isBlank c = true
  blanksEnd : StopsAt Text.isBlank (name ++ rest)
  name : ∀ c ∈ name, isIdentifierChar c = true
  nameEnd : StopsAt isIdentifierChar rest

theorem exists_opens (text : List Char) : ∃ blanks name rest, Opens text blanks name rest := by
  let body := text.dropWhile Text.isBlank
  have hbody : body.takeWhile isIdentifierChar ++ body.dropWhile isIdentifierChar = body :=
    List.takeWhile_append_dropWhile
  refine ⟨text.takeWhile Text.isBlank, body.takeWhile isIdentifierChar,
    body.dropWhile isIdentifierChar, ?_, fun c hc => List.mem_takeWhile_imp hc, ?_,
    fun c hc => List.mem_takeWhile_imp hc, stopsAt_dropWhile _ _⟩
  · rw [hbody, List.takeWhile_append_dropWhile]
  · rw [hbody]
    exact stopsAt_dropWhile _ _

theorem not_isBlank_of_isIdentifierChar {c : Char} (h : isIdentifierChar c = true) :
    Text.isBlank c = false := by
  have hall : ∀ n ∈ TypeExpr.blankCodes, isIdentifierChar (Char.ofNat n) = false := by
    decide +kernel
  by_contra hblank
  have hc := hall c.toNat (TypeExpr.mem_blankCodes (Bool.not_eq_false _ ▸ hblank))
  rw [Char.ofNat_toNat, h] at hc
  cases hc

/-- Before a colon the runs end where their characters do. -/
theorem opens_of_colon {blanks name rest : List Char} (hblanks : ∀ c ∈ blanks, Text.isBlank c = true)
    (hname : ∀ c ∈ name, isIdentifierChar c = true) :
    Opens (blanks ++ (name ++ ':' :: rest)) blanks name (':' :: rest) where
  parts := rfl
  blanks := hblanks
  blanksEnd := by
    intro c hc
    cases name with
    | nil =>
      cases hc
      decide
    | cons d name =>
      cases hc
      exact not_isBlank_of_isIdentifierChar (hname _ List.mem_cons_self)
  name := hname
  nameEnd := by
    intro c hc
    cases hc
    decide

/-! ## Separators -/

/-- The separators between a name and a specification. -/
def separators : List (List Char) :=
  [[':'], [':', ':'], [':', '-'], [':', ':', '-']]

/-- Would the separator and the spaces behind it take in the character as well? They take in a
space, and where there are no spaces yet, a sign that makes the separator a longer one: a colon or
a dash behind `:`, and a dash behind `::`. -/
def Absorbs (separator : List Char) (spaces : Nat) (c : Char) : Prop :=
  c = ' ' ∨ (spaces = 0 ∧ separator ++ [c] ∈ separators)

/-- The specification begins where the separator and the spaces end. -/
def Stands (separator : List Char) (spaces : Nat) (spec : List Char) : Prop :=
  ∀ c, spec.head? = some c → ¬Absorbs separator spaces c

theorem dropOne_of_ne {c : Char} {text : List Char} (h : text.head? ≠ some c) :
    dropOne c text = text := by
  cases text with
  | nil => rfl
  | cons d rest =>
    have hne : d ≠ c := by simpa using h
    rw [dropOne, if_neg hne]

theorem dropOne_cases (c : Char) (text : List Char) :
    text = c :: dropOne c text ∨ (text.head? ≠ some c ∧ dropOne c text = text) := by
  by_cases h : text.head? = some c
  · obtain ⟨rest, rfl⟩ := List.head?_eq_some_iff.mp h
    exact Or.inl (by rw [dropOne, if_pos rfl])
  · exact Or.inr ⟨h, dropOne_of_ne h⟩

/-- What stands behind a separator that is as long as it can be begins with spaces. -/
theorem exists_spaces {separator text : List Char}
    (h : ∀ c, text.head? = some c → separator ++ [c] ∉ separators) :
    ∃ spaces, text = List.replicate spaces ' ' ++ text.dropWhile (· == ' ') ∧
      Stands separator spaces (text.dropWhile (· == ' ')) := by
  have hspaces : text.takeWhile (· == ' ') =
      List.replicate (text.takeWhile (· == ' ')).length ' ' := by
    rw [List.eq_replicate_iff]
    exact ⟨rfl, fun c hc => by simpa using List.mem_takeWhile_imp hc⟩
  have hparts : text =
      List.replicate (text.takeWhile (· == ' ')).length ' ' ++ text.dropWhile (· == ' ') := by
    rw [← hspaces, List.takeWhile_append_dropWhile]
  refine ⟨_, hparts, ?_⟩
  rintro c hc (rfl | ⟨hzero, hlonger⟩)
  · simpa using stopsAt_dropWhile (· == ' ') text ' ' hc
  · rw [hzero, List.replicate_zero, List.nil_append] at hparts
    rw [← hparts] at hc
    exact h c hc hlonger

/-- What begins with a colon begins with a separator that is as long as it can be. -/
theorem exists_longest (rest : List Char) :
    ∃ separator ∈ separators, ':' :: rest = separator ++ dropOne '-' (dropOne ':' rest) ∧
      ∀ c, (dropOne '-' (dropOne ':' rest)).head? = some c → separator ++ [c] ∉ separators := by
  rcases dropOne_cases ':' rest with hcolon | ⟨hcolon, hrest⟩
  · rcases dropOne_cases '-' (dropOne ':' rest) with hdash | ⟨hdash, htail⟩
    · refine ⟨[':', ':', '-'], by decide, ?_, by simp [separators]⟩
      simpa [← hdash] using hcolon
    · refine ⟨[':', ':'], by decide, by simpa [htail] using hcolon, ?_⟩
      intro c hc hlonger
      obtain rfl : c = '-' := by simpa [separators] using hlonger
      exact hdash (htail ▸ hc)
  · rw [hrest]
    rcases dropOne_cases '-' rest with hdash | ⟨hdash, htail⟩
    · exact ⟨[':', '-'], by decide, by simpa using hdash, by simp [separators]⟩
    · refine ⟨[':'], by decide, by simp [htail], ?_⟩
      intro c hc hlonger
      rw [htail] at hc
      have hsign : c = ':' ∨ c = '-' := by simpa [separators] using hlonger
      rcases hsign with rfl | rfl
      · exact hcolon hc
      · exact hdash hc

/-- What begins with a colon is cut into a separator, spaces and the rest. -/
theorem exists_separator (rest : List Char) :
    ∃ separator ∈ separators, ∃ spaces,
      ':' :: rest = separator ++ List.replicate spaces ' ' ++ afterSeparator rest ∧
      Stands separator spaces (afterSeparator rest) := by
  obtain ⟨separator, hseparator, hparts, hend⟩ := exists_longest rest
  obtain ⟨spaces, hspaces, hstands⟩ := exists_spaces hend
  refine ⟨separator, hseparator, spaces, ?_, hstands⟩
  rw [hparts, List.append_assoc]
  exact congrArg (separator ++ ·) hspaces

/-- The first character behind a separator makes it no longer, be it a space or not. -/
theorem Stands.head {separator spec : List Char} {spaces : Nat}
    (hspec : Stands separator spaces spec) {c : Char} (hsign : c ≠ ' ')
    (hlonger : separator ++ [c] ∈ separators) :
    (List.replicate spaces ' ' ++ spec).head? ≠ some c := by
  intro hc
  cases spaces with
  | zero => exact hspec c hc (Or.inr ⟨rfl, hlonger⟩)
  | succ spaces =>
    rw [List.replicate_succ] at hc
    cases hc
    exact hsign rfl

theorem Stands.dropWhile {separator spec : List Char} {spaces : Nat}
    (hspec : Stands separator spaces spec) :
    (List.replicate spaces ' ' ++ spec).dropWhile (· == ' ') = spec := by
  refine (takeWhile_run (by simp) fun c hc => ?_).2
  rw [beq_eq_false_iff_ne]
  rintro rfl
  exact hspec ' ' hc (Or.inl rfl)

/-- A separator with spaces is cut off again from what stands behind them. -/
theorem Stands.afterSeparator {separator spec : List Char} {spaces : Nat}
    (hspec : Stands separator spaces spec) (hseparator : separator ∈ separators) :
    ∃ rest, separator ++ List.replicate spaces ' ' ++ spec = ':' :: rest ∧
      Line.afterSeparator rest = spec := by
  have hcut : ∀ rest, dropOne '-' (dropOne ':' rest) = List.replicate spaces ' ' ++ spec →
      Line.afterSeparator rest = spec := by
    intro rest hrest
    rw [Line.afterSeparator, hrest, hspec.dropWhile]
  have hcases : separator = [':'] ∨ separator = [':', ':'] ∨ separator = [':', '-'] ∨
      separator = [':', ':', '-'] := by simpa [separators] using hseparator
  rcases hcases with rfl | rfl | rfl | rfl
  · refine ⟨List.replicate spaces ' ' ++ spec, rfl, hcut _ ?_⟩
    rw [dropOne_of_ne (c := ':') (hspec.head (by decide) (by decide)),
      dropOne_of_ne (hspec.head (by decide) (by decide))]
  · refine ⟨':' :: (List.replicate spaces ' ' ++ spec), rfl, hcut _ ?_⟩
    exact dropOne_of_ne (hspec.head (by decide) (by decide))
  · exact ⟨_, rfl, hcut _ rfl⟩
  · exact ⟨_, rfl, hcut _ rfl⟩

/-! ## Classes -/

/-- The name of a declaration as it is written; `none` where it is not. -/
def identifier? (name : List Char) : Option String :=
  if name.isEmpty then none else some (String.ofList name)

theorem declaration?_of_colon {indent : Nat} {name rest : List Char}
    (hname : ∀ c ∈ name, isIdentifierChar c = true) (hline : '\n' ∉ rest) :
    declaration? indent (name ++ ':' :: rest) =
      some ⟨indent, identifier? name, String.ofList (afterSeparator rest)⟩ := by
  have hend : StopsAt isIdentifierChar (':' :: rest) :=
    (opens_of_colon (List.forall_mem_nil _) hname).nameEnd
  obtain ⟨htake, hdrop⟩ := takeWhile_run hname hend
  have hsingle : single? (afterSeparator rest) = some (afterSeparator rest) :=
    single?_of_notMem fun hmem => hline (afterSeparator_subset rest hmem)
  rw [declaration?, hdrop]
  simp only [htake, hsingle]
  rfl

theorem declaration?_of_other {indent : Nat} {name rest : List Char}
    (hname : ∀ c ∈ name, isIdentifierChar c = true) (hend : StopsAt isIdentifierChar rest)
    (hrest : rest.head? ≠ some ':') : declaration? indent (name ++ rest) = none := by
  rw [declaration?, (takeWhile_run hname hend).2]
  split
  · exact absurd rfl hrest
  · rfl

/-- The declaration in a text that opens with blanks, a name and a colon. -/
def declared (blanks name tail : List Char) : DeclarationLine :=
  ⟨blanks.length, identifier? name, String.ofList (afterSeparator tail)⟩

theorem Opens.classify?_eq {text : String} {blanks name rest : List Char}
    (h : Opens text.toList blanks name rest) :
    classify? text = ofBody? blanks.length (name ++ rest) := by
  obtain ⟨htake, hdrop⟩ := takeWhile_run h.blanks h.blanksEnd
  simp only [classify?, h.parts, htake, hdrop]

theorem Opens.classify_of_colon {text : String} {blanks name tail : List Char}
    (h : Opens text.toList blanks name (':' :: tail)) (hline : '\n' ∉ text.toList) :
    Line.classify text = .ok (.declaration (declared blanks name tail)) := by
  have htail : '\n' ∉ tail := fun hmem => hline (h.parts ▸ by simp [hmem])
  rw [Line.classify, h.classify?_eq, ofBody?, declaration?_of_colon h.name htail]
  rfl

/-- The class of a text, told from the runs that it opens with. -/
theorem Opens.classify {text : String} {blanks name rest : List Char}
    (h : Opens text.toList blanks name rest) (hline : '\n' ∉ text.toList) :
    (∃ tail, rest = ':' :: tail ∧
      Line.classify text = .ok (.declaration (declared blanks name tail))) ∨
    (rest.head? ≠ some ':' ∧ name ++ rest = [] ∧
      Line.classify text = .ok (.empty blanks.length)) ∨
    (rest.head? ≠ some ':' ∧ name ++ rest ≠ [] ∧ blanks ≠ [] ∧
      Line.classify text = .ok (.documentation blanks.length (String.ofList (name ++ rest)))) ∨
    (rest.head? ≠ some ':' ∧ name ++ rest ≠ [] ∧ blanks = [] ∧
      Line.classify text = .error (.unknownLine text)) := by
  by_cases hcolon : rest.head? = some ':'
  · obtain ⟨tail, rfl⟩ := List.head?_eq_some_iff.mp hcolon
    exact Or.inl ⟨tail, rfl, h.classify_of_colon hline⟩
  · have hfeed : '\n' ∉ name ++ rest := fun hmem =>
      hline (h.parts ▸ List.mem_append_right blanks hmem)
    rw [Line.classify, h.classify?_eq, ofBody?, declaration?_of_other h.name h.nameEnd hcolon]
    refine Or.inr ?_
    by_cases hempty : name ++ rest = []
    · exact Or.inl ⟨hcolon, hempty, by simp [hempty]⟩
    · refine Or.inr ?_
      by_cases hblanks : blanks = []
      · exact Or.inr ⟨hcolon, hempty, hblanks, by simp [hempty, hblanks]⟩
      · refine Or.inl ⟨hcolon, hempty, hblanks, ?_⟩
        simp [hempty, hblanks, single?_of_notMem hfeed]

/-! ## Declarations -/

/-- The parts that a declaration is put together from. -/
structure Composes (blanks separator : List Char) (spaces : Nat) (line : DeclarationLine) :
    Prop where
  indent : line.indent = blanks.length
  blank : ∀ c ∈ blanks, Text.isBlank c = true
  named : line.identifier ≠ some ""
  name : ∀ c ∈ (line.identifier.getD "").toList, isIdentifierChar c = true
  separates : separator ∈ separators
  stands : Stands separator spaces line.spec.toList

/-- The text of a declaration: indentation, name, separator, spaces and specification. -/
def written (blanks separator : List Char) (spaces : Nat) (line : DeclarationLine) : List Char :=
  blanks ++ ((line.identifier.getD "").toList ++
    (separator ++ List.replicate spaces ' ' ++ line.spec.toList))

theorem toList_identifier? (name : List Char) : ((identifier? name).getD "").toList = name := by
  cases name with
  | nil => rfl
  | cons c rest => simp [identifier?]

theorem identifier?_ne (name : List Char) : identifier? name ≠ some "" := by
  cases name with
  | nil => simp [identifier?]
  | cons c rest =>
    rw [identifier?, if_neg (by simp), ne_eq, Option.some.injEq]
    intro hempty
    simpa using congrArg String.toList hempty

theorem identifier?_toList {identifier : Option String} (h : identifier ≠ some "") :
    identifier? (identifier.getD "").toList = identifier := by
  cases identifier with
  | none => rfl
  | some name =>
    have hname : name.toList ≠ [] := fun hempty => h (by simpa using hempty)
    simp [identifier?, hname]

/-- A declaration is put together as its text is. -/
theorem Opens.exists_written {text : List Char} {blanks name tail : List Char}
    (h : Opens text blanks name (':' :: tail)) :
    ∃ separator spaces, Composes blanks separator spaces (declared blanks name tail) ∧
      text = written blanks separator spaces (declared blanks name tail) := by
  obtain ⟨separator, hseparator, spaces, hparts, hspec⟩ := exists_separator tail
  refine ⟨separator, spaces, ⟨rfl, h.blanks, identifier?_ne name, ?_, hseparator, ?_⟩, ?_⟩
  · rw [declared, toList_identifier?]
    exact h.name
  · rwa [declared, String.toList_ofList]
  · rw [h.parts, written, declared, toList_identifier?, String.toList_ofList, hparts]

/-- A text that is put together like a declaration opens with its indentation and name. -/
theorem Composes.opens {blanks separator : List Char} {spaces : Nat} {line : DeclarationLine}
    (h : Composes blanks separator spaces line) :
    ∃ tail, Opens (written blanks separator spaces line) blanks
        (line.identifier.getD "").toList (':' :: tail) ∧
      afterSeparator tail = line.spec.toList := by
  obtain ⟨tail, hparts, hspec⟩ := h.stands.afterSeparator h.separates
  refine ⟨tail, ?_, hspec⟩
  rw [written, hparts]
  exact opens_of_colon h.blank h.name

/-- Whatever a declaration is put together from is read back from its text. -/
theorem Composes.classify {text : String} (hline : '\n' ∉ text.toList) {blanks separator : List Char}
    {spaces : Nat} {line : DeclarationLine} (h : Composes blanks separator spaces line)
    (htext : text.toList = written blanks separator spaces line) :
    Line.classify text = .ok (.declaration line) := by
  obtain ⟨tail, hopens, hspec⟩ := h.opens
  rw [← htext] at hopens
  rw [hopens.classify_of_colon hline, declared, identifier?_toList h.named, hspec,
    String.ofList_toList, ← h.indent]

/-! ## Which texts are which lines -/

section

variable {text : String} {blanks name rest : List Char}

theorem Opens.all_isBlank_iff (h : Opens text.toList blanks name rest) :
    (∀ c ∈ text.toList, Text.isBlank c = true) ↔ name ++ rest = [] := by
  rw [h.parts]
  constructor
  · intro hall
    cases hbody : name ++ rest with
    | nil => rfl
    | cons c body =>
      have hstop : Text.isBlank c = false := h.blanksEnd c (by rw [hbody]; rfl)
      rw [hall c (by simp [hbody])] at hstop
      cases hstop
  · intro hbody
    rw [hbody, List.append_nil]
    exact h.blanks

theorem Opens.declares_iff (h : Opens text.toList blanks name rest) (hline : '\n' ∉ text.toList) :
    (∃ line, Line.classify text = .ok (.declaration line)) ↔ rest.head? = some ':' := by
  rcases h.classify hline with ⟨tail, rfl, hclass⟩ | ⟨hcolon, -, hclass⟩ |
    ⟨hcolon, -, -, hclass⟩ | ⟨hcolon, -, -, hclass⟩
  · exact iff_of_true ⟨_, hclass⟩ rfl
  all_goals exact iff_of_false (by simp [hclass]) hcolon

theorem Opens.documents_iff (h : Opens text.toList blanks name rest)
    (hline : '\n' ∉ text.toList) {indent : Nat} {body : String} :
    Line.classify text = .ok (.documentation indent body) ↔
      (rest.head? ≠ some ':' ∧ blanks ≠ [] ∧ name ++ rest ≠ []) ∧
        indent = blanks.length ∧ text.toList = blanks ++ body.toList := by
  rcases h.classify hline with ⟨tail, rfl, hclass⟩ | ⟨-, hbody, hclass⟩ |
    ⟨hcolon, hbody, hblanks, hclass⟩ | ⟨-, -, hblanks, hclass⟩
  · exact iff_of_false (by simp [hclass]) (by simp)
  · exact iff_of_false (by simp [hclass]) fun hdocuments => hdocuments.1.2.2 hbody
  · rw [hclass, h.parts, List.append_cancel_left_eq]
    constructor
    · intro heq
      cases heq
      exact ⟨⟨hcolon, hblanks, hbody⟩, rfl, String.toList_ofList.symm⟩
    · rintro ⟨-, rfl, hbody⟩
      rw [hbody, String.ofList_toList]
  · exact iff_of_false (by simp [hclass]) fun hdocuments => hdocuments.1.2.1 hblanks

theorem Opens.isEmpty_iff (h : Opens text.toList blanks name rest) (hline : '\n' ∉ text.toList) :
    (∃ indent, Line.classify text = .ok (.empty indent)) ↔ name ++ rest = [] := by
  rcases h.classify hline with ⟨tail, rfl, hclass⟩ | ⟨-, hbody, hclass⟩ |
    ⟨-, hbody, -, hclass⟩ | ⟨-, hbody, -, hclass⟩
  · exact iff_of_false (by simp [hclass]) (by simp)
  · exact iff_of_true ⟨_, hclass⟩ hbody
  all_goals exact iff_of_false (by simp [hclass]) hbody

theorem Opens.isUnknown_iff (h : Opens text.toList blanks name rest) (hline : '\n' ∉ text.toList)
    {failure : Failure} :
    Line.classify text = .error failure ↔
      failure = .unknownLine text ∧ rest.head? ≠ some ':' ∧ blanks = [] ∧ name ++ rest ≠ [] := by
  rcases h.classify hline with ⟨tail, rfl, hclass⟩ | ⟨-, hbody, hclass⟩ |
    ⟨-, -, hblanks, hclass⟩ | ⟨hcolon, hbody, hblanks, hclass⟩
  · exact iff_of_false (by simp [hclass]) (by simp)
  · exact iff_of_false (by simp [hclass]) fun hunknown => hunknown.2.2.2 hbody
  · exact iff_of_false (by simp [hclass]) fun hunknown => hblanks hunknown.2.2.1
  · rw [hclass, Except.error.injEq, eq_comm]
    exact (and_iff_left ⟨hcolon, hblanks, hbody⟩).symm

end

/-- **Classes of lines.** A text without a line feed opens with blanks and then with characters of
names, both as many as there are. It declares something just if a colon follows, it documents
something just if no colon follows but something does, behind at least one blank, it is empty just
if it is all blank, and it is no line just in the remaining cases. The text of a declaration is its
indentation, its name, a separator, spaces and its specification, and all that is put together so,
from a specification that the separator and the spaces leave standing, is read back. The text of
documentation is its indentation and what it says. -/
theorem classify_exact {text : String} (hline : '\n' ∉ text.toList) :
    ∃ blanks name rest, Opens text.toList blanks name rest ∧
      ((∃ line, classify text = .ok (.declaration line)) ↔ rest.head? = some ':') ∧
      ((∃ indent body, classify text = .ok (.documentation indent body)) ↔
        rest.head? ≠ some ':' ∧ blanks ≠ [] ∧ name ++ rest ≠ []) ∧
      ((∃ indent, classify text = .ok (.empty indent)) ↔
        ∀ c ∈ text.toList, Text.isBlank c = true) ∧
      (∀ failure, classify text = .error failure ↔
        failure = .unknownLine text ∧ rest.head? ≠ some ':' ∧ blanks = [] ∧ name ++ rest ≠ []) ∧
      (∀ line, classify text = .ok (.declaration line) → ∃ separator spaces,
        Composes blanks separator spaces line ∧
          text.toList = written blanks separator spaces line) ∧
      (∀ indentation separator spaces line, Composes indentation separator spaces line →
        text.toList = written indentation separator spaces line →
          classify text = .ok (.declaration line)) ∧
      ∀ indent body, classify text = .ok (.documentation indent body) →
        indent = blanks.length ∧ text.toList = blanks ++ body.toList := by
  obtain ⟨blanks, name, rest, h⟩ := exists_opens text.toList
  refine ⟨blanks, name, rest, h, h.declares_iff hline, ?_, ?_, fun _ => h.isUnknown_iff hline,
    ?_, fun _ _ _ _ hparts => hparts.classify hline, ?_⟩
  · constructor
    · rintro ⟨indent, body, hclass⟩
      exact ((h.documents_iff hline).mp hclass).1
    · intro hdocuments
      refine ⟨blanks.length, String.ofList (name ++ rest), (h.documents_iff hline).mpr ?_⟩
      exact ⟨hdocuments, rfl, by rw [String.toList_ofList, ← h.parts]⟩
  · rw [h.all_isBlank_iff]
    exact h.isEmpty_iff hline
  · intro line hclass
    obtain ⟨tail, rfl⟩ := List.head?_eq_some_iff.mp ((h.declares_iff hline).mp ⟨line, hclass⟩)
    cases (h.classify_of_colon hline).symm.trans hclass
    exact h.exists_written
  · exact fun indent body hclass => ((h.documents_iff hline).mp hclass).2

/-- A dash that is part of the separator, and one behind a space that is not. -/
def dashedText : String :=
  "\t a.b:- -c: d"

theorem classify_exact_dashedText :
    '\n' ∉ dashedText.toList ∧
    classify dashedText = .ok (.declaration ⟨2, some "a.b", "-c: d"⟩) := by
  have hline : '\n' ∉ dashedText.toList := by decide
  obtain ⟨-, -, -, -, -, -, -, -, -, hread, -⟩ := classify_exact hline
  refine ⟨hline, hread ['\t', ' '] [':', '-'] 1 _
    ⟨rfl, List.all_eq_true.mp (by decide), by decide, List.all_eq_true.mp (by decide), by decide, ?_⟩
    (by decide)⟩
  intro c hc
  obtain rfl : '-' = c := by simpa using hc
  simp [Absorbs]

/-! ## Declarations without a name -/

theorem classify?_of_classify {text : String} {line : Line} (h : classify text = .ok line) :
    classify? text = some line := by
  unfold classify at h
  split at h
  · rename_i found hfound
    cases h
    exact hfound
  · cases h

/-- A specification is shorter than what its separator begins. -/
theorem length_afterSeparator_lt (rest : List Char) :
    (afterSeparator rest).length < (':' :: rest).length := by
  obtain ⟨separator, hseparator, spaces, hparts, -⟩ := exists_separator rest
  have hpos : 0 < separator.length := by
    have hall : ∀ separator ∈ separators, 0 < separator.length := by decide
    exact hall separator hseparator
  rw [hparts, List.length_append, List.length_append]
  omega

/-- No separator is cut off behind a blank that is not a space. -/
theorem memberSpec?_of_blank {text : String} (hline : '\n' ∉ text.toList)
    {blanks tail : List Char} (hparts : text.toList = blanks ++ ':' :: tail)
    (hblanks : ∀ c ∈ blanks, Text.isBlank c = true) (hother : ¬∀ c ∈ blanks, c = ' ') :
    memberSpec? text = some text := by
  have hkept : blanks.dropWhile (· == ' ') ≠ [] := by
    intro hnil
    exact hother fun c hc => by simpa using List.dropWhile_eq_nil_iff.mp hnil c hc
  obtain ⟨c, more, hmore⟩ := List.exists_cons_of_ne_nil hkept
  have hc : Text.isBlank c = true := by
    refine hblanks c ((List.dropWhile_sublist (· == ' ')).subset ?_)
    rw [hmore]
    exact List.mem_cons_self
  have hdrop : text.toList.dropWhile (· == ' ') = c :: (more ++ ':' :: tail) := by
    rw [hparts, List.dropWhile_append, hmore]
    rfl
  rw [memberSpec?, if_neg hline, hdrop]
  split
  · rename_i heq
    cases heq
    exact absurd hc (by decide)
  · rfl

/-- **Two readings of one separator.** A text without a line feed that declares something without a
name also specifies a member. The two specifications are the same just if the indentation is made of
plain spaces; behind any other blank the member is specified by the whole text. -/
theorem unnamed_spec_agrees_iff {text : String} (hline : '\n' ∉ text.toList)
    {line : DeclarationLine} (hclass : classify text = .ok (.declaration line))
    (hname : line.identifier = none) :
    ∃ spec, memberSpec? text = some spec ∧
      (spec = line.spec ↔ ∀ c ∈ text.toList.takeWhile Text.isBlank, c = ' ') ∧
      ((∃ c ∈ text.toList.takeWhile Text.isBlank, c ≠ ' ') → spec = text) := by
  obtain ⟨tail, hbody, hindent, hspec⟩ :=
    classify?_unnamed (classify?_of_classify hclass) hname hline
  generalize hlead : text.toList.takeWhile Text.isBlank = blanks at hindent ⊢
  have hparts : text.toList = blanks ++ ':' :: tail := by
    rw [← hlead, ← hbody, List.takeWhile_append_dropWhile]
  by_cases hspaces : ∀ c ∈ blanks, c = ' '
  · have htake : text.toList.take line.indent = blanks := by
      rw [hparts, hindent, List.take_left]
    refine ⟨line.spec, ?_, iff_of_true rfl hspaces, ?_⟩
    · exact memberSpec?_of_classify? (classify?_of_classify hclass) hname hline (htake ▸ hspaces)
    · rintro ⟨c, hc, hne⟩
      exact absurd (hspaces c hc) hne
  · have hblanks : ∀ c ∈ blanks, Text.isBlank c = true := by
      rw [← hlead]
      exact fun c hc => List.mem_takeWhile_imp hc
    refine ⟨text, memberSpec?_of_blank hline hparts hblanks hspaces, iff_of_false ?_ hspaces,
      fun _ => rfl⟩
    intro htext
    have hlength : text.toList.length = (afterSeparator tail).length := by
      rw [htext, hspec, String.toList_ofList]
    have hshorter := length_afterSeparator_lt tail
    rw [hparts, List.length_append] at hlength
    omega

/-- A specification that begins with a dash, behind spaces. -/
def spacedText : String :=
  "  ::- -> a"

/-- The same behind a tab. -/
def tabbedText : String :=
  " \t::- -> a"

theorem unnamed_spec_agrees_iff_indented :
    (classify spacedText = .ok (.declaration ⟨2, none, "-> a"⟩) ∧
      memberSpec? spacedText = some "-> a") ∧
    classify tabbedText = .ok (.declaration ⟨2, none, "-> a"⟩) ∧
      memberSpec? tabbedText = some tabbedText := by
  have hspaced : classify spacedText = .ok (.declaration ⟨2, none, "-> a"⟩) := by decide +kernel
  have htabbed : classify tabbedText = .ok (.declaration ⟨2, none, "-> a"⟩) := by decide +kernel
  obtain ⟨spec, hspec, hagrees, -⟩ := unnamed_spec_agrees_iff (by decide) hspaced rfl
  obtain ⟨whole, hwhole, -, hall⟩ := unnamed_spec_agrees_iff (by decide) htabbed rfl
  have hspaces : ∀ c ∈ spacedText.toList.takeWhile Text.isBlank, c = ' ' :=
    forall_space_of_all (by decide)
  refine ⟨⟨hspaced, ?_⟩, htabbed, ?_⟩
  · rw [hspec, hagrees.mpr hspaces]
  · rw [hwhole, hall ⟨'\t', by decide, by decide⟩]

end DocComments.Line
