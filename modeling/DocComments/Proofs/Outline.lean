import DocComments.Declaration.Outline
import DocComments.Proofs.Forest
import DocComments.Proofs.Outcome

/-!
# What an outline holds

The lines of a block fall into paragraphs, rows of lines that are not empty. The heads of a block
are the declaration lines that open a paragraph. Reading moves a cursor from head to head, and
`Reads` says what one stretch of reading does: it turns the heads between two places into
declarations, in order, with members indented deeper than what they belong to.

* `seekHead_heads`: passing to the next head loses none.
* `declarationWith_reads`, `membersWithin_reads`: a declaration with its members, and a list of
  members, each read such a stretch. Readings compose (`Reads.append`).
* `block_outline`: a block that is read to its end holds its heads in line order, each once.
-/

namespace DocComments

/-! ## Heads -/

@[simp] theorem Line.isEmpty_empty (indent : Nat) : (Line.empty indent).isEmpty = true := rfl

@[simp] theorem Line.isEmpty_documentation (indent : Nat) (text : String) :
    (Line.documentation indent text).isEmpty = false := rfl

@[simp] theorem Line.isEmpty_declaration (head : DeclarationLine) :
    (Line.declaration head).isEmpty = false := rfl

/-- Does a paragraph open at this line, because no line or an empty one comes before it? -/
def opensParagraph (lines : List Line) (i : Nat) : Bool :=
  i == 0 || lines[i - 1]?.any Line.isEmpty

/-- The declaration lines that open a paragraph, with their numbers. -/
def heads (lines : List Line) : List (Nat × DeclarationLine) :=
  lines.zipIdx.filterMap fun (line, i) =>
    match line with
    | .declaration head => if opensParagraph lines i then some (i, head) else none
    | _ => none

/-- The heads from a line on, which may stand within a paragraph. -/
def headsFrom (within : Bool) (position : Nat) : List Line → List (Nat × DeclarationLine)
  | [] => []
  | .empty _ :: rest => headsFrom false (position + 1) rest
  | .documentation _ _ :: rest => headsFrom true (position + 1) rest
  | .declaration head :: rest =>
    if within then headsFrom true (position + 1) rest
    else (position, head) :: headsFrom true (position + 1) rest

/-- The line before decides whether the lines start within a paragraph. -/
theorem headsFrom_eq (before rest : List Line) :
    headsFrom (!opensParagraph (before ++ rest) before.length) before.length rest =
      (rest.zipIdx before.length).filterMap fun (line, i) =>
        match line with
        | .declaration head => if opensParagraph (before ++ rest) i then some (i, head) else none
        | _ => none := by
  induction rest generalizing before with
  | nil => rfl
  | cons line rest ih =>
    have hnext : opensParagraph (before ++ line :: rest) (before.length + 1) = line.isEmpty := by
      simp [opensParagraph]
    have hrest := ih (before ++ [line])
    simp only [List.append_assoc, List.singleton_append, List.length_append, List.length_singleton,
      hnext] at hrest
    rw [List.zipIdx_cons, List.filterMap_cons, ← hrest]
    cases line with
    | empty indent => simp [headsFrom]
    | documentation indent text => simp [headsFrom]
    | declaration head =>
      cases hopen : opensParagraph (before ++ .declaration head :: rest) before.length <;>
        simp [headsFrom, hopen]

theorem heads_eq_headsFrom (lines : List Line) : heads lines = headsFrom false 0 lines :=
  (headsFrom_eq [] lines).symm

theorem headsFrom_dropWhile_isEmpty (lines : List Line) (position : Nat) :
    headsFrom false (position + (lines.takeWhile Line.isEmpty).length)
      (lines.drop (lines.takeWhile Line.isEmpty).length) = headsFrom false position lines := by
  induction lines generalizing position with
  | nil => rfl
  | cons line rest ih =>
    cases line with
    | empty indent =>
      have hrest := ih (position + 1)
      simp only [List.takeWhile, Line.isEmpty_empty, List.length_cons, List.drop_succ_cons,
        headsFrom]
      rw [← hrest, Nat.add_right_comm, Nat.add_assoc]
    | documentation indent text => simp
    | declaration head => simp

theorem headsFrom_increasing (within : Bool) (position : Nat) (lines : List Line) :
    (∀ head ∈ headsFrom within position lines, position ≤ head.1) ∧
      ((headsFrom within position lines).map (·.1)).Pairwise (· < ·) := by
  induction lines generalizing within position with
  | nil => simp [headsFrom]
  | cons line rest ih =>
    have later : ∀ within, ∀ head ∈ headsFrom within (position + 1) rest, position < head.1 :=
      fun within head hhead => (ih within (position + 1)).1 head hhead
    have notBefore : ∀ within, ∀ head ∈ headsFrom within (position + 1) rest, position ≤ head.1 :=
      fun within head hhead => Nat.le_of_lt (later within head hhead)
    cases line with
    | empty indent => exact ⟨notBefore false, (ih false (position + 1)).2⟩
    | documentation indent text => exact ⟨notBefore true, (ih true (position + 1)).2⟩
    | declaration head =>
      cases within with
      | true => exact ⟨notBefore true, (ih true (position + 1)).2⟩
      | false =>
        refine ⟨?_, ?_⟩
        · intro head' hhead'
          rcases List.mem_cons.mp hhead' with rfl | hhead'
          · exact Nat.le_refl _
          · exact notBefore true head' hhead'
        · refine List.pairwise_cons.mpr ⟨?_, (ih true (position + 1)).2⟩
          intro i hi
          obtain ⟨head', hhead', rfl⟩ := List.mem_map.mp hi
          exact later true head' hhead'

theorem getElem?_of_mem_headsFrom {lines rest : List Line} {within : Bool} {position : Nat}
    (hrest : rest = lines.drop position) {i : Nat} {head : DeclarationLine}
    (h : (i, head) ∈ headsFrom within position rest) : lines[i]? = some (.declaration head) := by
  induction rest generalizing within position with
  | nil => simp [headsFrom] at h
  | cons line rest ih =>
    have htail : rest = lines.drop (position + 1) := by
      rw [← List.tail_drop, ← hrest, List.tail_cons]
    cases line with
    | empty indent => exact ih htail h
    | documentation indent text => exact ih htail h
    | declaration own =>
      cases within with
      | true => exact ih htail h
      | false =>
        rcases List.mem_cons.mp h with hown | h
        · cases hown
          rw [← List.head?_drop, ← hrest, List.head?_cons]
        · exact ih htail h

theorem getElem?_of_mem_heads {lines : List Line} {i : Nat} {head : DeclarationLine}
    (h : (i, head) ∈ heads lines) : lines[i]? = some (.declaration head) := by
  rw [heads_eq_headsFrom] at h
  exact getElem?_of_mem_headsFrom List.drop_zero.symm h

/-! ## Cursors -/

namespace Cursor

/-- The heads from the cursor on, where a paragraph opens at it. -/
def heads (cursor : Cursor) : List (Nat × DeclarationLine) :=
  headsFrom false cursor.position cursor.rest

/-- The cursor holds the lines from its position on, and stands at a declaration or at the end. -/
structure AtHead (lines : List Line) (cursor : Cursor) : Prop where
  rest_eq : cursor.rest = lines.drop cursor.position
  declares : ∀ line ∈ cursor.rest.head?, ∃ head, line = .declaration head

theorem seekHead_heads (within : Bool) (position : Nat) (rest : List Line) :
    (seekHead within position rest).heads = headsFrom within position rest := by
  induction rest generalizing within position with
  | nil => rfl
  | cons line rest ih =>
    cases line with
    | empty indent => exact ih false (position + 1)
    | documentation indent text => exact ih true (position + 1)
    | declaration head =>
      cases within with
      | false => rfl
      | true => exact ih true (position + 1)

theorem seekHead_length_le (within : Bool) (position : Nat) (rest : List Line) :
    (seekHead within position rest).rest.length ≤ rest.length := by
  induction rest generalizing within position with
  | nil => exact Nat.le_refl _
  | cons line rest ih =>
    cases line with
    | empty indent => exact Nat.le_succ_of_le (ih false (position + 1))
    | documentation indent text => exact Nat.le_succ_of_le (ih true (position + 1))
    | declaration head =>
      cases within with
      | false => exact Nat.le_refl _
      | true => exact Nat.le_succ_of_le (ih true (position + 1))

theorem seekHead_atHead {lines : List Line} (within : Bool) {position : Nat} {rest : List Line}
    (h : rest = lines.drop position) : AtHead lines (seekHead within position rest) := by
  induction rest generalizing within position with
  | nil => exact ⟨h, by simp [seekHead]⟩
  | cons line rest ih =>
    have hrest : rest = lines.drop (position + 1) := by
      rw [← List.tail_drop, ← h, List.tail_cons]
    cases line with
    | empty indent => exact ih false hrest
    | documentation indent text => exact ih true hrest
    | declaration head =>
      cases within with
      | false => exact ⟨h, by simp [seekHead]⟩
      | true => exact ih true hrest

theorem AtHead.seekHead_next {lines : List Line} {cursor : Cursor} (h : cursor.AtHead lines) :
    (seekHead true cursor.next.position cursor.next.rest).AtHead lines := by
  apply seekHead_atHead
  simp only [next, h.rest_eq, List.tail_drop]

theorem seekHead_next_length {cursor : Cursor} {line : Line} {rest : List Line}
    (hrest : cursor.rest = line :: rest) :
    (seekHead true cursor.next.position cursor.next.rest).rest.length < cursor.rest.length := by
  have hle := seekHead_length_le true cursor.next.position cursor.next.rest
  simp only [next, hrest, List.tail_cons, List.length_cons] at hle ⊢
  omega

/-- The line at a cursor is the line at its position. -/
theorem AtHead.getElem? {lines : List Line} {cursor : Cursor} (h : cursor.AtHead lines)
    {line : Line} {rest : List Line} (hrest : cursor.rest = line :: rest) :
    lines[cursor.position]? = some line := by
  rw [← List.head?_drop, ← h.rest_eq, hrest, List.head?_cons]

end Cursor

namespace Outline

open Declaration

/-! ## Stretches of reading -/

/-- The indentation of the line that a declaration comes from. -/
def headIndent (lines : List Line) (d : Declaration) : Nat :=
  (lines[d.origin.line]?.map Line.indent).getD 0

/-- The members are indented alike and deeper than the declaration, and are no empty list. -/
structure WellNested (lines : List Line) (d : Declaration) : Prop where
  deeper : ∀ m ∈ d.parts, headIndent lines d < headIndent lines m
  aligned : ∀ m ∈ d.parts, ∀ other ∈ d.parts, headIndent lines m = headIndent lines other
  filled : d.members ≠ some []

/-- What a declaration says, and from where. -/
def said (d : Declaration) : Origin × Except Failure Heading :=
  (d.origin, .ok d.heading)

variable (resolve : DeclarationLine → Except Failure Heading) (number : Nat)

/-- What a head of the block with this number is to say. -/
def toSay (head : Nat × DeclarationLine) : Origin × Except Failure Heading :=
  ({ block := number, line := head.1 }, resolve head.2)

variable (lines : List Line)

/-- Reading from `cursor` to `after` turns the heads between them into the forest. -/
structure Reads (cursor after : Cursor) (forest : List Declaration) : Prop where
  atHead : after.AtHead lines
  shorter : after.rest.length + forest.length ≤ cursor.rest.length
  heads : cursor.heads.map (toSay resolve number) =
    (preorderAll forest).map said ++ after.heads.map (toSay resolve number)
  nested : ∀ d ∈ preorderAll forest, WellNested lines d

/-- A reader of members reads a stretch from every place with fewer lines than `bound` left. Its
members are indented as asked for, and there are some if the first line is. -/
def ReadsMembers (members : (indent : Nat) → Cursor → Except Stop (List Declaration × Cursor))
    (bound : Nat) : Prop :=
  ∀ indent cursor forest after, cursor.AtHead lines → cursor.rest.length < bound →
    members indent cursor = .ok (forest, after) →
      Reads resolve number lines cursor after forest ∧
        (∀ m ∈ forest, headIndent lines m = indent) ∧
        ∀ head rest, cursor.rest = .declaration head :: rest → head.indent = indent → forest ≠ []

variable {resolve number lines}

theorem Reads.refl {cursor : Cursor} (h : cursor.AtHead lines) :
    Reads resolve number lines cursor cursor [] where
  atHead := h
  shorter := Nat.le_refl _
  heads := by simp
  nested := by simp

theorem Reads.append {first middle last : Cursor} {forest more : List Declaration}
    (h₁ : Reads resolve number lines first middle forest)
    (h₂ : Reads resolve number lines middle last more) :
    Reads resolve number lines first last (forest ++ more) where
  atHead := h₂.atHead
  shorter := by
    have := h₁.shorter
    have := h₂.shorter
    rw [List.length_append]
    omega
  heads := by rw [h₁.heads, h₂.heads, preorderAll_append, List.map_append, List.append_assoc]
  nested := by
    intro d hd
    rcases List.mem_append.mp (preorderAll_append forest more ▸ hd) with hd | hd
    · exact h₁.nested d hd
    · exact h₂.nested d hd

theorem ReadsMembers.mono
    {members : (indent : Nat) → Cursor → Except Stop (List Declaration × Cursor)}
    {bound smaller : Nat} (h : ReadsMembers resolve number lines members bound)
    (hle : smaller ≤ bound) : ReadsMembers resolve number lines members smaller :=
  fun indent cursor forest after hat hlt => h indent cursor forest after hat (by omega)

/-- The line at the cursor is the one that a declaration made there comes from. -/
theorem headIndent_of_atHead {cursor : Cursor} (hat : cursor.AtHead lines)
    {head : DeclarationLine} {rest : List Line} (hrest : cursor.rest = .declaration head :: rest)
    {d : Declaration} (hline : d.origin.line = cursor.position) :
    headIndent lines d = head.indent := by
  simp [headIndent, hline, hat.getElem? hrest, Line.indent]

/-- The head at a cursor comes first, then those after the rest of its paragraph. -/
theorem heads_of_atHead {cursor : Cursor} {head : DeclarationLine} {rest : List Line}
    (hrest : cursor.rest = .declaration head :: rest) :
    cursor.heads = (cursor.position, head) ::
      (Cursor.seekHead true cursor.next.position cursor.next.rest).heads := by
  rw [Cursor.seekHead_heads]
  simp [Cursor.heads, Cursor.next, hrest, headsFrom]

/-- A declaration is read by its head and, if more is below it, by a reading of its members. -/
theorem reads_declaration {cursor after : Cursor}
    {head : DeclarationLine} {rest : List Line} (hrest : cursor.rest = .declaration head :: rest)
    {heading : Heading} (hheading : resolve head = .ok heading) {d : Declaration}
    (hsaid : d.origin = { block := number, line := cursor.position } ∧ d.heading = heading)
    (hparts : Reads resolve number lines
      (Cursor.seekHead true cursor.next.position cursor.next.rest) after d.parts)
    (hnested : WellNested lines d) : Reads resolve number lines cursor after [d] where
  atHead := hparts.atHead
  shorter := by
    have hle := hparts.shorter
    have hlt := Cursor.seekHead_next_length hrest
    simp only [List.length_singleton]
    omega
  heads := by
    rw [heads_of_atHead hrest, List.map_cons, hparts.heads]
    simp [toSay, said, hheading, hsaid]
  nested := by
    intro x hx
    rcases List.mem_cons.mp (by simpa using hx) with rfl | hx
    · exact hnested
    · exact hparts.nested x hx

theorem wellNested_of_members_none {d : Declaration} (h : d.members = none) :
    WellNested lines d := by
  constructor <;> simp [parts, h]

/-- A declaration is read with the members that follow its paragraph. -/
theorem declarationWith_reads
    {members : (indent : Nat) → Cursor → Except Stop (List Declaration × Cursor)}
    {cursor after : Cursor} (hat : cursor.AtHead lines) {head : DeclarationLine} {rest : List Line}
    (hrest : cursor.rest = .declaration head :: rest)
    (hmembers : ReadsMembers resolve number lines members cursor.rest.length) {d : Declaration}
    (h : declarationWith resolve number members head cursor = .ok (d, after)) :
    Reads resolve number lines cursor after [d] ∧ headIndent lines d = head.indent := by
  unfold declarationWith at h
  cases hheading : resolve head with
  | error failure => simp [hheading] at h
  | ok heading =>
    simp only [hheading] at h
    have hseek := hat.seekHead_next
    have hlt := Cursor.seekHead_next_length hrest
    -- Without members, the reading ends at the next head.
    have hleaf : ∀ {d : Declaration}, d = ⟨{ block := number, line := cursor.position }, heading,
        none⟩ → Reads resolve number lines cursor
          (Cursor.seekHead true cursor.next.position cursor.next.rest) [d] := by
      rintro d rfl
      exact reads_declaration hrest hheading ⟨rfl, rfl⟩ (.refl hseek)
        (wellNested_of_members_none rfl)
    have hindent : ∀ {d : Declaration},
        d.origin = { block := number, line := cursor.position } →
          headIndent lines d = head.indent :=
      fun horigin => headIndent_of_atHead hat hrest (by rw [horigin])
    split at h
    · rename_i line tail hline
      split at h
      · rename_i hdeeper
        obtain ⟨⟨forest, last⟩, hforest, h⟩ := except_bind_eq_ok.mp h
        cases h
        obtain ⟨hreads, hindents, hsome⟩ := hmembers line.indent _ forest last hseek hlt hforest
        have hne : forest ≠ [] := hsome line tail hline rfl
        have hparts : parts ⟨{ block := number, line := cursor.position }, heading,
            if forest.isEmpty then none else some forest⟩ = forest := by
          simp [parts, hne]
        refine ⟨reads_declaration hrest hheading ⟨rfl, rfl⟩ (by rw [hparts]; exact hreads) ?_,
          hindent rfl⟩
        refine ⟨?_, ?_, by simp [hne]⟩ <;> rw [hparts]
        · intro m hm
          rw [hindent rfl, hindents m hm]
          exact hdeeper
        · intro m hm other hother
          rw [hindents m hm, hindents other hother]
      · cases h
        exact ⟨hleaf rfl, hindent rfl⟩
    · cases h
      exact ⟨hleaf rfl, hindent rfl⟩

/-- Members are read one declaration after the other, as long as they are indented alike. -/
theorem membersWithin_reads (count : Nat) :
    ReadsMembers resolve number lines (membersWithin resolve number count) count := by
  -- Every declaration takes a line at least, so the count never falls to the lines that are left.
  induction count with
  | zero => exact fun indent cursor forest after hat hlt => absurd hlt (Nat.not_lt_zero _)
  | succ count ih =>
    intro indent cursor forest after hat hlt h
    cases hrest : cursor.rest with
    | nil =>
      simp only [membersWithin, hrest] at h
      cases h
      exact ⟨.refl hat, by simp, by simp⟩
    | cons line rest =>
      obtain ⟨head, rfl⟩ := hat.declares line (by simp [hrest])
      simp only [membersWithin, hrest] at h
      split at h
      · rename_i hshallow
        cases h
        refine ⟨.refl hat, by simp, ?_⟩
        rintro head' rest' hhead rfl
        cases hhead
        omega
      · split at h
        · rename_i halign
          obtain ⟨⟨member, middle⟩, hmember, h⟩ := except_bind_eq_ok.mp h
          obtain ⟨⟨more, last⟩, hmore, h⟩ := except_bind_eq_ok.mp h
          cases h
          have hbound : cursor.rest.length ≤ count := by omega
          obtain ⟨hfirst, hfirstIndent⟩ := declarationWith_reads hat hrest (ih.mono hbound) hmember
          have hshorter := hfirst.shorter
          obtain ⟨hothers, hothersIndent, -⟩ := ih indent middle more last hfirst.atHead
            (by simp only [List.length_singleton] at hshorter; omega) hmore
          refine ⟨hfirst.append hothers, ?_, by simp⟩
          intro m hm
          rcases List.mem_cons.mp hm with rfl | hm
          · rw [hfirstIndent, halign]
          · exact hothersIndent m hm
        · cases h

theorem declaration_reads {cursor after : Cursor} (hat : cursor.AtHead lines)
    {head : DeclarationLine} {rest : List Line} (hrest : cursor.rest = .declaration head :: rest)
    {d : Declaration} (h : declaration resolve number head cursor = .ok (d, after)) :
    Reads resolve number lines cursor after [d] :=
  (declarationWith_reads hat hrest (membersWithin_reads _) h).1

/-! ## Blocks -/

/-- The declarations of an outline. -/
def forest (outline : Outline) : List Declaration :=
  outline.declarations.map (·.1)

/-- A block that is read without failure is one stretch of reading, up to the end. -/
theorem blockWithin_reads (count : Nat) {cursor : Cursor} (hat : cursor.AtHead lines)
    (hlt : cursor.rest.length < count)
    (h : (blockWithin resolve number count cursor).failure = none) :
    ∃ last : Cursor, last.rest = [] ∧
      Reads resolve number lines cursor last (blockWithin resolve number count cursor).forest := by
  induction count generalizing cursor with
  | zero => exact absurd hlt (Nat.not_lt_zero _)
  | succ count ih =>
    cases hrest : cursor.rest with
    | nil =>
      simp only [blockWithin, hrest]
      exact ⟨cursor, hrest, .refl hat⟩
    | cons line rest =>
      obtain ⟨head, rfl⟩ := hat.declares line (by simp [hrest])
      simp only [blockWithin, hrest] at h ⊢
      cases hfirst : declaration resolve number head cursor with
      | error stop => simp [hfirst] at h
      | ok found =>
        obtain ⟨first, after⟩ := found
        simp only [hfirst] at h ⊢
        have hreads := declaration_reads hat hrest hfirst
        have hshorter := hreads.shorter
        obtain ⟨last, hlast, hothers⟩ := ih hreads.atHead
          (by simp only [List.length_singleton] at hshorter; omega) h
        exact ⟨last, hlast, hreads.append hothers⟩

/-- The first line that is not empty is where the reading of a block starts. -/
theorem skipEmpty_line? (lines : List Line) :
    (Cursor.ofLines lines).skipEmpty.line? = lines.find? fun line => !line.isEmpty := by
  induction lines with
  | nil => rfl
  | cons line rest ih =>
    cases line with
    | empty indent =>
      simpa [Cursor.skipEmpty, Cursor.ofLines, Cursor.advance, Cursor.line?, List.takeWhile_cons]
        using ih
    | documentation indent text => rfl
    | declaration head => rfl

theorem skipEmpty_atHead {head : DeclarationLine}
    (h : (Cursor.ofLines lines).skipEmpty.line? = some (.declaration head)) :
    (Cursor.ofLines lines).skipEmpty.AtHead lines where
  rest_eq := by simp [Cursor.skipEmpty, Cursor.ofLines, Cursor.advance]
  declares := by
    intro line hline
    rw [Cursor.line?] at h
    exact ⟨head, by simpa [h] using hline.symm⟩

theorem skipEmpty_heads (lines : List Line) :
    (Cursor.ofLines lines).skipEmpty.heads = DocComments.heads lines := by
  rw [heads_eq_headsFrom, ← headsFrom_dropWhile_isEmpty]
  rfl

/-- A block that opens with a declaration is read from its first head to its end. -/
theorem block_reads {head : DeclarationLine}
    (hfirst : lines.find? (fun line => !line.isEmpty) = some (.declaration head))
    (h : (block resolve number (.ofLines lines)).failure = none) :
    (preorderAll (block resolve number (.ofLines lines)).forest).map said =
        (DocComments.heads lines).map (toSay resolve number) ∧
      ∀ d ∈ preorderAll (block resolve number (.ofLines lines)).forest, WellNested lines d := by
  rw [← skipEmpty_line?] at hfirst
  unfold block at h ⊢
  simp only [hfirst] at h ⊢
  obtain ⟨last, hlast, hreads⟩ :=
    blockWithin_reads _ (skipEmpty_atHead hfirst) (Nat.lt_succ_self _) h
  refine ⟨?_, hreads.nested⟩
  have hend : last.heads = [] := by simp [Cursor.heads, hlast, headsFrom]
  rw [← skipEmpty_heads, hreads.heads, hend, List.map_nil, List.append_nil]

theorem block_of_no_declaration
    (h : ∀ head, lines.find? (fun line => !line.isEmpty) ≠ some (.declaration head)) :
    (block resolve number (.ofLines lines)).forest = [] := by
  unfold block
  simp only
  split
  · rename_i head hhead
    exact absurd (skipEmpty_line? lines ▸ hhead) (h head)
  · rfl

/-- What a block declares comes from lines of it, in line order, and has no empty lists. -/
theorem block_origins (h : (block resolve number (.ofLines lines)).failure = none) :
    (∃ positions : List Nat, positions.Pairwise (· < ·) ∧
      origins (block resolve number (.ofLines lines)).forest =
        positions.map fun i => { block := number, line := i }) ∧
    Filled (block resolve number (.ofLines lines)).forest := by
  by_cases hfirst : ∃ head, lines.find? (fun line => !line.isEmpty) = some (.declaration head)
  · obtain ⟨head, hfirst⟩ := hfirst
    obtain ⟨hheads, hnested⟩ := block_reads hfirst h
    refine ⟨⟨(DocComments.heads lines).map (·.1), ?_, ?_⟩, fun d hd => (hnested d hd).filled⟩
    · rw [heads_eq_headsFrom]
      exact (headsFrom_increasing false 0 lines).2
    · have horigins := congrArg (List.map Prod.fst) hheads
      simpa [origins, said, toSay, Function.comp_def] using horigins
  · rw [block_of_no_declaration fun head hhead => hfirst ⟨head, hhead⟩]
    exact ⟨⟨[], List.Pairwise.nil, by simp⟩, by simp [Filled]⟩

/-- Every declaration of a block comes from a head of it, and is what the head is resolved to. -/
theorem block_head (h : (block resolve number (.ofLines lines)).failure = none) {d : Declaration}
    (hd : d ∈ preorderAll (block resolve number (.ofLines lines)).forest) :
    ∃ head, (d.origin.line, head) ∈ DocComments.heads lines ∧ d.origin.block = number ∧
      resolve head = .ok d.heading := by
  by_cases hfirst : ∃ head, lines.find? (fun line => !line.isEmpty) = some (.declaration head)
  · obtain ⟨head, hfirst⟩ := hfirst
    have hsaid : said d ∈ (DocComments.heads lines).map (toSay resolve number) := by
      rw [← (block_reads hfirst h).1]
      exact List.mem_map_of_mem hd
    obtain ⟨⟨i, own⟩, hown, hsay⟩ := List.mem_map.mp hsaid
    obtain ⟨horigin, hheading⟩ := Prod.mk.inj hsay
    rw [← horigin]
    exact ⟨own, hown, rfl, hheading⟩
  · rw [block_of_no_declaration fun head hhead => hfirst ⟨head, hhead⟩] at hd
    simp at hd

/-- **What a block declares.** A block that is read without failure yields nothing if its first
line that is not empty declares nothing. Otherwise the forest it yields has in pre-order just the
heads of the block, in line order and as they are resolved; members are indented deeper than what
they belong to and all alike, and where there are none there is no list of them. -/
theorem block_outline (resolve : DeclarationLine → Except Failure Heading) (number : Nat)
    (lines : List Line) {outline : Outline}
    (houtline : block resolve number (.ofLines lines) = outline) (h : outline.failure = none) :
    ((∀ head, lines.find? (fun line => !line.isEmpty) ≠ some (.declaration head)) →
      outline.forest = []) ∧
    ∀ head, lines.find? (fun line => !line.isEmpty) = some (.declaration head) →
      (preorderAll outline.forest).map (fun d => (d.origin, Except.ok d.heading)) =
        (DocComments.heads lines).map
          (fun head => ({ block := number, line := head.1 }, resolve head.2)) ∧
      (∀ d ∈ preorderAll outline.forest, ∀ m ∈ d.parts,
        headIndent lines d < headIndent lines m) ∧
      (∀ d ∈ preorderAll outline.forest, ∀ m ∈ d.parts, ∀ other ∈ d.parts,
        headIndent lines m = headIndent lines other) ∧
      ∀ d ∈ preorderAll outline.forest, d.parts = [] → d.members = none := by
  subst houtline
  refine ⟨block_of_no_declaration, fun head hfirst => ?_⟩
  obtain ⟨hheads, hnested⟩ := block_reads hfirst h
  refine ⟨hheads, fun d hd => (hnested d hd).deeper, fun d hd => (hnested d hd).aligned, ?_⟩
  intro d hd hparts
  have hfilled := (hnested d hd).filled
  cases hmembers : d.members with
  | none => rfl
  | some members => simp_all [parts]

/-- Declarations on three levels. A declaration line within a paragraph is hidden, a paragraph of
documentation stands between, and the last declaration goes back two levels. -/
def nestedLines : List Line := [
  .empty 0, .declaration ⟨1, "a", "A"⟩, .documentation 3 "about a", .empty 0,
  .declaration ⟨3, "b", "B"⟩, .declaration ⟨3, "hidden", "B"⟩, .empty 0,
  .declaration ⟨5, "c", "C"⟩, .empty 0, .documentation 7 "about c", .empty 0,
  .declaration ⟨1, "d", "D"⟩]

/-- Every line says its name. -/
def sayName (line : DeclarationLine) : Except Failure Heading :=
  .ok { name := line.identifier.getD "?", type := .anyType }

theorem block_outline_nestedLines :
    (block sayName 0 (.ofLines nestedLines)).failure = none ∧
    (preorderAll (block sayName 0 (.ofLines nestedLines)).forest).map (fun d =>
      (d.heading.name, d.parts.length)) = [("a", 1), ("b", 1), ("c", 0), ("d", 0)] ∧
    (preorderAll (block sayName 0 (.ofLines nestedLines)).forest).map (fun d =>
        (d.origin, Except.ok d.heading)) =
      (DocComments.heads nestedLines).map (fun head => ({ block := 0, line := head.1 },
        sayName head.2)) :=
  ⟨rfl, by decide +kernel, ((block_outline sayName 0 nestedLines rfl rfl).2 _ rfl).1⟩

end Outline

end DocComments
