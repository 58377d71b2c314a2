import DocComments.Proofs.Outline
import Mathlib.Data.List.Chain

/-!
# Columns of members

The members of one declaration stand in one column, and while a block is read the columns of all
declarations in progress are open. They can be kept in a list, the innermost first, by looking at
the indentations of the heads alone. A head that is deeper than the head before it opens a column.
Any other head closes the columns that are deeper than itself; if none is left it is a declaration
of the block, if the innermost that is left is its own it is a further member there, and if that
one is shallower, the head fits nowhere.

* `arrange` places the heads of a block so, each at a level, up to the first that fits nowhere.
* `declarationWith_agrees`, `membersWithin_agrees`: a declaration and a list of members are read
  as their heads are placed.
* `block_fails_iff_stuck`: the reading of a block fails just where a head fits nowhere.
* `block_rootsNotDeeper_iff`: which declaration can follow another one in a block. One that is
  deeper than the declaration before it can, if it is shallower than the members of that one.
-/

namespace DocComments

/-- Is it a failure of the way in which lines are indented? -/
def Failure.isNesting : Failure → Bool
  | strayDocumentation _ | misaligned _ _ _ => true
  | _ => false

/-! ## Placing heads -/

/-- The columns that are left when those deeper than `indent` are closed. There is no answer if the
innermost of them is shallower. -/
def settle (columns : List Nat) (indent : Nat) : Option (List Nat) :=
  match columns.dropWhile (indent < ·) with
  | [] => some []
  | column :: outer => if column = indent then some (column :: outer) else none

/-- The columns that are open after a head, where `previous` is the indentation of the head before
it. -/
def place (previous : Option Nat) (columns : List Nat) (indent : Nat) : Option (List Nat) :=
  if previous.any (· < indent) then some (indent :: columns) else settle columns indent

/-- Heads as far as they can be placed, each with the number of columns that are open after it, and
the heads from the first one on that cannot. -/
structure Arrangement where
  placed : List ((Nat × DeclarationLine) × Nat)
  stuck : List (Nat × DeclarationLine)
deriving DecidableEq

/-- Places heads one after the other. -/
def arrange (previous : Option Nat) (columns : List Nat) :
    List (Nat × DeclarationLine) → Arrangement
  | [] => ⟨[], []⟩
  | head :: rest =>
    match place previous columns head.2.indent with
    | none => ⟨[], head :: rest⟩
    | some columns =>
      let others := arrange (some head.2.indent) columns rest
      ⟨(head, columns.length) :: others.placed, others.stuck⟩

/-- The arrangement with other heads placed before. -/
def Arrangement.prepend (placed : List ((Nat × DeclarationLine) × Nat))
    (arrangement : Arrangement) : Arrangement :=
  ⟨placed ++ arrangement.placed, arrangement.stuck⟩

theorem settle_self (indent : Nat) (columns : List Nat) :
    settle (indent :: columns) indent = some (indent :: columns) := by
  simp [settle]

theorem settle_of_lt {indent column : Nat} (h : indent < column) (columns : List Nat) :
    settle (column :: columns) indent = settle columns indent := by
  simp [settle, h]

theorem settle_of_gt {indent column : Nat} (h : column < indent) (columns : List Nat) :
    settle (column :: columns) indent = none := by
  have hkeep : ¬indent < column := by omega
  have hother : column ≠ indent := by omega
  simp [settle, hkeep, hother]

/-- A head that finds its column open is one more member there. -/
theorem arrange_self (head : Nat × DeclarationLine) (columns : List Nat)
    (rest : List (Nat × DeclarationLine)) :
    arrange none (head.2.indent :: columns) (head :: rest) =
      (arrange (some head.2.indent) (head.2.indent :: columns) rest).prepend
        [(head, columns.length + 1)] := by
  simp [arrange, place, settle_self, Arrangement.prepend]

/-- Where no column is open, a head is a declaration of the block. -/
theorem arrange_root (head : Nat × DeclarationLine) (rest : List (Nat × DeclarationLine)) :
    arrange none [] (head :: rest) =
      (arrange (some head.2.indent) [] rest).prepend [(head, 0)] := by
  simp [arrange, place, settle, Arrangement.prepend]

/-- A column is closed by a shallower head. -/
theorem arrange_of_lt {column : Nat} {head : Nat × DeclarationLine} (h : head.2.indent < column)
    (columns : List Nat) (rest : List (Nat × DeclarationLine)) :
    arrange none (column :: columns) (head :: rest) = arrange none columns (head :: rest) := by
  simp [arrange, place, settle_of_lt h]

theorem arrange_of_gt {column : Nat} {head : Nat × DeclarationLine} (h : column < head.2.indent)
    (columns : List Nat) (rest : List (Nat × DeclarationLine)) :
    arrange none (column :: columns) (head :: rest) = ⟨[], head :: rest⟩ := by
  simp [arrange, place, settle_of_gt h]

/-- To open a column is to find it open already. -/
theorem arrange_deeper {previous : Nat} {head : Nat × DeclarationLine}
    (h : previous < head.2.indent) (columns : List Nat) (rest : List (Nat × DeclarationLine)) :
    arrange (some previous) columns (head :: rest) =
      arrange none (head.2.indent :: columns) (head :: rest) := by
  simp [arrange, place, h, settle_self]

theorem arrange_not_deeper {previous : Nat} {head : Nat × DeclarationLine}
    (h : ¬previous < head.2.indent) (columns : List Nat) (rest : List (Nat × DeclarationLine)) :
    arrange (some previous) columns (head :: rest) = arrange none columns (head :: rest) := by
  simp [arrange, place, h]

theorem Arrangement.prepend_prepend (before placed : List ((Nat × DeclarationLine) × Nat))
    (arrangement : Arrangement) :
    (arrangement.prepend placed).prepend before = arrangement.prepend (before ++ placed) := by
  simp [prepend]

/-! ## Levels of declarations -/

namespace Declaration

mutual

/-- The declaration in pre-order with all that is below it, each with its level. -/
def leveled (level : Nat) : Declaration → List (Declaration × Nat)
  | ⟨origin, heading, members⟩ =>
    (⟨origin, heading, members⟩, level) :: leveledMembers (level + 1) members

def leveledMembers (level : Nat) : Option (List Declaration) → List (Declaration × Nat)
  | none => []
  | some members => leveledAll level members

/-- The declarations in pre-order with all that is below them, each with its level. -/
def leveledAll (level : Nat) : List Declaration → List (Declaration × Nat)
  | [] => []
  | declaration :: rest => leveled level declaration ++ leveledAll level rest

end

@[simp] theorem leveledAll_nil (level : Nat) : leveledAll level [] = [] := by
  simp [leveledAll]

@[simp] theorem leveledAll_cons (level : Nat) (d : Declaration) (rest : List Declaration) :
    leveledAll level (d :: rest) =
      (d, level) :: (leveledAll (level + 1) d.parts ++ leveledAll level rest) := by
  obtain ⟨origin, heading, members⟩ := d
  cases members <;> simp [leveledAll, leveled, leveledMembers, parts]

end Declaration

namespace Outline

open Declaration

variable (resolve : DeclarationLine → Heading) (number : Nat)

/-- The heads say what the declarations do, in the same order and at the same levels. -/
def Says (placed : List ((Nat × DeclarationLine) × Nat)) (leveled : List (Declaration × Nat)) :
    Prop :=
  leveled.map (fun found => (found.1.origin, found.1.heading, found.2)) =
    placed.map (fun head =>
      ({ block := number, line := head.1.1 }, resolve head.1.2, head.2))

/-- The failure is that the line at the cursor, a head, is indented amiss. -/
def MisalignedAt (cursor : Cursor) (failure : Failure) : Prop :=
  ∃ line rest column, cursor.rest = .declaration line :: rest ∧
    failure = .misaligned line.indent column line.identifier

/-- What was read agrees with the arrangement of the heads. These are placed deeper than the open
columns, up to where the reading ended; there the next head is placed in the columns, or the
reading failed and no head is placed. -/
def Agrees (columns : List Nat) (arrangement : Arrangement)
    (outcome : Except Stop (List Declaration × Cursor)) : Prop :=
  ∃ placed, (∀ head ∈ placed, columns.length < head.2) ∧
    match outcome with
    | .ok (forest, after) =>
      Says resolve number placed (leveledAll (columns.length + 1) forest) ∧
        arrangement = (arrange none columns after.heads).prepend placed
    | .error stop => arrangement = ⟨placed, stop.cursor.heads⟩ ∧
      MisalignedAt stop.cursor stop.failure

variable {resolve number} {lines : List Line}

theorem Says.append {placed more : List ((Nat × DeclarationLine) × Nat)}
    {leveled others : List (Declaration × Nat)} (h₁ : Says resolve number placed leveled)
    (h₂ : Says resolve number more others) :
    Says resolve number (placed ++ more) (leveled ++ others) := by
  unfold Says at *
  rw [List.map_append, List.map_append, h₁, h₂]

/-! ## Reading and placing -/

/-- A reader of members, from a place with fewer lines than `bound` left, reads the heads as they
are placed with the column of the members open. -/
def MembersAgree (resolve : DeclarationLine → Heading) (number : Nat) (lines : List Line)
    (members : (indent : Nat) → Cursor → Except Stop (List Declaration × Cursor))
    (bound : Nat) : Prop :=
  ∀ indent columns cursor, cursor.AtHead lines → cursor.rest.length < bound →
    Agrees resolve number columns (arrange none (indent :: columns) cursor.heads)
      (members indent cursor)

theorem agrees_nil (columns : List Nat) (cursor : Cursor) :
    Agrees resolve number columns (arrange none columns cursor.heads) (.ok ([], cursor)) :=
  ⟨[], by simp, rfl, rfl⟩

/-- What is below a head agrees with the arrangement of the heads after it. -/
theorem declarationWith_agrees
    {members : (indent : Nat) → Cursor → Except Stop (List Declaration × Cursor)}
    {cursor : Cursor} (hat : cursor.AtHead lines) {head : DeclarationLine} {rest : List Line}
    (hrest : cursor.rest = .declaration head :: rest)
    (hmembers : MembersAgree resolve number lines members cursor.rest.length)
    (columns : List Nat) :
    Agrees resolve number columns
      (arrange (some head.indent) columns
        (Cursor.seekHead true cursor.next.position cursor.next.rest).heads)
      ((declarationWith (fun line => .ok (resolve line)) number members head cursor).map
        fun found => (found.1.parts, found.2)) := by
  have hseek := hat.seekHead_next
  have hlt := Cursor.seekHead_next_length hrest
  unfold declarationWith
  simp only
  generalize Cursor.seekHead true cursor.next.position cursor.next.rest = next at hseek hlt ⊢
  cases hnext : next.rest with
  | nil =>
    have hheads : next.heads = [] := by simp [Cursor.heads, hnext, headsFrom]
    rw [hheads]
    exact ⟨[], by simp, rfl, by rw [hheads]; rfl⟩
  | cons line tail =>
    obtain ⟨own, rfl⟩ := hseek.declares line (by simp [hnext])
    have hheads := heads_of_atHead hnext
    by_cases hdeeper : head.indent < own.indent
    · have hagrees := hmembers own.indent columns next hseek hlt
      rw [hheads, arrange_deeper hdeeper, ← hheads]
      simp only [hdeeper, if_true]
      cases hforest : members own.indent next with
      | error stop =>
        rw [hforest] at hagrees
        exact hagrees
      | ok found =>
        obtain ⟨forest, after⟩ := found
        rw [hforest] at hagrees
        have hparts : parts ⟨{ block := number, line := cursor.position }, resolve head,
            if forest.isEmpty then none else some forest⟩ = forest := by
          cases forest <;> rfl
        obtain ⟨placed, hdeep, hsaid, harranged⟩ := hagrees
        refine ⟨placed, hdeep, ?_, harranged⟩
        rw [hparts]
        exact hsaid
    · rw [hheads, arrange_not_deeper hdeeper, ← hheads]
      simp only [hdeeper, if_false]
      exact agrees_nil columns next

theorem declarationWith_head
    {members : (indent : Nat) → Cursor → Except Stop (List Declaration × Cursor)}
    {cursor after : Cursor} {head : DeclarationLine} {d : Declaration}
    (h : declarationWith (fun line => .ok (resolve line)) number members head cursor =
      .ok (d, after)) :
    d.origin = { block := number, line := cursor.position } ∧ d.heading = resolve head := by
  unfold declarationWith at h
  simp only at h
  split at h
  · split at h
    · obtain ⟨found, -, h⟩ := except_bind_eq_ok.mp h
      cases h
      exact ⟨rfl, rfl⟩
    · cases h
      exact ⟨rfl, rfl⟩
  · cases h
    exact ⟨rfl, rfl⟩

/-- A member and those after it agree with the arrangement if what is below the member does and
the others do. -/
theorem Agrees.cons {columns : List Nat} {position : Nat} {head : DeclarationLine}
    {heads : List (Nat × DeclarationLine)} {d : Declaration}
    (hd : d.origin = { block := number, line := position } ∧ d.heading = resolve head)
    {middle : Cursor}
    (hparts : Agrees resolve number (head.indent :: columns)
      (arrange (some head.indent) (head.indent :: columns) heads) (.ok (d.parts, middle)))
    {others : Except Stop (List Declaration × Cursor)}
    (hothers : Agrees resolve number columns
      (arrange none (head.indent :: columns) middle.heads) others) :
    Agrees resolve number columns
      (arrange none (head.indent :: columns) ((position, head) :: heads))
      (others.map fun found => (d :: found.1, found.2)) := by
  obtain ⟨placed, hdeep, hsaid, harranged⟩ := hparts
  obtain ⟨more, hmore, hothers⟩ := hothers
  have hall : ∀ own ∈ ((position, head), columns.length + 1) :: (placed ++ more),
      columns.length < own.2 := by
    intro own hown
    rcases List.mem_cons.mp hown with rfl | hown
    · exact Nat.lt_succ_self _
    rcases List.mem_append.mp hown with hown | hown
    · have hlt := hdeep own hown
      rw [List.length_cons] at hlt
      omega
    · exact hmore own hown
  rw [arrange_self (position, head), harranged]
  refine ⟨((position, head), columns.length + 1) :: (placed ++ more), hall, ?_⟩
  cases others with
  | error stop =>
    obtain ⟨harranged, hstop⟩ := hothers
    refine ⟨?_, hstop⟩
    rw [harranged]
    simp [Arrangement.prepend]
  | ok found =>
    obtain ⟨hforest, harranged⟩ := hothers
    refine ⟨?_, ?_⟩
    · rw [leveledAll_cons]
      have hfirst : Says resolve number [((position, head), columns.length + 1)]
          [(d, columns.length + 1)] := by
        simp [Says, hd]
      exact hfirst.append (hsaid.append hforest)
    · rw [harranged]
      simp [Arrangement.prepend]

theorem membersWithin_agrees (count : Nat) :
    MembersAgree resolve number lines
      (membersWithin (fun line => .ok (resolve line)) number count) count := by
  induction count with
  | zero => exact fun indent columns cursor hat hlt => absurd hlt (Nat.not_lt_zero _)
  | succ count ih =>
    intro indent columns cursor hat hlt
    cases hrest : cursor.rest with
    | nil =>
      have hheads : cursor.heads = [] := by simp [Cursor.heads, hrest, headsFrom]
      simp only [membersWithin, hrest]
      exact ⟨[], by simp, rfl, by rw [hheads]; rfl⟩
    | cons line rest =>
      obtain ⟨head, rfl⟩ := hat.declares line (by simp [hrest])
      have hheads := heads_of_atHead hrest
      simp only [membersWithin, hrest]
      rcases Nat.lt_trichotomy head.indent indent with hshallow | rfl | hdeep
      · simp only [hshallow, if_true]
        rw [hheads, arrange_of_lt hshallow, ← hheads]
        exact agrees_nil columns cursor
      · have hbound : cursor.rest.length ≤ count := by omega
        have hparts := declarationWith_agrees hat hrest
          (fun indent columns cursor hat hlt => ih indent columns cursor hat (by omega))
          (head.indent :: columns)
        simp only [Nat.lt_irrefl, if_false, if_true]
        rw [hheads]
        cases hmember : declarationWith (fun line => .ok (resolve line)) number
            (membersWithin (fun line => .ok (resolve line)) number count) head cursor with
        | error stop =>
          rw [hmember] at hparts
          obtain ⟨placed, hdeep, harranged, hstop⟩ := hparts
          rw [arrange_self (cursor.position, head), harranged]
          refine ⟨(_, columns.length + 1) :: placed, ?_, rfl, hstop⟩
          intro own hown
          rcases List.mem_cons.mp hown with rfl | hown
          · exact Nat.lt_succ_self _
          · have hlt := hdeep own hown
            rw [List.length_cons] at hlt
            omega
        | ok found =>
          obtain ⟨member, middle⟩ := found
          rw [hmember] at hparts
          obtain ⟨hfirst, -⟩ :=
            declarationWith_reads hat hrest ((membersWithin_reads count).mono hbound) hmember
          have hshorter := hfirst.shorter
          have hothers := ih head.indent columns middle hfirst.atHead
            (by simp only [List.length_singleton] at hshorter; omega)
          have hagrees := Agrees.cons (declarationWith_head hmember) hparts hothers
          simp only [bind, Except.bind]
          cases hmore : membersWithin (fun line => .ok (resolve line)) number count head.indent
              middle with
          | error stop =>
            rw [hmore] at hagrees
            exact hagrees
          | ok found =>
            rw [hmore] at hagrees
            exact hagrees
      · have hnot : ¬head.indent < indent := by omega
        have hne : head.indent ≠ indent := by omega
        simp only [hnot, hne, if_false]
        rw [hheads, arrange_of_gt hdeep, ← hheads]
        exact ⟨[], by simp, rfl, head, rest, indent, hrest, rfl⟩

/-! ## Blocks -/

/-- What was placed before the last declaration of the block, which is still in progress. -/
def Completed (placed complete : List ((Nat × DeclarationLine) × Nat)) : Prop :=
  ∃ root below, placed = complete ++ (root, 0) :: below ∧ ∀ head ∈ below, 0 < head.2

/-- A block is read as its heads are placed. Either all of them are, or the reading fails at the
first that is not; the declaration in progress there is not among what was read. -/
structure Placed (resolve : DeclarationLine → Heading) (number : Nat) (arrangement : Arrangement)
    (outline : Outline) : Prop where
  complete : outline.failure = none →
    arrangement.stuck = [] ∧ Says resolve number arrangement.placed (leveledAll 0 outline.forest)
  stopped : ∀ failure, outline.failure = some failure →
    arrangement.stuck = outline.cursor.heads ∧ MisalignedAt outline.cursor failure ∧
      ∃ complete, Completed arrangement.placed complete ∧
        Says resolve number complete (leveledAll 0 outline.forest)

theorem Completed.append {placed complete : List ((Nat × DeclarationLine) × Nat)}
    (h : Completed placed complete) (before : List ((Nat × DeclarationLine) × Nat)) :
    Completed (before ++ placed) (before ++ complete) := by
  obtain ⟨root, below, rfl, hbelow⟩ := h
  exact ⟨root, below, by simp, hbelow⟩

theorem declaration_agrees {cursor : Cursor} (hat : cursor.AtHead lines) {head : DeclarationLine}
    {rest : List Line} (hrest : cursor.rest = .declaration head :: rest) (columns : List Nat) :
    Agrees resolve number columns
      (arrange (some head.indent) columns
        (Cursor.seekHead true cursor.next.position cursor.next.rest).heads)
      ((declaration (fun line => .ok (resolve line)) number head cursor).map
        fun found => (found.1.parts, found.2)) :=
  declarationWith_agrees hat hrest (membersWithin_agrees _) columns

theorem blockWithin_placed (count : Nat) {cursor : Cursor} (hat : cursor.AtHead lines)
    (hlt : cursor.rest.length < count) :
    Placed resolve number (arrange none [] cursor.heads)
      (blockWithin (fun line => .ok (resolve line)) number count cursor) := by
  induction count generalizing cursor with
  | zero => exact absurd hlt (Nat.not_lt_zero _)
  | succ count ih =>
    cases hrest : cursor.rest with
    | nil =>
      have hheads : cursor.heads = [] := by simp [Cursor.heads, hrest, headsFrom]
      simp only [blockWithin, hrest, hheads]
      exact ⟨fun _ => ⟨rfl, rfl⟩, by simp⟩
    | cons line rest =>
      obtain ⟨head, rfl⟩ := hat.declares line (by simp [hrest])
      have hbelow : Agrees resolve number [] _ _ := declaration_agrees hat hrest []
      rw [heads_of_atHead hrest, arrange_root]
      simp only [blockWithin, hrest]
      cases hfirst : declaration (fun line => .ok (resolve line)) number head cursor with
      | error stop =>
        rw [hfirst] at hbelow
        obtain ⟨placed, hdeep, harranged, hstop⟩ := hbelow
        rw [harranged]
        refine ⟨by simp, ?_⟩
        rintro failure ⟨⟩
        exact ⟨rfl, hstop, [], ⟨_, placed, rfl, hdeep⟩, rfl⟩
      | ok found =>
        obtain ⟨first, after⟩ := found
        rw [hfirst] at hbelow
        obtain ⟨placed, -, hsaid, harranged⟩ := hbelow
        have hreads := declaration_reads hat hrest hfirst
        have hshorter := hreads.shorter
        obtain ⟨hcomplete, hstopped⟩ := ih hreads.atHead
          (by simp only [List.length_singleton] at hshorter; omega)
        have hroot : Says resolve number (((cursor.position, head), 0) :: placed)
            ((first, 0) :: leveledAll 1 first.parts) := by
          have hown : Says resolve number [((cursor.position, head), 0)] [(first, 0)] := by
            simp [Says, declarationWith_head hfirst]
          exact hown.append hsaid
        rw [harranged, Arrangement.prepend_prepend]
        refine ⟨fun hnone => ?_, fun failure hfailure => ?_⟩
        · obtain ⟨hstuck, hothers⟩ := hcomplete hnone
          refine ⟨hstuck, ?_⟩
          simpa [forest, Arrangement.prepend] using hroot.append hothers
        · obtain ⟨hstuck, hstop, complete, hcompleted, hothers⟩ := hstopped failure hfailure
          refine ⟨hstuck, hstop, _, hcompleted.append _, ?_⟩
          simpa [forest] using hroot.append hothers

/-- The heads of a block, which has none if its first paragraph declares nothing. -/
def blockHeads (lines : List Line) : List (Nat × DeclarationLine) :=
  match lines.find? fun line => !line.isEmpty with
  | some (.declaration _) => heads lines
  | _ => []

theorem block_placed (resolve : DeclarationLine → Heading) (number : Nat) (lines : List Line) :
    Placed resolve number (arrange none [] (blockHeads lines))
      (block (fun line => .ok (resolve line)) number (.ofLines lines)) := by
  have hnothing : ∀ cursor, Placed resolve number (arrange none [] []) ⟨[], cursor, none⟩ :=
    fun cursor => ⟨fun _ => ⟨rfl, rfl⟩, by simp⟩
  cases hfirst : (Cursor.ofLines lines).skipEmpty.line? with
  | none =>
    simp only [block, blockHeads, ← skipEmpty_line?, hfirst]
    exact hnothing _
  | some line =>
    cases line with
    | empty indent =>
      simp only [block, blockHeads, ← skipEmpty_line?, hfirst]
      exact hnothing _
    | documentation indent text =>
      simp only [block, blockHeads, ← skipEmpty_line?, hfirst]
      exact hnothing _
    | declaration head =>
      simp only [block, blockHeads, ← skipEmpty_line?, hfirst]
      rw [← skipEmpty_heads]
      exact blockWithin_placed _ (skipEmpty_atHead hfirst) (Nat.lt_succ_self _)

/-- **Where a block fails.** If every line can be resolved, the reading of a block fails just if
some head can not be placed, and then because of indentation. It fails at that head. What it yields
until then is what was placed before the declaration in progress, in order and on the same levels;
a block that does not fail yields all that was placed. -/
theorem block_fails_iff_stuck (resolve : DeclarationLine → Heading) (number : Nat)
    (lines : List Line) {outline : Outline}
    (houtline : block (fun line => .ok (resolve line)) number (.ofLines lines) = outline)
    {arrangement : Arrangement} (harranged : arrange none [] (blockHeads lines) = arrangement) :
    ((∃ failure, outline.failure = some failure ∧ failure.isNesting = true) ↔
      arrangement.stuck ≠ []) ∧
    (outline.failure = none ↔ arrangement.stuck = []) ∧
    (arrangement.stuck = [] →
      (leveledAll 0 outline.forest).map
          (fun found => (found.1.origin, found.1.heading, found.2)) =
        arrangement.placed.map
          (fun head => ({ block := number, line := head.1.1 }, resolve head.1.2, head.2))) ∧
    ∀ i head rest, arrangement.stuck = (i, head) :: rest →
      outline.cursor.position = i ∧ outline.cursor.line? = some (.declaration head) ∧
      ∃ complete root below, arrangement.placed = complete ++ (root, 0) :: below ∧
        (∀ own ∈ below, 0 < own.2) ∧
        (leveledAll 0 outline.forest).map
            (fun found => (found.1.origin, found.1.heading, found.2)) =
          complete.map
            (fun head => ({ block := number, line := head.1.1 }, resolve head.1.2, head.2)) := by
  subst houtline harranged
  obtain ⟨hcomplete, hstopped⟩ := block_placed resolve number lines
  generalize block (fun line => .ok (resolve line)) number (.ofLines lines) = outline
    at hcomplete hstopped ⊢
  generalize arrange none [] (blockHeads lines) = arrangement at hcomplete hstopped ⊢
  cases hfailure : outline.failure with
  | none =>
    obtain ⟨hstuck, hsaid⟩ := hcomplete hfailure
    refine ⟨by simp [hstuck], by simp [hstuck], fun _ => hsaid, ?_⟩
    intro i head rest hhead
    rw [hstuck] at hhead
    cases hhead
  | some failure =>
    obtain ⟨hstuck, ⟨line, more, column, hrest, hmisaligned⟩, complete, hcompleted, hsaid⟩ :=
      hstopped failure hfailure
    obtain ⟨root, below, hplaced, hbelow⟩ := hcompleted
    have hheads := heads_of_atHead hrest
    have hne : arrangement.stuck ≠ [] := by
      rw [hstuck, hheads]
      exact List.cons_ne_nil _ _
    have hnesting : failure.isNesting = true := by
      rw [hmisaligned]
      rfl
    refine ⟨⟨fun _ => hne, fun _ => ⟨failure, rfl, hnesting⟩⟩, by simp [hne],
      fun h => absurd h hne, ?_⟩
    intro i head rest hhead
    rw [hstuck, hheads] at hhead
    cases hhead
    exact ⟨rfl, by simp [Cursor.line?, hrest], complete, root, below, hplaced, hbelow, hsaid⟩

/-- A line says its name, whatever its type. -/
def nameOnly (line : DeclarationLine) : Heading :=
  { name := line.identifier.getD "?", type := .anyType }

/-- The last head goes back to between the columns of the two levels above it. The declaration
before it is complete, but for the one it belongs to. -/
def betweenColumns : List Line := [
  .declaration ⟨1, "a", "A"⟩, .empty 0, .declaration ⟨3, "b", "B"⟩, .empty 0,
  .declaration ⟨1, "c", "C"⟩, .empty 0, .declaration ⟨3, "d", "D"⟩, .empty 0,
  .declaration ⟨5, "e", "E"⟩, .empty 0, .declaration ⟨4, "f", "F"⟩]

theorem block_fails_iff_stuck_betweenColumns :
    (arrange none [] (blockHeads betweenColumns)).stuck = [(10, ⟨4, "f", "F"⟩)] ∧
    (block (fun line => .ok (nameOnly line)) 0 (.ofLines betweenColumns)).cursor.position = 10 ∧
    (leveledAll 0 (block (fun line => .ok (nameOnly line)) 0 (.ofLines betweenColumns)).forest).map
      (fun found => (found.1.heading.name, found.2)) = [("a", 0), ("b", 1)] := by
  have hstuck : (arrange none [] (blockHeads betweenColumns)).stuck =
      [(10, ⟨4, "f", "F"⟩)] := by decide +kernel
  have hfails := block_fails_iff_stuck nameOnly 0 betweenColumns rfl rfl
  exact ⟨hstuck, (hfails.2.2.2 _ _ _ hstuck).1, by decide +kernel⟩

/-! ## Declarations of a block -/

variable {resolve : DeclarationLine → Except Failure Heading} {number : Nat} {lines : List Line}

/-- Members are read up to a head that is shallower. -/
theorem membersWithin_ends (count : Nat) {indent : Nat} {cursor after : Cursor}
    {forest : List Declaration} (hat : cursor.AtHead lines) (hlt : cursor.rest.length < count)
    (h : membersWithin resolve number count indent cursor = .ok (forest, after))
    {next : DeclarationLine} {rest : List Line} (hnext : after.rest = .declaration next :: rest) :
    next.indent < indent := by
  induction count generalizing cursor forest with
  | zero => exact absurd hlt (Nat.not_lt_zero _)
  | succ count ih =>
    cases hrest : cursor.rest with
    | nil =>
      simp only [membersWithin, hrest] at h
      cases h
      rw [hrest] at hnext
      cases hnext
    | cons line tail =>
      obtain ⟨head, rfl⟩ := hat.declares line (by simp [hrest])
      simp only [membersWithin, hrest] at h
      split at h
      · rename_i hshallow
        cases h
        rw [hrest] at hnext
        cases hnext
        exact hshallow
      · split at h
        · have hbound : cursor.rest.length ≤ count := by omega
          obtain ⟨⟨member, middle⟩, hmember, h⟩ := except_bind_eq_ok.mp h
          obtain ⟨⟨more, last⟩, hmore, h⟩ := except_bind_eq_ok.mp h
          cases h
          obtain ⟨hfirst, -⟩ :=
            declarationWith_reads hat hrest ((membersWithin_reads count).mono hbound) hmember
          have hshorter := hfirst.shorter
          exact ih hfirst.atHead (by simp only [List.length_singleton] at hshorter; omega) hmore
        · cases h

/-- The declaration can come directly after another one on its level: it is no deeper than that
one, if that has no members, and shallower than its members otherwise. -/
structure ComesAfter (lines : List Line) (d next : Declaration) : Prop where
  alone : d.parts = [] → headIndent lines next ≤ headIndent lines d
  members : ∀ m ∈ d.parts, headIndent lines next < headIndent lines m

theorem declaration_ends {cursor after : Cursor} (hat : cursor.AtHead lines)
    {head : DeclarationLine} {tail : List Line} (hrest : cursor.rest = .declaration head :: tail)
    {d : Declaration} (h : declaration resolve number head cursor = .ok (d, after))
    {next : DeclarationLine} {rest : List Line} (hnext : after.rest = .declaration next :: rest) :
    (d.parts = [] → next.indent ≤ head.indent) ∧
      ∀ m ∈ d.parts, next.indent < headIndent lines m := by
  have hseek := hat.seekHead_next
  have hlt := Cursor.seekHead_next_length hrest
  unfold declaration declarationWith at h
  split at h
  · cases h
  · simp only at h
    split at h
    · rename_i own more hown
      split at h
      · obtain ⟨⟨forest, last⟩, hforest, h⟩ := except_bind_eq_ok.mp h
        cases h
        obtain ⟨-, hindents, hsome⟩ :=
          membersWithin_reads _ own.indent _ forest last hseek hlt hforest
        have hends := membersWithin_ends _ hseek hlt hforest hnext
        have hne : forest ≠ [] := hsome own more hown rfl
        simp only [parts, List.isEmpty_iff, hne, if_false, Option.getD_some]
        refine ⟨False.elim, fun m hm => ?_⟩
        rw [hindents m hm]
        exact hends
      · rename_i hnot
        cases h
        rw [hown] at hnext
        cases hnext
        exact ⟨fun _ => Nat.le_of_not_lt hnot, by simp [parts]⟩
    · rename_i hnone
      cases h
      exact absurd hnext (hnone next rest)

/-- The declarations of a block come one after the other, the first from the line at the cursor. -/
theorem blockWithin_chain (count : Nat) {cursor : Cursor} (hat : cursor.AtHead lines)
    (hlt : cursor.rest.length < count)
    (h : (blockWithin resolve number count cursor).failure = none) :
    (blockWithin resolve number count cursor).forest.IsChain (ComesAfter lines) ∧
      ∀ d ∈ (blockWithin resolve number count cursor).forest.head?, ∃ head rest,
        cursor.rest = .declaration head :: rest ∧ headIndent lines d = head.indent := by
  induction count generalizing cursor with
  | zero => exact absurd hlt (Nat.not_lt_zero _)
  | succ count ih =>
    cases hrest : cursor.rest with
    | nil =>
      simp only [blockWithin, hrest]
      exact ⟨List.isChain_nil, by simp [forest]⟩
    | cons line rest =>
      obtain ⟨head, rfl⟩ := hat.declares line (by simp [hrest])
      simp only [blockWithin, hrest] at h ⊢
      cases hfirst : declaration resolve number head cursor with
      | error stop => simp [hfirst] at h
      | ok found =>
        obtain ⟨first, after⟩ := found
        simp only [hfirst] at h ⊢
        obtain ⟨hreads, hindent⟩ := declarationWith_reads hat hrest (membersWithin_reads _) hfirst
        have hshorter := hreads.shorter
        obtain ⟨hchain, hhead⟩ := ih hreads.atHead
          (by simp only [List.length_singleton] at hshorter; omega) h
        refine ⟨List.isChain_cons.mpr ⟨fun next hnext => ?_, hchain⟩, ?_⟩
        · obtain ⟨own, more, hafter, hown⟩ := hhead next hnext
          obtain ⟨halone, hmembers⟩ := declaration_ends hat hrest hfirst hafter
          constructor
          · rw [hown, hindent]
            exact halone
          · rw [hown]
            exact hmembers
        · rintro d ⟨⟩
          exact ⟨head, rest, rfl, hindent⟩

theorem block_chain (h : (block resolve number (.ofLines lines)).failure = none) :
    (block resolve number (.ofLines lines)).forest.IsChain (ComesAfter lines) := by
  unfold block at h ⊢
  simp only at h ⊢
  split
  · rename_i head hhead
    simp only [hhead] at h
    exact (blockWithin_chain _ (skipEmpty_atHead hhead) (Nat.lt_succ_self _) h).1
  · exact List.isChain_nil

/-- A declaration that is deeper than the one it comes after is shallower than its members. -/
theorem ComesAfter.le_iff {d next : Declaration} (h : ComesAfter lines d next) :
    headIndent lines next ≤ headIndent lines d ↔
      ∀ m ∈ d.parts, ¬(headIndent lines d < headIndent lines next ∧
        headIndent lines next < headIndent lines m) := by
  constructor
  · intro hle m hm hbetween
    omega
  · intro hnone
    cases hparts : d.parts with
    | nil => exact h.alone hparts
    | cons m rest =>
      have hm : m ∈ d.parts := by simp [hparts]
      have hbetween := hnone m hm
      have hshallow := h.members m hm
      omega

/-- **What comes after a declaration of a block.** In a block that is read without failure, a
declaration is no deeper than the one before it if that has no members, and shallower than its
members otherwise. So each is no deeper than the one before it just if none stands between the
column of the one before it and that of the members there. -/
theorem block_rootsNotDeeper_iff (resolve : DeclarationLine → Except Failure Heading)
    (number : Nat) (lines : List Line) {outline : Outline}
    (houtline : block resolve number (.ofLines lines) = outline) (h : outline.failure = none) :
    outline.forest.IsChain (fun d next =>
      (d.parts = [] → headIndent lines next ≤ headIndent lines d) ∧
        ∀ m ∈ d.parts, headIndent lines next < headIndent lines m) ∧
    (outline.forest.IsChain (fun d next => headIndent lines next ≤ headIndent lines d) ↔
      outline.forest.IsChain (fun d next => ∀ m ∈ d.parts,
        ¬(headIndent lines d < headIndent lines next ∧
          headIndent lines next < headIndent lines m))) := by
  subst houtline
  have hchain := block_chain h
  refine ⟨hchain.imp fun d next hnext => ⟨hnext.alone, hnext.members⟩, ?_⟩
  rw [List.isChain_iff_getElem] at hchain
  simp only [List.isChain_iff_getElem]
  exact forall₂_congr fun i hi => (hchain i hi).le_iff

/-- The last head is deeper than the first one and shallower than its member. -/
def escapingLines : List Line := [
  .declaration ⟨1, "a", "A"⟩, .empty 0, .declaration ⟨5, "b", "B"⟩, .empty 0,
  .declaration ⟨3, "c", "C"⟩]

theorem block_rootsNotDeeper_iff_escapingLines :
    (block sayName 0 (.ofLines escapingLines)).failure = none ∧
    (block sayName 0 (.ofLines escapingLines)).forest.IsChain (fun d next =>
      (d.parts = [] → headIndent escapingLines next ≤ headIndent escapingLines d) ∧
        ∀ m ∈ d.parts, headIndent escapingLines next < headIndent escapingLines m) :=
  ⟨rfl, (block_rootsNotDeeper_iff sayName 0 escapingLines rfl rfl).1⟩

/-- A declaration that is deeper than the one before it need not be a member of it. -/
theorem declaration_escapes :
    (block sayName 0 (.ofLines escapingLines)).failure = none ∧
    (block sayName 0 (.ofLines escapingLines)).forest.map (headIndent escapingLines) = [1, 3] ∧
    ¬(block sayName 0 (.ofLines escapingLines)).forest.IsChain
      (fun d next => headIndent escapingLines next ≤ headIndent escapingLines d) :=
  ⟨rfl, by decide +kernel, by decide +kernel⟩

end Outline

end DocComments
