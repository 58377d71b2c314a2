import DocComments.Proofs.Outline
import Mathlib.Order.Monotone.Basic

/-!
# Relative indentation

What a block declares depends on which of its lines are indented deeper than which, and not on how
far they are. The readers compare indentations of declarations and of documentation only, so these
can be changed by any map that keeps their order, and those of empty lines at will.

* `Line.Reindented`, `Cursor.Reindented`: the same lines but for their indentation.
* `declarationWith_reindented`, `membersWithin_reindented`, `blockWithin_reindented`: a reader does
  the same on such lines.
* `block_reindented`: so does the reading of a whole block.
-/

namespace DocComments

/-- The same line, with its indentation changed by the map. -/
inductive Line.Reindented (f : Nat → Nat) : Line → Line → Prop where
  | declaration (line : DeclarationLine) :
    Reindented f (.declaration line) (.declaration { line with indent := f line.indent })
  | documentation (indent : Nat) (text : String) :
    Reindented f (.documentation indent text) (.documentation (f indent) text)
  | empty (indent other : Nat) : Reindented f (.empty indent) (.empty other)

/-- The same failure, but for the columns that it names. -/
inductive Failure.Reindented (f : Nat → Nat) : Failure → Failure → Prop where
  | same (failure : Failure) : Reindented f failure failure
  | misaligned (indent siblings : Nat) (identifier : Option String) :
    Reindented f (.misaligned indent siblings identifier)
      (.misaligned (f indent) (f siblings) identifier)

/-- The indentations of the lines that are not empty. -/
def indents (lines : List Line) : Set Nat :=
  {i | ∃ line ∈ lines, line.isEmpty = false ∧ line.indent = i}

/-! ## Cursors -/

/-- The same place in reindented lines, whose indentations before were among `columns`. -/
structure Cursor.Reindented (f : Nat → Nat) (columns : Set Nat) (cursor other : Cursor) :
    Prop where
  position : other.position = cursor.position
  rest : List.Forall₂ (Line.Reindented f) cursor.rest other.rest
  known : indents cursor.rest ⊆ columns

variable {f : Nat → Nat} {columns : Set Nat} {cursor other : Cursor}

theorem indents_cons_subset {line : Line} {rest : List Line}
    (h : indents (line :: rest) ⊆ columns) : indents rest ⊆ columns := by
  rintro i ⟨own, hown, hindent⟩
  exact h ⟨own, List.mem_cons_of_mem _ hown, hindent⟩

theorem indent_mem_of_subset {line : Line} {rest : List Line}
    (h : indents (line :: rest) ⊆ columns) (hline : line.isEmpty = false) :
    line.indent ∈ columns :=
  h ⟨line, List.mem_cons_self, hline, rfl⟩

namespace Cursor

theorem Reindented.next (h : cursor.Reindented f columns other) :
    cursor.next.Reindented f columns other.next := by
  obtain ⟨position, rest⟩ := cursor
  obtain ⟨position', rest'⟩ := other
  obtain ⟨rfl, hrest, hindents⟩ := h
  cases hrest with
  | nil => exact ⟨rfl, .nil, hindents⟩
  | cons hline hrest => exact ⟨rfl, hrest, indents_cons_subset hindents⟩

theorem seekHead_reindented (within : Bool) (position : Nat) {rest rest' : List Line}
    (hrest : List.Forall₂ (Line.Reindented f) rest rest') (hindents : indents rest ⊆ columns) :
    (seekHead within position rest).Reindented f columns (seekHead within position rest') := by
  induction hrest generalizing within position with
  | nil => exact ⟨rfl, .nil, hindents⟩
  | cons hline hrest ih =>
    have htail := indents_cons_subset hindents
    cases hline with
    | empty => exact ih false (position + 1) htail
    | documentation => exact ih true (position + 1) htail
    | declaration line =>
      cases within with
      | true => exact ih true (position + 1) htail
      | false => exact ⟨rfl, .cons (.declaration line) hrest, hindents⟩

theorem takeWhile_isEmpty_length {rest rest' : List Line}
    (h : List.Forall₂ (Line.Reindented f) rest rest') :
    (rest'.takeWhile Line.isEmpty).length = (rest.takeWhile Line.isEmpty).length := by
  induction h with
  | nil => rfl
  | cons hline hrest ih =>
    cases hline with
    | empty indent other => exact congrArg (· + 1) ih
    | documentation indent text => rfl
    | declaration line => rfl

theorem Reindented.skipEmpty (h : cursor.Reindented f columns other) :
    cursor.skipEmpty.Reindented f columns other.skipEmpty := by
  obtain ⟨position, rest⟩ := cursor
  obtain ⟨position', rest'⟩ := other
  obtain ⟨rfl, hrest, hindents⟩ := h
  have hrest : List.Forall₂ (Line.Reindented f) rest rest' := hrest
  have hcount := takeWhile_isEmpty_length hrest
  have hdrop : ∀ count, indents (rest.drop count) ⊆ columns := by
    rintro count i ⟨line, hline, hindent⟩
    exact hindents ⟨line, List.mem_of_mem_drop hline, hindent⟩
  refine ⟨?_, ?_, hdrop _⟩
  · simp only [Cursor.skipEmpty, advance, hcount]
  · simp only [Cursor.skipEmpty, advance, hcount]
    exact List.forall₂_drop _ hrest

end Cursor

/-! ## Readers -/

namespace Outline

open Cursor

/-- Both readings go on with the same value from the same place, or both fail there. -/
inductive SameOutcome (f : Nat → Nat) (columns : Set Nat) {α : Type} :
    Except Stop (α × Cursor) → Except Stop (α × Cursor) → Prop where
  | ok {cursor other : Cursor} (value : α) (h : cursor.Reindented f columns other) :
    SameOutcome f columns (.ok (value, cursor)) (.ok (value, other))
  | error {cursor other : Cursor} {failure failure' : Failure}
    (hfailure : failure.Reindented f failure') (h : cursor.Reindented f columns other) :
    SameOutcome f columns (.error ⟨failure, cursor⟩) (.error ⟨failure', other⟩)

theorem SameOutcome.bind {α β : Type} {x y : Except Stop (α × Cursor)}
    {g k : α × Cursor → Except Stop (β × Cursor)} (hx : SameOutcome f columns x y)
    (hg : ∀ value cursor other, cursor.Reindented f columns other →
      SameOutcome f columns (g (value, cursor)) (k (value, other))) :
    SameOutcome f columns (x >>= g) (y >>= k) := by
  cases hx with
  | ok value h => exact hg value _ _ h
  | error hfailure h => exact .error hfailure h

/-- Two readers of members do the same on reindented lines. -/
def SameMembers (f : Nat → Nat) (columns : Set Nat)
    (members others : (indent : Nat) → Cursor → Except Stop (List Declaration × Cursor)) : Prop :=
  ∀ indent cursor other, indent ∈ columns → cursor.Reindented f columns other →
    SameOutcome f columns (members indent cursor) (others (f indent) other)

variable {resolve : DeclarationLine → Except Failure Heading} {number : Nat}

theorem declarationWith_reindented (hf : StrictMonoOn f columns)
    (hresolve : ∀ line indent, resolve { line with indent := indent } = resolve line)
    {members others : (indent : Nat) → Cursor → Except Stop (List Declaration × Cursor)}
    (hmembers : SameMembers f columns members others) {head : DeclarationLine}
    (hhead : head.indent ∈ columns) (h : cursor.Reindented f columns other) :
    SameOutcome f columns (declarationWith resolve number members head cursor)
      (declarationWith resolve number others { head with indent := f head.indent } other) := by
  have hnext := h.next
  have hseek := seekHead_reindented true cursor.next.position hnext.rest hnext.known
  have hposition : other.position = cursor.position := h.position
  unfold declarationWith
  rw [hresolve head (f head.indent), hnext.position, hposition]
  cases hheading : resolve head with
  | error failure => exact .error (.same failure) h
  | ok heading =>
    simp only
    generalize seekHead true cursor.next.position cursor.next.rest = after at hseek ⊢
    generalize seekHead true cursor.next.position other.next.rest = after' at hseek ⊢
    obtain ⟨position, rest⟩ := after
    obtain ⟨position', rest'⟩ := after'
    have hrest : List.Forall₂ (Line.Reindented f) rest rest' := hseek.rest
    cases hrest with
    | nil => exact .ok _ hseek
    | cons hline hrest =>
      cases hline with
      | empty => exact .ok _ hseek
      | documentation => exact .ok _ hseek
      | declaration line =>
        have hown : line.indent ∈ columns := indent_mem_of_subset hseek.known rfl
        simp only [hf.lt_iff_lt hhead hown]
        split
        · exact (hmembers line.indent _ _ hown hseek).bind fun forest cursor other h => .ok _ h
        · exact .ok _ hseek

theorem membersWithin_reindented (hf : StrictMonoOn f columns)
    (hresolve : ∀ line indent, resolve { line with indent := indent } = resolve line)
    (count : Nat) :
    SameMembers f columns (membersWithin resolve number count)
      (membersWithin resolve number count) := by
  induction count with
  | zero => exact fun indent cursor other hindent h => .ok [] h
  | succ count ih =>
    rintro indent ⟨position, rest⟩ ⟨position', rest'⟩ hindent h
    have hrest : List.Forall₂ (Line.Reindented f) rest rest' := h.rest
    cases hrest with
    | nil => exact .ok [] h
    | cons hline hrest =>
      cases hline with
      | empty => exact ih indent _ _ hindent h.next
      | documentation own text =>
        have hown : own ∈ columns := indent_mem_of_subset h.known rfl
        simp only [membersWithin, hf.lt_iff_lt hown hindent]
        split
        · exact .ok [] h
        · exact .error (.same _) h
      | declaration line =>
        have hown : line.indent ∈ columns := indent_mem_of_subset h.known rfl
        simp only [membersWithin, hf.lt_iff_lt hown hindent, hf.eq_iff_eq hown hindent]
        split
        · exact .ok [] h
        · split
          · refine (declarationWith_reindented hf hresolve ih hown h).bind
              fun member cursor other h => ?_
            exact (ih indent cursor other hindent h).bind fun more cursor other h => .ok _ h
          · exact .error (.misaligned _ _ _) h

theorem declaration_reindented (hf : StrictMonoOn f columns)
    (hresolve : ∀ line indent, resolve { line with indent := indent } = resolve line)
    {head : DeclarationLine} (hhead : head.indent ∈ columns)
    (h : cursor.Reindented f columns other) :
    SameOutcome f columns (declaration resolve number head cursor)
      (declaration resolve number { head with indent := f head.indent } other) := by
  unfold declaration
  rw [← h.rest.length_eq]
  exact declarationWith_reindented hf hresolve (membersWithin_reindented hf hresolve _) hhead h

/-! ## Blocks -/

/-- The same declarations, each with the same place after it, and the same end. -/
structure Alike (f : Nat → Nat) (outline other : Outline) : Prop where
  declarations : other.declarations = outline.declarations
  position : other.cursor.position = outline.cursor.position
  failure : Option.Rel (Failure.Reindented f) outline.failure other.failure

theorem blockWithin_reindented (hf : StrictMonoOn f columns)
    (hresolve : ∀ line indent, resolve { line with indent := indent } = resolve line)
    (count : Nat) (h : cursor.Reindented f columns other) :
    Alike f (blockWithin resolve number count cursor) (blockWithin resolve number count other) := by
  induction count generalizing cursor other with
  | zero => exact ⟨rfl, h.position, .none⟩
  | succ count ih =>
    obtain ⟨position, rest⟩ := cursor
    obtain ⟨position', rest'⟩ := other
    have hrest : List.Forall₂ (Line.Reindented f) rest rest' := h.rest
    cases hrest with
    | nil => exact ⟨rfl, h.position, .none⟩
    | cons hline hrest =>
      cases hline with
      | empty => exact ih h.next
      | documentation => exact ih h.next
      | declaration head =>
        have hown : head.indent ∈ columns := indent_mem_of_subset h.known rfl
        have hfirst : SameOutcome f columns (declaration resolve number head _) _ :=
          declaration_reindented hf hresolve hown h
        simp only [blockWithin]
        generalize declaration resolve number head _ = outcome at hfirst ⊢
        generalize declaration resolve number _ _ = outcome' at hfirst ⊢
        cases hfirst with
        | error hfailure hstop => exact ⟨rfl, hstop.position, .some hfailure⟩
        | ok first hafter =>
          have hothers := ih hafter
          refine ⟨?_, hothers.position, hothers.failure⟩
          simp only [hothers.declarations, hafter.position]

theorem block_alike (hf : StrictMonoOn f columns)
    (hresolve : ∀ line indent, resolve { line with indent := indent } = resolve line)
    (h : cursor.Reindented f columns other) :
    Alike f (block resolve number cursor) (block resolve number other) := by
  have hskip := h.skipEmpty
  have hread : ∀ count, Alike f (blockWithin resolve number count cursor.skipEmpty)
      (blockWithin resolve number count other.skipEmpty) :=
    fun count => blockWithin_reindented hf hresolve count hskip
  unfold block
  generalize cursor.skipEmpty = start at hskip hread ⊢
  generalize other.skipEmpty = start' at hskip hread ⊢
  obtain ⟨position, rest⟩ := start
  obtain ⟨position', rest'⟩ := start'
  have hrest : List.Forall₂ (Line.Reindented f) rest rest' := hskip.rest
  have hlength := hrest.length_eq
  cases hrest with
  | nil => exact ⟨rfl, hskip.position, .none⟩
  | cons hline hrest =>
    cases hline with
    | empty => exact ⟨rfl, hskip.position, .none⟩
    | documentation => exact ⟨rfl, hskip.position, .none⟩
    | declaration head =>
      simp only [Cursor.line?, List.head?_cons, ← hlength]
      exact hread _

/-- **Only relative indentation matters.** If the indentations of the declarations and of the
documentation in a block are changed by a map that keeps their order, and those of its empty lines
in any way, a resolver that does not look at them makes the reading yield the same declarations and
end at the same line, where it fails just if it did before, and in the same way. -/
theorem block_reindented (f : Nat → Nat) (resolve : DeclarationLine → Except Failure Heading)
    (hresolve : ∀ line indent, resolve { line with indent := indent } = resolve line)
    (number : Nat) {lines lines' : List Line} (hf : StrictMonoOn f (indents lines))
    (hlines : List.Forall₂ (Line.Reindented f) lines lines') {outline outline' : Outline}
    (houtline : block resolve number (.ofLines lines) = outline)
    (houtline' : block resolve number (.ofLines lines') = outline') :
    outline'.declarations = outline.declarations ∧
      outline'.cursor.position = outline.cursor.position ∧
      Option.Rel (Failure.Reindented f) outline.failure outline'.failure := by
  subst houtline houtline'
  have hstart : (Cursor.ofLines lines).Reindented f (indents lines) (Cursor.ofLines lines') :=
    ⟨rfl, hlines, fun i hi => hi⟩
  have halike : Alike f (block resolve number _) _ := block_alike hf hresolve hstart
  exact ⟨halike.declarations, halike.position, halike.failure⟩

/-- The last head fits in no column. -/
def indentedLines : List Line := [
  .declaration ⟨1, "a", "A"⟩, .empty 0, .declaration ⟨3, "b", "B"⟩, .documentation 5 "about b",
  .empty 0, .declaration ⟨1, "c", "C"⟩, .empty 0, .declaration ⟨3, "d", "D"⟩, .empty 0,
  .declaration ⟨5, "e", "E"⟩, .empty 0, .declaration ⟨4, "f", "F"⟩]

/-- The same lines, set to the left and further apart. -/
def outdentedLines : List Line := [
  .declaration ⟨0, "a", "A"⟩, .empty 3, .declaration ⟨4, "b", "B"⟩, .documentation 8 "about b",
  .empty 1, .declaration ⟨0, "c", "C"⟩, .empty 0, .declaration ⟨4, "d", "D"⟩, .empty 9,
  .declaration ⟨8, "e", "E"⟩, .empty 0, .declaration ⟨6, "f", "F"⟩]

theorem block_reindented_outdentedLines :
    List.Forall₂ (Line.Reindented fun i => (i - 1) * 2) indentedLines outdentedLines ∧
    (block sayName 0 (.ofLines indentedLines)).failure = some (.misaligned 4 3 "f") ∧
    (block sayName 0 (.ofLines outdentedLines)).failure = some (.misaligned 6 4 "f") ∧
    (block sayName 0 (.ofLines outdentedLines)).declarations =
      (block sayName 0 (.ofLines indentedLines)).declarations := by
  have hlines : List.Forall₂ (Line.Reindented fun i => (i - 1) * 2) indentedLines
      outdentedLines := by
    unfold indentedLines outdentedLines
    repeat' constructor
  have hf : StrictMonoOn (fun i => (i - 1) * 2) (indents indentedLines) := by
    rintro i ⟨line, hline, hdeclares, rfl⟩ j hj hlt
    have hpositive : ∀ line ∈ indentedLines, line.isEmpty = false → 0 < line.indent := by
      decide
    have hi := hpositive line hline hdeclares
    simp only
    omega
  exact ⟨hlines, by decide +kernel, by decide +kernel,
    (block_reindented _ sayName (fun _ _ => rfl) 0 hf hlines rfl rfl).1⟩

end Outline

end DocComments
