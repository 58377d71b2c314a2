import DocComments.Proofs.Outline

/-!
# How the reading of an outline moves on

Members are read from a place that the search for a head has found: the end of the block, or a
declaration after an empty line. So the loop that reads members never meets a line of documentation,
and the loop that reads a block has no line to pass over. Each declaration takes its own line at
least, so both loops end before they run out of lines to count.

* `seekHead_settled`: the places that the search finds.
* `declarationWith_settles`, `membersOr_settles`: a declaration and its members are read up to such
  a place, or up to a line at fault.
* `membersOr`, `blockOr` have something else instead of the branches that cannot be taken;
  `membersOr_steady` and `blockOr_steady` say that it does not matter what.
* `declaration_settles`: the results together.
-/

namespace DocComments

/-! ## Places between paragraphs -/

namespace Cursor

variable {lines : List Line} {cursor : Cursor}

/-- The cursor is at the end of the lines, or at a declaration right after an empty line. -/
structure IsSettled (lines : List Line) (cursor : Cursor) : Prop where
  rest_eq : cursor.rest = lines.drop cursor.position
  inside : cursor.position ≤ lines.length
  opens : cursor.position = lines.length ∨ ∃ i, cursor.position = i + 1 ∧
    (∃ indent, lines[i]? = some (.empty indent)) ∧ ∃ head, lines[i + 1]? = some (.declaration head)

theorem IsSettled.atHead (h : cursor.IsSettled lines) : cursor.AtHead lines where
  rest_eq := h.rest_eq
  declares := by
    intro line hline
    rw [h.rest_eq, List.head?_drop] at hline
    rcases h.opens with hend | ⟨i, hi, -, head, hhead⟩
    · simp [hend] at hline
    · rw [hi, hhead] at hline
      exact ⟨head, (Option.mem_some.mp hline).symm⟩

theorem IsSettled.length_add (h : cursor.IsSettled lines) :
    cursor.rest.length + cursor.position = lines.length := by
  have hinside := h.inside
  rw [h.rest_eq, List.length_drop]
  omega

/-- The search for a head ends at one after an empty line, if it starts after an empty line or
within a paragraph. -/
theorem seekHead_settled (within : Bool) {position : Nat} {rest : List Line}
    (hrest : rest = lines.drop position) (hinside : position ≤ lines.length)
    (hbefore : within = false → ∃ i, position = i + 1 ∧
      ∃ indent, lines[i]? = some (.empty indent)) :
    (seekHead within position rest).IsSettled lines ∧
      position ≤ (seekHead within position rest).position := by
  induction rest generalizing within position with
  | nil =>
    have hend : lines.length ≤ position := List.drop_eq_nil_iff.mp hrest.symm
    exact ⟨⟨hrest, hinside, .inl (by simp only [seekHead]; omega)⟩, Nat.le_refl _⟩
  | cons line rest ih =>
    have hat : lines[position]? = some line := by
      rw [← List.head?_drop, ← hrest, List.head?_cons]
    have hlt : position < lines.length := (List.getElem?_eq_some_iff.mp hat).1
    have htail : rest = lines.drop (position + 1) := by
      rw [← List.tail_drop, ← hrest, List.tail_cons]
    have hpass := ih true htail hlt (by simp)
    cases line with
    | empty indent =>
      have hfree := ih false htail hlt fun _ => ⟨position, rfl, indent, hat⟩
      exact ⟨hfree.1, Nat.le_of_succ_le hfree.2⟩
    | documentation indent text => exact ⟨hpass.1, Nat.le_of_succ_le hpass.2⟩
    | declaration head =>
      cases within with
      | true => exact ⟨hpass.1, Nat.le_of_succ_le hpass.2⟩
      | false =>
        obtain ⟨i, rfl, hempty⟩ := hbefore rfl
        exact ⟨⟨hrest, hinside, .inr ⟨i, rfl, hempty, head, hat⟩⟩, Nat.le_refl _⟩

end Cursor

namespace Outline

/-! ## Readings that end well or at a fault -/

section Settles

variable (resolve : DeclarationLine → Except Failure Heading) (lines : List Line)

/-- The line, at `position`, cannot be a sibling of one that stands below the line `first`: it is
indented deeper. -/
def Misfits (first position : Nat) (line : DeclarationLine) (failure : Failure) : Prop :=
  ∃ i sibling, first < i ∧ i < position ∧ lines[i]? = some (.declaration sibling) ∧
    sibling.indent < line.indent ∧
    failure = .misaligned line.indent sibling.indent line.identifier

/-- The reading stopped at a declaration line, not before `first`, that cannot be resolved or is
indented amiss. -/
structure FailsAt (first : Nat) (stop : Stop) : Prop where
  rest_eq : stop.cursor.rest = lines.drop stop.cursor.position
  notBefore : first ≤ stop.cursor.position
  fault : ∃ line, lines[stop.cursor.position]? = some (.declaration line) ∧
    (resolve line = .error stop.failure ∨
      Misfits lines first stop.cursor.position line stop.failure)

/-- The reading, which began at the line `first`, stopped at a fault, or went on to a later
paragraph or to the end. -/
def Settles {α : Type} (first : Nat) (outcome : Except Stop (α × Cursor)) : Prop :=
  (∃ stop, outcome = .error stop ∧ FailsAt resolve lines first stop) ∨
    ∃ a after, outcome = .ok (a, after) ∧ first < after.position ∧ after.IsSettled lines

/-- Some line with this indentation, below the line `first`, has been reached. -/
def HasSibling (first indent position : Nat) : Prop :=
  ∃ i sibling, first < i ∧ i ≤ position ∧ lines[i]? = some (.declaration sibling) ∧
    sibling.indent = indent

/-- A reader of members settles from every place with fewer lines than `count` left. -/
def MembersSettle (members : (indent : Nat) → Cursor → Except Stop (List Declaration × Cursor))
    (count : Nat) : Prop :=
  ∀ first indent cursor, cursor.IsSettled lines → cursor.rest.length < count →
    first < cursor.position → HasSibling lines first indent cursor.position →
      Settles resolve lines first (members indent cursor)

end Settles

variable {resolve : DeclarationLine → Except Failure Heading} {number : Nat} {lines : List Line}

theorem FailsAt.mono {first later : Nat} {stop : Stop} (hle : first ≤ later)
    (h : FailsAt resolve lines later stop) : FailsAt resolve lines first stop := by
  obtain ⟨line, hline, hfault⟩ := h.fault
  refine ⟨h.rest_eq, Nat.le_trans hle h.notBefore, line, hline, ?_⟩
  rcases hfault with hfault | ⟨i, sibling, hi, hrest⟩
  · exact .inl hfault
  · exact .inr ⟨i, sibling, by omega, hrest⟩

theorem HasSibling.mono {first indent position later : Nat} (hle : position ≤ later)
    (h : HasSibling lines first indent position) : HasSibling lines first indent later := by
  obtain ⟨i, sibling, hfirst, hi, hsibling⟩ := h
  exact ⟨i, sibling, hfirst, by omega, hsibling⟩

theorem Settles.ok {α : Type} {first : Nat} {cursor : Cursor} (hlt : first < cursor.position)
    (h : cursor.IsSettled lines) (a : α) : Settles resolve lines first (.ok (a, cursor)) :=
  .inr ⟨a, cursor, rfl, hlt, h⟩

theorem Settles.of_ok {α : Type} {first : Nat} {a : α} {after : Cursor}
    (h : Settles resolve lines first (.ok (a, after))) :
    first < after.position ∧ after.IsSettled lines := by
  rcases h with ⟨stop, hstop, -⟩ | ⟨b, last, hlast, hsettled⟩
  · cases hstop
  · cases hlast
    exact hsettled

theorem Settles.bind {α β : Type} {first later : Nat} (hle : first ≤ later)
    {x : Except Stop (α × Cursor)} {f : α × Cursor → Except Stop (β × Cursor)}
    (hx : Settles resolve lines later x)
    (hf : ∀ a after, later < after.position → after.IsSettled lines →
      Settles resolve lines first (f (a, after))) : Settles resolve lines first (x >>= f) := by
  rcases hx with ⟨stop, rfl, hstop⟩ | ⟨a, after, rfl, hlt, hsettled⟩
  · exact .inl ⟨stop, rfl, hstop.mono hle⟩
  · exact hf a after hlt hsettled

theorem seekHead_next_settled {cursor : Cursor} {head : DeclarationLine}
    (hrest : cursor.rest = lines.drop cursor.position)
    (hhead : lines[cursor.position]? = some (.declaration head)) :
    (Cursor.seekHead true cursor.next.position cursor.next.rest).IsSettled lines ∧
      cursor.position < (Cursor.seekHead true cursor.next.position cursor.next.rest).position := by
  apply Cursor.seekHead_settled
  · simp only [Cursor.next, hrest, List.tail_drop]
  · exact (List.getElem?_eq_some_iff.mp hhead).1
  · simp

/-- Only what the members are from the next head on has an influence on a declaration. -/
theorem declarationWith_congr
    {members members' : (indent : Nat) → Cursor → Except Stop (List Declaration × Cursor)}
    {cursor : Cursor} {head : DeclarationLine}
    (h : ∀ indent, members indent (Cursor.seekHead true cursor.next.position cursor.next.rest) =
      members' indent (Cursor.seekHead true cursor.next.position cursor.next.rest)) :
    declarationWith resolve number members head cursor =
      declarationWith resolve number members' head cursor := by
  simp only [declarationWith, h]

/-- A declaration settles if the reader of its members does. -/
theorem declarationWith_settles
    {members : (indent : Nat) → Cursor → Except Stop (List Declaration × Cursor)} {count : Nat}
    {cursor : Cursor} {head : DeclarationLine} (hrest : cursor.rest = lines.drop cursor.position)
    (hhead : lines[cursor.position]? = some (.declaration head))
    (hmembers : MembersSettle resolve lines members count) (hcount : cursor.rest.length ≤ count) :
    Settles resolve lines cursor.position
      (declarationWith resolve number members head cursor) := by
  obtain ⟨hsettled, hlt⟩ := seekHead_next_settled hrest hhead
  unfold declarationWith
  cases hheading : resolve head with
  | error failure => exact .inl ⟨_, rfl, hrest, Nat.le_refl _, head, hhead, .inl hheading⟩
  | ok heading =>
    simp only
    split
    · rename_i line tail hline
      split
      · have hfewer : (Cursor.seekHead true cursor.next.position cursor.next.rest).rest.length <
            count := by
          have hlength := hsettled.length_add
          rw [hrest, List.length_drop] at hcount
          omega
        have hsibling := hsettled.atHead.getElem? hline
        refine Settles.bind (Nat.le_refl _)
          (hmembers _ _ _ hsettled hfewer hlt ⟨_, line, hlt, Nat.le_refl _, hsibling, rfl⟩) ?_
        intro forest after hafter hsettles
        exact .ok hafter hsettles _
      · exact .ok hlt hsettled _
    · exact .ok hlt hsettled _

/-! ## Branches that are not taken -/

section Or

variable (resolve number)

/-- Reads members as `membersWithin` does, but leaves it to `other` where no line is left to count
and where the line at the cursor declares nothing. -/
def membersOr (other : (count indent : Nat) → Cursor → Except Stop (List Declaration × Cursor)) :
    (count indent : Nat) → Cursor → Except Stop (List Declaration × Cursor)
  | 0, indent, cursor => other 0 indent cursor
  | count + 1, indent, cursor =>
    match cursor.rest with
    | [] => .ok ([], cursor)
    | .declaration line :: _ =>
      if line.indent < indent then .ok ([], cursor)
      else if line.indent = indent then do
        let (member, after) ← declarationWith resolve number (membersOr other count) line cursor
        let (more, after) ← membersOr other count indent after
        return (member :: more, after)
      else .error ⟨.misaligned line.indent indent line.identifier, cursor⟩
    | _ :: _ => other (count + 1) indent cursor

/-- Reads the declaration at the cursor with members that are read so. -/
def declarationOr
    (other : (count indent : Nat) → Cursor → Except Stop (List Declaration × Cursor))
    (head : DeclarationLine) (cursor : Cursor) : Except Stop (Declaration × Cursor) :=
  declarationWith resolve number (membersOr resolve number other cursor.rest.length) head cursor

/-- Reads declarations as `blockWithin` does, but leaves it to `pass` where no line is left to count
and where the line at the cursor declares nothing. -/
def blockOr (other : (count indent : Nat) → Cursor → Except Stop (List Declaration × Cursor))
    (pass : (count : Nat) → Cursor → Outline) : (count : Nat) → Cursor → Outline
  | 0, cursor => pass 0 cursor
  | count + 1, cursor =>
    match cursor.rest with
    | [] => ⟨[], cursor, none⟩
    | .declaration head :: _ =>
      match declarationOr resolve number other head cursor with
      | .error stop => ⟨[], stop.cursor, some stop.failure⟩
      | .ok (first, after) =>
        let outline := blockOr other pass count after
        { outline with declarations := (first, after.position) :: outline.declarations }
    | _ :: _ => pass (count + 1) cursor

/-- Reads the block from the cursor on, so. -/
def blockFrom (other : (count indent : Nat) → Cursor → Except Stop (List Declaration × Cursor))
    (pass : (count : Nat) → Cursor → Outline) (cursor : Cursor) : Outline :=
  let start := cursor.skipEmpty
  match start.line? with
  | some (.declaration _) => blockOr resolve number other pass (start.rest.length + 1) start
  | _ => ⟨[], start, none⟩

theorem membersWithin_eq_membersOr (count : Nat) :
    membersWithin resolve number count =
      membersOr resolve number (membersWithin resolve number) count := by
  induction count with
  | zero => rfl
  | succ count ih =>
    funext indent cursor
    rw [membersOr]
    split
    · rename_i hrest
      rw [membersWithin, hrest]
    · rename_i line rest hrest
      rw [membersWithin, hrest, ← ih]
    · rfl

end Or

variable {other other' : (count indent : Nat) → Cursor → Except Stop (List Declaration × Cursor)}
  {pass : (count : Nat) → Cursor → Outline}

theorem membersOr_settles (count : Nat) :
    MembersSettle resolve lines (membersOr resolve number other count) count := by
  induction count with
  | zero => exact fun first indent cursor hsettled hlt => absurd hlt (Nat.not_lt_zero _)
  | succ count ih =>
    intro first indent cursor hsettled hcount hfirst hsibling
    have hlength := hsettled.length_add
    cases hrest : cursor.rest with
    | nil =>
      rw [membersOr, hrest]
      exact .ok hfirst hsettled _
    | cons line rest =>
      obtain ⟨head, rfl⟩ := hsettled.atHead.declares line (by simp [hrest])
      have hhead := hsettled.atHead.getElem? hrest
      rw [membersOr, hrest]
      simp only
      split
      · exact .ok hfirst hsettled _
      split
      · refine Settles.bind (Nat.le_of_lt hfirst)
          (declarationWith_settles hsettled.rest_eq hhead ih (by omega)) ?_
        intro member after hafter hnext
        have hshorter := hnext.length_add
        refine Settles.bind (Nat.le_refl _) (ih first indent after hnext (by omega) (by omega)
          (hsibling.mono (by omega))) ?_
        intro more last hlast hend
        exact .ok hlast hend _
      · -- The line is deeper than the sibling that was reached, so it comes after it.
        obtain ⟨i, sibling, hi, hle, hline, rfl⟩ := hsibling
        have hdeeper : sibling.indent < head.indent := by omega
        have hbefore : i < cursor.position := by
          rcases Nat.lt_or_eq_of_le hle with hlt | rfl
          · exact hlt
          · rw [hhead] at hline
            cases hline
            omega
        exact .inl ⟨_, rfl, hsettled.rest_eq, Nat.le_of_lt hfirst, head, hhead,
          .inr ⟨i, sibling, hi, hbefore, hline, hdeeper, rfl⟩⟩

/-- Members are read in one way, whatever the other branches do and however far lines are counted
beyond those that are left. -/
theorem membersOr_steady (count count' indent : Nat) {cursor : Cursor}
    (hsettled : cursor.IsSettled lines) (hcount : cursor.rest.length < count)
    (hcount' : cursor.rest.length < count') :
    membersOr resolve number other count indent cursor =
      membersOr resolve number other' count' indent cursor := by
  induction count generalizing count' indent cursor with
  | zero => exact absurd hcount (Nat.not_lt_zero _)
  | succ count ih =>
    obtain ⟨count', rfl⟩ := Nat.exists_eq_succ_of_ne_zero (Nat.ne_of_gt (Nat.zero_lt_of_lt hcount'))
    have hlength := hsettled.length_add
    cases hrest : cursor.rest with
    | nil => rw [membersOr, membersOr, hrest]
    | cons line rest =>
      obtain ⟨head, rfl⟩ := hsettled.atHead.declares line (by simp [hrest])
      have hhead := hsettled.atHead.getElem? hrest
      obtain ⟨hseek, hlater⟩ := seekHead_next_settled hsettled.rest_eq hhead
      have hshorter := hseek.length_add
      -- Both read the same first declaration, and then go on from the same place.
      have hfirst : declarationWith resolve number (membersOr resolve number other count) head
            cursor =
          declarationWith resolve number (membersOr resolve number other' count') head cursor :=
        declarationWith_congr fun indent => ih count' indent hseek (by omega) (by omega)
      rw [membersOr, membersOr, hrest]
      simp only [hfirst]
      split
      · rfl
      split
      · refine except_bind_congr ?_
        rintro ⟨member, after⟩ hmember
        have hsettles : Settles resolve lines cursor.position (.ok (member, after)) := by
          rw [← hmember]
          exact declarationWith_settles hsettled.rest_eq hhead (membersOr_settles count') (by omega)
        obtain ⟨hafter, hnext⟩ := hsettles.of_ok
        have hfewer := hnext.length_add
        rw [ih count' indent hnext (by omega) (by omega)]
      · rfl

/-- A declaration is read in one way, whatever the other branches do. -/
theorem declarationWith_steady {count : Nat} {cursor : Cursor} {head : DeclarationLine}
    (hrest : cursor.rest = lines.drop cursor.position)
    (hhead : lines[cursor.position]? = some (.declaration head))
    (hcount : cursor.rest.length ≤ count) :
    declarationWith resolve number (membersOr resolve number other count) head cursor =
      declaration resolve number head cursor := by
  obtain ⟨hseek, hlater⟩ := seekHead_next_settled hrest hhead
  have hfewer : (Cursor.seekHead true cursor.next.position cursor.next.rest).rest.length <
      cursor.rest.length := by
    have hlength := hseek.length_add
    rw [hrest, List.length_drop]
    omega
  rw [declaration, membersWithin_eq_membersOr]
  exact declarationWith_congr fun indent =>
    membersOr_steady count _ indent hseek (by omega) (by omega)

theorem declaration_settles_from {cursor : Cursor} {head : DeclarationLine}
    (hrest : cursor.rest = lines.drop cursor.position)
    (hhead : lines[cursor.position]? = some (.declaration head)) :
    Settles resolve lines cursor.position (declaration resolve number head cursor) := by
  rw [declaration, membersWithin_eq_membersOr]
  exact declarationWith_settles hrest hhead (membersOr_settles _) (Nat.le_refl _)

/-- From a declaration on, a block is read in one way, whatever the other branches do. -/
theorem blockOr_steady (count : Nat) {cursor : Cursor} (hat : cursor.AtHead lines)
    (hcount : cursor.rest.length < count) :
    blockOr resolve number other pass count cursor = blockWithin resolve number count cursor := by
  induction count generalizing cursor with
  | zero => exact absurd hcount (Nat.not_lt_zero _)
  | succ count ih =>
    cases hrest : cursor.rest with
    | nil => rw [blockOr, blockWithin, hrest]
    | cons line rest =>
      obtain ⟨head, rfl⟩ := hat.declares line (by simp [hrest])
      have hhead := hat.getElem? hrest
      have hsettles : Settles resolve lines cursor.position
          (declaration resolve number head cursor) := declaration_settles_from hat.rest_eq hhead
      rw [blockOr, blockWithin, hrest]
      simp only [declarationOr, declarationWith_steady hat.rest_eq hhead (Nat.le_refl _)]
      cases hfirst : declaration resolve number head cursor with
      | error stop => rfl
      | ok found =>
        obtain ⟨first, after⟩ := found
        rw [hfirst] at hsettles
        obtain ⟨hafter, hnext⟩ := hsettles.of_ok
        have hfewer : after.rest.length < count := by
          have hlength := hnext.length_add
          rw [hat.rest_eq, List.length_drop] at hcount
          omega
        simp only [ih hnext.atHead hfewer]

theorem blockFrom_steady {cursor : Cursor} (hrest : cursor.rest = lines.drop cursor.position) :
    blockFrom resolve number other pass cursor = block resolve number cursor := by
  simp only [blockFrom, block]
  cases hline : cursor.skipEmpty.line? with
  | none => rfl
  | some line =>
    cases line with
    | empty indent => rfl
    | documentation indent text => rfl
    | declaration head =>
      have hat : cursor.skipEmpty.AtHead lines := by
        refine ⟨by simp [Cursor.skipEmpty, Cursor.advance, hrest], fun first hfirst => ⟨head, ?_⟩⟩
        exact Option.some.inj (hfirst.symm.trans hline)
      exact blockOr_steady _ hat (Nat.lt_succ_self _)

/-- **How the reading of a declaration moves on.** It ends, whatever stands where it would run out
of lines to count or meet a line that declares nothing: it stops at a line at fault, or goes on to
the end or to a declaration after an empty line. So in a block the members never meet a line of
documentation, and no line is passed over between declarations. -/
theorem declaration_settles (resolve : DeclarationLine → Except Failure Heading) (number : Nat)
    (lines : List Line) :
    (∀ position head, lines[position]? = some (.declaration head) →
      (∀ other count, (lines.drop position).length ≤ count →
        declarationWith resolve number (membersOr resolve number other count) head
            ⟨position, lines.drop position⟩ =
          declaration resolve number head ⟨position, lines.drop position⟩) ∧
      Settles resolve lines position
        (declaration resolve number head ⟨position, lines.drop position⟩)) ∧
    ∀ other pass position,
      blockFrom resolve number other pass ⟨position, lines.drop position⟩ =
        block resolve number ⟨position, lines.drop position⟩ := by
  constructor
  · intro position head hhead
    constructor
    · intro other count hcount
      exact declarationWith_steady rfl hhead hcount
    · exact declaration_settles_from rfl hhead
  · intro other pass position
    exact blockFrom_steady rfl

/-- The last declaration is deeper than the members before it, and shallower than theirs. -/
def looseLines : List Line := [
  .declaration ⟨0, "a", "A"⟩, .empty 0, .declaration ⟨4, "b", "B"⟩, .empty 0,
  .declaration ⟨6, "c", "C"⟩, .empty 0, .declaration ⟨5, "d", "D"⟩]

theorem declaration_settles_nestedLines :
    (∃ d after, declaration sayName 0 ⟨3, "b", "B"⟩ ⟨4, nestedLines.drop 4⟩ = .ok (d, after) ∧
      after.position = 11 ∧ after.IsSettled nestedLines) ∧
    ∃ stop, declaration sayName 0 ⟨0, "a", "A"⟩ ⟨0, looseLines.drop 0⟩ = .error stop ∧
      stop.cursor.position = 6 ∧ FailsAt sayName looseLines 0 stop := by
  constructor
  · have hread : (declaration sayName 0 ⟨3, "b", "B"⟩ ⟨4, nestedLines.drop 4⟩).toOption.map
        (·.2.position) = some 11 := by rfl
    rcases ((declaration_settles sayName 0 nestedLines).1 4 _ rfl).2 with
      ⟨stop, hstop, -⟩ | ⟨d, after, hok, -, hsettled⟩
    · rw [hstop] at hread
      cases hread
    · rw [hok] at hread
      exact ⟨d, after, hok, Option.some.inj hread, hsettled⟩
  · have hread : (declaration sayName 0 ⟨0, "a", "A"⟩ ⟨0, looseLines.drop 0⟩).mapError
        (·.cursor.position) = .error 6 := by rfl
    rcases ((declaration_settles sayName 0 looseLines).1 0 _ rfl).2 with
      ⟨stop, hstop, hfails⟩ | ⟨d, after, hok, -, -⟩
    · rw [hstop] at hread
      exact ⟨stop, hstop, Except.error.inj hread, hfails⟩
    · rw [hok] at hread
      cases hread

end Outline

end DocComments
