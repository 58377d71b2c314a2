import DocComments.Proofs.Outline

/-!
# Where the reading of an outline fails

A block can fail after some of its declarations were read. What it yields until then comes from its
lines as they are resolved, and the failure is one of the line it stops at: that line is indented
deeper than its siblings, or cannot be resolved.

* `declarationWith_stops`, `membersWithin_stops`: one declaration and a list of members stop so.
* `block_stops`: a block does.
-/

namespace DocComments

namespace Outline

open Declaration

variable {resolve : DeclarationLine → Except Failure Heading} {number : Nat} {lines : List Line}

/-- Whatever is read comes from a declaration line, and says what the line is resolved to. -/
theorem Reads.resolved {cursor after : Cursor} {forest : List Declaration}
    (hat : cursor.AtHead lines) (h : Reads resolve number lines cursor after forest)
    {d : Declaration} (hd : d ∈ preorderAll forest) :
    ∃ line, lines[d.origin.line]? = some (.declaration line) ∧ resolve line = .ok d.heading := by
  have hsaid : said d ∈ cursor.heads.map (toSay resolve number) := by
    rw [h.heads]
    exact List.mem_append_left _ (List.mem_map_of_mem hd)
  obtain ⟨⟨i, line⟩, hline, hsay⟩ := List.mem_map.mp hsaid
  obtain ⟨horigin, hheading⟩ := Prod.mk.inj hsay
  rw [← horigin]
  exact ⟨line, getElem?_of_mem_headsFrom hat.rest_eq hline, hheading⟩

/-- The reading stops at a line that is indented amiss or cannot be resolved. -/
def StopsAt (resolve : DeclarationLine → Except Failure Heading) (lines : List Line)
    (stop : Stop) : Prop :=
  (∃ indent siblings identifier, stop.failure = .misaligned indent siblings identifier) ∨
    ∃ line, lines[stop.cursor.position]? = some (.declaration line) ∧
      resolve line = .error stop.failure

/-- A reader of members that fails, from a place with fewer lines than `bound` left, stops so. -/
def MembersStop (resolve : DeclarationLine → Except Failure Heading) (lines : List Line)
    (members : (indent : Nat) → Cursor → Except Stop (List Declaration × Cursor))
    (bound : Nat) : Prop :=
  ∀ indent cursor stop, cursor.AtHead lines → cursor.rest.length < bound →
    members indent cursor = .error stop → StopsAt resolve lines stop

theorem declarationWith_stops
    {members : (indent : Nat) → Cursor → Except Stop (List Declaration × Cursor)}
    {cursor : Cursor} (hat : cursor.AtHead lines) {head : DeclarationLine} {rest : List Line}
    (hrest : cursor.rest = .declaration head :: rest)
    (hmembers : MembersStop resolve lines members cursor.rest.length) {stop : Stop}
    (h : declarationWith resolve number members head cursor = .error stop) :
    StopsAt resolve lines stop := by
  unfold declarationWith at h
  cases hheading : resolve head with
  | error failure =>
    simp only [hheading] at h
    cases h
    exact .inr ⟨head, hat.getElem? hrest, hheading⟩
  | ok heading =>
    simp only [hheading] at h
    split at h
    · rename_i line tail hline
      split at h
      · rcases except_bind_eq_error.mp h with h | ⟨found, hfound, h⟩
        · exact hmembers line.indent _ stop hat.seekHead_next (Cursor.seekHead_next_length hrest) h
        · cases h
      · cases h
    · cases h

theorem membersWithin_stops (count : Nat) :
    MembersStop resolve lines (membersWithin resolve number count) count := by
  induction count with
  | zero => exact fun indent cursor stop hat hlt => absurd hlt (Nat.not_lt_zero _)
  | succ count ih =>
    intro indent cursor stop hat hlt h
    cases hrest : cursor.rest with
    | nil =>
      simp only [membersWithin, hrest] at h
      cases h
    | cons line rest =>
      obtain ⟨head, rfl⟩ := hat.declares line (by simp [hrest])
      have hbound : cursor.rest.length ≤ count := by omega
      simp only [membersWithin, hrest] at h
      split at h
      · cases h
      · split at h
        · rcases except_bind_eq_error.mp h with h | ⟨⟨member, middle⟩, hmember, h⟩
          · exact declarationWith_stops hat hrest
              (fun indent cursor stop hat hlt => ih indent cursor stop hat (by omega)) h
          · obtain ⟨hfirst, -⟩ :=
              declarationWith_reads hat hrest ((membersWithin_reads count).mono hbound) hmember
            have hshorter := hfirst.shorter
            rcases except_bind_eq_error.mp h with h | ⟨found, hfound, h⟩
            · exact ih indent middle stop hfirst.atHead
                (by simp only [List.length_singleton] at hshorter; omega) h
            · cases h
        · cases h
          exact .inl ⟨_, _, _, rfl⟩

/-- A block yields what its lines are resolved to, also if its reading fails in the end; it fails
on the line it stops at. -/
structure Stopped (resolve : DeclarationLine → Except Failure Heading) (lines : List Line)
    (outline : Outline) : Prop where
  resolved : ∀ d ∈ preorderAll outline.forest, ∃ line,
    lines[d.origin.line]? = some (.declaration line) ∧ resolve line = .ok d.heading
  stops : ∀ failure, outline.failure = some failure →
    StopsAt resolve lines ⟨failure, outline.cursor⟩

theorem blockWithin_stops (count : Nat) {cursor : Cursor} (hat : cursor.AtHead lines)
    (hlt : cursor.rest.length < count) :
    Stopped resolve lines (blockWithin resolve number count cursor) := by
  induction count generalizing cursor with
  | zero => exact absurd hlt (Nat.not_lt_zero _)
  | succ count ih =>
    cases hrest : cursor.rest with
    | nil =>
      simp only [blockWithin, hrest]
      exact ⟨by simp [forest], by simp⟩
    | cons line rest =>
      obtain ⟨head, rfl⟩ := hat.declares line (by simp [hrest])
      simp only [blockWithin, hrest]
      cases hfirst : declaration resolve number head cursor with
      | error stop =>
        refine ⟨by simp [forest], ?_⟩
        rintro failure ⟨⟩
        exact declarationWith_stops hat hrest (membersWithin_stops _) hfirst
      | ok found =>
        obtain ⟨first, after⟩ := found
        have hreads := declaration_reads hat hrest hfirst
        have hshorter := hreads.shorter
        obtain ⟨hothers, hstops⟩ := ih hreads.atHead
          (by simp only [List.length_singleton] at hshorter; omega)
        refine ⟨?_, hstops⟩
        intro d hd
        have hmem : d ∈ preorderAll ([first] ++ (blockWithin resolve number count after).forest) :=
          hd
        rcases List.mem_append.mp (preorderAll_append _ _ ▸ hmem) with hd | hd
        · exact hreads.resolved hat hd
        · exact hothers d hd

theorem block_stops (resolve : DeclarationLine → Except Failure Heading) (number : Nat)
    (lines : List Line) :
    Stopped resolve lines (block resolve number (.ofLines lines)) := by
  unfold block
  simp only
  split
  · rename_i head hhead
    exact blockWithin_stops _ (skipEmpty_atHead hhead) (Nat.lt_succ_self _)
  · exact ⟨by simp [forest], by simp⟩

end Outline

end DocComments
