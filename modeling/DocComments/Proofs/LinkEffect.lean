import DocComments.Proofs.Merging

/-!
# What a call changes

A call that succeeds changes the forest at one place only. It may first make up a class at the end
of the forest. Then the passed declaration comes to the end of the forest, or to the end of the
members of one declaration, or gives its parameters to one class. A place is a path from the roots.

* `updateAll_eq_changeAt`: where no origin occurs twice, a change of the declaration from an origin
  is a change at the end of one path.
* `reach_updateAll`: what stands at the end of each path after a change.
* `link_effect`: the effect of a call on the forest and on the table.
-/

namespace DocComments

namespace Declaration

/-! ## Changes at the end of a path -/

/-- The forest with the declaration at the end of the path changed. -/
def changeAt (f : Declaration → Declaration) : List Nat → List Declaration → List Declaration
  | [], forest => forest
  | i :: path, forest => forest.modify i fun d =>
    if path.isEmpty then f d else { d with members := d.members.map (changeAt f path) }

theorem length_changeAt (f : Declaration → Declaration) (path : List Nat)
    (forest : List Declaration) : (changeAt f path forest).length = forest.length := by
  cases path with
  | nil => rfl
  | cons i path => simp [changeAt]

theorem update_of_notMem {f : Declaration → Declaration} {origin : Origin} {d : Declaration}
    (hne : d.origin ≠ origin) (hparts : updateAll origin f d.parts = d.parts) :
    update origin f d = d := by
  obtain ⟨own, heading, members⟩ := d
  rw [update_eq, if_neg hne]
  cases members with
  | none => rfl
  | some members => simpa [parts] using hparts

theorem updateAll_of_notMem {f : Declaration → Declaration} {origin : Origin}
    {forest : List Declaration} (h : origin ∉ origins forest) : updateAll origin f forest = forest := by
  induction forest using forest_induction with
  | nil => simp
  | tree d ih =>
    simp only [origins_cons, origins_nil, List.append_nil, List.mem_cons, not_or] at h
    rw [updateAll_cons, updateAll_nil, update_of_notMem (Ne.symm h.1) (ih h.2)]
  | cons d rest hd hrest =>
    rw [← List.singleton_append, origins_append, List.mem_append, not_or] at h
    rw [← List.singleton_append, updateAll_append, hd h.1, hrest h.2]

theorem origin_notMem_parts {forest : List Declaration} (hnodup : (origins forest).Nodup)
    {d : Declaration} (h : d ∈ preorderAll forest) : d.origin ∉ origins d.parts := by
  induction forest using forest_induction with
  | nil => simp at h
  | tree root ih =>
    simp only [origins_cons, origins_nil, List.append_nil, List.nodup_cons] at hnodup
    simp only [preorderAll_cons, preorderAll_nil, List.append_nil, List.mem_cons] at h
    rcases h with rfl | h
    · exact hnodup.1
    · exact ih hnodup.2 h
  | cons root rest hroot hrest =>
    rw [← List.singleton_append, origins_append, List.nodup_append] at hnodup
    rcases mem_preorderAll_cons.mp h with h | h
    · exact hroot hnodup.1 h
    · exact hrest hnodup.2.1 h

/-- The declaration itself is changed where nothing below it comes from its origin. -/
theorem update_self {f : Declaration → Declaration} {d : Declaration}
    (h : d.origin ∉ origins d.parts) : update d.origin f d = f d := by
  obtain ⟨own, heading, members⟩ := d
  rw [update_eq, if_pos rfl]
  cases members with
  | none => rfl
  | some members =>
    have hsame : updateAll own f members = members := updateAll_of_notMem (by simpa [parts] using h)
    simp [hsame]

/-- Where no origin occurs twice, the declaration from an origin is the one at the end of the path
that leads to it. -/
theorem updateAll_eq_changeAt {f : Declaration → Declaration} {forest : List Declaration}
    (hnodup : (origins forest).Nodup) {path : List Nat} {x : Declaration}
    (hx : reach forest path = some x) : updateAll x.origin f forest = changeAt f path forest := by
  induction path generalizing forest with
  | nil => simp [reach] at hx
  | cons i path ih =>
    obtain ⟨root, hroot, hend⟩ := Option.bind_eq_some_iff.mp hx
    obtain ⟨hi, hget⟩ := List.getElem?_eq_some_iff.mp hroot
    obtain ⟨hown, hparts⟩ := origins_root_nodup hnodup (List.mem_of_getElem? hroot)
    have hsplit : forest = forest.take i ++ root :: forest.drop (i + 1) := by
      rw [← hget, ← List.drop_eq_getElem_cons hi, List.take_append_drop]
    -- The origin occurs below this root, so it occurs below no other one.
    have hmem : x.origin ∈ origins [root] := by
      split at hend
      · cases hend
        simp
      · simp [origin_mem_origins (mem_of_reach hend)]
    rw [hsplit, origins_append, List.nodup_append, ← List.singleton_append, origins_append,
      List.nodup_append] at hnodup
    obtain ⟨-, ⟨-, -, hafter⟩, hbefore⟩ := hnodup
    have hleft : x.origin ∉ origins (forest.take i) := fun h =>
      hbefore _ h _ (List.mem_append_left _ hmem) rfl
    have hright : x.origin ∉ origins (forest.drop (i + 1)) := fun h => hafter _ hmem _ h rfl
    have hchange : update x.origin f root =
        if path.isEmpty then f root else { root with members := root.members.map (changeAt f path) } := by
      split at hend
      · rename_i hempty
        cases hend
        rw [if_pos hempty, update_self hown]
      · rename_i hempty
        have hne : root.origin ≠ x.origin := fun heq =>
          hown (heq ▸ origin_mem_origins (mem_of_reach hend))
        have hbelow := ih hparts hend
        rw [if_neg hempty, update_eq, if_neg hne]
        obtain ⟨own, heading, members⟩ := root
        cases members with
        | none => rfl
        | some members => simpa [parts] using hbelow
    rw [changeAt, List.modify_eq_take_cons_drop hi, hget, ← hchange]
    conv_lhs => rw [hsplit, updateAll_append, updateAll_cons, updateAll_of_notMem hleft,
      updateAll_of_notMem hright]

theorem updateAll_eq_map (origin : Origin) (f : Declaration → Declaration)
    (forest : List Declaration) : updateAll origin f forest = forest.map (update origin f) := by
  induction forest with
  | nil => simp
  | cons d rest ih => simp [ih]

/-- A path that leads to a declaration leads to the changed one after a change. -/
theorem reach_updateAll {f : Declaration → Declaration} {extra : List Declaration}
    (hf : Extends f extra) (origin : Origin) {forest : List Declaration} {path : List Nat}
    {d : Declaration} (h : reach forest path = some d) :
    reach (updateAll origin f forest) path = some (update origin f d) := by
  induction path generalizing forest with
  | nil => simp [reach] at h
  | cons i path ih =>
    obtain ⟨root, hroot, hend⟩ := Option.bind_eq_some_iff.mp h
    have hget : (updateAll origin f forest)[i]? = some (update origin f root) := by
      rw [updateAll_eq_map, List.getElem?_map, hroot, Option.map_some]
    rw [reach, hget, Option.bind_some]
    split at hend
    · rename_i hempty
      cases hend
      rw [if_pos hempty]
    · rename_i hempty
      rw [if_neg hempty, parts_update hf]
      exact reach_append_right (ih hend) _

/-! ## What a declaration can do to a forest -/

/-- A declaration that says the same and has the same members, by their origins. -/
structure Like (old new : Declaration) : Prop where
  origin : new.origin = old.origin
  heading : new.heading = old.heading
  members : new.parts.map (·.origin) = old.parts.map (·.origin)

/-- The forest is changed by `f` at the end of the path, and nowhere else. -/
structure ChangedAt (f : Declaration → Declaration) (before after : List Declaration)
    (path : List Nat) : Prop where
  forest : after = changeAt f path before
  there : ∃ owner, reach before path = some owner ∧ reach after path = some (f owner)
  elsewhere : ∀ other old, other ≠ path → reach before other = some old →
    ∃ new, reach after other = some new ∧ Like old new

theorem like_update_of_ne {f : Declaration → Declaration} (hf : ∃ extra, Extends f extra)
    {origin : Origin} {d : Declaration} (hne : d.origin ≠ origin) : Like d (update origin f d) := by
  obtain ⟨extra, hf⟩ := hf
  refine ⟨origin_update hf origin d, heading_update_of_ne hne, ?_⟩
  rw [parts_update hf, if_neg hne, List.append_nil, map_origin_updateAll hf]

/-- Where no origin occurs twice, a change of the declaration from an origin happens at one place. -/
theorem changedAt_updateAll {f : Declaration → Declaration} {extra : List Declaration}
    (hf : Extends f extra) {forest : List Declaration} (hnodup : (origins forest).Nodup)
    {path : List Nat} {owner : Declaration} (howner : reach forest path = some owner) :
    ChangedAt f forest (updateAll owner.origin f forest) path where
  forest := updateAll_eq_changeAt hnodup howner
  there := by
    have hself : update owner.origin f owner = f owner :=
      update_self (origin_notMem_parts hnodup (mem_of_reach howner))
    exact ⟨owner, howner, hself ▸ reach_updateAll hf owner.origin howner⟩
  elsewhere := by
    intro other old hother hold
    have hne : old.origin ≠ owner.origin := fun heq => hother (path_unique hnodup hold howner heq)
    exact ⟨_, reach_updateAll hf owner.origin hold, like_update_of_ne ⟨extra, hf⟩ hne⟩

theorem ChangedAt.length {f : Declaration → Declaration} {before after : List Declaration}
    {path : List Nat} (h : ChangedAt f before after path) : after.length = before.length := by
  rw [h.forest, length_changeAt]

/-- The place where a declaration became a member can be told from the result. -/
theorem ChangedAt.path_eq {d : Declaration} {before after : List Declaration} {path other : List Nat}
    (h : ChangedAt (addMember d) before after path)
    (hother : ChangedAt (addMember d) before after other) : other = path := by
  by_contra hne
  obtain ⟨owner, howner, hlast⟩ := hother.there
  obtain ⟨new, hnew, hlike⟩ := h.elsewhere other owner hne howner
  obtain rfl : addMember d owner = new := by simpa [hlast] using hnew
  have hlength := congrArg List.length hlike.members
  rw [(extends_addMember d).parts] at hlength
  simp at hlength

theorem ChangedAt.mem_origins {d : Declaration} {before after : List Declaration} {path : List Nat}
    (h : ChangedAt (addMember d) before after path) : d.origin ∈ origins after := by
  obtain ⟨owner, -, hlast⟩ := h.there
  apply origin_mem_origins
  apply preorderAll_parts_subset (mem_of_reach hlast)
  rw [(extends_addMember d).parts]
  simp

/-- The declaration gives its parameters to one class of the forest, and does not come in itself. -/
def Merges (d : Declaration) (before after : List Declaration) : Prop :=
  d.origin ∉ origins after ∧ ∃ path owner parameters result,
    reach before path = some owner ∧ Links.isClassType owner.heading.type = true ∧
    d.heading.type = .function parameters result ∧
    ChangedAt (setConstructor parameters) before after path

/-- One of the statements holds, and the others do not. -/
def ExactlyOne (a b c : Prop) : Prop :=
  (a ∧ ¬b ∧ ¬c) ∨ (¬a ∧ b ∧ ¬c) ∨ (¬a ∧ ¬b ∧ c)

/-- The declaration comes to the end of the forest, or to the end of the members of exactly one
declaration, or is merged into a class: exactly one of the three. -/
def TakesIn (d : Declaration) (before after : List Declaration) : Prop :=
  ExactlyOne (after = before ++ [d]) (∃! path, ChangedAt (addMember d) before after path)
    (Merges d before after)

theorem takesIn_append (d : Declaration) (before : List Declaration) :
    TakesIn d before (before ++ [d]) := by
  refine Or.inl ⟨rfl, ?_, fun hmerges => hmerges.1 (by simp)⟩
  rintro ⟨path, hpath, -⟩
  have hlength := hpath.length
  simp at hlength

theorem ChangedAt.takesIn {d : Declaration} {before after : List Declaration} {path : List Nat}
    (h : ChangedAt (addMember d) before after path) : TakesIn d before after := by
  refine Or.inr (Or.inl ⟨?_, ⟨path, h, fun other hother => h.path_eq hother⟩,
    fun hmerges => hmerges.1 h.mem_origins⟩)
  intro htop
  have hlength := h.length
  rw [htop] at hlength
  simp at hlength

theorem Merges.takesIn {d : Declaration} {before after : List Declaration}
    (h : Merges d before after) : TakesIn d before after := by
  refine Or.inr (Or.inr ⟨?_, ?_, h⟩)
  · rintro rfl
    exact h.1 (by simp)
  · rintro ⟨path, hpath, -⟩
    exact h.1 hpath.mem_origins

end Declaration

namespace Links

open Declaration LinkCall

variable {links : Links} {tree : SourceTree} {passed : List Declaration}

/-! ## The effect of a call -/

theorem recordUnlessProgram_table (links : Links) (e : Element) (o : Origin) :
    (links.recordUnlessProgram e o).table =
      links.table ++ if e.role = .program then [] else [(e.index, o)] := by
  unfold recordUnlessProgram
  split
  · rw [List.append_nil]
  · rfl

/-- What happens below a declaration of the forest. -/
theorem Sound.placeBelow_effect (h : Sound tree passed links) {p : Origin}
    (hp : p ∈ origins links.declarations) {d : Declaration} (hnew : AreNew links passed [d])
    (e : Element) :
    TakesIn d links.declarations (links.placeBelow p d e).declarations ∧
      ∃ owner, (links.placeBelow p d e).table =
        links.table ++ if e.role = .program then [] else [(e.index, owner)] := by
  obtain ⟨host, hhost, rfl⟩ := List.mem_map.mp hp
  obtain ⟨path, hpath⟩ := exists_reach hhost
  rcases placeBelow_cases links host.origin d e with ⟨parameters, hmerge, heq⟩ | ⟨-, heq⟩
  · have hf := extends_setConstructor parameters
    have hchanged := changedAt_updateAll hf h.nodup hpath
    rw [heq, recordUnlessProgram_declarations, recordUnlessProgram_table, h.update_eq]
    refine ⟨Merges.takesIn ⟨?_, ?_⟩, _, rfl⟩
    · intro hmem
      rw [(origins_updateAll_perm hf h.nodup hp).mem_iff] at hmem
      exact hnew.absent d.origin (by simp) (by simpa using hmem)
    · obtain ⟨-, -, ⟨result, htype⟩, owner, howner, hclass⟩ :=
        constructorParameters?_eq_some.mp hmerge
      rw [h.declaration?_of_mem hhost] at howner
      cases howner
      exact ⟨path, host, parameters, result, hpath, hclass, htype, hchanged⟩
  · rw [heq, recordUnlessProgram_declarations, recordUnlessProgram_table, h.update_eq]
    exact ⟨(changedAt_updateAll (extends_addMember d) h.nodup hpath).takesIn, _, rfl⟩

/-- **The effect of a call.** A call with a fresh declaration that succeeds on the links of a run may
make up one class, without members, which comes to the end of the forest and is recorded for the
class around the element. After that the declaration comes to the end of the forest, or to the end
of the members of exactly one declaration, or gives its parameters to one class; the forest changes
at that place and nowhere else. The table gets one more entry for the element if that is not the
program, after one for the made up class. -/
theorem link_effect {past : List (LinkCall tree)} {call : LinkCall tree}
    (hfresh : AllFresh (past ++ [call])) {after : Links}
    (hafter : (run past).link tree call.declaration call.element = .ok after) :
    ∃ implied : List (Nat × Declaration),
      (implied = [] ∨ ∃ c name, tree.enclosingClass? call.element = some c ∧
        implied = [(c.index,
          ⟨call.declaration.origin.impliedClass, { name, type := .classType none }, none⟩)]) ∧
      TakesIn call.declaration ((run past).declarations ++ implied.map (·.2)) after.declarations ∧
      ∃ owner, after.table =
        (run past).table ++ implied.map (fun entry => (entry.1, entry.2.origin)) ++
          if call.element.role = .program then [] else [(call.element.index, owner)] := by
  obtain ⟨hpast, hcall⟩ := allFresh_append_singleton hfresh
  have hsound := sound_run hpast
  rcases link_cases hafter with ⟨-, -, rfl⟩ | ⟨ready, p, hready, rfl⟩
  · refine ⟨[], Or.inl rfl, ?_, call.declaration.origin, ?_⟩
    · rw [recordUnlessProgram_declarations, List.map_nil, List.append_nil]
      exact takesIn_append call.declaration (run past).declarations
    · rw [recordUnlessProgram_table]
      simp [append]
  · obtain ⟨hreadySound, hp, hnew⟩ := hsound.prepared hcall hready
    have heffect := hreadySound.placeBelow_effect hp hnew call.element
    cases hready with
    | found hparent => exact ⟨[], Or.inl rfl, by simpa using heffect⟩
    | @implied c name hparent hclass hname =>
      exact ⟨_, Or.inr ⟨c, name, hclass, rfl⟩, heffect⟩

/-- The call for a constructor, after one that failed. -/
def secondCall : LinkCall twoClasses.tree :=
  mixedCalls.get ⟨1, by decide⟩

theorem link_effect_secondCall :
    AllFresh (mixedCalls.take 1 ++ [secondCall]) ∧
    ∃ after, (run (mixedCalls.take 1)).link twoClasses.tree secondCall.declaration
        secondCall.element = .ok after ∧
      after.table.map (·.1) = [7, 10] ∧
      ∃ implied : List (Nat × Declaration), implied.length = 1 ∧
        TakesIn secondCall.declaration
          ((run (mixedCalls.take 1)).declarations ++ implied.map (·.2)) after.declarations := by
  have hfresh : AllFresh (mixedCalls.take 1 ++ [secondCall]) := by decide +kernel
  have hbefore : (run (mixedCalls.take 1)).table = [] := by decide +kernel
  have hok : ((run (mixedCalls.take 1)).link twoClasses.tree secondCall.declaration
      secondCall.element).toOption.map (·.table.map (·.1)) = some [7, 10] := by decide +kernel
  cases hafter : (run (mixedCalls.take 1)).link twoClasses.tree secondCall.declaration
      secondCall.element with
  | error failure => simp [hafter, Except.toOption] at hok
  | ok after =>
    have htable : after.table.map (·.1) = [7, 10] := by simpa [hafter, Except.toOption] using hok
    obtain ⟨implied, -, heffect, owner, hentries⟩ := link_effect hfresh hafter
    refine ⟨hfresh, after, rfl, htable, implied, ?_, heffect⟩
    have hlength := congrArg List.length htable
    have hrole : secondCall.element.role ≠ .program := by decide +kernel
    simpa [hentries, hbefore, hrole] using hlength

end Links

end DocComments
