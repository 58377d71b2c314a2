import DocComments.Proofs.Ancestry
import DocComments.Proofs.ImpliedClasses
import Mathlib.Data.List.Flatten

/-!
# Statements do not interfere

A call looks only at the declarations of elements around its own. Below one statement of the
program these are elements of the same statement, apart from the program, which never has a
declaration. So the calls for one statement do the same whether or not there are calls for others
between them.

The proof runs the calls of one statement beside all calls. `Projects` relates the two states: the
forest and the table of the one are parts of those of the other, and the table never leads from an
element inside the statement to a declaration outside that part, or the other way round.

* `added_eq_filter`: the roots that some of the calls add can be told by their origins.
* `Projects.own`, `Projects.other`: a call for the statement makes the same step on both sides, and
  any other call leaves the part alone.
* `run_independent`: the run of the calls for one statement is a part of the run of all calls.
-/

namespace DocComments

open Declaration LinkCall

/-- Is the call for an element below this one, or for this one itself? -/
def LinkCall.isBelow {tree : SourceTree} (c : Element) (call : LinkCall tree) : Bool :=
  tree.isWithin c call.element

namespace Links

variable {tree : SourceTree} {links : Links} {passed : List Declaration}

theorem attempt_eq (links : Links) (call : LinkCall tree) :
    links.attempt call = match links.destination tree call.element with
      | .ok goal => links.place call.declaration call.element goal
      | .error _ => links := by
  rw [attempt, link]
  cases links.destination tree call.element <;> rfl

/-! ## Roots that calls add -/

/-- The roots that a call adds to the forest. -/
def appended (links : Links) (call : LinkCall tree) : List Declaration :=
  (links.attempt call).declarations.drop links.declarations.length

/-- The origins of the roots that the chosen ones among the calls add, made one after the other. -/
def addedFrom (chosen : LinkCall tree → Bool) (links : Links) : List (LinkCall tree) → List Origin
  | [] => []
  | call :: rest =>
    (if chosen call then (links.appended call).map (·.origin) else []) ++
      addedFrom chosen (links.attempt call) rest

/-- The origins of the roots that the chosen ones among the calls of a run add. -/
def added (chosen : LinkCall tree → Bool) (calls : List (LinkCall tree)) : List Origin :=
  addedFrom chosen {} calls

theorem addedFrom_append (chosen : LinkCall tree → Bool) (links : Links)
    (calls more : List (LinkCall tree)) :
    addedFrom chosen links (calls ++ more) =
      addedFrom chosen links calls ++ addedFrom chosen (calls.foldl attempt links) more := by
  induction calls generalizing links with
  | nil => rfl
  | cons call rest ih => simp [addedFrom, ih]

theorem added_append_singleton (chosen : LinkCall tree → Bool) (calls : List (LinkCall tree))
    (call : LinkCall tree) :
    added chosen (calls ++ [call]) = added chosen calls ++
      if chosen call then ((run calls).appended call).map (·.origin) else [] := by
  rw [added, addedFrom_append, addedFrom, addedFrom, List.append_nil]
  rfl

/-- A call keeps the roots in their places, and what it adds comes from its own line. -/
theorem attempt_roots {call : LinkCall tree} (hcall : Fresh passed call.declaration) :
    (links.attempt call).declarations.map (·.origin) =
        links.declarations.map (·.origin) ++ (links.appended call).map (·.origin) ∧
      ∀ o ∈ (links.appended call).map (·.origin), o.declared = call.declaration.origin := by
  obtain ⟨new, hnew, hown⟩ : ∃ new : List Origin,
      (links.attempt call).declarations.map (·.origin) =
        links.declarations.map (·.origin) ++ new ∧
      ∀ o ∈ new, o.declared = call.declaration.origin := by
    rcases attempt_roots_eq links call with hroots | ⟨-, -, hroots⟩
    · refine ⟨_, hroots, fun o ho => ?_⟩
      obtain ⟨entry, hentry, rfl⟩ := List.mem_map.mp ho
      obtain ⟨c, -, rfl⟩ := mem_impliedEntry hentry
      exact hcall.declared_impliedClass
    · refine ⟨_, hroots, fun o ho => ?_⟩
      rw [List.mem_singleton.mp ho]
      exact hcall.declared_eq (by simp)
  have hdrop : (links.appended call).map (·.origin) = new := by
    rw [appended, List.map_drop, hnew, List.drop_left' (by simp)]
  rw [hdrop]
  exact ⟨hnew, hown⟩

/-- Where origins tell the chosen calls from the others, they tell what those add. -/
theorem added_eq_filter {chosen : LinkCall tree → Bool} {mine : Origin → Bool}
    {calls : List (LinkCall tree)} (hfresh : AllFresh calls)
    (hmine : ∀ call ∈ calls, ∀ o, o.declared = call.declaration.origin → mine o = chosen call) :
    added chosen calls = ((run calls).declarations.map (·.origin)).filter mine := by
  induction calls using List.reverseRecOn with
  | nil => rfl
  | append_singleton calls call ih =>
    obtain ⟨hcalls, hcall⟩ := allFresh_append_singleton hfresh
    obtain ⟨hroots, hown⟩ := attempt_roots hcall
    have hnew : (((run calls).appended call).map (·.origin)).filter mine =
        if chosen call then ((run calls).appended call).map (·.origin) else [] := by
      have hsame : ∀ o ∈ ((run calls).appended call).map (·.origin), mine o = chosen call :=
        fun o ho => hmine call (by simp) o (hown o ho)
      cases hchosen : chosen call with
      | true => simpa [hchosen] using hsame
      | false => simpa [hchosen] using hsame
    rw [added_append_singleton, run_append_singleton, hroots, List.filter_append, hnew,
      ih hcalls fun other hother => hmine other (List.mem_append_left _ hother)]

/-! ## A part of the links -/

/-- Is the element with this number the given one, or below it? -/
def withinIndex (tree : SourceTree) (c : Element) (i : Nat) : Bool :=
  (tree.element? i).any (tree.isWithin c)

theorem withinIndex_index (hnumbered : tree.Numbered) (c : Element) {a : Element}
    (ha : a ∈ tree.elements) : withinIndex tree c a.index = tree.isWithin c a := by
  rw [withinIndex, hnumbered.element?_index ha, Option.any_some]

/-- The part has the declarations from some origins and the entries for the elements below `c`. No
entry leads from inside to outside or from outside to inside. -/
structure Projects (tree : SourceTree) (c : Element) (mine : Origin → Bool) (full part : Links) :
    Prop where
  declarations : part.declarations = full.declarations.filter (mine ·.origin)
  table : part.table = full.table.filter fun entry => withinIndex tree c entry.1
  apart : ∀ entry ∈ full.table,
    withinIndex tree c entry.1 = true ↔ entry.2 ∈ origins part.declarations

variable {c : Element} {mine : Origin → Bool} {full part : Links}

theorem projects_empty (tree : SourceTree) (c : Element) (mine : Origin → Bool) :
    Projects tree c mine {} {} where
  declarations := rfl
  table := rfl
  apart := by simp

theorem Projects.preorder_subset (h : Projects tree c mine full part) :
    preorderAll part.declarations ⊆ preorderAll full.declarations := by
  intro d hd
  obtain ⟨path, hpath⟩ := exists_reach hd
  cases path with
  | nil => simp [reach] at hpath
  | cons i path =>
    obtain ⟨root, hroot, hend⟩ := Option.bind_eq_some_iff.mp hpath
    have hmem := List.mem_of_getElem? hroot
    rw [h.declarations] at hmem
    have hfull := roots_subset _ (List.mem_of_mem_filter hmem)
    split at hend
    · cases hend
      exact hfull
    · exact preorderAll_parts_subset hfull (mem_of_reach hend)

theorem Projects.origins_subset (h : Projects tree c mine full part) :
    origins part.declarations ⊆ origins full.declarations :=
  List.map_subset _ h.preorder_subset

theorem lookup_filter_of_key {p : Nat → Bool} {i : Nat} (hi : p i = true)
    (table : List (Nat × Origin)) :
    (table.filter fun entry => p entry.1).lookup i = table.lookup i := by
  induction table with
  | nil => rfl
  | cons entry rest ih =>
    obtain ⟨j, o⟩ := entry
    by_cases hij : i = j
    · subst hij
      simp [hi]
    · cases hj : p j <;> simp [List.lookup_cons, hj, beq_false_of_ne hij, ih]

theorem Projects.owner?_eq (h : Projects tree c mine full part) {i : Nat}
    (hi : withinIndex tree c i = true) : part.owner? i = full.owner? i := by
  rw [owner?, owner?, h.table, ← List.filter_reverse, lookup_filter_of_key hi]

theorem Projects.declaration?_eq (h : Projects tree c mine full part)
    (hfull : Sound tree passed full) {others : List Declaration} (hpart : Sound tree others part)
    {p : Origin} (hp : p ∈ origins part.declarations) :
    part.declaration? p = full.declaration? p := by
  obtain ⟨d, hd, rfl⟩ := List.mem_map.mp hp
  rw [hpart.declaration?_of_mem hd, hfull.declaration?_of_mem (h.preorder_subset hd)]

/-! ## Steps on one side or on both -/

theorem filter_updateAll {f : Declaration → Declaration} {extra : List Declaration}
    (hf : Extends f extra) (p : Origin) (forest : List Declaration) :
    (updateAll p f forest).filter (mine ·.origin) =
      updateAll p f (forest.filter (mine ·.origin)) := by
  rw [updateAll_eq_map, updateAll_eq_map, List.filter_map]
  congr 1
  apply List.filter_congr
  intro d _
  rw [Function.comp_apply, origin_update hf]

theorem Projects.append_own (h : Projects tree c mine full part) (hfull : Sound tree passed full)
    {d : Declaration} (hnew : AreNew full passed [d]) (hmine : mine d.origin = true) :
    Projects tree c mine (full.append d) (part.append d) where
  declarations := by simp [append, h.declarations, hmine]
  table := h.table
  apart := by
    intro entry hentry
    have hold : entry.2 ∉ origins [d] := fun ho => hnew.absent _ ho (hfull.recorded entry hentry)
    rw [h.apart entry hentry, append, origins_append, List.mem_append, or_iff_left hold]

theorem Projects.append_other (h : Projects tree c mine full part) (d : Declaration)
    (hmine : mine d.origin = false) : Projects tree c mine (full.append d) part where
  declarations := by simp [append, h.declarations, hmine]
  table := h.table
  apart := h.apart

theorem Projects.record_own (h : Projects tree c mine full part) {i : Nat} {o : Origin}
    (hi : withinIndex tree c i = true) (ho : o ∈ origins part.declarations) :
    Projects tree c mine (full.record i o) (part.record i o) where
  declarations := h.declarations
  table := by simp [record, h.table, hi]
  apart := by
    intro entry hentry
    rcases List.mem_append.mp hentry with hentry | hentry
    · exact h.apart entry hentry
    · rw [List.mem_singleton.mp hentry]
      exact iff_of_true hi ho

theorem Projects.record_other (h : Projects tree c mine full part) {i : Nat} {o : Origin}
    (hi : withinIndex tree c i = false) (ho : o ∉ origins part.declarations) :
    Projects tree c mine (full.record i o) part where
  declarations := h.declarations
  table := by simp [record, h.table, hi]
  apart := by
    intro entry hentry
    rcases List.mem_append.mp hentry with hentry | hentry
    · exact h.apart entry hentry
    · rw [List.mem_singleton.mp hentry]
      exact iff_of_false (by simp [hi]) ho

theorem Projects.recordUnlessProgram_own (h : Projects tree c mine full part) {e : Element}
    {o : Origin} (he : withinIndex tree c e.index = true) (ho : o ∈ origins part.declarations) :
    Projects tree c mine (full.recordUnlessProgram e o) (part.recordUnlessProgram e o) := by
  unfold recordUnlessProgram
  split
  · exact h
  · exact h.record_own he ho

theorem Projects.recordUnlessProgram_other (h : Projects tree c mine full part) {e : Element}
    {o : Origin} (he : withinIndex tree c e.index = false) (ho : o ∉ origins part.declarations) :
    Projects tree c mine (full.recordUnlessProgram e o) part := by
  unfold recordUnlessProgram
  split
  · exact h
  · exact h.record_other he ho

theorem Projects.update_own (h : Projects tree c mine full part) (hfull : Sound tree passed full)
    {others : List Declaration} (hpart : Sound tree others part) {p : Origin}
    (hp : p ∈ origins part.declarations) {f : Declaration → Declaration}
    {extra : List Declaration} (hf : Extends f extra) (hnew : AreNew full passed extra) :
    Projects tree c mine (full.update p f) (part.update p f) where
  declarations := by
    rw [hfull.update_eq, hpart.update_eq, filter_updateAll hf, h.declarations]
  table := h.table
  apart := by
    intro entry hentry
    have hold : entry.2 ∉ origins extra := fun ho => hnew.absent _ ho (hfull.recorded entry hentry)
    rw [h.apart entry hentry, hpart.mem_update hp hf, or_iff_left hold]

theorem Projects.update_other (h : Projects tree c mine full part) (hfull : Sound tree passed full)
    {p : Origin} (hp : p ∉ origins part.declarations) {f : Declaration → Declaration}
    {extra : List Declaration} (hf : Extends f extra) :
    Projects tree c mine (full.update p f) part where
  declarations := by
    rw [hfull.update_eq, filter_updateAll hf, ← h.declarations, updateAll_of_notMem hp]
  table := h.table
  apart := h.apart

/-- What goes below a declaration of the part does so on both sides. -/
theorem Projects.placeBelow_own (h : Projects tree c mine full part)
    (hfull : Sound tree passed full) {others : List Declaration} (hpart : Sound tree others part)
    {p : Origin} (hp : p ∈ origins part.declarations) {d : Declaration}
    (hnew : AreNew full passed [d]) {e : Element} (he : withinIndex tree c e.index = true) :
    Projects tree c mine (full.placeBelow p d e) (part.placeBelow p d e) := by
  unfold placeBelow
  rw [h.declaration?_eq hfull hpart hp]
  split
  · rename_i parameters _
    have hf := extends_setConstructor parameters
    exact (h.update_own hfull hpart hp hf (areNew_nil _ _)).recordUnlessProgram_own he
      ((hpart.mem_update hp hf).mpr (Or.inl hp))
  · have hf := extends_addMember d
    exact (h.update_own hfull hpart hp hf hnew).recordUnlessProgram_own he
      ((hpart.mem_update hp hf).mpr (Or.inr (by simp)))

/-- What goes below a declaration outside the part does not change the part. -/
theorem Projects.placeBelow_other (h : Projects tree c mine full part)
    (hfull : Sound tree passed full) {p : Origin} (hp : p ∉ origins part.declarations)
    {d : Declaration} (hnew : AreNew full passed [d]) {e : Element}
    (he : withinIndex tree c e.index = false) :
    Projects tree c mine (full.placeBelow p d e) part := by
  have hd : d.origin ∉ origins part.declarations := fun ho =>
    hnew.absent d.origin (by simp) (h.origins_subset ho)
  unfold placeBelow
  split
  · exact (h.update_other hfull hp (extends_setConstructor _)).recordUnlessProgram_other he hp
  · exact (h.update_other hfull hp (extends_addMember d)).recordUnlessProgram_other he hd

/-! ## Calls -/

theorem Sound.owner?_of_program (h : Sound tree passed links) (hnumbered : tree.Numbered)
    {a : Element} (ha : a ∈ tree.elements) (hrole : a.role = .program) :
    links.owner? a.index = none := by
  rw [owner?_eq_none_iff]
  intro entry hentry hindex
  obtain ⟨e, he, heq, hne⟩ := h.located entry hentry
  have hfound := hnumbered.element?_index he
  rw [heq, hindex, hnumbered.element?_index ha] at hfound
  cases hfound
  exact hne hrole

theorem Projects.parent?_eq (h : Projects tree c mine full part) (hc : tree.IsStatement c)
    (hfull : Sound tree passed full) {others : List Declaration} (hpart : Sound tree others part)
    {e : Element} (he : e ∈ tree.elements) (hce : tree.isWithin c e = true) :
    part.parent? tree e = full.parent? tree e := by
  have hnumbered := hc.preordered.numbered
  have howner : ∀ a ∈ tree.ancestors e, part.owner? a.index = full.owner? a.index := by
    intro a ha
    have hmem := tree.ancestors_subset e ha
    rcases hc.around he hce ha with hrole | hca
    · rw [hfull.owner?_of_program hnumbered hmem hrole,
        hpart.owner?_of_program hnumbered hmem hrole]
    · exact h.owner?_eq (by rwa [withinIndex_index hnumbered c hmem])
  have hsome : ∀ around ⊆ tree.ancestors e,
      around.findSome? (fun a => part.owner? a.index) =
        around.findSome? fun a => full.owner? a.index := by
    intro around hsub
    induction around with
    | nil => rfl
    | cons a rest ih =>
      obtain ⟨ha, hrest⟩ := List.cons_subset.mp hsub
      rw [List.findSome?_cons, List.findSome?_cons, howner a ha, ih hrest]
  exact hsome _ (List.filter_subset_self _)

/-- A call for the statement makes the same step on both sides. -/
theorem Projects.own (h : Projects tree c mine full part) (hc : tree.IsStatement c)
    (hfull : Sound tree passed full) {others : List Declaration} (hpart : Sound tree others part)
    {call : LinkCall tree} (hfresh : Fresh passed call.declaration)
    (hfresh' : Fresh others call.declaration) (hcall : call.isBelow c = true)
    (hmine : ∀ o : Origin, o.declared = call.declaration.origin → mine o = true) :
    part.destination tree call.element = full.destination tree call.element ∧
      Projects tree c mine (full.attempt call) (part.attempt call) := by
  have hgoals : part.destination tree call.element = full.destination tree call.element := by
    unfold destination
    rw [h.parent?_eq hc hfull hpart call.element_mem hcall]
  have hnumbered := hc.preordered.numbered
  have hindex : withinIndex tree c call.element.index = true := by
    rw [withinIndex_index hnumbered c call.element_mem]
    exact hcall
  have hown : mine call.declaration.origin = true := hmine _ (hfresh.declared_eq (by simp))
  refine ⟨hgoals, ?_⟩
  rw [attempt_eq, attempt_eq, hgoals]
  split
  · rename_i goal hgoal
    rcases destination_cases hgoal with ⟨-, -, rfl⟩ | ⟨p, hp, rfl⟩ | ⟨a, name, hp, ha, hname, rfl⟩
    · have happend := (h.append_own (hfull.mono (by simp)) (hfresh.areNew hfull) hown)
      exact happend.recordUnlessProgram_own hindex (by simp [append])
    · -- The part finds the same declaration, so it has it.
      have hpartParent := hp
      rw [← h.parent?_eq hc hfull hpart call.element_mem hcall] at hpartParent
      obtain ⟨b, -, hb⟩ := owner?_of_parent? hpartParent
      exact h.placeBelow_own (hfull.mono (by simp)) hpart
        (hpart.recorded _ (mem_table_of_owner? hb)) (hfresh.areNew hfull) hindex
    · obtain ⟨haround, own, hrole⟩ := enclosingClass?_spec ha
      have hca : tree.isWithin c a = true :=
        (hc.around call.element_mem hcall haround).resolve_left (by simp [hrole])
      have hpartParent := hp
      rw [← h.parent?_eq hc hfull hpart call.element_mem hcall] at hpartParent
      obtain ⟨hready, -, hnew⟩ := hfull.prepared hfresh (.implied hp ha hname)
      obtain ⟨hready', hmem, -⟩ := hpart.prepared hfresh' (.implied hpartParent ha hname)
      have hprojects : Projects tree c mine
          (full.withImplied call.declaration.origin a { name, type := .classType none })
          (part.withImplied call.declaration.origin a { name, type := .classType none }) := by
        refine (h.append_own (hfull.mono (by simp)) (hfresh.areNew_implied hfull _)
          (hmine _ hfresh.declared_impliedClass)).record_own ?_ (by simp [append])
        rw [withinIndex_index hnumbered c (tree.ancestors_subset _ haround)]
        exact hca
      exact hprojects.placeBelow_own hready hready' hmem hnew hindex
  · exact h

/-- A call for another statement leaves the part alone. -/
theorem Projects.other (h : Projects tree c mine full part) (hc : tree.IsStatement c)
    (hfull : Sound tree passed full) {call : LinkCall tree}
    (hfresh : Fresh passed call.declaration) (hcall : call.isBelow c = false)
    (hmine : ∀ o : Origin, o.declared = call.declaration.origin → mine o = false) :
    Projects tree c mine (full.attempt call) part := by
  have hnumbered := hc.preordered.numbered
  have hindex : withinIndex tree c call.element.index = false := by
    rw [withinIndex_index hnumbered c call.element_mem]
    exact hcall
  have hown : mine call.declaration.origin = false := hmine _ (hfresh.declared_eq (by simp))
  -- Nothing around the element is below `c`, or the element would be.
  have haround : ∀ a ∈ tree.ancestors call.element, withinIndex tree c a.index = false := by
    intro a ha
    rw [withinIndex_index hnumbered c (tree.ancestors_subset _ ha)]
    cases hca : tree.isWithin c a with
    | false => rfl
    | true =>
      have hbelow := hc.preordered.within_of_ancestor call.element_mem ha hca
      rw [isBelow, hbelow] at hcall
      cases hcall
  have habsent : ∀ o : Origin, o.declared = call.declaration.origin →
      o ∉ origins part.declarations := by
    intro o ho hmem
    have hknown := hfull.known o (h.origins_subset hmem)
    rw [ho] at hknown
    exact hfresh.unpassed call.declaration.origin (by simp) hknown
  have hnot : call.declaration.origin ∉ origins part.declarations :=
    habsent _ (hfresh.declared_eq (by simp))
  rw [attempt_eq]
  split
  · rename_i goal hgoal
    rcases destination_cases hgoal with ⟨-, -, rfl⟩ | ⟨p, hp, rfl⟩ | ⟨a, name, hp, ha, hname, rfl⟩
    · exact (h.append_other _ hown).recordUnlessProgram_other hindex hnot
    · obtain ⟨b, hb, howner⟩ := owner?_of_parent? hp
      have hapart : p ∉ origins part.declarations := by
        rw [← h.apart _ (mem_table_of_owner? howner), haround b hb]
        simp
      exact h.placeBelow_other (hfull.mono (by simp)) hapart (hfresh.areNew hfull) hindex
    · obtain ⟨hmem, -⟩ := enclosingClass?_spec ha
      obtain ⟨hready, -, hnew⟩ := hfull.prepared hfresh (.implied hp ha hname)
      have himplied := habsent _ hfresh.declared_impliedClass
      have hprojects : Projects tree c mine
          (full.withImplied call.declaration.origin a { name, type := .classType none }) part :=
        (h.append_other ⟨_, _, none⟩ (hmine _ hfresh.declared_impliedClass)).record_other
          (haround a hmem) himplied
      exact hprojects.placeBelow_other hready himplied hnew hindex
  · exact h

/-! ## Runs -/

theorem allFresh_sublist {calls kept : List (LinkCall tree)} (hkept : kept.Sublist calls)
    (h : AllFresh calls) : AllFresh kept := by
  have hpassed : (LinkCall.passed kept).Sublist (LinkCall.passed calls) := hkept.map _
  have hsub : (origins (LinkCall.passed kept)).Sublist (origins (LinkCall.passed calls)) := by
    rw [origins_eq_flatMap, origins_eq_flatMap]
    exact hpassed.flatMap _
  refine ⟨h.nodup.sublist hsub, fun o ho => h.declared o (hsub.subset ho), ?_⟩
  rw [filled_iff_forall]
  intro d hd
  exact filled_iff_forall.mp h.filled d (hpassed.subset hd)

/-- Does the origin belong to what one of the chosen calls passes or makes up? -/
def isFrom (chosen : LinkCall tree → Bool) (calls : List (LinkCall tree)) (o : Origin) : Bool :=
  calls.any fun call => chosen call && call.declaration.origin == o.declared

/-- No two calls pass declarations from one line, so a line tells whether its call was chosen. -/
theorem isFrom_eq {chosen : LinkCall tree → Bool} {calls : List (LinkCall tree)}
    (hfresh : AllFresh calls) {call : LinkCall tree} (hcall : call ∈ calls) {o : Origin}
    (ho : o.declared = call.declaration.origin) : isFrom chosen calls o = chosen call := by
  cases hchosen : chosen call with
  | true => exact List.any_eq_true.mpr ⟨call, hcall, by simp [hchosen, ho]⟩
  | false =>
    rw [isFrom, List.any_eq_false]
    intro other hother
    rw [ho]
    intro hsame
    simp only [Bool.and_eq_true, beq_iff_eq] at hsame
    rw [call_eq_of_origin hfresh hother hcall hsame.2, hchosen] at hsame
    cases hsame.1

theorem projects_run (hc : tree.IsStatement c) {calls past rest : List (LinkCall tree)}
    (hfresh : AllFresh calls) (hcalls : calls = past ++ rest) :
    Projects tree c (isFrom (isBelow c) calls) (run past) (run (past.filter (isBelow c))) := by
  induction past using List.reverseRecOn generalizing rest with
  | nil => exact projects_empty tree c _
  | append_singleton past call ih =>
    have hsplit : calls = past ++ (call :: rest) := by simpa using hcalls
    have hprojects := ih hsplit
    have hlast : AllFresh (past ++ [call]) := allFresh_past ⟨rest, hcalls.symm⟩ hfresh
    obtain ⟨hpast, hcall⟩ := allFresh_append_singleton hlast
    have hmine : ∀ o : Origin, o.declared = call.declaration.origin →
        isFrom (isBelow c) calls o = call.isBelow c :=
      fun o ho => isFrom_eq hfresh (by simp [hcalls]) ho
    rw [run_append_singleton, List.filter_append]
    cases hbelow : call.isBelow c with
    | false =>
      rw [hbelow] at hmine
      simpa [hbelow] using hprojects.other hc (sound_run hpast) hcall hbelow hmine
    | true =>
      rw [hbelow] at hmine
      have hpart : AllFresh (past.filter (isBelow c) ++ [call]) :=
        allFresh_sublist ((List.filter_sublist).append (.refl _)) hlast
      obtain ⟨hpart, hcall'⟩ := allFresh_append_singleton hpart
      have hown := hprojects.own hc (sound_run hpast) (sound_run hpart) hcall hcall' hbelow hmine
      simpa [hbelow, run_append_singleton] using hown.2

/-- **Independence of statements.** Fresh calls come in any order for any elements of a program, and
`c` is a child of its root. The run of only those calls that are for elements below `c` gives just
the roots that these calls add in the run of all calls, each with all that is below it and in the
same order. Each of these calls fails in the one run just if it fails in the other, and with the
same failure. -/
theorem run_independent (program : Program) (hroot : program.root.hasType "Program" = true)
    {calls : List (LinkCall program.tree)} (hfresh : AllFresh calls) {c : Element}
    (hchild : c.parent = some 0) :
    (run (calls.filter (isBelow c))).declarations =
      (run calls).declarations.filter (fun d => d.origin ∈ added (isBelow c) calls) ∧
    ∀ past call rest, calls = past ++ call :: rest → call.isBelow c = true → ∀ failure,
      (run past).link program.tree call.declaration call.element = .error failure ↔
        (run (past.filter (isBelow c))).link program.tree call.declaration call.element =
          .error failure := by
  have hc := program.isStatement hroot hchild
  constructor
  · have hprojects := projects_run hc hfresh (List.append_nil calls).symm
    rw [hprojects.declarations]
    apply List.filter_congr
    intro d hd
    have hadded : added (isBelow c) calls =
        ((run calls).declarations.map (·.origin)).filter (isFrom (isBelow c) calls) :=
      added_eq_filter hfresh fun call hcall o ho => isFrom_eq hfresh hcall ho
    have hmem : d.origin ∈ (run calls).declarations.map (·.origin) := List.mem_map_of_mem hd
    simp [hadded, List.mem_filter, hmem]
  · intro past call rest hcalls hbelow failure
    have hlast : AllFresh (past ++ [call]) :=
      allFresh_past ⟨rest, by simp [hcalls]⟩ hfresh
    obtain ⟨hpast, hcall⟩ := allFresh_append_singleton hlast
    have hpart : AllFresh (past.filter (isBelow c) ++ [call]) :=
      allFresh_sublist ((List.filter_sublist).append (.refl _)) hlast
    obtain ⟨hpart, hcall'⟩ := allFresh_append_singleton hpart
    have hmine : ∀ o : Origin, o.declared = call.declaration.origin →
        isFrom (isBelow c) calls o = true := fun o ho => by
      rw [isFrom_eq hfresh (by simp [hcalls]) ho, hbelow]
    have hgoals := ((projects_run hc hfresh hcalls).own hc (sound_run hpast) (sound_run hpart) hcall
      hcall' hbelow hmine).1
    rw [link, link, hgoals]
    cases (run past).destination program.tree call.element <;> simp [Except.map]

/-- The class `A` of the two classes, which comes after one without a name. -/
def secondClass : Element :=
  twoClasses.tree.elements.get ⟨7, by decide +kernel⟩

theorem run_independent_mixedCalls :
    twoClasses.root.hasType "Program" = true ∧ AllFresh mixedCalls ∧
    secondClass.parent = some 0 ∧
    (mixedCalls.map fun call => (call.index.val, call.isBelow secondClass)) =
      [(3, false), (10, true), (13, true), (0, false)] ∧
    added (isBelow secondClass) mixedCalls = [{ block := 1, line := 0, implied := true }] ∧
    (run (mixedCalls.filter (isBelow secondClass))).declarations =
      (run mixedCalls).declarations.filter (fun d => d.origin ∈
        added (isBelow secondClass) mixedCalls) ∧
    ∀ failure, (run (mixedCalls.take 1)).link twoClasses.tree secondCall.declaration
        secondCall.element = .error failure ↔
      (run ((mixedCalls.take 1).filter (isBelow secondClass))).link twoClasses.tree
        secondCall.declaration secondCall.element = .error failure := by
  have hfresh : AllFresh mixedCalls := by decide +kernel
  have hroot : twoClasses.root.hasType "Program" = true := by decide +kernel
  have hchild : secondClass.parent = some 0 := by decide +kernel
  obtain ⟨hroots, hfailures⟩ := run_independent twoClasses hroot hfresh hchild
  exact ⟨hroot, hfresh, hchild, by decide +kernel, by decide +kernel, hroots,
    hfailures (mixedCalls.take 1) secondCall (mixedCalls.drop 2) rfl (by decide +kernel)⟩

end Links

end DocComments
