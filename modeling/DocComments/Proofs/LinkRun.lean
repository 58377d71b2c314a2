import DocComments.Proofs.Linking
import Mathlib.Data.List.Induction

/-!
# Runs of calls

Calls come one after the other, each with a declaration that was not passed before. A call that
fails changes nothing. Whatever the calls are, what one call keeps holds after all of them.

* `sound_run`: after fresh calls the links are sound.
* `run_keeps_forest`: the forest stays a forest, the table leads into it and never starts at the
  program, and no declaration gets an empty list of members.
-/

namespace DocComments

open Declaration

/-- A call that links a declaration to the element of the tree with a number. -/
structure LinkCall (tree : SourceTree) where
  declaration : Declaration
  index : Fin tree.elements.length

namespace LinkCall

variable {tree : SourceTree}

/-- The element that a call is for. -/
def element (call : LinkCall tree) : Element :=
  tree.elements.get call.index

theorem element_mem (call : LinkCall tree) : call.element ∈ tree.elements :=
  List.get_mem _ _

/-- The declarations that calls pass. -/
def passed (calls : List (LinkCall tree)) : List Declaration :=
  calls.map (·.declaration)

@[simp] theorem passed_append (calls more : List (LinkCall tree)) :
    passed (calls ++ more) = passed calls ++ passed more :=
  List.map_append

/-- The calls pass declarations that come from lines, no two of them and of their members from one
line, and without empty lists of members. -/
structure AllFresh (calls : List (LinkCall tree)) : Prop where
  nodup : (origins (passed calls)).Nodup
  declared : ∀ o ∈ origins (passed calls), o.implied = false
  filled : Filled (passed calls)

instance (calls : List (LinkCall tree)) : Decidable (AllFresh calls) :=
  decidable_of_iff ((origins (passed calls)).Nodup ∧
      (∀ o ∈ origins (passed calls), o.implied = false) ∧ Filled (passed calls))
    ⟨fun ⟨hnodup, hdeclared, hfilled⟩ => ⟨hnodup, hdeclared, hfilled⟩,
      fun ⟨hnodup, hdeclared, hfilled⟩ => ⟨hnodup, hdeclared, hfilled⟩⟩

end LinkCall

namespace Links

open LinkCall

variable {tree : SourceTree}

/-- The links after a call, which are the same as before if it fails. -/
def attempt (links : Links) (call : LinkCall tree) : Links :=
  match links.link tree call.declaration call.element with
  | .ok after => after
  | .error _ => links

/-- The links after calls on links that are empty at first. -/
def run (calls : List (LinkCall tree)) : Links :=
  calls.foldl attempt {}

theorem run_append_singleton (calls : List (LinkCall tree)) (call : LinkCall tree) :
    run (calls ++ [call]) = (run calls).attempt call := by
  simp [run]

/-- The last of fresh calls is fresh for those before it, which are fresh as well. -/
theorem allFresh_append_singleton {calls : List (LinkCall tree)} {call : LinkCall tree}
    (h : AllFresh (calls ++ [call])) : AllFresh calls ∧ Fresh (passed calls) call.declaration := by
  have hpassed : passed (calls ++ [call]) = passed calls ++ [call.declaration] :=
    passed_append calls [call]
  obtain ⟨hnodup, hdeclared, hfilled⟩ := h
  rw [hpassed] at hnodup hdeclared hfilled
  rw [origins_append] at hnodup hdeclared
  obtain ⟨hcalls, hcall, hdisjoint⟩ := List.nodup_append.mp hnodup
  obtain ⟨hfilledCalls, hfilledCall⟩ := filled_append.mp hfilled
  exact ⟨⟨hcalls, fun o ho => hdeclared o (List.mem_append_left _ ho), hfilledCalls⟩,
    ⟨hcall, fun o ho hmem => hdisjoint o hmem o ho rfl,
      fun o ho => hdeclared o (List.mem_append_right _ ho), hfilledCall⟩⟩

theorem allFresh_past {past calls : List (LinkCall tree)} (hpast : past <+: calls)
    (h : AllFresh calls) : AllFresh past := by
  obtain ⟨rest, rfl⟩ := hpast
  induction rest using List.reverseRecOn with
  | nil => simpa using h
  | append_singleton rest call ih =>
    exact ih (allFresh_append_singleton (by simpa using h)).1

theorem not_implied_of_mem {calls : List (LinkCall tree)} (h : AllFresh calls)
    {call : LinkCall tree} (hcall : call ∈ calls) : call.declaration.origin.implied = false :=
  h.declared _ (origin_mem_origins (roots_subset _ (List.mem_map_of_mem hcall)))

/-- No two fresh calls pass declarations from one line. -/
theorem call_eq_of_origin {calls : List (LinkCall tree)} (h : AllFresh calls)
    {call other : LinkCall tree} (hcall : call ∈ calls) (hother : other ∈ calls)
    (horigin : call.declaration.origin = other.declaration.origin) : call = other := by
  have hnodup : (calls.map (·.declaration.origin)).Nodup := by
    have hroots := h.nodup.sublist (roots_sublist _)
    rwa [LinkCall.passed, List.map_map] at hroots
  exact List.inj_on_of_nodup_map hnodup hcall hother horigin

theorem Sound.attempt {links : Links} {before : List Declaration} (h : Sound tree before links)
    {call : LinkCall tree} (hfresh : Fresh before call.declaration) :
    Sound tree (before ++ [call.declaration]) (links.attempt call) := by
  unfold Links.attempt
  split
  · rename_i after hafter
    exact sound_link h hfresh call.element_mem hafter
  · exact h.mono (by simp)

theorem sound_run {calls : List (LinkCall tree)} (h : AllFresh calls) :
    Sound tree (passed calls) (run calls) := by
  induction calls using List.reverseRecOn with
  | nil => exact sound_empty tree
  | append_singleton calls call ih =>
    obtain ⟨hcalls, hcall⟩ := allFresh_append_singleton h
    rw [run_append_singleton, passed_append]
    exact (ih hcalls).attempt hcall

/-- **The forest of a run.** After any first part of fresh calls, failed ones included: no two
paths lead to declarations from one origin, so nothing stands in the forest twice, below two
parents or below itself; the table leads only to declarations that a path leads to; it has no
entry for the program; and no declaration that a path leads to has an empty list of members. -/
theorem run_keeps_forest (program : Program) (calls : List (LinkCall program.tree))
    (hfresh : AllFresh calls) {past : List (LinkCall program.tree)} (hpast : past <+: calls) :
    (∀ p q d e, reach (run past).declarations p = some d →
      reach (run past).declarations q = some e → d.origin = e.origin → p = q) ∧
    (∀ entry ∈ (run past).table, ∃ path d,
      reach (run past).declarations path = some d ∧ d.origin = entry.2) ∧
    (∀ entry ∈ (run past).table, ∀ e, program.tree.element? entry.1 = some e →
      e.role ≠ .program) ∧
    ∀ path d, reach (run past).declarations path = some d → d.members ≠ some [] := by
  have hsound := sound_run (allFresh_past hpast hfresh)
  refine ⟨fun p q d e => path_unique hsound.nodup, ?_, ?_, ?_⟩
  · intro entry hentry
    obtain ⟨d, hd, horigin⟩ := List.mem_map.mp (hsound.recorded entry hentry)
    obtain ⟨path, hpath⟩ := exists_reach hd
    exact ⟨path, d, hpath, horigin⟩
  · intro entry hentry e he
    obtain ⟨located, hlocated, hindex, hrole⟩ := hsound.located entry hentry
    have hfound := program.tree_numbered.element?_index hlocated
    rw [hindex, he] at hfound
    cases hfound
    exact hrole
  · intro path d hpath
    exact hsound.filled d (mem_of_reach hpath)

/-- A class without a name that has a method, and a class with a constructor. -/
def twoClasses : Program where
  root := .plain "Program" [("body", .many [
    .classOf "ClassDeclaration" none [.methodOf "run" [] []],
    .classOf "ClassDeclaration" (some "A") [.methodOf "constructor" [] []]])] []
  comments := []

/-- Calls for the method, the constructor, what the constructor contains, and the program. The first
one fails, since the class has no name; the second one makes up a class and is merged into it. -/
def mixedCalls : List (LinkCall twoClasses.tree) :=
  let field : Declaration := ⟨{ block := 1, line := 2 }, { name := "x", type := .anyType }, none⟩
  [⟨⟨{ block := 0, line := 0 }, { name := "run", type := .anyType }, none⟩, ⟨3, by decide +kernel⟩⟩,
    ⟨⟨{ block := 1, line := 0 }, { name := "constructor", type := .function [] none },
      some [field]⟩, ⟨10, by decide +kernel⟩⟩,
    ⟨⟨{ block := 2, line := 0 }, { name := "y", type := .anyType }, none⟩, ⟨13, by decide +kernel⟩⟩,
    ⟨⟨{ block := 3, line := 0 }, { name := "z", type := .anyType }, none⟩, ⟨0, by decide +kernel⟩⟩]

theorem run_keeps_forest_mixedCalls :
    AllFresh mixedCalls ∧ (run (mixedCalls.take 1)).table = [] ∧
    origins (run mixedCalls).declarations = [{ block := 1, line := 0, implied := true },
      { block := 2, line := 0 }, { block := 3, line := 0 }] ∧
    (run mixedCalls).table.map (·.1) = [7, 10, 13] ∧
    ∀ entry ∈ (run mixedCalls).table, ∃ path d,
      reach (run mixedCalls).declarations path = some d ∧ d.origin = entry.2 := by
  have hfresh : AllFresh mixedCalls := by decide +kernel
  exact ⟨hfresh, by decide +kernel, by decide +kernel, by decide +kernel,
    (run_keeps_forest twoClasses mixedCalls hfresh List.prefix_rfl).2.1⟩

end Links

end DocComments
