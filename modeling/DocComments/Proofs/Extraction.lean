import DocComments.Proofs.Merging
import DocComments.Proofs.Outline
import Mathlib.Data.List.Sigma

/-!
# Extraction as a run of calls

An extraction that succeeds is one run of calls: each block is read as an outline, and each
declaration of the outline is linked to the element of the block (`extract_run`). The lines of the
blocks keep the calls fresh, so what holds of runs holds of extractions.

* `calls_allFresh`: no two declarations of the blocks have one origin.
* `extract_occurrences`: which of the declarations that the blocks hold are in the result.
-/

namespace DocComments

open Declaration LinkCall

open Links

namespace SourceTree

variable {tree : SourceTree}

/-- The calls that link what a block declares to the element of the block. -/
def blockCalls (tree : SourceTree) (number : Nat) (block : Block) : List (LinkCall tree) :=
  if h : block.element < tree.elements.length then
    match block.lines.mapM Line.classify with
    | .ok lines =>
      (Outline.block (tree.elements.get ⟨block.element, h⟩).heading number
        (.ofLines lines)).forest.map fun d => ⟨d, ⟨block.element, h⟩⟩
    | .error _ => []
  else []

/-- The calls of an extraction, block by block. -/
def calls (tree : SourceTree) : List (LinkCall tree) :=
  tree.blocks.zipIdx.flatMap fun p => tree.blockCalls p.2 p.1

/-- The lines of the block can be classified and are read without failure. -/
def ReadsBlock (tree : SourceTree) (number : Nat) (block : Block) : Prop :=
  ∀ element, tree.element? block.element = some element →
    ∃ lines, block.lines.mapM Line.classify = .ok lines ∧
      (Outline.block element.heading number (.ofLines lines)).failure = none

theorem linkNoting_result (tree : SourceTree) (element : Element) (links : Links)
    (d : Declaration) : (tree.linkNoting element links d).result = links.link tree d element := by
  unfold linkNoting link
  cases hgoal : links.destination tree element with
  | error failure => rfl
  | ok goal => cases goal <;> rfl

theorem linkAll_run {i : Fin tree.elements.length} {links after : Links}
    {declarations : List Declaration}
    (h : (tree.linkAll (tree.elements.get i) links declarations).result = .ok after) :
    after = (declarations.map (LinkCall.mk · i)).foldl attempt links ∧
      links.AllSucceed (declarations.map (LinkCall.mk · i)) := by
  induction declarations generalizing links with
  | nil =>
    cases h
    exact ⟨rfl, trivial⟩
  | cons d rest ih =>
    obtain ⟨middle, hmiddle, h⟩ := Traced.result_bind_eq_ok.mp h
    rw [linkNoting_result] at hmiddle
    have hattempt : links.attempt (LinkCall.mk d i) = middle := attempt_of_ok hmiddle
    obtain ⟨hafter, hsucceed⟩ := ih h
    rw [List.map_cons, List.foldl_cons, hattempt]
    exact ⟨hafter, ⟨middle, hmiddle⟩, hattempt ▸ hsucceed⟩

theorem blockCalls_of_lines {number : Nat} {block : Block}
    (hlt : block.element < tree.elements.length) {lines : List Line}
    (hlines : block.lines.mapM Line.classify = .ok lines) :
    tree.blockCalls number block =
      (Outline.block (tree.elements.get ⟨block.element, hlt⟩).heading number
        (.ofLines lines)).forest.map (LinkCall.mk · ⟨block.element, hlt⟩) := by
  rw [blockCalls, dif_pos hlt, hlines]

theorem extractBlock_run {number : Nat} {block : Block} {links after : Links}
    (h : (tree.extractBlock number block links).result = .ok after) :
    after = (tree.blockCalls number block).foldl attempt links ∧
      links.AllSucceed (tree.blockCalls number block) ∧ tree.ReadsBlock number block := by
  unfold extractBlock at h
  split at h
  · rename_i hnone
    have hlt : ¬ block.element < tree.elements.length := by
      simpa [element?] using hnone
    cases h
    rw [blockCalls, dif_neg hlt]
    exact ⟨rfl, trivial, fun element helement => by simp [hnone] at helement⟩
  · rename_i element hsome
    obtain ⟨lines, hlines, h⟩ := Traced.result_bind_eq_ok.mp h
    obtain ⟨linked, hlinked, h⟩ := Traced.result_bind_eq_ok.mp h
    obtain ⟨hlt, helement⟩ := List.getElem?_eq_some_iff.mp hsome
    split at h
    · cases h
    · rename_i hfailure
      have hafter : after = linked := by
        dsimp only at h
        split at h
        · cases h
          rfl
        · cases h
          rfl
      subst helement hafter
      rw [blockCalls_of_lines hlt hlines]
      obtain ⟨hrun, hsucceed⟩ := linkAll_run hlinked
      refine ⟨hrun, hsucceed, fun element helement => ⟨lines, hlines, ?_⟩⟩
      rw [hsome] at helement
      cases helement
      exact hfailure

theorem extractBlocks_run {blocks : List (Block × Nat)} {links after : Links}
    (h : (tree.extractBlocks links blocks).result = .ok after) :
    after = (blocks.flatMap fun p => tree.blockCalls p.2 p.1).foldl attempt links ∧
      links.AllSucceed (blocks.flatMap fun p => tree.blockCalls p.2 p.1) ∧
      ∀ p ∈ blocks, tree.ReadsBlock p.2 p.1 := by
  induction blocks generalizing links with
  | nil =>
    cases h
    exact ⟨rfl, trivial, by simp⟩
  | cons p rest ih =>
    obtain ⟨block, number⟩ := p
    obtain ⟨middle, hmiddle, h⟩ := Traced.result_bind_eq_ok.mp h
    obtain ⟨rfl, hsucceed, hreads⟩ := extractBlock_run hmiddle
    obtain ⟨rfl, hothers, hreadsOthers⟩ := ih h
    rw [List.flatMap_cons, List.foldl_append, allSucceed_append]
    refine ⟨rfl, ⟨hsucceed, hothers⟩, ?_⟩
    intro p hp
    rcases List.mem_cons.mp hp with rfl | hp
    · exact hreads
    · exact hreadsOthers p hp

/-- An extraction that succeeds is the run of its calls. -/
theorem extract_run {forest : List Declaration} (h : tree.extract.result = .ok forest) :
    forest = (run tree.calls).declarations ∧ ({} : Links).AllSucceed tree.calls ∧
      ∀ p ∈ tree.blocks.zipIdx, tree.ReadsBlock p.2 p.1 := by
  obtain ⟨_, -, h⟩ := Traced.result_bind_eq_ok.mp h
  obtain ⟨after, hafter, h⟩ := Traced.result_bind_eq_ok.mp h
  obtain ⟨rfl, hsucceed, hreads⟩ := extractBlocks_run hafter
  cases h
  exact ⟨rfl, hsucceed, hreads⟩

/-! ## Origins of the blocks -/

theorem passed_of_readsBlock {number : Nat} {block : Block} (h : tree.ReadsBlock number block)
    (hlt : block.element < tree.elements.length) :
    ∃ lines, block.lines.mapM Line.classify = .ok lines ∧
      (Outline.block (tree.elements.get ⟨block.element, hlt⟩).heading number
        (.ofLines lines)).failure = none ∧
      passed (tree.blockCalls number block) =
        (Outline.block (tree.elements.get ⟨block.element, hlt⟩).heading number
          (.ofLines lines)).forest := by
  obtain ⟨lines, hlines, hfailure⟩ := h _ (List.getElem?_eq_getElem hlt)
  refine ⟨lines, hlines, hfailure, ?_⟩
  rw [blockCalls_of_lines hlt hlines, passed, List.map_map]
  exact List.map_id _

theorem passed_blockCalls {number : Nat} {block : Block} (h : tree.ReadsBlock number block) :
    (∃ positions : List Nat, positions.Pairwise (· < ·) ∧
      origins (passed (tree.blockCalls number block)) =
        positions.map fun i => { block := number, line := i }) ∧
    Filled (passed (tree.blockCalls number block)) := by
  by_cases hlt : block.element < tree.elements.length
  · obtain ⟨lines, -, hfailure, hpassed⟩ := passed_of_readsBlock h hlt
    rw [hpassed]
    exact Outline.block_origins hfailure
  · rw [blockCalls, dif_neg hlt]
    exact ⟨⟨[], List.Pairwise.nil, rfl⟩, by simp [passed, Filled]⟩

theorem origins_passed_flatMap {α : Type} (items : List α) (f : α → List (LinkCall tree)) :
    origins (passed (items.flatMap f)) = items.flatMap fun item => origins (passed (f item)) := by
  induction items with
  | nil => rfl
  | cons item rest ih => simp [List.flatMap_cons, ih]

theorem block_of_mem_blockCalls {number : Nat} {block : Block} (h : tree.ReadsBlock number block)
    {o : Origin} (ho : o ∈ origins (passed (tree.blockCalls number block))) :
    o.block = number ∧ o.implied = false := by
  obtain ⟨⟨positions, -, horigins⟩, -⟩ := passed_blockCalls h
  rw [horigins] at ho
  obtain ⟨i, -, rfl⟩ := List.mem_map.mp ho
  exact ⟨rfl, rfl⟩

/-- No two declarations of the blocks have one origin: blocks differ in number, and lines of a block
in where they stand. -/
theorem calls_allFresh (h : ∀ p ∈ tree.blocks.zipIdx, tree.ReadsBlock p.2 p.1) :
    AllFresh tree.calls where
  nodup := by
    rw [calls, origins_passed_flatMap, List.nodup_flatMap]
    constructor
    · intro p hp
      obtain ⟨⟨positions, hpositions, horigins⟩, -⟩ := passed_blockCalls (h p hp)
      rw [horigins]
      exact List.Nodup.map (fun i j hij => congrArg Origin.line hij)
        (hpositions.imp Nat.ne_of_lt)
    · have hnumbers : tree.blocks.zipIdx.Pairwise fun p q => p.2 ≠ q.2 :=
        List.pairwise_map.mp (List.nodup_zipIdx_map_snd _)
      refine hnumbers.imp_of_mem fun {p q} hp hq hne o hop hoq => hne ?_
      rw [← (block_of_mem_blockCalls (h p hp) hop).1, (block_of_mem_blockCalls (h q hq) hoq).1]
  declared := by
    intro o ho
    rw [calls, origins_passed_flatMap] at ho
    obtain ⟨p, hp, ho⟩ := List.mem_flatMap.mp ho
    exact (block_of_mem_blockCalls (h p hp) ho).2
  filled := by
    rw [filled_iff_forall]
    intro d hd
    obtain ⟨call, hcall, rfl⟩ := List.mem_map.mp hd
    obtain ⟨p, hp, hcall⟩ := List.mem_flatMap.mp hcall
    exact filled_iff_forall.mp (passed_blockCalls (h p hp)).2 _ (List.mem_map_of_mem hcall)

/-! ## What the forest holds of the blocks -/

/-- The forest holds each declaration of the blocks exactly once. Only a declaration that is merged
as a constructor may be missing, but what is below it may not. -/
def KeepsBlocks (tree : SourceTree) (forest : List Declaration) : Prop :=
  ∀ call ∈ tree.calls,
    (call.declaration.origin ∉ merged tree.calls → OccursOnce call.declaration forest) ∧
    ∀ d ∈ preorderAll call.declaration.parts, OccursOnce d forest

/-- **What the forest holds of the blocks.** An extraction that succeeds has read every block. A
declaration of a block stands in the forest exactly once with all that is below it, unless it is
merged as a constructor: then nothing of it does. So the blocks are kept if and only if no
constructor that is merged has members. -/
theorem extract_occurrences {tree : SourceTree} {forest : List Declaration}
    (h : tree.extract.result = .ok forest) :
    (∀ p ∈ tree.blocks.zipIdx, tree.ReadsBlock p.2 p.1) ∧
    (∀ call ∈ tree.calls, ∀ d ∈ preorderAll [call.declaration],
      (call.declaration.origin ∈ merged tree.calls → d.origin ∉ origins forest) ∧
      (call.declaration.origin ∉ merged tree.calls → OccursOnce d forest)) ∧
    (tree.KeepsBlocks forest ↔
      ∀ call ∈ tree.calls, call.declaration.origin ∈ merged tree.calls →
        call.declaration.parts = []) := by
  obtain ⟨rfl, hsucceed, hreads⟩ := extract_run h
  have hoccur : ∀ call ∈ tree.calls, ∀ d ∈ preorderAll [call.declaration],
      (call.declaration.origin ∈ merged tree.calls →
        d.origin ∉ origins (run tree.calls).declarations) ∧
      (call.declaration.origin ∉ merged tree.calls →
        OccursOnce d (run tree.calls).declarations) :=
    fun call hcall d hd => run_occurrences (calls_allFresh hreads) hsucceed hcall hd
  refine ⟨hreads, hoccur, ?_, ?_⟩
  · intro hkeeps call hcall hmerged
    cases hparts : call.declaration.parts with
    | nil => rfl
    | cons member rest =>
      have hmember : member ∈ preorderAll call.declaration.parts := by simp [hparts]
      have honce := (hkeeps call hcall).2 member hmember
      have hgone := (hoccur call hcall member (by simp [hmember])).1 hmerged
      exact absurd honce.mem_origins hgone
  · intro hbare call hcall
    refine ⟨(hoccur call hcall call.declaration (by simp)).2, fun d hd => ?_⟩
    by_cases hmerged : call.declaration.origin ∈ merged tree.calls
    · simp [hbare call hcall hmerged] at hd
    · exact (hoccur call hcall d (by simp [hd])).2 hmerged

/-- A class with a documented constructor, and a function that declares two members. -/
def documented : SourceTree :=
  Program.tree {
    root := .plain "Program" [("body", .many [
      .classOf "ClassDeclaration" (some "A") [.methodOf "constructor" [] [0]],
      .plain "FunctionDeclaration" [("id", .one (.named "make")), ("params", .many [])]
        [20, 30, 40, 60, 70]])] []
    comments := [.onLine 0 1 " :: (x: number)", .onLine 20 5 " :: () → A", .onLine 30 6 "",
      .onLine 40 7 "   first:: string", .onLine 60 8 "", .onLine 70 9 "   last:: string"] }

theorem extract_occurrences_documented :
    ∃ forest, documented.extract.result = .ok forest ∧
      merged documented.calls = [{ block := 0, line := 0 }] ∧ documented.KeepsBlocks forest := by
  have hok : documented.extract.result.isOk = true := by decide +kernel
  have hmerged : merged documented.calls = [{ block := 0, line := 0 }] := by decide +kernel
  have hbare : documented.calls.all (fun call =>
      call.declaration.origin.block != 0 || call.declaration.parts.isEmpty) = true := by
    decide +kernel
  cases h : documented.extract.result with
  | error failure => simp [h, Except.isOk, Except.toBool] at hok
  | ok forest =>
    refine ⟨forest, rfl, hmerged, (extract_occurrences h).2.2.mpr fun call hcall hmem => ?_⟩
    have horigin := List.all_eq_true.mp hbare call hcall
    rw [hmerged, List.mem_singleton] at hmem
    simpa [hmem] using horigin

/-- A class whose constructor declares a member. -/
def constructorWithMember : SourceTree :=
  Program.tree {
    root := .plain "Program" [("body", .many [
      .classOf "ClassDeclaration" (some "A") [.methodOf "constructor" [] [0, 20, 30]]])] []
    comments := [.onLine 0 2 " :: (x: number)", .onLine 20 3 "",
      .onLine 30 4 "   nested:: string"] }

theorem constructorWithMember_loses_member :
    ∃ forest, constructorWithMember.extract.result = .ok forest ∧
      (∃ call ∈ constructorWithMember.calls, ∃ d ∈ preorderAll call.declaration.parts,
        (origins forest).count d.origin = 0) ∧
      ¬ constructorWithMember.KeepsBlocks forest := by
  have hforest : constructorWithMember.extract.result.toOption.map origins =
      some [{ block := 0, line := 0, implied := true }] := by decide +kernel
  have hmember : ({ block := 0, line := 2 } : Origin) ∈
      constructorWithMember.calls.flatMap fun call => origins call.declaration.parts := by
    decide +kernel
  obtain ⟨call, hcall, ho⟩ := List.mem_flatMap.mp hmember
  obtain ⟨d, hd, horigin⟩ := List.mem_map.mp ho
  cases h : constructorWithMember.extract.result with
  | error failure => simp [h, Except.toOption] at hforest
  | ok forest =>
    have horigins : origins forest = [{ block := 0, line := 0, implied := true }] := by
      simpa [h, Except.toOption] using hforest
    have hgone : (origins forest).count d.origin = 0 := by
      rw [horigins, horigin]
      decide
    refine ⟨forest, rfl, ⟨call, hcall, d, hd, hgone⟩, fun hkeeps => ?_⟩
    have honce := ((hkeeps call hcall).2 d hd).count
    omega

end SourceTree

end DocComments
