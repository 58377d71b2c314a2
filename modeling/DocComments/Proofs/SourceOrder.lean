import DocComments.Proofs.Blocks
import DocComments.Proofs.Extraction

/-!
# Source order

The position of a declaration is that of the line it comes from: the block, then the line in the
block. A class that is made up has the position of the line that brought it about. Members come from
two sides, from deeper lines of a block and from later calls, and yet they stay in the order of
their positions, since a call only adds at an end what comes after all that was there.

* `ordered_of_increasing`: a forest whose pre-order is increasing is ordered.
* `ordered_run`: calls in increasing order give an ordered forest.
* `implied_of_run`: a made up class comes in with the call that has its position.
* `extract_sourceOrder`: the declarations of a source are in source order.
-/

namespace DocComments

/-- The block and the line in it. -/
def Origin.position (o : Origin) : ℕ ×ₗ ℕ :=
  toLex (o.block, o.line)

theorem Origin.position_lt_iff {a b : Origin} :
    a.position < b.position ↔ a.block < b.block ∨ a.block = b.block ∧ a.line < b.line :=
  Prod.Lex.toLex_lt_toLex

namespace Declaration

/-! ## Ordered forests -/

/-- The positions of declarations side by side. -/
def positions (siblings : List Declaration) : List (ℕ ×ₗ ℕ) :=
  siblings.map (·.origin.position)

/-- Siblings stand in the order of their positions, and none comes before what it is a member of. -/
structure Ordered (forest : List Declaration) : Prop where
  roots : (positions forest).Pairwise (· < ·)
  members : ∀ d ∈ preorderAll forest, (positions d.parts).Pairwise (· < ·) ∧
    ∀ m ∈ d.parts, d.origin.position ≤ m.origin.position

theorem parts_sublist {forest : List Declaration} {d : Declaration} (h : d ∈ preorderAll forest) :
    (d.origin :: origins d.parts).Sublist (origins forest) := by
  induction forest using forest_induction with
  | nil => simp at h
  | tree root ih =>
    simp only [preorderAll_cons, preorderAll_nil, List.append_nil, List.mem_cons] at h
    simp only [origins_cons, origins_nil, List.append_nil]
    rcases h with rfl | h
    · exact List.Sublist.refl _
    · exact (ih h).cons _
  | cons root rest hroot hrest =>
    have hsplit : origins (root :: rest) = origins [root] ++ origins rest := by
      rw [← origins_append, List.singleton_append]
    rw [hsplit]
    rcases mem_preorderAll_cons.mp h with h | h
    · exact (hroot h).trans (List.sublist_append_left _ _)
    · exact (hrest h).trans (List.sublist_append_right _ _)

/-- In a forest whose pre-order is increasing, siblings are ordered and come after their parent. -/
theorem ordered_of_increasing {forest : List Declaration}
    (h : ((origins forest).map Origin.position).Pairwise (· < ·)) : Ordered forest := by
  have hroots : ∀ {siblings : List Declaration},
      ((origins siblings).map Origin.position).Pairwise (· < ·) →
        (positions siblings).Pairwise (· < ·) := by
    intro siblings hsiblings
    have hsub := (roots_sublist siblings).map Origin.position
    rw [List.map_map] at hsub
    exact hsiblings.sublist hsub
  refine ⟨hroots h, fun d hd => ?_⟩
  have hbelow := h.sublist ((parts_sublist hd).map Origin.position)
  rw [List.map_cons, List.pairwise_cons] at hbelow
  refine ⟨hroots hbelow.2, fun m hm => le_of_lt (hbelow.1 _ ?_)⟩
  exact List.mem_map_of_mem ((roots_sublist d.parts).subset (List.mem_map_of_mem hm))

theorem positions_append_increasing {siblings more : List Declaration} :
    (positions (siblings ++ more)).Pairwise (· < ·) ↔
      (positions siblings).Pairwise (· < ·) ∧ (positions more).Pairwise (· < ·) ∧
        ∀ x ∈ more, ∀ i ∈ positions siblings, i < x.origin.position := by
  rw [positions, List.map_append, List.pairwise_append]
  refine and_congr_right fun _ => and_congr_right fun _ => ⟨?_, ?_⟩
  · intro h x hx i hi
    exact h i hi _ (List.mem_map_of_mem hx)
  · intro h i hi j hj
    obtain ⟨x, hx, rfl⟩ := List.mem_map.mp hj
    exact h x hx i hi

theorem Ordered.append {forest more : List Declaration} (h : Ordered forest) (hmore : Ordered more)
    (hlater : ∀ x ∈ more, ∀ i ∈ positions forest, i < x.origin.position) :
    Ordered (forest ++ more) where
  roots := positions_append_increasing.mpr ⟨h.roots, hmore.roots, hlater⟩
  members := by
    intro d hd
    rcases List.mem_append.mp (preorderAll_append forest more ▸ hd) with hd | hd
    · exact h.members d hd
    · exact hmore.members d hd

theorem positions_updateAll {f : Declaration → Declaration} {extra : List Declaration}
    (hf : Extends f extra) (origin : Origin) (forest : List Declaration) :
    positions (updateAll origin f forest) = positions forest := by
  have horigins := congrArg (List.map Origin.position) (map_origin_updateAll hf origin forest)
  simpa [positions, Function.comp_def] using horigins

/-- A change that adds members keeps the order if they come after all members that are there. -/
theorem Ordered.updateAll {f : Declaration → Declaration} {extra : List Declaration}
    (hf : Extends f extra) {forest : List Declaration} (h : Ordered forest) (hextra : Ordered extra)
    {origin : Origin} (hlater : ∀ d ∈ preorderAll forest, d.origin = origin → ∀ x ∈ extra,
      d.origin.position ≤ x.origin.position ∧ ∀ i ∈ positions d.parts, i < x.origin.position) :
    Ordered (updateAll origin f forest) where
  roots := by
    rw [positions_updateAll hf]
    exact h.roots
  members := by
    intro d hd
    rcases mem_preorderAll_updateAll hf origin hd with ⟨old, hold, rfl⟩ | hd
    · obtain ⟨hsorted, hparent⟩ := h.members old hold
      have hmap := positions_updateAll hf origin old.parts
      have hkept : ∀ m ∈ Declaration.updateAll origin f old.parts,
          old.origin.position ≤ m.origin.position := by
        intro m hm
        have hmem : m.origin.position ∈ positions (Declaration.updateAll origin f old.parts) :=
          List.mem_map_of_mem hm
        rw [hmap] at hmem
        obtain ⟨m', hm', heq⟩ := List.mem_map.mp hmem
        exact heq ▸ hparent m' hm'
      rw [parts_update hf, origin_update hf, positions_append_increasing, hmap]
      by_cases horigin : old.origin = origin
      · rw [if_pos horigin]
        refine ⟨⟨hsorted, hextra.roots, fun x hx => (hlater old hold horigin x hx).2⟩, ?_⟩
        intro m hm
        rcases List.mem_append.mp hm with hm | hm
        · exact hkept m hm
        · exact (hlater old hold horigin m hm).1
      · rw [if_neg horigin]
        refine ⟨⟨hsorted, List.Pairwise.nil, by simp⟩, fun m hm => hkept m ?_⟩
        simpa using hm
    · exact hextra.members d hd

end Declaration

namespace Links

open Declaration LinkCall

variable {links : Links} {tree : SourceTree} {passed : List Declaration}

/-! ## Calls and runs -/

theorem position_mem_positions {siblings : List Declaration} {i : ℕ ×ₗ ℕ}
    (hi : i ∈ positions siblings) : ∃ o ∈ origins siblings, o.position = i := by
  obtain ⟨d, hd, rfl⟩ := List.mem_map.mp hi
  exact ⟨d.origin, (roots_sublist siblings).subset (List.mem_map_of_mem hd), rfl⟩

/-- A call keeps the forest ordered if it passes a declaration that comes after all of it. -/
theorem ordered_link (h : Sound tree passed links) {d : Declaration} (hd : Fresh passed d)
    {e : Element} {after : Links} (hafter : links.link tree d e = .ok after)
    (hordered : Ordered links.declarations) (hown : Ordered [d])
    (hlater : ∀ o ∈ origins links.declarations, o.position < d.origin.position) :
    Ordered after.declarations := by
  have hbefore : ∀ x ∈ preorderAll links.declarations,
      x.origin.position < d.origin.position ∧ ∀ i ∈ positions x.parts, i < d.origin.position := by
    intro x hx
    refine ⟨hlater _ (origin_mem_origins hx), fun i hi => ?_⟩
    obtain ⟨o, ho, rfl⟩ := position_mem_positions hi
    exact hlater o ((parts_sublist hx).subset (List.mem_cons_of_mem _ ho))
  have hroots : ∀ i ∈ positions links.declarations, i < d.origin.position := by
    intro i hi
    obtain ⟨o, ho, rfl⟩ := position_mem_positions hi
    exact hlater o ho
  -- A made up class has the position of the line that is linked, and no members.
  have hready : ∀ {ready p}, Prepared links tree d e ready p → Ordered ready.declarations ∧
      ∀ x ∈ preorderAll ready.declarations, x.origin.position ≤ d.origin.position ∧
        ∀ i ∈ positions x.parts, i < d.origin.position := by
    intro ready p hprepared
    cases hprepared with
    | found hparent => exact ⟨hordered, fun x hx => ⟨le_of_lt (hbefore x hx).1, (hbefore x hx).2⟩⟩
    | @implied c name hparent hclass hname =>
      have hsingle : Ordered [⟨d.origin.impliedClass, { name, type := .classType none }, none⟩] :=
        ordered_of_increasing (by simp [parts])
      refine ⟨hordered.append hsingle (fun x hx => ?_), fun x hx => ?_⟩
      · rw [List.mem_singleton.mp hx]
        exact hroots
      · rcases List.mem_append.mp (preorderAll_append _ _ ▸ hx) with hx | hx
        · exact ⟨le_of_lt (hbefore x hx).1, (hbefore x hx).2⟩
        · obtain rfl := List.mem_singleton.mp (by simpa [parts] using hx)
          exact ⟨le_refl _, by simp [positions, parts]⟩
  rcases link_declarations h hd hafter with ⟨-, heq⟩ |
    ⟨ready, p, hprepared, -, -, ⟨-, heq⟩ | ⟨parameters, owner, -, -, -, heq⟩⟩
  · rw [heq]
    exact hordered.append hown fun x hx => List.mem_singleton.mp hx ▸ hroots
  · obtain ⟨hsorted, hbound⟩ := hready hprepared
    rw [heq]
    exact hsorted.updateAll (extends_addMember d) hown fun x hx _ y hy =>
      List.mem_singleton.mp hy ▸ hbound x hx
  · rw [heq]
    exact (hready hprepared).1.updateAll (extends_setConstructor parameters)
      (ordered_of_increasing (by simp)) (by simp)

/-- Calls that pass declarations in increasing order give an ordered forest. -/
theorem ordered_run {calls : List (LinkCall tree)} (hfresh : AllFresh calls)
    (hincreasing : ((origins (LinkCall.passed calls)).map Origin.position).Pairwise (· < ·)) :
    Ordered (run calls).declarations := by
  induction calls using List.reverseRecOn with
  | nil => exact ordered_of_increasing (by simp [run])
  | append_singleton calls call ih =>
    obtain ⟨hcalls, hcall⟩ := allFresh_append_singleton hfresh
    rw [passed_append, origins_append, List.map_append, List.pairwise_append] at hincreasing
    obtain ⟨hbefore, hown, hacross⟩ := hincreasing
    have hsound := sound_run hcalls
    rw [run_append_singleton, attempt]
    split
    · rename_i after hafter
      refine ordered_link hsound hcall hafter (ih hcalls hbefore) (ordered_of_increasing hown) ?_
      intro o ho
      have hknown := hsound.known o ho
      exact hacross _ (List.mem_map_of_mem hknown) _ (List.mem_map_of_mem (by simp [LinkCall.passed]))
    · exact ih hcalls hbefore

/-- A made up class comes into the forest with the call whose position it has. -/
theorem implied_of_run {calls : List (LinkCall tree)} (hfresh : AllFresh calls) {o : Origin}
    (himplied : o.implied = true) (ho : o ∈ origins (run calls).declarations) :
    ∃ past call rest, calls = past ++ call :: rest ∧ o = call.declaration.origin.impliedClass ∧
      o ∉ origins (run past).declarations ∧ o ∈ origins (run (past ++ [call])).declarations := by
  induction calls using List.reverseRecOn with
  | nil => simp [run] at ho
  | append_singleton calls call ih =>
    obtain ⟨hcalls, hcall⟩ := allFresh_append_singleton hfresh
    by_cases hbefore : o ∈ origins (run calls).declarations
    · obtain ⟨past, first, rest, rfl, htrigger⟩ := ih hcalls hbefore
      exact ⟨past, first, rest ++ [call], by simp, htrigger⟩
    · refine ⟨calls, call, [], rfl, ?_, hbefore, ho⟩
      rw [run_append_singleton, attempt] at ho
      split at ho
      · rename_i after hafter
        rcases link_adds_only (sound_run hcalls) hcall hafter ho with ho | ho | ⟨-, ho⟩
        · exact absurd ho hbefore
        · exact ho
        · simp [hcall.declared o ho] at himplied
      · exact absurd ho hbefore

end Links

namespace SourceTree

open Declaration LinkCall Links

variable {tree : SourceTree}

/-! ## Extractions -/

theorem mapM_length {α β ε : Type} {f : α → Except ε β} {items : List α} {results : List β}
    (h : items.mapM f = .ok results) : results.length = items.length := by
  induction items generalizing results with
  | nil =>
    cases h
    rfl
  | cons item rest ih =>
    rw [List.mapM_cons] at h
    obtain ⟨first, -, h⟩ := except_bind_eq_ok.mp h
    obtain ⟨others, hothers, h⟩ := except_bind_eq_ok.mp h
    cases h
    rw [List.length_cons, List.length_cons, ih hothers]

/-- The line at a position is a head of its block, which documents the element. -/
def HeadAt (tree : SourceTree) (o : Origin) (element : Element) (head : DeclarationLine) : Prop :=
  ∃ block lines, tree.blocks[o.block]? = some block ∧ tree.element? block.element = some element ∧
    block.lines.mapM Line.classify = .ok lines ∧ (o.line, head) ∈ heads lines

theorem headAt_of_blockCalls {number : Nat} {block : Block}
    (hblock : tree.blocks[number]? = some block) (h : tree.ReadsBlock number block)
    {d : Declaration} (hd : d ∈ preorderAll (passed (tree.blockCalls number block))) :
    ∃ element head, tree.HeadAt d.origin element head ∧ element.heading head = .ok d.heading := by
  by_cases hlt : block.element < tree.elements.length
  · obtain ⟨lines, hlines, hfailure, hpassed⟩ := passed_of_readsBlock h hlt
    rw [hpassed] at hd
    obtain ⟨head, hhead, hnumber, hheading⟩ := Outline.block_head hfailure hd
    refine ⟨_, head, ⟨block, lines, ?_, List.getElem?_eq_getElem hlt, hlines, hhead⟩, hheading⟩
    rw [hnumber, hblock]
  · rw [blockCalls, dif_neg hlt] at hd
    simp [passed] at hd

theorem headAt_of_calls (hreads : ∀ p ∈ tree.blocks.zipIdx, tree.ReadsBlock p.2 p.1)
    {call : LinkCall tree} (hcall : call ∈ tree.calls) {d : Declaration}
    (hd : d ∈ preorderAll [call.declaration]) :
    ∃ element head, tree.HeadAt d.origin element head ∧ element.heading head = .ok d.heading := by
  obtain ⟨⟨block, number⟩, hp, hcall⟩ := List.mem_flatMap.mp hcall
  have hblock : tree.blocks[number]? = some block := List.mem_zipIdx_iff_getElem?.mp hp
  apply headAt_of_blockCalls hblock (hreads _ hp)
  obtain ⟨before, after, hsplit⟩ := List.append_of_mem (List.mem_map_of_mem hcall)
  rw [passed, hsplit, ← List.singleton_append, preorderAll_append, preorderAll_append]
  exact List.mem_append_right _ (List.mem_append_left _ hd)

/-- The calls of an extraction pass declarations in increasing order. -/
theorem calls_increasing (hreads : ∀ p ∈ tree.blocks.zipIdx, tree.ReadsBlock p.2 p.1) :
    ((origins (passed tree.calls)).map Origin.position).Pairwise (· < ·) := by
  rw [calls, origins_passed_flatMap, List.pairwise_map, List.pairwise_flatMap]
  constructor
  · intro p hp
    obtain ⟨⟨lines, hlines, horigins⟩, -⟩ := passed_blockCalls (hreads p hp)
    rw [horigins, List.pairwise_map]
    refine hlines.imp fun {i j} hlt => ?_
    exact Origin.position_lt_iff.mpr (Or.inr ⟨rfl, hlt⟩)
  · have hnumbers : tree.blocks.zipIdx.Pairwise fun p q => p.2 < q.2 := by
      rw [← List.pairwise_map (f := Prod.snd), List.zipIdx_map_snd]
      exact List.pairwise_lt_range'
    refine hnumbers.imp_of_mem fun {p q} hp hq hlt a ha b hb => ?_
    refine Origin.position_lt_iff.mpr (Or.inl ?_)
    rw [(block_of_mem_blockCalls (hreads p hp) ha).1, (block_of_mem_blockCalls (hreads q hq) hb).1]
    exact hlt

/-- A line that is a head stands in a comment. -/
theorem source?_of_headAt {o : Origin} {element : Element} {head : DeclarationLine}
    (h : tree.HeadAt o element head) : ∃ source, tree.source? o.block o.line = some source := by
  obtain ⟨block, lines, hblock, -, hlines, hhead⟩ := h
  have hline : o.line < block.lines.length := by
    rw [← mapM_length hlines]
    exact (List.getElem?_eq_some_iff.mp (getElem?_of_mem_heads hhead)).1
  obtain ⟨source, hsource, -⟩ := source?_of_line hblock (List.getElem?_eq_getElem hline)
  exact ⟨source, hsource⟩

/-- A declaration has the position of the head that it comes from and still says what that says. A
made up class has the position of the head whose call brought it into the forest. -/
def Positioned (tree : SourceTree) (d : Declaration) : Prop :=
  ∃ element head, tree.HeadAt d.origin element head ∧
    (d.origin.implied = false →
      ∃ heading, element.heading head = .ok heading ∧ heading.Agrees d.heading) ∧
    (d.origin.implied = true → ∃ past call rest, tree.calls = past ++ call :: rest ∧
      d.origin = call.declaration.origin.impliedClass ∧
      d.origin ∉ origins (run past).declarations ∧
      d.origin ∈ origins (run (past ++ [call])).declarations)

theorem positioned_of_extract (hreads : ∀ p ∈ tree.blocks.zipIdx, tree.ReadsBlock p.2 p.1)
    (hsucceed : ({} : Links).AllSucceed tree.calls) {d : Declaration}
    (hd : d ∈ preorderAll (run tree.calls).declarations) : tree.Positioned d := by
  have hfresh := calls_allFresh hreads
  have hsound := sound_run hfresh
  have hknown := hsound.known _ (origin_mem_origins hd)
  rw [origins_eq_flatMap, List.mem_flatMap] at hknown
  obtain ⟨_, hpassed, hknown⟩ := hknown
  obtain ⟨call, hcall, rfl⟩ := List.mem_map.mp hpassed
  obtain ⟨first, hfirst, horigin⟩ := List.mem_map.mp hknown
  obtain ⟨element, head, hhead, hheading⟩ := headAt_of_calls hreads hcall hfirst
  rw [horigin] at hhead
  refine ⟨element, head, hhead, fun hdeclared => ⟨first.heading, hheading, ?_⟩,
    fun himplied => implied_of_run hfresh himplied (origin_mem_origins hd)⟩
  have hsame : first.origin = d.origin := by
    rw [horigin, Origin.declared, ← hdeclared]
  obtain ⟨hgone, honce⟩ := run_occurrences hfresh hsucceed hcall hfirst
  have hkept : call.declaration.origin ∉ merged tree.calls := fun hmerged =>
    hgone hmerged (hsame ▸ origin_mem_origins hd)
  obtain ⟨later, hlater, hgrown⟩ := (honce hkept).grown
  obtain rfl : later = d :=
    List.inj_on_of_nodup_map hsound.nodup hlater hd (hgrown.origin.trans hsame)
  exact hgrown.heading

/-- The list of the roots of a forest and the lists of members in it. -/
def siblingLists (forest : List Declaration) : List (List Declaration) :=
  forest :: (preorderAll forest).map parts

/-- **Source order.** In the result of an extraction every declaration has the position of the line
that it comes from, or that brought it about. In every list of siblings the positions are strictly
increasing, and no declaration comes before the one that it is a member of. The comments that hold
the lines of siblings start in the same order. -/
theorem extract_sourceOrder (program : Program) {forest : List Declaration}
    (h : program.tree.extract.result = .ok forest) :
    (∀ d ∈ preorderAll forest, program.tree.Positioned d) ∧
    (∀ siblings ∈ siblingLists forest, (siblings.map (·.origin.position)).Pairwise (· < ·)) ∧
    (∀ d ∈ preorderAll forest, ∀ m ∈ d.parts, d.origin.position ≤ m.origin.position) ∧
    ∀ siblings ∈ siblingLists forest, siblings.Pairwise fun a b => ∃ s t,
      program.tree.source? a.origin.block a.origin.line = some s ∧
      program.tree.source? b.origin.block b.origin.line = some t ∧
      s.1.raw.span.start ≤ t.1.raw.span.start := by
  obtain ⟨rfl, hsucceed, hreads⟩ := extract_run h
  have hpositioned : ∀ d ∈ preorderAll (run program.tree.calls).declarations,
      program.tree.Positioned d := fun d hd => positioned_of_extract hreads hsucceed hd
  have hordered := ordered_run (calls_allFresh hreads) (calls_increasing hreads)
  have hsiblings : ∀ siblings ∈ siblingLists (run program.tree.calls).declarations,
      (positions siblings).Pairwise (· < ·) ∧
        siblings ⊆ preorderAll (run program.tree.calls).declarations := by
    intro siblings hmem
    rcases List.mem_cons.mp hmem with rfl | hmem
    · exact ⟨hordered.roots, roots_subset _⟩
    · obtain ⟨d, hd, rfl⟩ := List.mem_map.mp hmem
      exact ⟨(hordered.members d hd).1,
        fun m hm => preorderAll_parts_subset hd (roots_subset _ hm)⟩
  refine ⟨hpositioned, fun siblings hmem => (hsiblings siblings hmem).1,
    fun d hd => (hordered.members d hd).2, fun siblings hmem => ?_⟩
  obtain ⟨hincreasing, hsubset⟩ := hsiblings siblings hmem
  refine (List.pairwise_map.mp hincreasing).imp_of_mem fun {a b} ha hb hlt => ?_
  obtain ⟨_, _, hheadA, -⟩ := hpositioned a (hsubset ha)
  obtain ⟨_, _, hheadB, -⟩ := hpositioned b (hsubset hb)
  obtain ⟨s, hs⟩ := source?_of_headAt hheadA
  obtain ⟨t, ht⟩ := source?_of_headAt hheadB
  exact ⟨s, t, hs, ht, program.start_le_of_position hlt hs ht⟩

/-- A class that no comment declares, with a method that declares a member and with a later one. -/
def undeclaredClass : Program where
  root := .plain "Program" [("body", .many [
    .classOf "ClassDeclaration" (some "A") [
      .methodOf "run" [] [0, 20, 30], .methodOf "stop" [] [50]]])] []
  comments := [.onLine 0 1 " :: () → A", .onLine 20 2 "", .onLine 30 3 "   inner:: string",
    .onLine 50 5 " :: ()"]

theorem extract_sourceOrder_undeclaredClass :
    ∃ forest, undeclaredClass.tree.extract.result = .ok forest ∧
      (siblingLists forest).map (·.map fun d => (d.origin.block, d.origin.line)) =
        [[(0, 0)], [(0, 0), (1, 0)], [(0, 2)], [], []] ∧
      (∀ siblings ∈ siblingLists forest, (siblings.map (·.origin.position)).Pairwise (· < ·)) ∧
      ∀ d ∈ preorderAll forest, ∀ m ∈ d.parts, d.origin.position ≤ m.origin.position := by
  have hlists : undeclaredClass.tree.extract.result.toOption.map (fun forest =>
      (siblingLists forest).map (·.map fun d => (d.origin.block, d.origin.line))) =
        some [[(0, 0)], [(0, 0), (1, 0)], [(0, 2)], [], []] := by
    decide +kernel
  cases h : undeclaredClass.tree.extract.result with
  | error failure => simp [h, Except.toOption] at hlists
  | ok forest =>
    obtain ⟨-, hsiblings, hparents, -⟩ := extract_sourceOrder undeclaredClass h
    exact ⟨forest, rfl, by simpa [h, Except.toOption] using hlists, hsiblings, hparents⟩

end SourceTree

end DocComments
