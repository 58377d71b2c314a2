import DocComments.Proofs.Blocks
import Mathlib.Data.List.Forall2

/-!
# Gathering comments

The comments of a program are put in order and cut twice: into runs that belong to one element in
one way, and the lines of a run into blocks without a line missing. Nothing is lost or moved by
this, and neither runs nor blocks could be longer.

* `sortByStart_stable`: items that start together keep their order.
* `SourceTree.runs_cut`: the runs are the longest rows of comments that belong together.
* `SourceTree.blocks_cut`: the blocks are the longest rows of lines of a run without a gap.
* `Program.comments_gathered`: the comments of a program, from the source to the blocks.
-/

namespace DocComments

/-! ## Order -/

/-- The second list is the first one by where the items start, and those that start together are
in the same order. -/
structure StablySorted {α : Type} (start : α → Nat) (items result : List α) : Prop where
  sorted : result.Pairwise fun a b => start a ≤ start b
  stable : ∀ offset,
    (result.filter fun a => start a = offset) = items.filter fun a => start a = offset

theorem insertByStart_filter {α : Type} (start : α → Nat) (x : α) (items : List α) (offset : Nat) :
    ((insertByStart start x items).filter fun a => start a = offset) =
      (x :: items).filter fun a => start a = offset := by
  induction items with
  | nil => rfl
  | cons y rest ih =>
    unfold insertByStart
    split
    · rfl
    · rename_i hlt
      -- What `x` is put behind starts earlier, so it is not among those that start with `x`.
      by_cases hx : start x = offset
      · have hy : start y ≠ offset := by omega
        simp [ih, hx, hy]
      · simp [List.filter_cons, ih, hx]

theorem sortByStart_filter {α : Type} (start : α → Nat) (items : List α) (offset : Nat) :
    ((sortByStart start items).filter fun a => start a = offset) =
      items.filter fun a => start a = offset := by
  induction items with
  | nil => rfl
  | cons x rest ih =>
    have hstep := insertByStart_filter start x (sortByStart start rest) offset
    rw [List.filter_cons, ih] at hstep
    rw [List.filter_cons, ← hstep]
    rfl

theorem sortByStart_stable {α : Type} (start : α → Nat) (items : List α) :
    StablySorted start items (sortByStart start items) where
  sorted := sortByStart_sorted start items
  stable := sortByStart_filter start items

theorem RawComment.placed_raw (elements : List (Element × Attached)) (comment : RawComment) :
    (comment.placed elements).raw = comment := by
  unfold RawComment.placed
  split <;> rfl

theorem Program.comments_stable (program : Program) :
    StablySorted (·.span.start) (program.comments.filter fun comment => !comment.isStarred)
      (program.tree.comments.map (·.raw)) := by
  have hraw : ∀ kept : List RawComment,
      (kept.map (·.placed program.elements)).map (·.raw) = kept := by
    intro kept
    rw [List.map_map]
    simp [Function.comp_def, RawComment.placed_raw]
  have hmap := sortByStart_map (fun comment : Comment => comment.raw.span.start) (·.raw)
    (·.span.start) (fun _ => rfl)
    ((program.comments.filter fun comment => !comment.isStarred).map (·.placed program.elements))
  rw [hraw] at hmap
  rw [Program.tree, ← hmap]
  exact sortByStart_stable _ _

/-! ## Runs -/

/-- The comments belong to the same element in the same way. -/
def Comment.Alongside (a b : Comment) : Prop :=
  a.element = b.element ∧ a.placement = b.placement

theorem Comment.Alongside.trans {a b c : Comment} (h : a.Alongside b) (h' : b.Alongside c) :
    a.Alongside c :=
  ⟨h.1.trans h'.1, h.2.trans h'.2⟩

instance : Std.Symm Comment.Alongside :=
  ⟨fun _ _ h => ⟨h.1.symm, h.2.symm⟩⟩

instance : IsTrans Comment Comment.Alongside :=
  ⟨fun _ _ _ => Comment.Alongside.trans⟩

/-- The comments are cut into the longest rows that belong together. -/
structure CutIntoRuns (comments : List Comment) (runs : List (List Comment)) : Prop where
  flatten : runs.flatten = comments
  nonempty : ∀ run ∈ runs, run ≠ []
  alongside : ∀ run ∈ runs, ∀ a ∈ run, ∀ b ∈ run, a.Alongside b
  differ : runs.IsChain fun run next => ∀ a ∈ run, ∀ b ∈ next, ¬a.Alongside b

/-- In a row in which neighbours belong together all do. -/
theorem alongside_of_isChain {run : List Comment} (h : run.IsChain Comment.Alongside) :
    ∀ a ∈ run, ∀ b ∈ run, a.Alongside b := by
  have hpairs : run.Pairwise Comment.Alongside := List.isChain_iff_pairwise.mp h
  have hall := List.Pairwise.forall_of_forall (fun _ _ => ⟨rfl, rfl⟩) hpairs
  exact fun a ha b hb => hall ha hb

theorem SourceTree.runs_cut (tree : SourceTree) : CutIntoRuns tree.comments tree.runs := by
  have halong : ∀ run ∈ tree.runs, ∀ a ∈ run, ∀ b ∈ run, a.Alongside b := by
    intro run hrun
    refine alongside_of_isChain ((List.isChain_of_mem_splitBy hrun).imp fun a b hab => ?_)
    simpa [Comment.Alongside] using hab
  refine ⟨List.flatten_splitBy _ _, fun run => List.ne_nil_of_mem_splitBy, halong, ?_⟩
  have hends := List.isChain_getLast_head_splitBy
    (fun a b => a.element == b.element && a.placement == b.placement) tree.comments
  refine hends.imp_of_mem_imp fun run next hrun hnext hdiffer a ha b hb hab => ?_
  obtain ⟨hlast, hfirst, hne⟩ := hdiffer
  -- All of a run belong together, so also its last comment and the first one of the next run.
  have hends : (run.getLast hlast).Alongside (next.head hfirst) :=
    ((halong run hrun _ (List.getLast_mem hlast) a ha).trans hab).trans
      (halong next hnext b hb _ (List.head_mem hfirst))
  simp [hends.1, hends.2] at hne

/-! ## Blocks -/

/-- The block shows the lines of the row, without a gap, and their comments belong to its element
in one way. -/
structure Block.Shows (block : Block) (row : List (Comment × CommentLine)) : Prop where
  nonempty : row ≠ []
  lines : block.lines = row.map (·.2.text)
  numbers : ∀ i source, row[i]? = some source → source.2.number = block.startLine + i
  element : ∀ source ∈ row, source.1.element = block.element
  alongside : ∀ a ∈ row, ∀ b ∈ row, a.1.Alongside b.1

/-- A line is missing between the two rows. -/
def GapBetween (row next : List (Comment × CommentLine)) : Prop :=
  ∀ a ∈ row.getLast?, ∀ b ∈ next.head?, b.2.number ≠ a.2.number + 1

/-- The rows hold the lines of a run and are cut where a line is missing. -/
structure CutAtGaps (run : List Comment) (rows : List (List (Comment × CommentLine))) : Prop where
  flatten : rows.flatten = run.flatMap fun comment => comment.lines.map (comment, ·)
  gaps : rows.IsChain GapBetween

/-- The blocks show the rows into which the runs are cut, run by run. -/
def CutIntoBlocks (runs : List (List Comment)) (blocks : List Block) : Prop :=
  ∃ rows, List.Forall₂ CutAtGaps runs rows ∧ List.Forall₂ Block.Shows blocks rows.flatten

namespace SourceTree

/-- Lines that follow on each other are numbered from the first one. -/
theorem number_of_isChain {row : List (Comment × CommentLine)}
    (h : row.IsChain fun a b => b.2.number = a.2.number + 1) {first : Comment × CommentLine}
    (hfirst : row.head? = some first) {i : Nat} {source : Comment × CommentLine}
    (hsource : row[i]? = some source) : source.2.number = first.2.number + i := by
  induction i generalizing row first with
  | zero =>
    rw [← List.head?_eq_getElem?, hfirst] at hsource
    cases hsource
    rfl
  | succ i ih =>
    match row, hfirst with
    | _ :: next :: rest, rfl =>
      obtain ⟨hnext, hrest⟩ := List.isChain_cons_cons.mp h
      have hlater := ih hrest rfl hsource
      omega
    | [_], rfl => simp at hsource

theorem mem_of_mem_sourcesOfRun {run : List Comment} {row : List (Comment × CommentLine)}
    (hrow : row ∈ sourcesOfRun run) {source : Comment × CommentLine} (h : source ∈ row) :
    source.1 ∈ run := by
  have hmem : source ∈ (sourcesOfRun run).flatten := List.mem_flatten_of_mem hrow h
  rw [sourcesOfRun, List.flatten_splitBy, List.mem_flatMap] at hmem
  obtain ⟨comment, hcomment, hsource⟩ := hmem
  obtain ⟨line, -, rfl⟩ := List.mem_map.mp hsource
  exact hcomment

theorem shows_ofRow {run : List Comment} (hrun : ∀ a ∈ run, ∀ b ∈ run, a.Alongside b)
    {row : List (Comment × CommentLine)} (hrow : row ∈ sourcesOfRun run) :
    (Block.ofRow ((run.head?.map (·.element)).getD 0) row).Shows row := by
  have hmem : ∀ source ∈ row, source.1 ∈ run := fun _ => mem_of_mem_sourcesOfRun hrow
  have hne : row ≠ [] := List.ne_nil_of_mem_splitBy hrow
  refine ⟨hne, rfl, fun i source hsource => ?_, fun source hsource => ?_,
    fun a ha b hb => hrun a.1 (hmem a ha) b.1 (hmem b hb)⟩
  · have hchain : row.IsChain fun a b => b.2.number = a.2.number + 1 :=
      (List.isChain_of_mem_splitBy hrow).imp fun a b hab => by simpa using hab
    have hfirst := List.head?_eq_some_head hne
    rw [number_of_isChain hchain hfirst hsource, Block.ofRow, hfirst]
    rfl
  · cases run with
    | nil => cases hmem source hsource
    | cons first run =>
      exact (hrun source.1 (hmem source hsource) first List.mem_cons_self).1

theorem gap_sourcesOfRun (run : List Comment) : (sourcesOfRun run).IsChain GapBetween := by
  refine (List.isChain_getLast_head_splitBy _ _).imp ?_
  rintro row next ⟨hlast, hfirst, hne⟩ a ha b hb
  rw [List.getLast?_eq_some_getLast hlast] at ha
  rw [List.head?_eq_some_head hfirst] at hb
  cases ha
  cases hb
  simpa using hne

theorem blocks_cut (tree : SourceTree) : CutIntoBlocks tree.runs tree.blocks := by
  refine ⟨tree.runs.map sourcesOfRun, ?_, ?_⟩
  · rw [List.forall₂_map_right_iff, List.forall₂_same]
    intro run _
    exact ⟨List.flatten_splitBy _ _, gap_sourcesOfRun run⟩
  · have halong := tree.runs_cut.alongside
    rw [blocks, ← List.flatMap_def]
    generalize tree.runs = runs at halong
    induction runs with
    | nil => exact .nil
    | cons run runs ih =>
      obtain ⟨hrun, hruns⟩ := List.forall_mem_cons.mp halong
      rw [List.flatMap_cons, List.flatMap_cons, blocksOfRun_eq]
      refine List.rel_append ?_ (ih hruns)
      rw [List.forall₂_map_left_iff, List.forall₂_same]
      exact fun row hrow => shows_ofRow hrun hrow

theorem blocks_texts (tree : SourceTree) :
    tree.blocks.flatMap (·.lines) =
      tree.comments.flatMap fun comment => comment.lines.map (·.text) := by
  rw [List.flatMap_def, blocks_lines, ← List.map_flatten, flatten_sources, List.map_flatMap]
  simp [Function.comp_def]

end SourceTree

/-- **Gathering comments loses and moves nothing.** The comments of a source tree are those of the
program that do not follow the convention of two stars, by where they start. Its runs cut them into
the longest rows that belong together, its blocks cut the lines of each run into the longest rows
without a gap, and the texts of all blocks in a row are those of all comments. -/
theorem Program.comments_gathered (program : Program) :
    StablySorted (·.span.start) (program.comments.filter fun comment => !comment.isStarred)
      (program.tree.comments.map (·.raw)) ∧
    CutIntoRuns program.tree.comments program.tree.runs ∧
    CutIntoBlocks program.tree.runs program.tree.blocks ∧
    program.tree.blocks.flatMap (·.lines) =
      program.tree.comments.flatMap fun comment => comment.lines.map (·.text) :=
  ⟨program.comments_stable, program.tree.runs_cut, program.tree.blocks_cut,
    program.tree.blocks_texts⟩

end DocComments
