import DocComments.Proofs.Elements
import Mathlib.Data.List.SplitBy
import Mathlib.Data.Prod.Lex

/-!
# Lines of blocks and the comments that hold them

The blocks cut the lines of all comments into rows. Each line of a block thus has a comment that
holds it, and reading the blocks one after the other is reading the comments by where they start.

* `flatten_sources`: the lines of all blocks in a row are those of all comments in a row.
* `start_le_of_position`: a line that comes later stands in a comment that starts no earlier.
-/

namespace DocComments

/-! ## Sorting and splitting -/

theorem insertByStart_sorted {α : Type} (start : α → Nat) (x : α) {items : List α}
    (h : items.Pairwise fun a b => start a ≤ start b) :
    (insertByStart start x items).Pairwise fun a b => start a ≤ start b := by
  induction items with
  | nil => exact List.pairwise_singleton _ _
  | cons y rest ih =>
    obtain ⟨hy, hrest⟩ := List.pairwise_cons.mp h
    unfold insertByStart
    split
    · rename_i hle
      refine List.pairwise_cons.mpr ⟨fun z hz => ?_, h⟩
      rcases List.mem_cons.mp hz with rfl | hz
      · exact hle
      · exact hle.trans (hy z hz)
    · rename_i hlt
      refine List.pairwise_cons.mpr ⟨fun z hz => ?_, ih hrest⟩
      rcases List.mem_cons.mp ((insertByStart_perm start x rest).mem_iff.mp hz) with rfl | hz
      · omega
      · exact hy z hz

theorem sortByStart_sorted {α : Type} (start : α → Nat) (items : List α) :
    (sortByStart start items).Pairwise fun a b => start a ≤ start b := by
  induction items with
  | nil => exact List.Pairwise.nil
  | cons x rest ih => exact insertByStart_sorted start x ih

theorem splitBy_map {α β : Type} (f : α → β) (r : β → β → Bool) (items : List α) :
    (items.map f).splitBy r = (items.splitBy fun a b => r (f a) (f b)).map (List.map f) := by
  rw [List.splitBy_eq_iff]
  refine ⟨?_, ?_, ?_, ?_⟩
  · rw [← List.map_flatten, List.flatten_splitBy]
  · intro hnil
    obtain ⟨row, hrow, hempty⟩ := List.mem_map.mp hnil
    exact List.ne_nil_of_mem_splitBy hrow (List.map_eq_nil_iff.mp hempty)
  · intro mapped hmapped
    obtain ⟨row, hrow, rfl⟩ := List.mem_map.mp hmapped
    exact (List.isChain_map f).mpr (List.isChain_of_mem_splitBy hrow)
  · refine (List.isChain_map _).mpr ((List.isChain_getLast_head_splitBy _ items).imp ?_)
    rintro a b ⟨ha, hb, hab⟩
    exact ⟨by simpa using ha, by simpa using hb, by simpa using hab⟩

/-! ## Sources of lines -/

/-- The block of a row of lines. -/
def Block.ofRow (element : Nat) (row : List (Comment × CommentLine)) : Block where
  element
  startLine := (row.head?.map (·.2.number)).getD 0
  lines := row.map (·.2.text)

namespace SourceTree

/-- The rows of lines of a run, each line with the comment that holds it. -/
def sourcesOfRun (run : List Comment) : List (List (Comment × CommentLine)) :=
  (run.flatMap fun comment => comment.lines.map (comment, ·)).splitBy fun a b =>
    b.2.number == a.2.number + 1

/-- The lines of each block, with the comments that hold them. -/
def sources (tree : SourceTree) : List (List (Comment × CommentLine)) :=
  tree.runs.flatMap sourcesOfRun

theorem blocksOfRun_eq (run : List Comment) :
    blocksOfRun run =
      (sourcesOfRun run).map (Block.ofRow ((run.head?.map (·.element)).getD 0)) := by
  have hlines : run.flatMap Comment.lines =
      (run.flatMap fun comment => comment.lines.map (comment, ·)).map (·.2) := by
    rw [List.map_flatMap]
    congr 1
    funext comment
    simp [Function.comp_def]
  rw [blocksOfRun, sourcesOfRun, hlines, splitBy_map]
  simp [Function.comp_def, Block.ofRow]

theorem blocksOfRun_lines (run : List Comment) :
    (blocksOfRun run).map (·.lines) = (sourcesOfRun run).map (·.map (·.2.text)) := by
  rw [blocksOfRun_eq, List.map_map]
  rfl

theorem blocks_lines (tree : SourceTree) :
    tree.blocks.map (·.lines) = tree.sources.map (·.map (·.2.text)) := by
  simp only [blocks, sources, List.map_flatMap, blocksOfRun_lines]

theorem flatten_sources (tree : SourceTree) :
    tree.sources.flatten =
      tree.comments.flatMap fun comment => comment.lines.map (comment, ·) := by
  have hcomments : tree.comments = tree.runs.flatMap id := by
    rw [List.flatMap_id, runs, List.flatten_splitBy]
  have hrun : ∀ run, (sourcesOfRun run).flatMap id =
      run.flatMap fun comment => comment.lines.map (comment, ·) := by
    intro run
    rw [List.flatMap_id, sourcesOfRun, List.flatten_splitBy]
  rw [← List.flatMap_id, sources, List.flatMap_assoc, hcomments, List.flatMap_assoc]
  simp only [hrun, id]

/-- The comment that holds a line of a block, and the line. -/
def source? (tree : SourceTree) (block line : Nat) : Option (Comment × CommentLine) :=
  tree.sources[block]?.bind (·[line]?)

/-- Every line of a block has a comment that holds it. -/
theorem source?_of_line {tree : SourceTree} {number line : Nat} {block : Block} {text : String}
    (hblock : tree.blocks[number]? = some block) (htext : block.lines[line]? = some text) :
    ∃ source, tree.source? number line = some source ∧ source.2.text = text := by
  have hlines := congrArg (·[number]?) tree.blocks_lines
  simp only [List.getElem?_map, hblock, Option.map_some] at hlines
  obtain ⟨row, hrow, heq⟩ := Option.map_eq_some_iff.mp hlines.symm
  rw [← heq, List.getElem?_map] at htext
  obtain ⟨source, hsource, rfl⟩ := Option.map_eq_some_iff.mp htext
  exact ⟨source, by rw [source?, hrow, Option.bind_some, hsource], rfl⟩

end SourceTree

theorem Program.comments_sorted (program : Program) :
    program.tree.comments.Pairwise fun a b => a.raw.span.start ≤ b.raw.span.start :=
  sortByStart_sorted _ _

theorem Program.sources_sorted (program : Program) :
    program.tree.sources.flatten.Pairwise fun a b => a.1.raw.span.start ≤ b.1.raw.span.start := by
  rw [SourceTree.flatten_sources, List.pairwise_flatMap]
  constructor
  · intro comment _
    rw [List.pairwise_map]
    exact List.pairwise_of_forall fun _ _ => Nat.le_refl _
  · refine program.comments_sorted.imp fun hle a ha b hb => ?_
    obtain ⟨_, _, rfl⟩ := List.mem_map.mp ha
    obtain ⟨_, _, rfl⟩ := List.mem_map.mp hb
    exact hle

/-- A line that comes later, in the same block or in a later one, stands in a comment that starts
no earlier. -/
theorem Program.start_le_of_position (program : Program) {block line block' line' : Nat}
    (h : toLex (block, line) < toLex (block', line')) {a b : Comment × CommentLine}
    (ha : program.tree.source? block line = some a)
    (hb : program.tree.source? block' line' = some b) :
    a.1.raw.span.start ≤ b.1.raw.span.start := by
  obtain ⟨row, hrow, ha⟩ := Option.bind_eq_some_iff.mp ha
  obtain ⟨row', hrow', hb⟩ := Option.bind_eq_some_iff.mp hb
  obtain ⟨hwithin, hacross⟩ := List.pairwise_flatten.mp program.sources_sorted
  obtain ⟨hblock, rfl⟩ := List.getElem?_eq_some_iff.mp hrow
  obtain ⟨hblock', rfl⟩ := List.getElem?_eq_some_iff.mp hrow'
  rcases Prod.Lex.toLex_lt_toLex.mp h with hlt | ⟨heq, hlt⟩
  · have hrows := List.pairwise_iff_getElem.mp hacross block block' hblock hblock' hlt
    exact hrows a (List.mem_of_getElem? ha) b (List.mem_of_getElem? hb)
  · obtain rfl : block = block' := heq
    obtain ⟨hline, rfl⟩ := List.getElem?_eq_some_iff.mp ha
    obtain ⟨hline', rfl⟩ := List.getElem?_eq_some_iff.mp hb
    exact List.pairwise_iff_getElem.mp (hwithin _ (List.getElem_mem hblock)) line line' hline
      hline' hlt

end DocComments
