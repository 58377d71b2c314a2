import DocComments.Proofs.Exports
import DocComments.Proofs.Gathering
import DocComments.Proofs.Subtrees

/-!
# Comments that are attached to nothing

A comment that no node has among its own, such as one in an empty class body, belongs to the last
element in pre-order that covers it. Where the spans of the nodes nest and no two siblings cover the
comment, the elements that cover it lie one inside the other. So the last of them is inside all
others, and nothing inside it covers the comment.

* `NestsAround`: what is asked of the spans.
* `Subdivided.within_or_within`: of two elements that cover the comment one is around the other.
* `Program.exists_innermost`: the element that is found is the last one that covers the comment.
* `NodeAt`, `handsOn_exported`: an element hands its comments on just if its node is an export
  statement around a declaration, and then to that declaration.
* `Program.unattached_innermost`: where such a comment ends up.
-/

namespace DocComments

/-! ## Elements that cover a comment -/

namespace SourceTree

variable {tree : SourceTree} {comment : RawComment}

/-- Every element covers its children, and no two siblings cover the comment. -/
structure NestsAround (tree : SourceTree) (comment : RawComment) : Prop where
  covered : ∀ p ∈ tree.elements, ∀ c ∈ tree.elements, c.parent = some p.index →
    p.span.start ≤ c.span.start ∧ c.span.stop ≤ p.span.stop
  apart : ∀ a ∈ tree.elements, ∀ b ∈ tree.elements, a.parent = b.parent →
    comment.isWithin a = true → comment.isWithin b = true → a = b

theorem NestsAround.parent (h : tree.NestsAround comment) {p c : Element}
    (hp : p ∈ tree.elements) (hc : c ∈ tree.elements) (hparent : c.parent = some p.index)
    (hwithin : comment.isWithin c = true) : comment.isWithin p = true := by
  have hcovered := h.covered p hp c hc hparent
  simp only [RawComment.isWithin, Bool.and_eq_true, decide_eq_true_eq] at hwithin ⊢
  omega

/-- What covers the comment is inside elements that cover it. -/
theorem Preordered.ancestors_cover (h : tree.Preordered) (hnests : tree.NestsAround comment)
    {e a : Element} (he : e ∈ tree.elements) (hwithin : comment.isWithin e = true)
    (ha : a ∈ tree.ancestors e) : comment.isWithin a = true := by
  induction e, he using h.induction with
  | root e he hparent => simp [tree.ancestors_of_root hparent] at ha
  | child e he b hb hparent ih =>
    have hup := hnests.parent hb he hparent hwithin
    rw [h.ancestors_of_parent hb hparent] at ha
    rcases List.mem_cons.mp ha with rfl | ha
    · exact hup
    · exact ih hup ha

/-- The way down from an element around another one begins with a child. -/
theorem Preordered.exists_child (h : tree.Preordered) {p e : Element} (he : e ∈ tree.elements)
    (hp : p ∈ tree.ancestors e) :
    ∃ c ∈ tree.elements, c.parent = some p.index ∧ tree.isWithin c e = true := by
  induction e, he using h.induction with
  | root e he hparent => simp [tree.ancestors_of_root hparent] at hp
  | child e he b hb hparent ih =>
    have hup : b ∈ tree.ancestors e := by simp [h.ancestors_of_parent hb hparent]
    rw [h.ancestors_of_parent hb hparent] at hp
    rcases List.mem_cons.mp hp with rfl | hp
    · exact ⟨e, he, hparent, isWithin_iff.mpr (.inl rfl)⟩
    · obtain ⟨c, hc, hchild, hwithin⟩ := ih hp
      exact ⟨c, hc, hchild, h.within_of_ancestor he hup hwithin⟩

namespace Subdivided

variable (h : tree.Subdivided)
include h

theorem within_root {r e : Element} (hr : r ∈ tree.elements) (hroot : r.parent = none)
    (he : e ∈ tree.elements) : tree.isWithin r e = true := by
  induction e, he using h.toPreordered.induction with
  | root e he hparent =>
    have hsame : r.index = e.index := by rw [h.root r hr hroot, h.root e he hparent]
    exact isWithin_iff.mpr (.inl (h.numbered.eq_of_index hr he hsame))
  | child e he b hb hparent ih =>
    apply h.toPreordered.within_of_ancestor he _ ih
    simp [h.ancestors_of_parent hb hparent]

/-- Of two elements that cover the comment one is around the other. -/
theorem within_or_within (hnests : tree.NestsAround comment) {a b : Element}
    (ha : a ∈ tree.elements) (hb : b ∈ tree.elements) (hwithin : comment.isWithin a = true)
    (hwithin' : comment.isWithin b = true) :
    tree.isWithin a b = true ∨ tree.isWithin b a = true := by
  induction b, hb using h.toPreordered.induction with
  | root b hb hparent => exact .inr (h.within_root hb hparent ha)
  | child b hb p hp hparent ih =>
    have hup : p ∈ tree.ancestors b := by simp [h.ancestors_of_parent hp hparent]
    rcases ih (hnests.parent hp hb hparent hwithin') with hout | hin
    · exact .inl (h.toPreordered.within_of_ancestor hb hup hout)
    rcases isWithin_iff.mp hin with rfl | hin
    · exact .inl (isWithin_iff.mpr (.inr hup))
    -- The child of the parent that leads to `a` covers the comment, as its sibling `b` does.
    obtain ⟨c, hc, hchild, hdown⟩ := h.toPreordered.exists_child ha hin
    have hcover : comment.isWithin c = true := by
      rcases isWithin_iff.mp hdown with rfl | hdown
      · exact hwithin
      · exact h.toPreordered.ancestors_cover hnests ha hwithin hdown
    obtain rfl := hnests.apart c hc b hb (hchild.trans hparent.symm) hcover hwithin'
    exact .inr hdown

/-- The last element that covers the comment is inside all others, and nothing in it does. -/
theorem innermost_of_last (hnests : tree.NestsAround comment) {e : Element}
    (hlast : IsNearest (· ∈ tree.elements) comment.isWithin e) :
    (∀ a ∈ tree.elements, a ≠ e → comment.isWithin a = true → a ∈ tree.ancestors e) ∧
      ∀ c ∈ tree.elements, c.index ∈ e.children → comment.isWithin c = false := by
  constructor
  · intro a ha hne hwithin
    rcases h.within_or_within hnests ha hlast.among hwithin hlast.passes with hout | hin
    · exact (isWithin_iff.mp hout).resolve_left hne
    · have hrange := (h.isWithin_iff_range hlast.among ha).mp hin
      have hle := hlast.greatest a ha hwithin
      exact absurd (h.numbered.eq_of_index ha hlast.among (by omega)) hne
  · intro c hc hchild
    obtain ⟨own, hown, hindex, hparent⟩ := (h.mem_children_iff hlast.among c.index).mp hchild
    obtain rfl := h.numbered.eq_of_index hown hc hindex
    have hlt := h.parents own hown _ hparent
    by_contra hwithin
    have hle := hlast.greatest own hown (by simpa using hwithin)
    omega

end Subdivided

end SourceTree

/-! ## The element that is found -/

namespace RawComment

/-- No node has the comment among those before it, after it or inside it. -/
def IsUnattached (comment : RawComment) (elements : List (Element × Attached)) : Prop :=
  ∀ p ∈ elements, ∀ placement, comment.span.start ∉ p.2.standing placement

theorem target?_of_unattached {comment : RawComment} {elements : List (Element × Attached)}
    (h : comment.IsUnattached elements) :
    comment.target? elements = (comment.innermost? elements).map (·, .dangling) := by
  have hnone : ∀ placement, comment.attachedTo? elements placement = none := by
    intro placement
    rw [attachedTo?, Option.map_eq_none_iff, List.find?_eq_none]
    intro p hp
    simpa using h p (List.mem_reverse.mp hp) placement
  simp [target?, hnone]

end RawComment

/-- The element that is found for a comment inside the program is the last one that covers it. -/
theorem Program.exists_innermost (program : Program) {comment : RawComment} {r : Element}
    (hr : r ∈ program.tree.elements) (hinside : comment.isWithin r = true) :
    ∃ e, comment.innermost? program.elements = some e ∧
      SourceTree.IsNearest (· ∈ program.tree.elements) comment.isWithin e := by
  have hdescending : program.tree.elements.reverse.Pairwise fun a b => b.index < a.index := by
    have hall : (program.tree.elements.map (·.index)).Pairwise (· < ·) := by
      rw [program.tree_numbered.map_index]
      exact List.pairwise_lt_range
    exact List.pairwise_reverse.mpr (List.pairwise_map.mp hall)
  have hfind : (program.elements.reverse.find? fun p => comment.isWithin p.1).map (·.1) =
      program.tree.elements.reverse.find? comment.isWithin := by
    rw [Program.tree, ← List.map_reverse, List.find?_map]
    rfl
  obtain ⟨e, he⟩ : ∃ e, program.tree.elements.reverse.find? comment.isWithin = some e := by
    rw [← Option.isSome_iff_exists, List.find?_isSome]
    exact ⟨r, List.mem_reverse.mpr hr, hinside⟩
  refine ⟨e, ?_, ?_⟩
  · rw [he, Option.map_eq_some_iff] at hfind
    obtain ⟨p, hp, rfl⟩ := hfind
    simp [RawComment.innermost?, hp]
  · have hnearest := (SourceTree.find?_eq_some_iff_nearest hdescending _ e).mp he
    simpa only [List.mem_reverse] using hnearest

/-! ## Export statements -/

/-- The node that became the element with this number. The first element is the root, and the
children of an element are the nodes below its node, in order. -/
inductive Program.NodeAt (program : Program) : Nat → Node Attached → Prop where
  | root : NodeAt program 0 program.root
  | child {i j : Nat} {e : Element} {node child : Node Attached} (parent : NodeAt program i node)
      (found : program.tree.element? i = some e)
      (below : (j, child) ∈ e.children.zip node.subnodes) : NodeAt program j child

/-- The children of the element and the one that it exports are those of its node. -/
def Program.Stems (program : Program) (e : Element) : Prop :=
  ∃ node exported, program.NodeAt e.index node ∧
    e.children = Shape.indices (e.index + 1) (node.shape exported).children ∧
    e.exported = Shape.exportedIndex? (e.index + 1) (node.shape exported).children

namespace Shape

variable {program : Program} {first j : Nat}

theorem length_indices (first : Nat) (shapes : List Shape) :
    (indices first shapes).length = shapes.length := by
  induction shapes generalizing first with
  | nil => rfl
  | cons shape rest ih => rw [indices, List.length_cons, List.length_cons, ih]

mutual

theorem stems_of_shape (parent : Option Nat) (index : Nat) : ∀ (shape : Shape)
    (node : Node Attached), node.HasShape shape → program.NodeAt index node →
    elements parent index shape ⊆ program.elements →
    ∀ p ∈ elements parent index shape, program.Stems p.1
  | ⟨nodeType, role, span, attached, exported, children⟩, node => by
    rintro ⟨marked, hshape⟩ hnode hsubset p hp
    have hchildren := node.shape_children marked
    rw [← hshape] at hchildren
    rw [elements] at hp hsubset
    obtain ⟨hfirst, hbelow⟩ := List.cons_subset.mp hsubset
    rcases List.mem_cons.mp hp with rfl | hp
    · exact ⟨node, marked, hnode, by rw [← hshape], by rw [← hshape]⟩
    · refine stems_of_shapes index (index + 1) children _ hchildren ?_ hbelow p hp
      rw [List.forall₂_iff_zip]
      refine ⟨by rw [length_indices]; exact hchildren.length_eq, fun hmem => ?_⟩
      exact .child hnode (program.tree_numbered.element?_index (List.mem_map_of_mem hfirst)) hmem

theorem stems_of_shapes (parent index : Nat) : ∀ (shapes : List Shape)
    (nodes : List (Node Attached)), List.Forall₂ Node.HasShape shapes nodes →
    List.Forall₂ program.NodeAt (indices index shapes) nodes →
    elementsOfList parent index shapes ⊆ program.elements →
    ∀ p ∈ elementsOfList parent index shapes, program.Stems p.1
  | [], _ => by simp [elementsOfList]
  | shape :: rest, _ => by
    rintro (- | ⟨hshape, hrest⟩) (- | ⟨hnode, hnodes⟩) hsubset p hp
    rw [elementsOfList] at hp hsubset
    obtain ⟨hfirst, hothers⟩ := List.append_subset.mp hsubset
    rcases List.mem_append.mp hp with hp | hp
    · exact stems_of_shape (some parent) index shape _ hshape hnode hfirst p hp
    · exact stems_of_shapes parent (index + shape.size) rest _ hrest hnodes hothers p hp

end

/-- The number of an exported shape goes with its node. -/
theorem exportedIndex?_eq_some {marked : List (Bool × Node Attached)}
    (h : exportedIndex? first (marked.map fun m => m.2.shape m.1) = some j) :
    ∃ m ∈ marked, (m.2.shape m.1).exported = true ∧
      (j, m.2) ∈ (indices first (marked.map fun m => m.2.shape m.1)).zip (marked.map (·.2)) := by
  induction marked generalizing first with
  | nil => cases h
  | cons m rest ih =>
    rw [List.map_cons, exportedIndex?] at h
    rw [List.map_cons, List.map_cons, indices, List.zip_cons_cons]
    by_cases hexported : (m.2.shape m.1).exported = true
    · rw [if_pos hexported] at h
      cases h
      exact ⟨m, List.mem_cons_self, hexported, List.mem_cons_self⟩
    · rw [if_neg hexported] at h
      obtain ⟨found, hfound, hexported, hzip⟩ := ih h
      exact ⟨found, List.mem_cons_of_mem _ hfound, hexported, List.mem_cons_of_mem _ hzip⟩

theorem not_exported_of_exportedIndex? {shapes : List Shape}
    (h : exportedIndex? first shapes = none) : ∀ shape ∈ shapes, shape.exported = false := by
  induction shapes generalizing first with
  | nil => simp
  | cons shape rest ih =>
    rw [exportedIndex?] at h
    split at h
    · cases h
    · rename_i hexported
      exact List.forall_mem_cons.mpr ⟨by simpa using hexported, ih h⟩

end Shape

namespace Node

/-- The node is an export statement around the declaration, which is one of a class, a function or
variables. -/
structure Exports (node declaration : Node Attached) : Prop where
  statement : isExport node.data.type = true
  field : ("declaration", .one declaration) ∈ node.fields
  declares : isExportable declaration.data.type = true

theorem shape_exported_iff {exported : Bool} {node : Node Attached} :
    (shape exported node).exported = true ↔
      exported = true ∧ isExportable node.data.type = true := by
  obtain ⟨data, note, fields⟩ := node
  rw [shape, Bool.and_eq_true]

theorem shapesOfFields_of_exports {fields : List (String × Slot (Node Attached))}
    {declaration : Node Attached} (hfield : ("declaration", .one declaration) ∈ fields)
    (hdeclares : isExportable declaration.data.type = true) :
    declaration.shape true ∈ shapesOfFields true fields := by
  induction fields with
  | nil => cases hfield
  | cons field rest ih =>
    rw [shapesOfFields, List.mem_append]
    rcases List.mem_cons.mp hfield with rfl | hfield
    · left
      rw [shapesOfField, shapesOfSlot, if_pos (isSome_of_isExportable hdeclares).1]
      exact List.mem_singleton.mpr rfl
    · exact .inr (ih hfield)

theorem Exports.exists_child {node declaration : Node Attached} (h : node.Exports declaration)
    (exported : Bool) : ∃ s ∈ (node.shape exported).children, s.exported = true := by
  obtain ⟨data, note, fields⟩ := node
  refine ⟨declaration.shape true, ?_, shape_exported_iff.mpr ⟨rfl, h.declares⟩⟩
  rw [shape, show isExport data.type = true from h.statement]
  exact (sortByStart_perm _ _).mem_iff.mpr (shapesOfFields_of_exports h.field h.declares)

/-- A node without comments that covers a part of the source. -/
def covering (type : String) (start stop : Nat) (fields : List (String × Slot (Node Attached))) :
    Node Attached :=
  ⟨{ type := some type, span := { start := start, stop := stop } }, {}, fields⟩

end Node

namespace Program

/-- Comments on the element end up on the one with the number `target`: the declaration that its
node exports, or else the element itself. -/
def HandsOn (program : Program) (e : Element) (target : Nat) : Prop :=
  ∃ node, program.NodeAt e.index node ∧
    ((∃ declaration, node.Exports declaration ∧ target ∈ e.children ∧
        program.NodeAt target declaration) ∨
      (∀ declaration, ¬node.Exports declaration) ∧ target = e.index)

theorem handsOn_exported (program : Program) {e : Element} (he : e ∈ program.tree.elements) :
    program.HandsOn e (e.exported.getD e.index) := by
  have hfound := program.tree_numbered.element?_index he
  obtain ⟨p, hp, rfl⟩ := List.mem_map.mp he
  obtain ⟨node, exported, hnode, hchildren, hexported⟩ :=
    Shape.stems_of_shape none 0 _ _ ⟨false, rfl⟩ .root (List.Subset.refl _) p hp
  refine ⟨node, hnode, ?_⟩
  obtain ⟨marked, hshapes, hbelow, hmarks⟩ := node.children_eq exported
  cases hindex : p.1.exported with
  | none =>
    rw [hindex] at hexported
    refine .inr ⟨fun declaration hexports => ?_, rfl⟩
    obtain ⟨s, hs, hmarked⟩ := hexports.exists_child exported
    rw [Shape.not_exported_of_exportedIndex? hexported.symm s hs] at hmarked
    cases hmarked
  | some j =>
    rw [hindex, hshapes] at hexported
    obtain ⟨m, hm, hmarked, hzip⟩ := Shape.exportedIndex?_eq_some hexported.symm
    obtain ⟨htrue, hdeclares⟩ := Node.shape_exported_iff.mp hmarked
    obtain ⟨hstatement, hfield⟩ := hmarks m hm htrue
    rw [← hshapes, ← hchildren, ← hbelow] at hzip
    exact .inl ⟨m.2, ⟨hstatement, hfield, hdeclares⟩, (List.of_mem_zip hzip).1,
      .child hnode hfound hzip⟩

theorem placed_mem_comments (program : Program) {comment : RawComment}
    (hcomment : comment ∈ program.comments) (hstarred : comment.isStarred = false) :
    comment.placed program.elements ∈ program.tree.comments := by
  apply (sortByStart_perm _ _).mem_iff.mpr
  apply List.mem_map_of_mem
  rw [List.mem_filter]
  exact ⟨hcomment, by simp [hstarred]⟩

theorem eq_placed_of_mem_comments (program : Program) {c : Comment}
    (hc : c ∈ program.tree.comments) : c = c.raw.placed program.elements := by
  have hmem := (sortByStart_perm _ _).mem_iff.mp hc
  obtain ⟨comment, -, rfl⟩ := List.mem_map.mp hmem
  rw [RawComment.placed_raw]

/-- **Where a comment that is attached to nothing ends up.** Among nested spans, the element that is
found for it covers it, all others that cover it are around that one, and none of its children
covers it. The comment hangs on that element, or on the declaration that the element exports. -/
theorem unattached_innermost (program : Program) {comment : RawComment}
    (hcomment : comment ∈ program.comments) (hstarred : comment.isStarred = false)
    (hnests : program.tree.NestsAround comment)
    (hinside : program.root.data.span.start ≤ comment.span.start ∧
      comment.span.stop ≤ program.root.data.span.stop)
    (hunattached : comment.IsUnattached program.elements) :
    ∃ e ∈ program.tree.elements, comment.innermost? program.elements = some e ∧
      comment.isWithin e = true ∧
      (∀ a ∈ program.tree.elements, a ≠ e → comment.isWithin a = true →
        a ∈ program.tree.ancestors e) ∧
      (∀ c ∈ program.tree.elements, c.index ∈ e.children → comment.isWithin c = false) ∧
      ∃ target, program.HandsOn e target ∧
        { raw := comment, element := target, placement := .dangling } ∈ program.tree.comments ∧
        ∀ c ∈ program.tree.comments, c.raw = comment →
          c.element = target ∧ c.placement = .dangling := by
  obtain @⟨root, -, -, hroot, -, -, hspan, -⟩ := program.tree_depicts
  have hcovers : comment.isWithin root = true := by
    simpa [RawComment.isWithin, hspan] using hinside
  obtain ⟨e, hfound, hlast⟩ := program.exists_innermost (List.mem_of_getElem? hroot) hcovers
  obtain ⟨haround, hbelow⟩ := program.tree_subdivided.innermost_of_last hnests hlast
  have hplaced : comment.placed program.elements =
      { raw := comment, element := e.exported.getD e.index, placement := .dangling } := by
    rw [RawComment.placed, RawComment.target?_of_unattached hunattached, hfound]
    rfl
  refine ⟨e, hlast.among, hfound, hlast.passes, haround, hbelow, _,
    program.handsOn_exported hlast.among, ?_, ?_⟩
  · rw [← hplaced]
    exact program.placed_mem_comments hcomment hstarred
  · rintro c hc rfl
    rw [program.eq_placed_of_mem_comments hc, hplaced]
    exact ⟨rfl, rfl⟩

/-- A comment between `export` and the class that is exported. -/
def keywordComment : RawComment where
  block := true
  value := " :: "
  span := { start := 7, stop := 15 }

def exportedClass : Program where
  root := .covering "Program" 0 30 [("body", .many [
    .covering "ExportNamedDeclaration" 0 30 [("declaration", .one
      (.covering "ClassDeclaration" 16 30 [("body", .one (.covering "ClassBody" 24 30 [])),
        ("id", .one (.covering "Identifier" 22 23 []))]))]])]
  comments := [keywordComment]

theorem unattached_innermost_exportedClass :
    exportedClass.tree.NestsAround keywordComment ∧
    keywordComment.IsUnattached exportedClass.elements ∧
    (exportedClass.tree.elements.filter keywordComment.isWithin).map (·.index) = [0, 1] ∧
    exportedClass.tree.comments.map (·.element) = [2] ∧
    ∃ e ∈ exportedClass.tree.elements,
      (∀ a ∈ exportedClass.tree.elements, a ≠ e → keywordComment.isWithin a = true →
        a ∈ exportedClass.tree.ancestors e) ∧
      exportedClass.HandsOn e 2 := by
  have hnests : exportedClass.tree.NestsAround keywordComment :=
    ⟨by decide +kernel, by decide +kernel⟩
  have hnone : ∀ p ∈ exportedClass.elements, p.2 = {} := by decide +kernel
  have hunattached : keywordComment.IsUnattached exportedClass.elements := by
    intro p hp placement
    rw [hnone p hp]
    cases placement <;> exact List.not_mem_nil
  obtain ⟨e, he, -, -, haround, -, target, hhands, hmem, -⟩ :=
    exportedClass.unattached_innermost List.mem_cons_self rfl hnests ⟨by decide, by decide⟩
      hunattached
  have hcomments : exportedClass.tree.comments.map (·.element) = [2] := by decide +kernel
  have htarget : target ∈ exportedClass.tree.comments.map (·.element) := List.mem_map_of_mem hmem
  rw [hcomments, List.mem_singleton] at htarget
  subst htarget
  exact ⟨hnests, hunattached, by decide +kernel, hcomments, e, he, haround, hhands⟩

end Program

end DocComments
