import DocComments.Proofs.Ancestry
import DocComments.Proofs.Blocks
import Mathlib.Data.List.Forall2
import Mathlib.Data.List.Nodup
import Mathlib.Logic.Relation

/-!
# Subtrees

Numbering in pre-order gives the elements below an element the numbers that directly follow its
own. So a subtree is a range of numbers, and whether one element is around another is a matter of
comparing numbers.

* `Shape.elements_range`: parents and children are on the same side of each range.
* `Shape.elements_children`: the children of an element are the elements whose parent it is.
* `Depicts`: the elements are the nodes of the program, children in the order of their starts.
* `Subdivided.isWithin_iff_range`: the elements below an element are those of its range.
* `Program.tree_isPreorder`: all of this for the tree of a program, and what it says about the
  way up from an element.
-/

namespace DocComments

/-! ## Ranges and children of shapes -/

namespace Shape

theorem index_of_mem_elements {parent : Option Nat} {index : Nat} {shape : Shape}
    {p : Element × Attached} (h : p ∈ elements parent index shape) :
    index ≤ p.1.index ∧ p.1.index < index + shape.size := by
  have hmem : p.1.index ∈ (elements parent index shape).map (·.1.index) :=
    List.mem_map_of_mem h
  rwa [elements_index, List.mem_range'_1] at hmem

theorem index_of_mem_elementsOfList {parent index : Nat} {shapes : List Shape}
    {p : Element × Attached} (h : p ∈ elementsOfList parent index shapes) :
    index ≤ p.1.index ∧ p.1.index < index + sizes shapes := by
  have hmem : p.1.index ∈ (elementsOfList parent index shapes).map (·.1.index) :=
    List.mem_map_of_mem h
  rwa [elementsOfList_index, List.mem_range'_1] at hmem

/-- The parent of an element of shapes side by side is their parent or one of their elements. -/
theorem parent_of_mem_elementsOfList {parent index : Nat} {shapes : List Shape}
    {p : Element × Attached} (h : p ∈ elementsOfList parent index shapes) :
    p.1.parent = some parent ∨ ∃ q, p.1.parent = some q ∧ index ≤ q ∧ q < p.1.index := by
  induction shapes generalizing index with
  | nil => simp [elementsOfList] at h
  | cons shape rest ih =>
    rw [elementsOfList, List.mem_append] at h
    rcases h with h | h
    · exact (elements_parent _ _ shape p h).imp_left And.right
    · rcases ih h with hp | ⟨q, hq, hle, hlt⟩
      · exact Or.inl hp
      · exact Or.inr ⟨q, hq, by omega, hlt⟩

/-- Every element with a parent has it in the range exactly if it is in the range itself, after the
first number of the range. -/
def Splits (first count : Nat) (pairs : List (Element × Attached)) : Prop :=
  ∀ p ∈ pairs, ∀ q, p.1.parent = some q →
    ((first ≤ q ∧ q < first + count) ↔ (first < p.1.index ∧ p.1.index < first + count))

mutual

theorem elements_range (parent : Option Nat) (index : Nat) (hparent : ∀ q ∈ parent, q < index) :
    ∀ shape : Shape, ∀ a ∈ elements parent index shape, ∃ count, 0 < count ∧
      a.1.index + count ≤ index + shape.size ∧ Splits a.1.index count (elements parent index shape)
  | ⟨nodeType, role, span, attached, exported, children⟩ => by
    intro a ha
    rw [elements] at ha ⊢
    rcases List.mem_cons.mp ha with rfl | ha
    · refine ⟨sizes children + 1, by omega, by rw [size], fun p hp q hq => ?_⟩
      rcases List.mem_cons.mp hp with rfl | hp
      · have hlt := hparent q hq
        simp only
        omega
      · have hindex := index_of_mem_elementsOfList hp
        rcases parent_of_mem_elementsOfList hp with h | ⟨r, h, hle, hlt⟩
        all_goals
          obtain rfl := Option.some.inj (hq.symm.trans h)
          simp only
          omega
    · obtain ⟨count, hpos, hle, hsplits⟩ :=
        elementsOfList_range index (index + 1) (by omega) children a ha
      have hindex := index_of_mem_elementsOfList ha
      refine ⟨count, hpos, by rw [size]; omega, fun p hp q hq => ?_⟩
      rcases List.mem_cons.mp hp with rfl | hp
      · have hlt := hparent q hq
        simp only
        omega
      · exact hsplits p hp q hq

theorem elementsOfList_range (parent index : Nat) (hparent : parent < index) :
    ∀ shapes : List Shape, ∀ a ∈ elementsOfList parent index shapes, ∃ count, 0 < count ∧
      a.1.index + count ≤ index + sizes shapes ∧
        Splits a.1.index count (elementsOfList parent index shapes)
  | [] => by simp [elementsOfList]
  | shape :: rest => by
    intro a ha
    rw [elementsOfList] at ha ⊢
    rcases List.mem_append.mp ha with ha | ha
    · obtain ⟨count, hpos, hle, hsplits⟩ :=
        elements_range (some parent) index (by simpa using hparent) shape a ha
      have hindex := index_of_mem_elements ha
      refine ⟨count, hpos, by rw [sizes]; omega, fun p hp q hq => ?_⟩
      rcases List.mem_append.mp hp with hp | hp
      · exact hsplits p hp q hq
      · -- The shapes after that of the range have neither numbers nor parents in it.
        have hafter := index_of_mem_elementsOfList hp
        rcases parent_of_mem_elementsOfList hp with h | ⟨r, h, hle, hlt⟩
        all_goals
          obtain rfl := Option.some.inj (hq.symm.trans h)
          omega
    · obtain ⟨count, hpos, hle, hsplits⟩ :=
        elementsOfList_range parent (index + shape.size) (by omega) rest a ha
      have hindex := index_of_mem_elementsOfList ha
      refine ⟨count, hpos, by rw [sizes]; omega, fun p hp q hq => ?_⟩
      rcases List.mem_append.mp hp with hp | hp
      · have hbefore := index_of_mem_elements hp
        rcases elements_parent _ _ shape p hp with ⟨-, h⟩ | ⟨r, h, hle, hlt⟩
        all_goals
          obtain rfl := Option.some.inj (hq.symm.trans h)
          omega
      · exact hsplits p hp q hq

end

/-- The numbers of the elements whose parent has the given number. -/
def childrenIn (parent : Nat) (pairs : List (Element × Attached)) : List Nat :=
  (pairs.filter (·.1.parent = some parent)).map (·.1.index)

theorem childrenIn_append (parent : Nat) (left right : List (Element × Attached)) :
    childrenIn parent (left ++ right) = childrenIn parent left ++ childrenIn parent right := by
  rw [childrenIn, List.filter_append, List.map_append, childrenIn, childrenIn]

theorem childrenIn_eq_nil {parent : Nat} {pairs : List (Element × Attached)}
    (h : ∀ p ∈ pairs, p.1.parent ≠ some parent) : childrenIn parent pairs = [] := by
  rw [childrenIn, List.filter_eq_nil_iff.mpr (by simpa using h), List.map_nil]

theorem childrenIn_cons_of_ne {parent : Nat} {p : Element × Attached}
    {pairs : List (Element × Attached)} (h : p.1.parent ≠ some parent) :
    childrenIn parent (p :: pairs) = childrenIn parent pairs := by
  rw [childrenIn, List.filter_cons_of_neg (by simpa using h), childrenIn]

/-- Of shapes side by side, the children of their parent are the first elements of each. -/
theorem childrenIn_elementsOfList (parent index : Nat) (hlt : parent < index)
    (shapes : List Shape) :
    childrenIn parent (elementsOfList parent index shapes) = indices index shapes := by
  induction shapes generalizing index with
  | nil => rfl
  | cons shape rest ih =>
    obtain ⟨nodeType, role, span, attached, exported, children⟩ := shape
    have hbelow : childrenIn parent (elementsOfList index (index + 1) children) = [] := by
      refine childrenIn_eq_nil fun p hp hparent => ?_
      obtain ⟨q, hq, hle, -⟩ := elementsOfList_parent index (index + 1) (by omega) children p hp
      obtain rfl := Option.some.inj (hq.symm.trans hparent)
      omega
    have hfirst : childrenIn parent (elements (some parent) index
        ⟨nodeType, role, span, attached, exported, children⟩) = [index] := by
      rw [elements, childrenIn, List.filter_cons_of_pos (by simp), List.map_cons, ← childrenIn,
        hbelow]
    rw [elementsOfList, childrenIn_append, hfirst, ih _ (by omega), indices, List.singleton_append]

mutual

/-- The children of an element are the elements whose parent it is, in order. -/
theorem elements_children (parent : Option Nat) (index : Nat) (hparent : ∀ q ∈ parent, q < index) :
    ∀ shape : Shape, ∀ a ∈ elements parent index shape,
      a.1.children = childrenIn a.1.index (elements parent index shape)
  | ⟨nodeType, role, span, attached, exported, children⟩ => by
    intro a ha
    have hroot : ∀ i, index ≤ i → parent ≠ some i := by
      intro i hle heq
      have hlt := hparent i heq
      omega
    rw [elements] at ha ⊢
    rcases List.mem_cons.mp ha with rfl | ha
    · rw [childrenIn_cons_of_ne (hroot index (Nat.le_refl _)),
        childrenIn_elementsOfList index (index + 1) (by omega)]
    · have hindex := index_of_mem_elementsOfList ha
      rw [childrenIn_cons_of_ne (hroot _ (by omega))]
      exact elementsOfList_children index (index + 1) (by omega) children a ha

theorem elementsOfList_children (parent index : Nat) (hparent : parent < index) :
    ∀ shapes : List Shape, ∀ a ∈ elementsOfList parent index shapes,
      a.1.children = childrenIn a.1.index (elementsOfList parent index shapes)
  | [] => by simp [elementsOfList]
  | shape :: rest => by
    intro a ha
    rw [elementsOfList] at ha ⊢
    rw [childrenIn_append]
    rcases List.mem_append.mp ha with ha | ha
    · have hindex := index_of_mem_elements ha
      have hafter :
          childrenIn a.1.index (elementsOfList parent (index + shape.size) rest) = [] := by
        refine childrenIn_eq_nil fun p hp hq => ?_
        rcases parent_of_mem_elementsOfList hp with h | ⟨r, h, hle, -⟩
        all_goals
          have heq := Option.some.inj (hq.symm.trans h)
          omega
      rw [hafter, List.append_nil]
      exact elements_children (some parent) index (by simpa using hparent) shape a ha
    · have hindex := index_of_mem_elementsOfList ha
      have hbefore : childrenIn a.1.index (elements (some parent) index shape) = [] := by
        refine childrenIn_eq_nil fun p hp hq => ?_
        have hlt := index_of_mem_elements hp
        rcases elements_parent _ _ shape p hp with ⟨-, h⟩ | ⟨r, h, -, hr⟩
        all_goals
          have heq := Option.some.inj (hq.symm.trans h)
          omega
      rw [hbefore, List.nil_append]
      exact elementsOfList_children parent (index + shape.size) (by omega) rest a ha

end

end Shape

/-! ## The nodes of a program -/

/-- All items that a field holds. -/
def Slot.toList {β : Type} : Slot β → List β
  | .one item => [item]
  | .many items => items

namespace Node

/-- Has the node a type? Other objects are no nodes of the tree. -/
def isTyped (node : Node Attached) : Bool := node.data.type.isSome

/-- The nodes directly below a node, by where they start. -/
def subnodes (node : Node Attached) : List (Node Attached) :=
  sortByStart (·.data.span.start) ((node.fields.flatMap (·.2.toList)).filter isTyped)

/-- The shape is that of the node, exported or not. -/
def HasShape (shape : Shape) (node : Node Attached) : Prop :=
  ∃ exported, shape = node.shape exported

theorem shapesOfList_eq (nodes : List (Node Attached)) :
    shapesOfList nodes = (nodes.filter isTyped).map (shape false) := by
  induction nodes with
  | nil => simp [shapesOfList]
  | cons node rest ih =>
    rw [shapesOfList, ih, List.filter_cons, isTyped]
    split <;> rfl

/-- The shapes of a field are those of its nodes, and only a node that stands alone is exported. -/
theorem shapesOfSlot_eq (exported : Bool) (slot : Slot (Node Attached)) :
    ∃ marked : List (Bool × Node Attached),
      shapesOfSlot exported slot = marked.map (fun m => m.2.shape m.1) ∧
        slot.toList.filter isTyped = marked.map (·.2) ∧
        ∀ m ∈ marked, m.1 = true → exported = true ∧ slot = .one m.2 := by
  cases slot with
  | one node =>
    by_cases htyped : node.isTyped = true
    · refine ⟨[(exported, node)], ?_, ?_, ?_⟩
      · rw [shapesOfSlot, ← isTyped, if_pos htyped, List.map_singleton]
      · rw [Slot.toList, List.filter_singleton, htyped, cond_true, List.map_singleton]
      · rw [List.forall_mem_singleton]
        exact fun hexported => ⟨hexported, rfl⟩
    · refine ⟨[], ?_, ?_, by simp⟩
      · rw [shapesOfSlot, ← isTyped, if_neg htyped, List.map_nil]
      · rw [Slot.toList, List.filter_singleton, Bool.eq_false_of_not_eq_true htyped, cond_false,
          List.map_nil]
  | many nodes =>
    refine ⟨(nodes.filter isTyped).map (false, ·), ?_, ?_, by simp⟩
    · rw [shapesOfSlot, shapesOfList_eq, List.map_map]
      rfl
    · rw [Slot.toList, List.map_map]
      exact (List.map_id _).symm

theorem shapesOfFields_eq (exports : Bool) (fields : List (String × Slot (Node Attached))) :
    ∃ marked : List (Bool × Node Attached),
      shapesOfFields exports fields = marked.map (fun m => m.2.shape m.1) ∧
        (fields.flatMap (·.2.toList)).filter isTyped = marked.map (·.2) ∧
        ∀ m ∈ marked, m.1 = true → exports = true ∧ ("declaration", .one m.2) ∈ fields := by
  induction fields with
  | nil => exact ⟨[], by rw [shapesOfFields, List.map_nil], rfl, by simp⟩
  | cons field rest ih =>
    obtain ⟨label, slot⟩ := field
    obtain ⟨first, hshapes, hnodes, hmarks⟩ :=
      shapesOfSlot_eq (exports && label == "declaration") slot
    obtain ⟨others, hshapes', hnodes', hmarks'⟩ := ih
    refine ⟨first ++ others, ?_, ?_, ?_⟩
    · rw [shapesOfFields, shapesOfField, hshapes, hshapes', List.map_append]
    · rw [List.flatMap_cons, List.filter_append, hnodes, hnodes', List.map_append]
    · intro m hm hmarked
      rcases List.mem_append.mp hm with hm | hm
      · obtain ⟨hexports, rfl⟩ := hmarks m hm hmarked
        simp only [Bool.and_eq_true, beq_iff_eq] at hexports
        obtain ⟨hexports, rfl⟩ := hexports
        exact ⟨hexports, List.mem_cons_self⟩
      · obtain ⟨hexports, hfield⟩ := hmarks' m hm hmarked
        exact ⟨hexports, List.mem_cons_of_mem _ hfield⟩

/-- The shapes below that of a node are those of the nodes below it, in the same order. Only an
export statement marks a node as exported, which is the one in its field for that. -/
theorem children_eq (exported : Bool) (node : Node Attached) :
    ∃ marked : List (Bool × Node Attached),
      (node.shape exported).children = marked.map (fun m => m.2.shape m.1) ∧
        node.subnodes = marked.map (·.2) ∧
        ∀ m ∈ marked, m.1 = true →
          isExport node.data.type = true ∧ ("declaration", .one m.2) ∈ node.fields := by
  obtain ⟨data, note, fields⟩ := node
  obtain ⟨marked, hshapes, hnodes, hmarks⟩ := shapesOfFields_eq (isExport data.type) fields
  -- Both are sorted by the starts of the nodes.
  have hchildren := sortByStart_map (fun m : Bool × Node Attached => m.2.data.span.start)
    (fun m => m.2.shape m.1) (·.span.start) (fun m => by rw [shape_span]) marked
  have hbelow := sortByStart_map (fun m : Bool × Node Attached => m.2.data.span.start)
    (·.2) (·.data.span.start) (fun _ => rfl) marked
  refine ⟨sortByStart (fun m => m.2.data.span.start) marked, ?_, ?_, ?_⟩
  · rw [shape, hshapes, hchildren]
  · rw [subnodes, hnodes, hbelow]
  · intro m hm
    exact hmarks m ((sortByStart_perm _ _).mem_iff.mp hm)

theorem shape_children (exported : Bool) (node : Node Attached) :
    List.Forall₂ HasShape (node.shape exported).children node.subnodes := by
  obtain ⟨marked, hchildren, hbelow, -⟩ := node.children_eq exported
  rw [hchildren, hbelow, List.forall₂_map_left_iff, List.forall₂_map_right_iff, List.forall₂_same]
  exact fun m _ => ⟨m.1, rfl⟩

end Node

namespace SourceTree

/-- The element with this number is the node, and its children are the nodes below that. -/
inductive Depicts (tree : SourceTree) : Nat → Node Attached → Prop where
  | intro {e : Element} {index : Nat} {node : Node Attached}
      (found : tree.element? index = some e)
      (nodeType : e.nodeType = node.data.type.getD "")
      (role : e.role = node.role)
      (span : e.span = node.data.span)
      (children : List.Forall₂ (Depicts tree) e.children node.subnodes) :
      Depicts tree index node

variable {tree : SourceTree}

mutual

theorem depicts_of_shape (parent : Option Nat) (index : Nat) : ∀ (shape : Shape)
    (node : Node Attached), node.HasShape shape →
    (∀ p ∈ shape.elements parent index, tree.element? p.1.index = some p.1) →
    tree.Depicts index node
  | ⟨nodeType, role, span, attached, exported, children⟩, node => by
    rintro ⟨marked, hshape⟩ hfound
    have hchildren := node.shape_children marked
    rw [← hshape] at hchildren
    rw [Shape.elements, List.forall_mem_cons] at hfound
    refine .intro hfound.1 ?_ ?_ ?_ ?_
    · exact (congrArg Shape.nodeType hshape).trans (node.shape_nodeType marked)
    · exact (congrArg Shape.role hshape).trans (node.shape_role marked)
    · exact (congrArg Shape.span hshape).trans (node.shape_span marked)
    · exact depicts_of_shapes index (index + 1) children _ hchildren hfound.2

theorem depicts_of_shapes (parent index : Nat) : ∀ (shapes : List Shape)
    (nodes : List (Node Attached)), List.Forall₂ Node.HasShape shapes nodes →
    (∀ p ∈ Shape.elementsOfList parent index shapes, tree.element? p.1.index = some p.1) →
    List.Forall₂ tree.Depicts (Shape.indices index shapes) nodes
  | [], _ => by
    rintro ⟨⟩ -
    exact .nil
  | shape :: rest, _ => by
    rintro (- | ⟨hshape, hrest⟩) hfound
    rw [Shape.elementsOfList, List.forall_mem_append] at hfound
    exact .cons (depicts_of_shape (some parent) index shape _ hshape hfound.1)
      (depicts_of_shapes parent (index + shape.size) rest _ hrest hfound.2)

end

theorem starts_of_depicts {indices : List Nat} {nodes : List (Node Attached)}
    (h : List.Forall₂ tree.Depicts indices nodes) :
    (indices.filterMap tree.element?).map (·.span.start) = nodes.map (·.data.span.start) := by
  induction h with
  | nil => rfl
  | cons hchild _ ih =>
    obtain ⟨hfound, -, -, hspan, -⟩ := hchild
    rw [List.filterMap_cons_some hfound, List.map_cons, List.map_cons, ih, hspan]

/-! ## Subtrees as ranges -/

/-- The number of elements of a subtree. -/
def size (tree : SourceTree) (a : Element) : Nat :=
  tree.elements.countP (tree.isWithin a)

/-- The second element is a child of the first. -/
def IsChild (tree : SourceTree) (i j : Nat) : Prop :=
  ∃ e, tree.element? i = some e ∧ j ∈ e.children

/-- There is one root, every subtree has a range of numbers, and children know their parents. -/
structure Subdivided (tree : SourceTree) : Prop extends tree.Preordered where
  root : ∀ e ∈ tree.elements, e.parent = none → e.index = 0
  range : ∀ a ∈ tree.elements, ∃ count, 0 < count ∧ a.index + count ≤ tree.elements.length ∧
    ∀ e ∈ tree.elements, ∀ q, e.parent = some q →
      ((a.index ≤ q ∧ q < a.index + count) ↔ (a.index < e.index ∧ e.index < a.index + count))
  children : ∀ a ∈ tree.elements,
    a.children = (tree.elements.filter (·.parent = some a.index)).map (·.index)

theorem Numbered.eq_of_index (h : tree.Numbered) {a b : Element} (ha : a ∈ tree.elements)
    (hb : b ∈ tree.elements) (hindex : a.index = b.index) : a = b := by
  have hfound := h.element?_index ha
  rw [hindex, h.element?_index hb] at hfound
  exact (Option.some.inj hfound).symm

theorem Numbered.map_index (h : tree.Numbered) :
    tree.elements.map (·.index) = List.range tree.elements.length := by
  refine List.ext_getElem (by simp) fun i hi _ => ?_
  rw [List.length_map] at hi
  rw [List.getElem_map, List.getElem_range]
  exact h i _ (List.getElem?_eq_getElem hi)

theorem countP_range_of_le {first count total : Nat} (h : first + count ≤ total) :
    (List.range total).countP (fun i => first ≤ i ∧ i < first + count) = count := by
  obtain ⟨rest, rfl⟩ := Nat.exists_eq_add_of_le h
  have hcut : List.range (first + count + rest) =
      List.range' 0 first ++ List.range' first count ++ List.range' (first + count) rest := by
    rw [List.range_eq_range', ← List.range'_append_1, ← List.range'_append_1]
    simp
  have hbefore : (List.range' 0 first).countP (fun i => first ≤ i ∧ i < first + count) = 0 := by
    simp only [List.countP_eq_zero, List.mem_range'_1]
    intro i hi
    simp
    omega
  have hwithin : (List.range' first count).countP (fun i => first ≤ i ∧ i < first + count) =
      count := by
    rw [List.countP_eq_length.mpr (by simp), List.length_range']
  have hafter : (List.range' (first + count) rest).countP
      (fun i => first ≤ i ∧ i < first + count) = 0 := by
    simp only [List.countP_eq_zero, List.mem_range'_1]
    intro i hi
    simp
    omega
  rw [hcut, List.countP_append, List.countP_append, hbefore, hwithin, hafter]
  omega

namespace Subdivided

variable (h : tree.Subdivided) {a e : Element}
include h

theorem isWithin_iff_count (ha : a ∈ tree.elements) (he : e ∈ tree.elements) {count : Nat}
    (hpos : 0 < count)
    (hrange : ∀ e ∈ tree.elements, ∀ q, e.parent = some q →
      ((a.index ≤ q ∧ q < a.index + count) ↔ (a.index < e.index ∧ e.index < a.index + count))) :
    tree.isWithin a e = true ↔ a.index ≤ e.index ∧ e.index < a.index + count := by
  have hself : ∀ e ∈ tree.elements, a = e ↔ a.index = e.index := fun e he =>
    ⟨fun heq => congrArg Element.index heq, h.numbered.eq_of_index ha he⟩
  induction e, he using h.toPreordered.induction with
  | root e he hparent =>
    have hzero := h.root e he hparent
    rw [isWithin_iff, tree.ancestors_of_root hparent, hself e he]
    simp only [List.not_mem_nil, or_false]
    omega
  | child e he b hb hparent ih =>
    have hstep := hrange e he b.index hparent
    have hup : tree.isWithin a b = true ↔ a.index ≤ b.index ∧ b.index < a.index + count := ih
    rw [isWithin_iff, h.ancestors_of_parent hb hparent, List.mem_cons, ← isWithin_iff, hup,
      hself e he]
    omega

theorem size_spec (ha : a ∈ tree.elements) : 0 < tree.size a ∧
    a.index + tree.size a ≤ tree.elements.length ∧
    ∀ e ∈ tree.elements, ∀ q, e.parent = some q → ((a.index ≤ q ∧ q < a.index + tree.size a) ↔
      (a.index < e.index ∧ e.index < a.index + tree.size a)) := by
  obtain ⟨count, hpos, hle, hrange⟩ := h.range a ha
  have hsize : tree.size a = count := by
    calc tree.size a
      _ = tree.elements.countP
            ((fun i => decide (a.index ≤ i ∧ i < a.index + count)) ∘ (·.index)) := by
        refine List.countP_congr fun e he => ?_
        rw [h.isWithin_iff_count ha he hpos hrange]
        simp
      _ = (List.range tree.elements.length).countP
            (fun i => a.index ≤ i ∧ i < a.index + count) := by
        rw [← List.countP_map, h.numbered.map_index]
      _ = count := countP_range_of_le hle
  rw [hsize]
  exact ⟨hpos, hle, hrange⟩

/-- The elements of a subtree are those of a range of numbers. -/
theorem isWithin_iff_range (ha : a ∈ tree.elements) (he : e ∈ tree.elements) :
    tree.isWithin a e = true ↔ a.index ≤ e.index ∧ e.index < a.index + tree.size a :=
  h.isWithin_iff_count ha he (h.size_spec ha).1 (h.size_spec ha).2.2

theorem mem_children_iff (ha : a ∈ tree.elements) (j : Nat) :
    j ∈ a.children ↔ ∃ c ∈ tree.elements, c.index = j ∧ c.parent = some a.index := by
  rw [h.children a ha]
  simp only [List.mem_map, List.mem_filter, decide_eq_true_eq]
  exact ⟨fun ⟨c, ⟨hc, hparent⟩, hindex⟩ => ⟨c, hc, hindex, hparent⟩,
    fun ⟨c, hc, hindex, hparent⟩ => ⟨c, ⟨hc, hparent⟩, hindex⟩⟩

theorem children_increasing (ha : a ∈ tree.elements) : a.children.Pairwise (· < ·) := by
  have hall : (tree.elements.map (·.index)).Pairwise (· < ·) := by
    rw [h.numbered.map_index]
    exact List.pairwise_lt_range
  rw [h.children a ha]
  exact hall.sublist (List.filter_sublist.map _)

/-- The descendants of an element, reached from child to child, have the numbers of its range. -/
theorem descendants_iff (ha : a ∈ tree.elements) (j : Nat) :
    Relation.ReflTransGen tree.IsChild a.index j ↔
      a.index ≤ j ∧ j < a.index + tree.size a := by
  obtain ⟨hpos, hle, hrange⟩ := h.size_spec ha
  constructor
  · intro hpath
    induction hpath with
    | refl => omega
    | @tail k j _ hchild ih =>
      obtain ⟨f, hf, hj⟩ := hchild
      obtain rfl := h.numbered k f hf
      obtain ⟨c, hc, rfl, hparent⟩ := (h.mem_children_iff (List.mem_of_getElem? hf) j).mp hj
      have hc := (hrange c hc f.index hparent).mp ih
      omega
  · intro hj
    have hlt : j < tree.elements.length := by omega
    obtain ⟨e, he, rfl⟩ : ∃ e ∈ tree.elements, e.index = j :=
      ⟨tree.elements[j], List.getElem_mem hlt, h.numbered j _ (List.getElem?_eq_getElem hlt)⟩
    have hwithin := (h.isWithin_iff_range ha he).mpr hj
    clear hj hlt
    induction e, he using h.toPreordered.induction with
    | root e he hparent =>
      rw [isWithin_iff, tree.ancestors_of_root hparent] at hwithin
      obtain rfl : a = e := by simpa using hwithin
      exact .refl
    | child e he b hb hparent ih =>
      rw [isWithin_iff, h.ancestors_of_parent hb hparent, List.mem_cons, ← isWithin_iff] at hwithin
      rcases hwithin with rfl | hwithin
      · exact .refl
      · refine (ih hwithin).tail ⟨b, h.numbered.element?_index hb, ?_⟩
        exact (h.mem_children_iff hb e.index).mpr ⟨e, he, rfl, hparent⟩

/-! ## The way up -/

theorem ancestors_descending (he : e ∈ tree.elements) :
    (e :: tree.ancestors e).Pairwise fun a b => b.index < a.index := by
  induction e, he using h.toPreordered.induction with
  | root e he hparent =>
    rw [tree.ancestors_of_root hparent]
    exact List.pairwise_singleton _ _
  | child e he b hb hparent ih =>
    have hlt := h.parents e he b.index hparent
    rw [h.ancestors_of_parent hb hparent]
    refine List.pairwise_cons.mpr ⟨fun c hc => ?_, ih⟩
    rcases List.mem_cons.mp hc with rfl | hc
    · exact hlt
    · have hc := (List.pairwise_cons.mp ih).1 c hc
      omega

theorem mem_ancestors_iff (he : e ∈ tree.elements) :
    a ∈ tree.ancestors e ↔
      a ∈ tree.elements ∧ a.index < e.index ∧ e.index < a.index + tree.size a := by
  constructor
  · intro hup
    have ha := tree.ancestors_subset e hup
    have hlt := (List.pairwise_cons.mp (h.ancestors_descending he)).1 a hup
    have hrange := (h.isWithin_iff_range ha he).mp (isWithin_iff.mpr (Or.inr hup))
    exact ⟨ha, hlt, hrange.2⟩
  · rintro ⟨ha, hlt, hrange⟩
    rcases isWithin_iff.mp ((h.isWithin_iff_range ha he).mpr ⟨by omega, hrange⟩) with rfl | hup
    · omega
    · exact hup

/-! ## Children and the nodes below -/

theorem exists_depicts {root : Node Attached} (hroot : tree.Depicts 0 root)
    (he : e ∈ tree.elements) : ∃ node, tree.Depicts e.index node := by
  induction e, he using h.toPreordered.induction with
  | root e he hparent =>
    rw [h.root e he hparent]
    exact ⟨root, hroot⟩
  | child e he b hb hparent ih =>
    obtain ⟨node, ⟨hfound, -, -, -, hchildren⟩⟩ := ih
    rw [h.numbered.element?_index hb] at hfound
    cases hfound
    have hchild := (h.mem_children_iff hb e.index).mpr ⟨e, he, rfl, hparent⟩
    obtain ⟨i, hi, hi'⟩ := List.getElem_of_mem hchild
    have hdepicts := hchildren.get hi (hchildren.length_eq ▸ hi)
    rw [List.get_eq_getElem, hi'] at hdepicts
    exact ⟨_, hdepicts⟩

/-- The children of an element come in the order of their starts. -/
theorem children_starts {root : Node Attached} (hroot : tree.Depicts 0 root)
    (he : e ∈ tree.elements) :
    (e.children.filterMap tree.element?).Pairwise fun a b => a.span.start ≤ b.span.start := by
  obtain ⟨node, ⟨hfound, -, -, -, hchildren⟩⟩ := h.exists_depicts hroot he
  rw [h.numbered.element?_index he] at hfound
  cases hfound
  have hsorted : (node.subnodes.map (·.data.span.start)).Pairwise (· ≤ ·) :=
    List.pairwise_map.mpr (sortByStart_sorted _ _)
  rw [← starts_of_depicts hchildren, List.pairwise_map] at hsorted
  exact hsorted

end Subdivided

/-! ## The nearest element that passes a test -/

/-- The element is among the given ones and passes the test, and none of the others that pass it
has a greater number. -/
structure IsNearest (given : Element → Prop) (test : Element → Bool) (a : Element) : Prop where
  among : given a
  passes : test a = true
  greatest : ∀ b, given b → test b = true → b.index ≤ a.index

theorem find?_eq_some_iff_nearest {elements : List Element}
    (h : elements.Pairwise fun a b => b.index < a.index) (test : Element → Bool) (a : Element) :
    elements.find? test = some a ↔ IsNearest (· ∈ elements) test a := by
  induction elements with
  | nil =>
    refine ⟨fun hfind => by simp at hfind, ?_⟩
    rintro ⟨hmem, -, -⟩
    exact absurd hmem List.not_mem_nil
  | cons x rest ih =>
    obtain ⟨hlt, hrest⟩ := List.pairwise_cons.mp h
    by_cases hx : test x = true
    · rw [List.find?_cons_of_pos hx]
      constructor
      · rintro ⟨⟩
        refine ⟨List.mem_cons_self, hx, fun b hb _ => ?_⟩
        rcases List.mem_cons.mp hb with rfl | hb
        · exact Nat.le_refl _
        · exact Nat.le_of_lt (hlt b hb)
      · rintro ⟨hmem, -, hgreatest⟩
        rcases List.mem_cons.mp hmem with rfl | hmem
        · rfl
        · have hle := hgreatest x List.mem_cons_self hx
          have ha := hlt a hmem
          omega
    · rw [List.find?_cons_of_neg hx, ih hrest]
      constructor
      · rintro ⟨hmem, hpass, hgreatest⟩
        refine ⟨List.mem_cons_of_mem _ hmem, hpass, fun b hb htest => ?_⟩
        rcases List.mem_cons.mp hb with rfl | hb
        · exact absurd htest hx
        · exact hgreatest b hb htest
      · rintro ⟨hmem, hpass, hgreatest⟩
        rcases List.mem_cons.mp hmem with rfl | hmem
        · exact absurd hpass hx
        · exact ⟨hmem, hpass, fun b hb => hgreatest b (List.mem_cons_of_mem _ hb)⟩

/-! ## Trees of programs -/

/-- The elements are the nodes of the program in pre-order. -/
structure IsPreorder (tree : SourceTree) (root : Node Attached) : Prop where
  numbered : ∀ i e, tree.element? i = some e → e.index = i
  root : tree.Depicts 0 root
  rootOnly : ∀ e ∈ tree.elements, e.parent = none ↔ e.index = 0
  /-- Every other element is once a child of one element that comes before it. -/
  parent : ∀ e ∈ tree.elements, e.index ≠ 0 → ∃ p ∈ tree.elements, e.parent = some p.index ∧
    p.index < e.index ∧ p.children.count e.index = 1 ∧
      ∀ a ∈ tree.elements, a.index ≠ p.index → e.index ∉ a.children
  childParent : ∀ e ∈ tree.elements, ∀ j ∈ e.children, ∃ c, tree.element? j = some c ∧
    c.parent = some e.index
  increasing : ∀ e ∈ tree.elements, e.children.Pairwise (· < ·)
  starts : ∀ e ∈ tree.elements,
    (e.children.filterMap tree.element?).Pairwise fun a b => a.span.start ≤ b.span.start
  /-- The descendants of an element and itself have the numbers from its own on. -/
  descendants : ∀ e ∈ tree.elements, ∀ j,
    Relation.ReflTransGen tree.IsChild e.index j ↔ e.index ≤ j ∧ j < e.index + tree.size e

/-- The second element is in the subtree of the first, below it. -/
def Encloses (tree : SourceTree) (a e : Element) : Prop :=
  a ∈ tree.elements ∧ a.index < e.index ∧ e.index < a.index + tree.size a

/-- The way up from an element. -/
structure Climbs (tree : SourceTree) (e : Element) : Prop where
  root : e.parent = none → tree.ancestors e = []
  parent : ∀ p a, e.parent = some p → tree.element? p = some a →
    tree.ancestors e = a :: tree.ancestors a
  descending : (e :: tree.ancestors e).Pairwise fun a b => b.index < a.index
  ancestors : ∀ a, a ∈ tree.ancestors e ↔ tree.Encloses a e
  closest : ∀ type a, tree.closest? e type = some a ↔
    IsNearest (fun b => b = e ∨ tree.Encloses b e) (·.nodeType == type) a
  closestNone : ∀ type, tree.closest? e type = none ↔
    ∀ b, b = e ∨ tree.Encloses b e → b.nodeType ≠ type
  enclosing : ∀ a, tree.enclosingClass? e = some a ↔
    IsNearest (tree.Encloses · e) (·.role.isClass) a
  enclosingNone : tree.enclosingClass? e = none ↔
    ∀ b, tree.Encloses b e → b.role.isClass = false

namespace Subdivided

variable (h : tree.Subdivided)
include h

theorem isPreorder {root : Node Attached} (hroot : tree.Depicts 0 root) :
    tree.IsPreorder root where
  numbered := h.numbered
  root := hroot
  rootOnly := by
    intro e he
    refine ⟨h.root e he, fun hzero => ?_⟩
    cases hparent : e.parent with
    | none => rfl
    | some p => exact absurd (h.parents e he p hparent) (by omega)
  parent := by
    intro e he hne
    cases hparent : e.parent with
    | none => exact absurd (h.root e he hparent) hne
    | some q =>
      obtain ⟨p, hp, rfl⟩ := h.parent_element he hparent
      have hchild := (h.mem_children_iff hp e.index).mpr ⟨e, he, rfl, hparent⟩
      have hnodup : p.children.Nodup := (h.children_increasing hp).imp Nat.ne_of_lt
      refine ⟨p, hp, rfl, h.parents e he _ hparent, List.count_eq_one_of_mem hnodup hchild, ?_⟩
      intro a ha hother hmem
      obtain ⟨c, hc, hindex, hup⟩ := (h.mem_children_iff ha e.index).mp hmem
      rw [h.numbered.eq_of_index hc he hindex, hparent] at hup
      exact hother (Option.some.inj hup).symm
  childParent := by
    intro e he j hj
    obtain ⟨c, hc, rfl, hparent⟩ := (h.mem_children_iff he j).mp hj
    exact ⟨c, h.numbered.element?_index hc, hparent⟩
  increasing := fun e he => h.children_increasing he
  starts := fun e he => h.children_starts hroot he
  descendants := fun e he => h.descendants_iff he

theorem climbs {e : Element} (he : e ∈ tree.elements) : tree.Climbs e where
  root := tree.ancestors_of_root
  parent := by
    intro p a hparent ha
    obtain rfl := h.numbered p a ha
    exact h.ancestors_of_parent (List.mem_of_getElem? ha) hparent
  descending := h.ancestors_descending he
  ancestors := fun a => h.mem_ancestors_iff he
  closest := by
    intro type a
    rw [closest?, find?_eq_some_iff_nearest (h.ancestors_descending he)]
    simp only [List.mem_cons, h.mem_ancestors_iff he, Encloses]
  closestNone := by
    intro type
    rw [closest?, List.find?_eq_none]
    simp only [List.mem_cons, h.mem_ancestors_iff he, Encloses, beq_iff_eq, ne_eq]
  enclosing := by
    intro a
    have hdescending := (List.pairwise_cons.mp (h.ancestors_descending he)).2
    rw [enclosingClass?, find?_eq_some_iff_nearest hdescending]
    simp only [h.mem_ancestors_iff he, Encloses]
  enclosingNone := by
    rw [enclosingClass?, List.find?_eq_none]
    simp only [h.mem_ancestors_iff he, Encloses, Bool.not_eq_true]

end Subdivided

end SourceTree

namespace Program

theorem tree_subdivided (program : Program) : program.tree.Subdivided where
  toPreordered := program.tree_preordered
  root := by
    intro e he hparent
    obtain ⟨pair, hpair, rfl⟩ := List.mem_map.mp he
    rcases Shape.elements_parent none 0 _ pair hpair with ⟨hindex, -⟩ | ⟨q, hq, -⟩
    · exact hindex
    · rw [hparent] at hq
      cases hq
  range := by
    intro a ha
    obtain ⟨pair, hpair, rfl⟩ := List.mem_map.mp ha
    obtain ⟨count, hpos, hle, hsplits⟩ := Shape.elements_range none 0 (by simp) _ pair hpair
    refine ⟨count, hpos, ?_, ?_⟩
    · rw [Program.tree, List.length_map, Program.elements, Shape.length_elements]
      omega
    · intro e he q hq
      obtain ⟨other, hother, rfl⟩ := List.mem_map.mp he
      exact hsplits other hother q hq
  children := by
    intro a ha
    obtain ⟨pair, hpair, rfl⟩ := List.mem_map.mp ha
    rw [Shape.elements_children none 0 (by simp) _ pair hpair, Shape.childrenIn, Program.tree,
      List.filter_map, List.map_map]
    rfl

theorem tree_depicts (program : Program) : program.tree.Depicts 0 program.root :=
  SourceTree.depicts_of_shape none 0 _ _ ⟨false, rfl⟩ fun _ hp =>
    program.tree_numbered.element?_index (List.mem_map_of_mem hp)

/-- The elements of a program are its nodes in pre-order, and the way up from an element leads
through the elements whose ranges it is in. -/
theorem tree_isPreorder (program : Program) :
    program.tree.IsPreorder program.root ∧
      ∀ e ∈ program.tree.elements, program.tree.Climbs e :=
  ⟨program.tree_subdivided.isPreorder program.tree_depicts,
    fun _ he => program.tree_subdivided.climbs he⟩

end Program

end DocComments
