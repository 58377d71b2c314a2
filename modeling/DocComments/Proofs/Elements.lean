import DocComments.Source.Tree
import Mathlib.Data.List.Perm.Basic

/-!
# Elements of a program

Numbering a program in pre-order gives each element its place in the list as its number, so that
an element is found by it. The role of an element follows from the type of its node.

* `Program.tree_numbered`: the element with a number stands at that place.
* `Program.tree_classesFit`: the class declarations are the nodes of that type.
* `chain_subset`: the elements around an element are elements of the tree.
-/

namespace DocComments

/-! ## Sorting by start -/

theorem insertByStart_perm {α : Type} (start : α → Nat) (x : α) (items : List α) :
    (insertByStart start x items).Perm (x :: items) := by
  induction items with
  | nil => exact .refl _
  | cons y rest ih =>
    unfold insertByStart
    split
    · exact .refl _
    · exact (List.Perm.cons y ih).trans (.swap x y rest)

theorem sortByStart_perm {α : Type} (start : α → Nat) (items : List α) :
    (sortByStart start items).Perm items := by
  induction items with
  | nil => exact .refl _
  | cons x rest ih => exact (insertByStart_perm start x _).trans (.cons x ih)

theorem sortByStart_map {α β : Type} (start : α → Nat) (f : α → β) (start' : β → Nat)
    (h : ∀ x, start' (f x) = start x) (items : List α) :
    sortByStart start' (items.map f) = (sortByStart start items).map f := by
  have hinsert : ∀ (x : α) (items : List α),
      insertByStart start' (f x) (items.map f) = (insertByStart start x items).map f := by
    intro x items
    induction items with
    | nil => rfl
    | cons y rest ih =>
      simp only [List.map_cons, insertByStart, h, ih]
      split <;> rfl
  induction items with
  | nil => rfl
  | cons x rest ih =>
    show insertByStart start' (f x) (sortByStart start' (rest.map f)) = _
    rw [ih, hinsert]
    rfl

/-! ## Numbers -/

namespace Shape

theorem size_pos (shape : Shape) : 0 < shape.size := by
  obtain ⟨_, _, _, _, _, children⟩ := shape
  rw [size]
  omega

mutual

theorem elements_index (parent : Option Nat) (index : Nat) :
    ∀ shape : Shape, (elements parent index shape).map (·.1.index) = List.range' index shape.size
  | ⟨_, _, _, _, _, children⟩ => by
    rw [elements, List.map_cons, elementsOfList_index index (index + 1) children, size,
      List.range'_succ]

theorem elementsOfList_index (parent index : Nat) :
    ∀ shapes : List Shape,
      (elementsOfList parent index shapes).map (·.1.index) = List.range' index (sizes shapes)
  | [] => rfl
  | shape :: rest => by
    rw [elementsOfList, List.map_append, elements_index (some parent) index shape,
      elementsOfList_index parent (index + shape.size) rest, sizes,
      List.range'_append_1]

end

theorem length_elements (parent : Option Nat) (index : Nat) (shape : Shape) :
    (elements parent index shape).length = shape.size := by
  have hlength := congrArg List.length (elements_index parent index shape)
  rwa [List.length_map, List.length_range'] at hlength

/-- The elements of shapes side by side are those of each of them. -/
theorem mem_elementsOfList {parent index : Nat} {shapes : List Shape} {p : Element × Attached}
    (h : p ∈ elementsOfList parent index shapes) :
    ∃ shape ∈ shapes, ∃ start, p ∈ elements (some parent) start shape := by
  induction shapes generalizing index with
  | nil => simp [elementsOfList] at h
  | cons shape rest ih =>
    rw [elementsOfList, List.mem_append] at h
    rcases h with h | h
    · exact ⟨shape, List.mem_cons_self, index, h⟩
    · obtain ⟨found, hfound, start, hp⟩ := ih h
      exact ⟨found, List.mem_cons_of_mem _ hfound, start, hp⟩

/-- The elements of the shape have roles that fit their types. -/
def RolesFit (P : String → Role → Prop) (shape : Shape) : Prop :=
  ∀ parent index, ∀ p ∈ elements parent index shape, P p.1.nodeType p.1.role

theorem rolesFit_of_children {P : String → Role → Prop} {shape : Shape}
    (hroot : P shape.nodeType shape.role) (h : ∀ child ∈ shape.children, RolesFit P child) :
    RolesFit P shape := by
  intro parent index p hp
  obtain ⟨nodeType, role, span, attached, exported, children⟩ := shape
  rw [elements] at hp
  rcases List.mem_cons.mp hp with rfl | hp
  · exact hroot
  · obtain ⟨child, hchild, start, hp⟩ := mem_elementsOfList hp
    exact h child hchild _ _ p hp

end Shape

/-! ## Roles -/

namespace Node

theorem shape_nodeType (exported : Bool) (node : Node Attached) :
    (shape exported node).nodeType = node.data.type.getD "" := by
  obtain ⟨data, note, fields⟩ := node
  rw [shape]

theorem shape_role (exported : Bool) (node : Node Attached) :
    (shape exported node).role = node.role := by
  obtain ⟨data, note, fields⟩ := node
  rw [shape]

theorem shape_span (exported : Bool) (node : Node Attached) :
    (shape exported node).span = node.data.span := by
  obtain ⟨data, note, fields⟩ := node
  rw [shape]

/-- Classes are declared by the nodes of that type, and by no others. -/
def ClassFits (nodeType : String) (role : Role) : Prop :=
  role.isClass = true ↔ nodeType = "ClassDeclaration"

theorem role_classFits (node : Node Attached) : ClassFits (node.data.type.getD "") node.role := by
  unfold ClassFits role
  split
  case h_6 htype => cases (node.child? "expression").bind thisField? <;> simp [htype, Role.isClass]
  case h_7 hclass _ _ _ _ =>
    cases htype : node.data.type with
    | none => simp [Role.isClass]
    | some type => simpa [htype, Role.isClass] using hclass
  all_goals simp_all [Role.isClass]

/-- Every node has a role that fits its type. -/
def FitsNodes (P : String → Role → Prop) : Prop :=
  ∀ node : Node Attached, P (node.data.type.getD "") node.role

variable {P : String → Role → Prop}

mutual

theorem shape_rolesFit (hP : FitsNodes P) (exported : Bool) :
    ∀ node, (Node.shape exported node).RolesFit P
  | ⟨data, note, fields⟩ => by
    unfold Node.shape
    refine Shape.rolesFit_of_children (hP ⟨data, note, fields⟩) fun child hchild => ?_
    exact shapesOfFields_rolesFit hP _ fields child ((sortByStart_perm _ _).mem_iff.mp hchild)

theorem shapesOfFields_rolesFit (hP : FitsNodes P) (exports : Bool) :
    ∀ fields, ∀ shape ∈ Node.shapesOfFields exports fields, shape.RolesFit P
  | [] => by simp [Node.shapesOfFields]
  | field :: rest => by
    intro shape hshape
    rw [Node.shapesOfFields, List.mem_append] at hshape
    rcases hshape with hshape | hshape
    · exact shapesOfField_rolesFit hP exports field shape hshape
    · exact shapesOfFields_rolesFit hP exports rest shape hshape

theorem shapesOfField_rolesFit (hP : FitsNodes P) (exports : Bool) :
    ∀ field, ∀ shape ∈ Node.shapesOfField exports field, shape.RolesFit P
  | (label, slot) => by
    rw [Node.shapesOfField]
    exact shapesOfSlot_rolesFit hP _ slot

theorem shapesOfSlot_rolesFit (hP : FitsNodes P) (exported : Bool) :
    ∀ slot, ∀ shape ∈ Node.shapesOfSlot exported slot, shape.RolesFit P
  | .one node => by
    intro shape hshape
    rw [Node.shapesOfSlot] at hshape
    split at hshape
    · rw [List.mem_singleton.mp hshape]
      exact shape_rolesFit hP exported node
    · simp at hshape
  | .many nodes => by
    rw [Node.shapesOfSlot]
    exact shapesOfList_rolesFit hP nodes

theorem shapesOfList_rolesFit (hP : FitsNodes P) :
    ∀ nodes, ∀ shape ∈ Node.shapesOfList nodes, shape.RolesFit P
  | [] => by simp [Node.shapesOfList]
  | node :: rest => by
    intro shape hshape
    rw [Node.shapesOfList] at hshape
    split at hshape
    · rcases List.mem_cons.mp hshape with rfl | hshape
      · exact shape_rolesFit hP false node
      · exact shapesOfList_rolesFit hP rest shape hshape
    · exact shapesOfList_rolesFit hP rest shape hshape

end

end Node

/-! ## Trees -/

namespace SourceTree

/-- Every element stands at the place that its number gives. -/
def Numbered (tree : SourceTree) : Prop :=
  ∀ i e, tree.element? i = some e → e.index = i

/-- The class declarations are the elements of that type. -/
def ClassesFit (tree : SourceTree) : Prop :=
  ∀ e ∈ tree.elements, Node.ClassFits e.nodeType e.role

theorem Numbered.element?_index {tree : SourceTree} (h : tree.Numbered) {e : Element}
    (he : e ∈ tree.elements) : tree.element? e.index = some e := by
  obtain ⟨i, hi⟩ := List.mem_iff_getElem?.mp he
  rw [h i e hi]
  exact hi

theorem chain_subset (tree : SourceTree) (count : Nat) (index : Option Nat) :
    tree.chain count index ⊆ tree.elements := by
  induction count generalizing index with
  | zero => simp [chain]
  | succ count ih =>
    cases index with
    | none => simp [chain]
    | some index =>
      rw [chain]
      split
      · rename_i e he
        exact List.cons_subset.mpr ⟨List.mem_of_getElem? he, ih e.parent⟩
      · simp

theorem ancestors_subset (tree : SourceTree) (e : Element) : tree.ancestors e ⊆ tree.elements :=
  tree.chain_subset _ _

end SourceTree

theorem Program.tree_numbered (program : Program) : program.tree.Numbered := by
  intro i e he
  have hindex : program.tree.elements.map (·.index) =
      List.range' 0 (program.root.shape false).size := by
    rw [← Shape.elements_index none 0, Program.tree, List.map_map]
    rfl
  have hi : (program.tree.elements.map (·.index))[i]? = some e.index := by
    rw [List.getElem?_map, ← SourceTree.element?, he, Option.map_some]
  rw [hindex] at hi
  obtain ⟨hlt, hi⟩ := List.getElem?_eq_some_iff.mp hi
  simpa using hi.symm

theorem Program.tree_rolesFit (program : Program) {P : String → Role → Prop}
    (hP : Node.FitsNodes P) : ∀ e ∈ program.tree.elements, P e.nodeType e.role := by
  intro e he
  obtain ⟨p, hp, rfl⟩ := List.mem_map.mp he
  exact Node.shape_rolesFit hP false program.root none 0 p hp

theorem Program.tree_classesFit (program : Program) : program.tree.ClassesFit :=
  program.tree_rolesFit Node.role_classFits

/-! ## Programs by hand -/

namespace Node

/-- A node with its fields and the offsets of the comments that lead it. -/
def plain (type : String) (fields : List (String × Slot (Node Attached))) (leading : List Nat) :
    Node Attached :=
  ⟨{ type := some type }, { leading }, fields⟩

/-- An identifier. -/
def named (name : String) : Node Attached :=
  ⟨{ type := some "Identifier", name := some name }, {}, []⟩

/-- A class declaration or expression with its methods. -/
def classOf (type : String) (name : Option String) (methods : List (Node Attached)) :
    Node Attached :=
  let body := plain "ClassBody" [("body", .many methods)] []
  plain type ((name.toList.map fun name => ("id", .one (named name))) ++ [("body", .one body)]) []

/-- A method with its statements and the offsets of the comments that lead it. -/
def methodOf (name : String) (statements : List (Node Attached)) (leading : List Nat) :
    Node Attached :=
  let body := plain "BlockStatement" [("body", .many statements)] []
  let value := plain "FunctionExpression" [("params", .many []), ("body", .one body)] []
  plain "MethodDefinition" [("key", .one (named name)), ("value", .one value)] leading

end Node

/-- A comment on a line of its own. -/
def RawComment.onLine (start line : Nat) (value : String) : RawComment where
  block := false
  value
  span := { start, stop := start + value.length + 2, startLine := line, stopLine := line }

end DocComments
