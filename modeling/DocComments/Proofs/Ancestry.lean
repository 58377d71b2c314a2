import DocComments.Proofs.Elements

/-!
# The elements around an element

In pre-order a parent comes before its children, so the way up from an element ends at the first
element, and no chain is ever cut off. The elements around an element are therefore its parent and
the elements around that.

* `ancestors_of_parent`, `ancestors_of_root`: the way up, one step at a time.
* `Preordered.induction`: what holds of the root and passes from parents to children holds of all.
* `ancestors_trans`, `within_of_child`: the elements around an element below a child of the root
  are the root and elements below that child.
-/

namespace DocComments

/-! ## Parents -/

namespace Shape

mutual

theorem elements_parent (parent : Option Nat) (index : Nat) :
    ∀ shape : Shape, ∀ p ∈ elements parent index shape,
      (p.1.index = index ∧ p.1.parent = parent) ∨
        ∃ q, p.1.parent = some q ∧ index ≤ q ∧ q < p.1.index
  | ⟨_, _, _, _, _, children⟩ => by
    intro p hp
    rw [elements] at hp
    rcases List.mem_cons.mp hp with rfl | hp
    · exact Or.inl ⟨rfl, rfl⟩
    · exact Or.inr (elementsOfList_parent index (index + 1) (Nat.lt_succ_self _) children p hp)

theorem elementsOfList_parent (parent index : Nat) (hlt : parent < index) :
    ∀ shapes : List Shape, ∀ p ∈ elementsOfList parent index shapes,
      ∃ q, p.1.parent = some q ∧ parent ≤ q ∧ q < p.1.index
  | [] => by simp [elementsOfList]
  | shape :: rest => by
    intro p hp
    rw [elementsOfList, List.mem_append] at hp
    rcases hp with hp | hp
    · rcases elements_parent (some parent) index shape p hp with ⟨hindex, hparent⟩ | ⟨q, hq, hle, h⟩
      · exact ⟨parent, hparent, Nat.le_refl _, by omega⟩
      · exact ⟨q, hq, by omega, h⟩
    · exact elementsOfList_parent parent (index + shape.size) (by omega) rest p hp

end

end Shape

namespace SourceTree

/-- Every element stands at the place that its number gives, after its parent. -/
structure Preordered (tree : SourceTree) : Prop where
  numbered : tree.Numbered
  parents : ∀ e ∈ tree.elements, ∀ p, e.parent = some p → p < e.index

variable {tree : SourceTree}

theorem Preordered.index_lt (h : tree.Preordered) {e : Element} (he : e ∈ tree.elements) :
    e.index < tree.elements.length :=
  (List.getElem?_eq_some_iff.mp (h.numbered.element?_index he)).1

theorem Preordered.parent_element (h : tree.Preordered) {e : Element} (he : e ∈ tree.elements)
    {p : Nat} (hp : e.parent = some p) : ∃ a ∈ tree.elements, a.index = p := by
  have hlt := Nat.lt_trans (h.parents e he p hp) (h.index_lt he)
  exact ⟨tree.elements[p], List.getElem_mem hlt, h.numbered p _ (List.getElem?_eq_getElem hlt)⟩

/-- What holds of elements without a parent, and of every element whose parent it holds of, holds of
all elements. -/
@[elab_as_elim]
theorem Preordered.induction (h : tree.Preordered) {P : (e : Element) → e ∈ tree.elements → Prop}
    (root : ∀ e he, e.parent = none → P e he)
    (child : ∀ e he a ha, e.parent = some a.index → P a ha → P e he) : ∀ e he, P e he := by
  intro e he
  induction hi : e.index using Nat.strongRecOn generalizing e with
  | ind i ih =>
    cases hparent : e.parent with
    | none => exact root e he hparent
    | some p =>
      obtain ⟨a, ha, rfl⟩ := h.parent_element he hparent
      exact child e he a ha hparent (ih a.index (hi ▸ h.parents e he _ hparent) a ha rfl)

/-! ## The way up -/

@[simp] theorem chain_none (tree : SourceTree) (count : Nat) : tree.chain count none = [] := by
  cases count <;> rfl

/-- A chain is not cut off if it may be longer than its start has elements before it. -/
theorem Preordered.chain_stable (h : tree.Preordered) (i : Nat) {count enough : Nat}
    (hcount : i < count) (henough : i < enough) :
    tree.chain count (some i) = tree.chain enough (some i) := by
  induction i using Nat.strongRecOn generalizing count enough with
  | ind i ih =>
    obtain ⟨count, rfl⟩ := Nat.exists_eq_add_of_lt hcount
    obtain ⟨enough, rfl⟩ := Nat.exists_eq_add_of_lt henough
    rw [chain, chain]
    cases he : tree.element? i with
    | none => rfl
    | some e =>
      have hlt : ∀ p, e.parent = some p → p < i := by
        intro p hp
        rw [← h.numbered i e he]
        exact h.parents e (List.mem_of_getElem? he) p hp
      cases hparent : e.parent with
      | none => simp [hparent]
      | some p =>
        have hp := hlt p hparent
        have hrest : tree.chain (i + count) (some p) = tree.chain (i + enough) (some p) :=
          ih p hp (by omega) (by omega)
        simp [hparent, hrest]

theorem ancestors_of_root (tree : SourceTree) {e : Element} (h : e.parent = none) :
    tree.ancestors e = [] := by
  rw [ancestors, h, chain_none]

theorem Preordered.ancestors_of_parent (h : tree.Preordered) {e a : Element}
    (ha : a ∈ tree.elements) (hparent : e.parent = some a.index) :
    tree.ancestors e = a :: tree.ancestors a := by
  have hlt := h.index_lt ha
  have hstep : ∀ count, tree.chain (count + 1) (some a.index) = a :: tree.chain count a.parent := by
    intro count
    rw [chain, h.numbered.element?_index ha]
  obtain ⟨count, hcount⟩ : ∃ count, tree.elements.length = count + 1 :=
    Nat.exists_eq_succ_of_ne_zero (by omega)
  rw [ancestors, hparent, hcount, hstep]
  cases hup : a.parent with
  | none =>
    rw [ancestors_of_root tree hup, chain_none]
  | some p =>
    have hp := h.parents a ha p hup
    have hstable : tree.chain count (some p) = tree.chain tree.elements.length (some p) :=
      h.chain_stable p (by omega) (by omega)
    rw [ancestors, hup, hstable]

/-! ## Subtrees -/

/-- Is the second element the first one, or below it? -/
def isWithin (tree : SourceTree) (c e : Element) : Bool :=
  decide (c ∈ e :: tree.ancestors e)

theorem isWithin_iff {c e : Element} :
    tree.isWithin c e = true ↔ c = e ∨ c ∈ tree.ancestors e := by
  simp [isWithin]

theorem Preordered.ancestors_trans (h : tree.Preordered) {e a : Element} (he : e ∈ tree.elements)
    (ha : a ∈ tree.ancestors e) : tree.ancestors a ⊆ tree.ancestors e := by
  induction e, he using h.induction with
  | root e he hparent => simp [tree.ancestors_of_root hparent] at ha
  | child e he b hb hparent ih =>
    rw [h.ancestors_of_parent hb hparent] at ha ⊢
    rcases List.mem_cons.mp ha with rfl | ha
    · exact List.subset_cons_self _ _
    · exact List.subset_cons_of_subset _ (ih ha)

/-- What is below an element that is below another is below that one. -/
theorem Preordered.within_of_ancestor (h : tree.Preordered) {c e a : Element}
    (he : e ∈ tree.elements) (ha : a ∈ tree.ancestors e) (hc : tree.isWithin c a = true) :
    tree.isWithin c e = true := by
  rw [isWithin_iff] at hc ⊢
  rcases hc with rfl | hc
  · exact Or.inr ha
  · exact Or.inr (h.ancestors_trans he ha hc)

/-- Around an element below a child of the root there are only elements below that child and the
root itself. -/
theorem Preordered.within_of_child (h : tree.Preordered) {c e a : Element} (hc : c.parent = some 0)
    (he : e ∈ tree.elements) (hce : tree.isWithin c e = true) (ha : a ∈ tree.ancestors e) :
    a.index = 0 ∨ tree.isWithin c a = true := by
  induction e, he using h.induction with
  | root e he hparent => simp [tree.ancestors_of_root hparent] at ha
  | child e he b hb hparent ih =>
    rw [h.ancestors_of_parent hb hparent] at ha
    rw [isWithin_iff, h.ancestors_of_parent hb hparent] at hce
    rcases hce with rfl | hce
    · -- The parent of the child is the root, and there is nothing around that.
      obtain hroot : b.index = 0 := by simpa [hc] using hparent.symm
      have hnone : b.parent = none := by
        cases hup : b.parent with
        | none => rfl
        | some p => exact absurd (h.parents b hb p hup) (by omega)
      rw [tree.ancestors_of_root hnone] at ha
      rcases List.mem_cons.mp ha with rfl | ha
      · exact Or.inl hroot
      · cases ha
    · have hcb : tree.isWithin c b = true := isWithin_iff.mpr (List.mem_cons.mp hce)
      rcases List.mem_cons.mp ha with rfl | ha
      · exact Or.inr hcb
      · exact ih hcb ha

end SourceTree

theorem Program.tree_preordered (program : Program) : program.tree.Preordered where
  numbered := program.tree_numbered
  parents := by
    intro e he p hp
    obtain ⟨pair, hpair, rfl⟩ := List.mem_map.mp he
    rcases Shape.elements_parent none 0 _ pair hpair with ⟨-, hnone⟩ | ⟨q, hq, -, hlt⟩
    · rw [hnone] at hp
      cases hp
    · rw [hq] at hp
      cases hp
      exact hlt

/-- The first element is the root. -/
theorem Program.tree_root (program : Program) {e : Element}
    (he : program.tree.element? 0 = some e) : e.role = program.root.role ∧ e.parent = none := by
  obtain ⟨⟨data, note, fields⟩, comments⟩ := program
  rw [SourceTree.element?, Program.tree, List.getElem?_map, Program.elements, Node.shape,
    Shape.elements] at he
  cases he
  exact ⟨rfl, rfl⟩

/-! ## Statements of a program -/

/-- The tree is that of a program, and the element is a child of its root. -/
structure SourceTree.IsStatement (tree : SourceTree) (c : Element) : Prop where
  preordered : tree.Preordered
  program : ∀ e, tree.element? 0 = some e → e.role = .program
  child : c.parent = some 0

theorem Program.isStatement (program : Program) (hroot : program.root.hasType "Program" = true)
    {c : Element} (hchild : c.parent = some 0) : program.tree.IsStatement c where
  preordered := program.tree_preordered
  program := by
    intro e he
    have htype : program.root.data.type = some "Program" := by simpa [Node.hasType] using hroot
    rw [(program.tree_root he).1]
    simp [Node.role, htype]
  child := hchild

/-- Around an element of a statement there are only elements of the statement, and the program. -/
theorem SourceTree.IsStatement.around {tree : SourceTree} {c e a : Element}
    (hc : tree.IsStatement c) (he : e ∈ tree.elements) (hce : tree.isWithin c e = true)
    (ha : a ∈ tree.ancestors e) : a.role = .program ∨ tree.isWithin c a = true := by
  refine (hc.preordered.within_of_child hc.child he hce ha).imp_left fun hroot => ?_
  have hfound := hc.preordered.numbered.element?_index (tree.ancestors_subset e ha)
  rw [hroot] at hfound
  exact hc.program a hfound

end DocComments
