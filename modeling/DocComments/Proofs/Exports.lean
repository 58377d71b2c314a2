import DocComments.Proofs.Forest
import DocComments.Proofs.Renumbering
import Mathlib.Data.List.Forall2

/-!
# Exported declarations

An export statement around a declaration takes over the comments of the declaration and covers the
same part of the source. It becomes an element of its own, so all later elements get the next
number, and one element is added around those of the declaration. Comments find their way through
it: those attached to the statement are handed on, and the others see the declaration inside it.

* `sortByStart_gap`: where an item comes among the others depends only on where it starts.
* `elements_renumber`: the elements of a shape that is moved are moved alike.
* `Wraps`: how the elements of the two programs correspond.
* `Wraps.placed_renumber`: a comment belongs to the same element in both.
* `Gap.extract_exporting`: the two extractions are equal.
-/

namespace DocComments

/-! ## Sorting -/

section Sorting

variable {α : Type} (start : α → Nat)

theorem insertByStart_self (n : Nat) (items : List α) :
    ∃ left right, ∀ x, start x = n → insertByStart start x items = left ++ x :: right := by
  induction items with
  | nil => exact ⟨[], [], fun _ _ => rfl⟩
  | cons y rest ih =>
    by_cases hle : n ≤ start y
    · refine ⟨[], y :: rest, fun x hx => ?_⟩
      rw [insertByStart, hx, if_pos hle, List.nil_append]
    · obtain ⟨left, right, h⟩ := ih
      refine ⟨y :: left, right, fun x hx => ?_⟩
      rw [insertByStart, hx, if_neg hle, h x hx, List.cons_append]

theorem insertByStart_other (n : Nat) (y : α) (before after : List α) :
    ∃ left right, ∀ x, start x = n →
      insertByStart start y (before ++ x :: after) = left ++ x :: right := by
  induction before with
  | nil =>
    by_cases hle : start y ≤ n
    · refine ⟨[y], after, fun x hx => ?_⟩
      rw [List.nil_append, insertByStart, hx, if_pos hle, List.singleton_append]
    · refine ⟨[], insertByStart start y after, fun x hx => ?_⟩
      rw [List.nil_append, insertByStart, hx, if_neg hle, List.nil_append]
  | cons z rest ih =>
    by_cases hle : start y ≤ start z
    · refine ⟨y :: z :: rest, after, fun x _ => ?_⟩
      rw [List.cons_append, insertByStart, if_pos hle, List.cons_append, List.cons_append]
    · obtain ⟨left, right, h⟩ := ih
      refine ⟨z :: left, right, fun x hx => ?_⟩
      rw [List.cons_append, insertByStart, if_neg hle, h x hx, List.cons_append]

theorem sortByStart_gap (n : Nat) (before after : List α) :
    ∃ left right, ∀ x, start x = n →
      sortByStart start (before ++ x :: after) = left ++ x :: right := by
  induction before with
  | nil => exact insertByStart_self start n (sortByStart start after)
  | cons y rest ih =>
    obtain ⟨left, right, h⟩ := ih
    obtain ⟨left', right', h'⟩ := insertByStart_other start n y left right
    refine ⟨left', right', fun x hx => ?_⟩
    rw [← h' x hx, ← h x hx]
    rfl

end Sorting

/-! ## Elements that are moved -/

/-- The element with new numbers. -/
def Element.renumber (φ : Nat → Nat) (e : Element) : Element :=
  { e with
    index := φ e.index
    parent := e.parent.map φ
    children := e.children.map φ
    exported := e.exported.map φ }

/-- The `count` numbers from `index` on are moved together, to the numbers from `index'` on. -/
def Moves (φ : Nat → Nat) (index index' count : Nat) : Prop :=
  ∀ j < count, φ (index + j) = index' + j

namespace Moves

variable {φ : Nat → Nat} {index index' count more : Nat}

theorem first (h : Moves φ index index' count) (hpos : 0 < count) : φ index = index' :=
  h 0 hpos

theorem left (h : Moves φ index index' (count + more)) : Moves φ index index' count :=
  fun j hj => h j (by omega)

theorem right (h : Moves φ index index' (count + more)) :
    Moves φ (index + count) (index' + count) more := by
  intro j hj
  rw [Nat.add_assoc, h (count + j) (by omega), Nat.add_assoc]

end Moves

namespace Shape

variable {φ : Nat → Nat}

theorem indices_renumber {index index' : Nat} {shapes : List Shape}
    (h : Moves φ index index' (sizes shapes)) :
    indices index' shapes = (indices index shapes).map φ := by
  induction shapes generalizing index index' with
  | nil => rfl
  | cons shape rest ih =>
    rw [sizes] at h
    rw [indices, indices, List.map_cons, h.left.first shape.size_pos, ih h.right]

theorem exportedIndex?_renumber {index index' : Nat} {shapes : List Shape}
    (h : Moves φ index index' (sizes shapes)) :
    exportedIndex? index' shapes = (exportedIndex? index shapes).map φ := by
  induction shapes generalizing index index' with
  | nil => rfl
  | cons shape rest ih =>
    rw [sizes] at h
    rw [exportedIndex?, exportedIndex?]
    split
    · rw [Option.map_some, h.left.first shape.size_pos]
    · exact ih h.right

mutual

theorem elements_renumber {parent parent' : Option Nat} {index index' : Nat}
    (hparent : parent' = parent.map φ) : ∀ shape : Shape, Moves φ index index' shape.size →
      elements parent' index' shape =
        (elements parent index shape).map (Prod.map (Element.renumber φ) id)
  | ⟨nodeType, role, span, attached, exported, children⟩ => by
    intro h
    rw [size, Nat.add_comm] at h
    have hindex := h.left.first Nat.one_pos
    have hchildren := elementsOfList_renumber hindex.symm children h.right
    rw [elements, elements, List.map_cons, hchildren, indices_renumber h.right,
      exportedIndex?_renumber h.right, hparent, ← hindex]
    rfl

theorem elementsOfList_renumber {parent parent' index index' : Nat} (hparent : parent' = φ parent) :
    ∀ shapes : List Shape, Moves φ index index' (sizes shapes) →
      elementsOfList parent' index' shapes =
        (elementsOfList parent index shapes).map (Prod.map (Element.renumber φ) id)
  | [] => by
    intro _
    rfl
  | shape :: rest => by
    intro h
    rw [sizes] at h
    have hsome : some parent' = (some parent).map φ := by rw [hparent, Option.map_some]
    rw [elementsOfList, elementsOfList, List.map_append, elements_renumber hsome shape h.left,
      elementsOfList_renumber hparent rest h.right]

end

theorem sizes_append (shapes more : List Shape) :
    sizes (shapes ++ more) = sizes shapes + sizes more := by
  induction shapes with
  | nil => simp [sizes]
  | cons shape rest ih => rw [List.cons_append, sizes, sizes, ih, Nat.add_assoc]

theorem elementsOfList_append (parent index : Nat) (shapes more : List Shape) :
    elementsOfList parent index (shapes ++ more) =
      elementsOfList parent index shapes ++ elementsOfList parent (index + sizes shapes) more := by
  induction shapes generalizing index with
  | nil => simp [elementsOfList, sizes]
  | cons shape rest ih =>
    rw [List.cons_append, elementsOfList, elementsOfList, ih, sizes, List.append_assoc,
      Nat.add_assoc]

end Shape

/-! ## An element that is wrapped -/

/-- The numbers after one element more is put at the number `k`. -/
def shift (k i : Nat) : Nat :=
  if i < k then i else i + 1

theorem shift_of_lt {k i : Nat} (h : i < k) : shift k i = i :=
  if_pos h

theorem shift_of_le {k i : Nat} (h : k ≤ i) : shift k i = i + 1 :=
  if_neg (Nat.not_lt.mpr h)

theorem shift_injective (k : Nat) : Function.Injective (shift k) := by
  intro i j hij
  unfold shift at hij
  split at hij <;> split at hij <;> omega

theorem shift_ne (k i : Nat) : k ≠ shift k i := by
  unfold shift
  split <;> omega

/-- The two elements cover the same, and comments on them are handed on to the same element. -/
structure Lands (k : Nat) (e e' : Element) : Prop where
  span : e'.span = e.span
  target : e'.exported.getD e'.index = shift k (e.exported.getD e.index)

/-- The second element is the first one with new numbers, with the same comments. -/
structure Kept (k : Nat) (p p' : Element × Attached) : Prop where
  alike : p.1.Alike (shift k) p'.1
  parent : p'.1.parent = p.1.parent.map (shift k)
  exported : p'.1.exported = p.1.exported.map (shift k)
  attached : p'.2 = p.2

theorem Kept.lands {k : Nat} {p p' : Element × Attached} (h : Kept k p p') : Lands k p.1 p'.1 := by
  refine ⟨h.alike.span, ?_⟩
  rw [h.exported, h.alike.index]
  cases p.1.exported <;> rfl

/-- The elements of two programs. Those of the second are those of the first, but for one element
that stands inside another one there, which has taken over its comments. -/
inductive Wraps (k : Nat) : List (Element × Attached) → List (Element × Attached) → Prop where
  | mk {before before' after after' : List (Element × Attached)} {note : Attached}
      {e outer inner : Element} (hbefore : List.Forall₂ (Kept k) before before')
      (hafter : List.Forall₂ (Kept k) after after') (halike : e.Alike (shift k) inner)
      (hinner : Lands k e inner) (houter : Lands k e outer) (hextra : outer.IsExtra (shift k))
      (hparent : inner.parent = some outer.index) (hup : outer.parent = e.parent.map (shift k)) :
      Wraps k (before ++ (e, note) :: after) (before' ++ (outer, note) :: (inner, {}) :: after')

theorem rel_or {α β : Type} {R : α → β → Prop} {a b : Option α} {a' b' : Option β}
    (ha : Option.Rel R a a') (hb : Option.Rel R b b') : Option.Rel R (a.or b) (a'.or b') := by
  cases ha with
  | none => exact hb
  | some h => exact .some h

/-- The elements land the same, and the comment stands the same to both. -/
def LandsAs (k : Nat) (t t' : Element × Placement) : Prop :=
  Lands k t.1 t'.1 ∧ t'.2 = t.2

theorem rel_placement {k : Nat} {o o' : Option Element} (h : Option.Rel (Lands k) o o')
    (placement : Placement) :
    Option.Rel (LandsAs k) (o.map (·, placement)) (o'.map (·, placement)) := by
  cases h with
  | none => exact .none
  | some hlands => exact .some ⟨hlands, rfl⟩

theorem rel_filter {k : Nat} {o o' : Option Element} (h : Option.Rel (Lands k) o o') (line : Nat) :
    Option.Rel (Lands k) (o.filter (·.span.stopLine = line))
      (o'.filter (·.span.stopLine = line)) := by
  cases h with
  | none => exact .none
  | some hlands =>
    rw [Option.filter_some, Option.filter_some, hlands.span]
    split
    · exact .some hlands
    · exact .none

theorem find?_lands {k : Nat} {pairs pairs' : List (Element × Attached)}
    (h : List.Forall₂ (Kept k) pairs pairs') (test : Span → Attached → Bool) :
    Option.Rel (Lands k) ((pairs.find? fun p => test p.1.span p.2).map (·.1))
      ((pairs'.find? fun p => test p.1.span p.2).map (·.1)) := by
  induction h with
  | nil => exact .none
  | @cons p p' rest rest' hp _ ih =>
    rw [List.find?_cons, List.find?_cons, hp.alike.span, hp.attached]
    split
    · exact .some hp.lands
    · exact ih

/-- The first of its elements that a comment belongs to. -/
theorem RawComment.target?_eq_or (comment : RawComment) (pairs : List (Element × Attached)) :
    comment.target? pairs =
      (((comment.attachedTo? pairs .trailing).filter
          (·.span.stopLine = comment.span.startLine)).map (·, .trailing)).or
        (((comment.attachedTo? pairs .leading).map (·, .leading)).or
          (((comment.attachedTo? pairs .trailing).map (·, .trailing)).or
            (((comment.attachedTo? pairs .dangling).map (·, .dangling)).or
              ((comment.innermost? pairs).map (·, .dangling))))) := by
  unfold RawComment.target?
  simp only [List.findSome?_cons, List.findSome?_nil]
  cases (comment.attachedTo? pairs .trailing).filter (·.span.stopLine = comment.span.startLine)
  · cases comment.attachedTo? pairs .leading
    · cases comment.attachedTo? pairs .trailing
      · cases comment.attachedTo? pairs .dangling <;> rfl
      · rfl
    · rfl
  · rfl

namespace Wraps

variable {k : Nat} {pairs pairs' : List (Element × Attached)}

/-- The last element that passes a test is found alike in both programs. Where the element passes,
what is around it or the element inside passes, and both land the same. -/
theorem find?_lands (h : Wraps k pairs pairs') (test : Span → Attached → Bool)
    (htest : ∀ span note, test span {} = true → test span note = true) :
    Option.Rel (Lands k) ((pairs.reverse.find? fun p => test p.1.span p.2).map (·.1))
      ((pairs'.reverse.find? fun p => test p.1.span p.2).map (·.1)) := by
  obtain ⟨hbefore, hafter, halike, hinner, houter, hextra, hparent, hup⟩ := h
  rename_i before before' after after' note e outer inner
  have hfirst := DocComments.find?_lands (List.forall₂_reverse_iff.mpr hbefore) test
  have hlast := DocComments.find?_lands (List.forall₂_reverse_iff.mpr hafter) test
  have hmiddle : Option.Rel (Lands k) (([(e, note)].find? fun p => test p.1.span p.2).map (·.1))
      (([(inner, ({} : Attached)), (outer, note)].find? fun p => test p.1.span p.2).map (·.1)) := by
    simp only [List.find?_cons, hinner.span, houter.span, List.find?_nil]
    cases hempty : test e.span {} with
    | true => simpa [htest e.span note hempty] using hinner
    | false =>
      cases test e.span note with
      | true => simpa using houter
      | false => simp
  have hsplit : (before ++ (e, note) :: after).reverse =
      after.reverse ++ ([(e, note)] ++ before.reverse) := by simp
  have hsplit' : (before' ++ (outer, note) :: (inner, {}) :: after').reverse =
      after'.reverse ++ ([(inner, {}), (outer, note)] ++ before'.reverse) := by simp
  rw [hsplit, hsplit']
  simp only [List.find?_append, Option.map_or]
  exact rel_or hlast (rel_or hmiddle hfirst)

/-! ### Comments -/

theorem attachedTo?_lands (h : Wraps k pairs pairs') (comment : RawComment)
    (placement : Placement) : Option.Rel (Lands k) (comment.attachedTo? pairs placement)
      (comment.attachedTo? pairs' placement) := by
  have hnone : (({} : Attached).standing placement).contains comment.span.start = false := by
    cases placement <;> rfl
  refine h.find?_lands (fun _ note => (note.standing placement).contains comment.span.start) ?_
  intro _ _ hempty
  rw [hnone] at hempty
  cases hempty

theorem head?_lands (h : Wraps k pairs pairs') :
    Option.Rel (Lands k) (pairs.head?.map (·.1)) (pairs'.head?.map (·.1)) := by
  obtain ⟨hbefore, hafter, halike, hinner, houter, hextra, hparent, hup⟩ := h
  cases hbefore with
  | nil => exact .some houter
  | cons hp _ => exact .some hp.lands

theorem innermost?_lands (h : Wraps k pairs pairs') (comment : RawComment) :
    Option.Rel (Lands k) (comment.innermost? pairs) (comment.innermost? pairs') := by
  have hfind := h.find?_lands
    (fun span _ => span.start ≤ comment.span.start && comment.span.stop ≤ span.stop)
    fun _ _ hwithin => hwithin
  rw [RawComment.innermost?, RawComment.innermost?]
  simp only [Option.orElse_eq_or, Option.map_or]
  exact rel_or hfind h.head?_lands

theorem target?_lands (h : Wraps k pairs pairs') (comment : RawComment) :
    Option.Rel (LandsAs k) (comment.target? pairs) (comment.target? pairs') := by
  have hon := h.attachedTo?_lands comment
  rw [RawComment.target?_eq_or, RawComment.target?_eq_or]
  exact rel_or (rel_placement (rel_filter (hon .trailing) _) _)
    (rel_or (rel_placement (hon .leading) _) (rel_or (rel_placement (hon .trailing) _)
      (rel_or (rel_placement (hon .dangling) _) (rel_placement (h.innermost?_lands comment) _))))

theorem placed_renumber (h : Wraps k pairs pairs') (hk : 0 < k) (comment : RawComment) :
    comment.placed pairs' = (comment.placed pairs).renumber (shift k) := by
  have htarget := h.target?_lands comment
  unfold RawComment.placed
  revert htarget
  generalize comment.target? pairs = target
  generalize comment.target? pairs' = target'
  intro htarget
  cases htarget with
  | none => simp [Comment.renumber, shift_of_lt hk]
  | @some t t' ht =>
    obtain ⟨e, placement⟩ := t
    obtain ⟨e', placement'⟩ := t'
    obtain ⟨hlands, rfl⟩ := ht
    simp [Comment.renumber, hlands.target]

/-! ### Trees -/

theorem exists_kept {before before' : List (Element × Attached)}
    (h : List.Forall₂ (Kept k) before before') {p : Element × Attached} (hp : p ∈ before) :
    ∃ p' ∈ before', Kept k p p' := by
  induction h with
  | nil => cases hp
  | @cons q q' rest rest' hq _ ih =>
    rcases List.mem_cons.mp hp with rfl | hp
    · exact ⟨q', List.mem_cons_self, hq⟩
    · obtain ⟨p', hp', hkept⟩ := ih hp
      exact ⟨p', List.mem_cons_of_mem _ hp', hkept⟩

theorem length_eq (h : Wraps k pairs pairs') : pairs'.length = pairs.length + 1 := by
  obtain ⟨hbefore, hafter, -, -, -, -, -, -⟩ := h
  have := hbefore.length_eq
  have := hafter.length_eq
  simp
  omega

theorem exists_alike (h : Wraps k pairs pairs') {e : Element} (he : e ∈ pairs.map (·.1)) :
    ∃ e' ∈ pairs'.map (·.1), e.Alike (shift k) e' ∧
      (e'.parent = e.parent.map (shift k) ∨ ∃ x ∈ pairs'.map (·.1), x.IsExtra (shift k) ∧
        e'.parent = some x.index ∧ x.parent = e.parent.map (shift k)) := by
  obtain ⟨p, hp, rfl⟩ := List.mem_map.mp he
  obtain ⟨hbefore, hafter, halike, hinner, houter, hextra, hparent, hup⟩ := h
  rename_i before before' after after' note e outer inner
  rcases List.mem_append.mp hp with hp | hp
  · obtain ⟨p', hp', hkept⟩ := exists_kept hbefore hp
    exact ⟨p'.1, List.mem_map_of_mem (by simp [hp']), hkept.alike, .inl hkept.parent⟩
  · rcases List.mem_cons.mp hp with rfl | hp
    · exact ⟨inner, by simp, halike, .inr ⟨outer, by simp, hextra, hparent, hup⟩⟩
    · obtain ⟨p', hp', hkept⟩ := exists_kept hafter hp
      exact ⟨p'.1, List.mem_map_of_mem (by simp [hp']), hkept.alike, .inl hkept.parent⟩

end Wraps

theorem Program.renumbered_of_wraps {k : Nat} {program program' : Program} (hk : 0 < k)
    (hlt : k < program.elements.length) (h : Wraps k program.elements program'.elements)
    (hcomments : program'.comments = program.comments) :
    program.tree.Renumbered (shift k) program'.tree where
  injective := shift_injective k
  preordered := program.tree_preordered
  preordered' := program'.tree_preordered
  missing := by
    intro i hi
    have hlength := h.length_eq
    simp only [SourceTree.element?, Program.tree, List.getElem?_eq_none_iff,
      List.length_map] at hi ⊢
    rw [shift_of_le (by omega)]
    omega
  alike := fun e he => h.exists_alike he
  comments := by
    have hsort := sortByStart_map (fun c : Comment => c.raw.span.start)
      (Comment.renumber (shift k)) (fun c => c.raw.span.start) (fun _ => rfl)
      ((program.comments.filter fun c => !c.isStarred).map (·.placed program.elements))
    rw [List.map_map] at hsort
    rw [Program.tree, Program.tree, hcomments]
    simp only [h.placed_renumber hk]
    exact hsort

/-! ## Shapes -/

namespace Shape

theorem exportedIndex?_eq_none {shapes : List Shape} (h : ∀ shape ∈ shapes, shape.exported = false)
    (first : Nat) : exportedIndex? first shapes = none := by
  induction shapes generalizing first with
  | nil => rfl
  | cons shape rest ih =>
    rw [List.forall_mem_cons] at h
    rw [exportedIndex?, if_neg (by simp [h.1]), ih h.2]

/-- The shape of an export statement around a declaration, whose comments it takes over. -/
def wrapped (shape : Shape) : Shape where
  nodeType := "ExportNamedDeclaration"
  role := .other
  span := shape.span
  attached := shape.attached
  exported := false
  children := [{ shape with attached := {}, exported := true }]

theorem size_wrapped (shape : Shape) : shape.wrapped.size = shape.size + 1 := by
  obtain ⟨nodeType, role, span, attached, exported, children⟩ := shape
  rw [wrapped, size, size, sizes, sizes, size]

theorem forall₂_kept (k : Nat) (pairs : List (Element × Attached)) :
    List.Forall₂ (Kept k) pairs (pairs.map (Prod.map (Element.renumber (shift k)) id)) := by
  rw [List.forall₂_map_right_iff, List.forall₂_same]
  intro p _
  exact ⟨⟨rfl, rfl, rfl, rfl⟩, rfl, rfl, rfl⟩

theorem moves_of_lt {k index count : Nat} (h : index + count ≤ k) :
    Moves (shift k) index index count :=
  fun j hj => shift_of_lt (by omega)

theorem moves_of_le {k index : Nat} (h : k ≤ index) (count : Nat) :
    Moves (shift k) index (index + 1) count := by
  intro j _
  rw [shift_of_le (by omega)]
  omega

/-- The elements of a root, with the root and those before one of its children apart. -/
theorem elements_gap (nodeType : String) (role : Role) (span : Span) (attached : Attached)
    (exported : Bool) (left right : List Shape) (shape : Shape) :
    elements none 0 ⟨nodeType, role, span, attached, exported, left ++ shape :: right⟩ =
      ((⟨0, nodeType, role, span, none, indices 1 (left ++ shape :: right),
          exportedIndex? 1 (left ++ shape :: right)⟩, attached) :: elementsOfList 0 1 left) ++
        (elements (some 0) (1 + sizes left) shape ++
          elementsOfList 0 (1 + sizes left + shape.size) right) := by
  rw [elements, elementsOfList_append, elementsOfList, List.cons_append]

theorem elements_eq_cons (parent : Option Nat) (index : Nat) (shape : Shape) :
    elements parent index shape =
      (⟨index, shape.nodeType, shape.role, shape.span, parent, indices (index + 1) shape.children,
        exportedIndex? (index + 1) shape.children⟩, shape.attached) ::
        elementsOfList index (index + 1) shape.children := by
  obtain ⟨nodeType, role, span, attached, exported, children⟩ := shape
  rw [elements]

/-- Wrapping one of the children of a root wraps one of its elements. -/
theorem wraps_elements {nodeType : String} {role : Role} {span : Span} {attached : Attached}
    {exported : Bool} {left right : List Shape} {shape : Shape}
    (hleft : ∀ s ∈ left, s.exported = false) (hright : ∀ s ∈ right, s.exported = false)
    (hexported : shape.exported = false) (hshape : ∀ s ∈ shape.children, s.exported = false) :
    Wraps (1 + sizes left)
      (elements none 0 ⟨nodeType, role, span, attached, exported, left ++ shape :: right⟩)
      (elements none 0
        ⟨nodeType, role, span, attached, exported, left ++ shape.wrapped :: right⟩) := by
  have hnone : ∀ s : Shape, s.exported = false →
      exportedIndex? 1 (left ++ s :: right) = none := by
    intro s hs
    refine exportedIndex?_eq_none (List.forall_mem_append.mpr ⟨hleft, ?_⟩) 1
    exact List.forall_mem_cons.mpr ⟨hs, hright⟩
  rw [elements_gap, elements_gap, hnone shape hexported, hnone shape.wrapped rfl, size_wrapped]
  generalize hk : 1 + sizes left = k
  have hzero : 0 = shift k 0 := (shift_of_lt (by omega)).symm
  have hself : k + 1 = shift k k := (shift_of_le (Nat.le_refl _)).symm
  have hbefore := elementsOfList_renumber hzero left (moves_of_lt (Nat.le_of_eq hk))
  have hinside := elementsOfList_renumber hself shape.children
    (moves_of_le (Nat.le_succ k) (sizes shape.children))
  have hafter := elementsOfList_renumber hzero right
    (moves_of_le (Nat.le_add_right k shape.size) (sizes right))
  have hinner : elements (some 0) k shape.wrapped =
      (⟨k, "ExportNamedDeclaration", .other, shape.span, some 0, [k + 1], some (k + 1)⟩,
        shape.attached) ::
      (⟨k + 1, shape.nodeType, shape.role, shape.span, some k, indices (k + 2) shape.children,
        exportedIndex? (k + 2) shape.children⟩, {}) ::
      elementsOfList (k + 1) (k + 2) shape.children := by
    simp [elements_eq_cons, wrapped, elementsOfList, indices, exportedIndex?]
  rw [elements_eq_cons (some 0) k shape, hinner, exportedIndex?_eq_none hshape,
    exportedIndex?_eq_none hshape]
  refine .mk (.cons ⟨⟨hzero, rfl, rfl, rfl⟩, rfl, rfl, rfl⟩ ?_) ?_ ⟨hself, rfl, rfl, rfl⟩
    ⟨rfl, hself⟩ ⟨rfl, hself⟩ ⟨rfl, shift_ne k⟩ rfl (congrArg some hzero)
  · have hkept := forall₂_kept k (elementsOfList 0 1 left)
    rwa [← hbefore] at hkept
  · have hkept := forall₂_kept k (elementsOfList k (k + 1) shape.children ++
      elementsOfList 0 (k + shape.size) right)
    rwa [List.map_append, ← hinside, ← hafter] at hkept

end Shape

/-! ## Programs -/

namespace Node

theorem shapesOfList_append (nodes more : List (Node Attached)) :
    shapesOfList (nodes ++ more) = shapesOfList nodes ++ shapesOfList more := by
  induction nodes with
  | nil => simp [shapesOfList]
  | cons node rest ih =>
    rw [List.cons_append, shapesOfList, shapesOfList, ih]
    split <;> rfl

theorem shapesOfFields_append (exports : Bool)
    (fields more : List (String × Slot (Node Attached))) :
    shapesOfFields exports (fields ++ more) =
      shapesOfFields exports fields ++ shapesOfFields exports more := by
  induction fields with
  | nil => simp [shapesOfFields]
  | cons field rest ih =>
    rw [List.cons_append, shapesOfFields, shapesOfFields, ih, List.append_assoc]

theorem shape_attached (exported : Bool) (node : Node Attached) :
    (shape exported node).attached = node.note := by
  obtain ⟨data, note, fields⟩ := node
  rw [shape]

theorem shape_exported (node : Node Attached) : (shape false node).exported = false := by
  obtain ⟨data, note, fields⟩ := node
  rw [shape, Bool.false_and]

theorem shapesOfList_exported (nodes : List (Node Attached)) :
    ∀ s ∈ shapesOfList nodes, s.exported = false := by
  induction nodes with
  | nil => simp [shapesOfList]
  | cons node rest ih =>
    rw [shapesOfList]
    split
    · exact List.forall_mem_cons.mpr ⟨node.shape_exported, ih⟩
    · exact ih

theorem shapesOfFields_exported (fields : List (String × Slot (Node Attached))) :
    ∀ s ∈ shapesOfFields false fields, s.exported = false := by
  induction fields with
  | nil => simp [shapesOfFields]
  | cons field rest ih =>
    obtain ⟨label, slot⟩ := field
    rw [shapesOfFields, shapesOfField, Bool.false_and, List.forall_mem_append]
    refine ⟨?_, ih⟩
    cases slot with
    | one node =>
      rw [shapesOfSlot]
      split
      · exact List.forall_mem_singleton.mpr node.shape_exported
      · simp
    | many nodes =>
      rw [shapesOfSlot]
      exact shapesOfList_exported nodes

/-- Only an export statement exports a child. -/
theorem children_exported {node : Node Attached} (h : isExport node.data.type = false)
    (exported : Bool) : ∀ s ∈ (shape exported node).children, s.exported = false := by
  obtain ⟨data, note, fields⟩ := node
  intro s hs
  rw [shape] at hs
  have hs := (sortByStart_perm _ _).mem_iff.mp hs
  rw [show isExport data.type = false from h] at hs
  exact shapesOfFields_exported fields s hs

theorem isSome_of_isExportable {type : Option String} (h : isExportable type = true) :
    type.isSome = true ∧ isExport type = false := by
  simp only [isExportable, Bool.or_eq_true, beq_iff_eq] at h
  rcases h with (rfl | rfl) | rfl <;> exact ⟨rfl, rfl⟩

/-- An export statement around a declaration. It covers the same part of the source and has taken
over the comments. Its other fields are lists without nodes. -/
def exporting (labels : List String) (node : Node Attached) : Node Attached where
  data := { type := some "ExportNamedDeclaration", span := node.data.span }
  note := node.note
  fields := ("declaration", .one { node with note := {} }) :: labels.map (·, .many [])

theorem shape_exporting (labels : List String) {node : Node Attached}
    (h : isExportable node.data.type = true) :
    shape false (node.exporting labels) = (shape false node).wrapped := by
  obtain ⟨data, note, fields⟩ := node
  have hlabels : shapesOfFields true (labels.map (·, .many [])) = [] := by
    induction labels with
    | nil => simp [shapesOfFields]
    | cons label rest ih => simp [shapesOfFields, shapesOfField, shapesOfSlot, shapesOfList, ih]
  have hsome : data.type.isSome = true := (isSome_of_isExportable h).1
  have hfields : shapesOfFields true
      (("declaration", .one ⟨data, {}, fields⟩) :: labels.map (·, .many [])) =
        [shape true ⟨data, {}, fields⟩] := by
    rw [shapesOfFields, shapesOfField, shapesOfSlot, hlabels, if_pos hsome]
    rfl
  have hinner : shape true ⟨data, {}, fields⟩ =
      { shape false ⟨data, note, fields⟩ with attached := {}, exported := true } := by
    rw [shape, shape, show isExportable data.type = true from h]
    rfl
  have hexports : isExport (some "ExportNamedDeclaration") = true := rfl
  show shape false ⟨{ type := some "ExportNamedDeclaration", span := data.span }, note,
    ("declaration", .one ⟨data, {}, fields⟩) :: labels.map (·, .many [])⟩ = _
  rw [shape, hexports, hfields, hinner, Shape.wrapped, shape_span, shape_attached]
  rfl

end Node

/-- A program with a gap among the statements of its body. -/
structure Gap where
  data : NodeData
  note : Attached
  /-- The fields before the body. -/
  before : List (String × Slot (Node Attached))
  left : List (Node Attached)
  right : List (Node Attached)
  /-- The fields after the body. -/
  after : List (String × Slot (Node Attached))
  comments : List RawComment

namespace Gap

/-- The program with a statement in the gap. -/
def fill (gap : Gap) (statement : Node Attached) : Program where
  root := ⟨gap.data, gap.note,
    gap.before ++ ("body", .many (gap.left ++ statement :: gap.right)) :: gap.after⟩
  comments := gap.comments

/-- A statement stands among the children of the root by where it starts. -/
theorem exists_shape (gap : Gap) (hroot : gap.data.type = some "Program") (start : Nat) :
    ∃ left right, ∀ node : Node Attached, node.data.type.isSome = true →
      node.data.span.start = start → (gap.fill node).root.shape false =
        ⟨"Program", .program, gap.data.span, gap.note, false,
          left ++ node.shape false :: right⟩ := by
  obtain ⟨data, note, before, left, right, after, comments⟩ := gap
  dsimp only at hroot
  obtain ⟨left', right', h⟩ := sortByStart_gap (fun s : Shape => s.span.start) start
    (Node.shapesOfFields false before ++ Node.shapesOfList left)
    (Node.shapesOfList right ++ Node.shapesOfFields false after)
  refine ⟨left', right', fun node hsome hstart => ?_⟩
  have hspan : (node.shape false).span.start = start := by rw [Node.shape_span, hstart]
  have hshapes : Node.shapesOfFields false
      (before ++ ("body", .many (left ++ node :: right)) :: after) =
        (Node.shapesOfFields false before ++ Node.shapesOfList left) ++ node.shape false ::
          (Node.shapesOfList right ++ Node.shapesOfFields false after) := by
    rw [Node.shapesOfFields_append, Node.shapesOfFields, Node.shapesOfField, Node.shapesOfSlot,
      Node.shapesOfList_append, Node.shapesOfList, if_pos hsome]
    simp
  have hexport : Node.isExport (some "Program") = false := rfl
  rw [fill, Node.shape, hroot, hexport, hshapes, h _ hspan]
  simp [Node.role, hroot]

theorem renumbered_exporting (gap : Gap) (hroot : gap.data.type = some "Program")
    {declaration : Node Attached} (h : Node.isExportable declaration.data.type = true)
    (labels : List String) : ∃ k, (gap.fill declaration).tree.Renumbered (shift k)
      (gap.fill (declaration.exporting labels)).tree := by
  obtain ⟨hsome, hplain⟩ := Node.isSome_of_isExportable h
  obtain ⟨left, right, hshape⟩ := gap.exists_shape hroot declaration.data.span.start
  have hown := hshape declaration hsome rfl
  have hwrapped := hshape (declaration.exporting labels) rfl rfl
  rw [Node.shape_exporting labels h] at hwrapped
  have hexport : Node.isExport (gap.fill declaration).root.data.type = false := by
    show Node.isExport gap.data.type = false
    rw [hroot]
    rfl
  have hchildren := Node.children_exported hexport false
  rw [hown] at hchildren
  obtain ⟨hleft, hrest⟩ := List.forall_mem_append.mp hchildren
  obtain ⟨hself, hright⟩ := List.forall_mem_cons.mp hrest
  have hwraps : Wraps (1 + Shape.sizes left) (gap.fill declaration).elements
      (gap.fill (declaration.exporting labels)).elements := by
    rw [Program.elements, Program.elements, hown, hwrapped]
    exact Shape.wraps_elements hleft hright hself (Node.children_exported hplain false)
  have hlt : 1 + Shape.sizes left < (gap.fill declaration).elements.length := by
    have hpos := (declaration.shape false).size_pos
    rw [Program.elements, hown, Shape.length_elements, Shape.size, Shape.sizes_append, Shape.sizes]
    omega
  exact ⟨_, Program.renumbered_of_wraps (by omega) hlt hwraps rfl⟩

/-- Exporting a declaration of the body changes nothing of what is extracted: the declarations or
the failure are the same, and so are the notes. -/
theorem extract_exporting (gap : Gap) (hroot : gap.data.type = some "Program")
    {declaration : Node Attached} (h : Node.isExportable declaration.data.type = true)
    (labels : List String) :
    (gap.fill (declaration.exporting labels)).extract = (gap.fill declaration).extract := by
  obtain ⟨k, hrenumbered⟩ := gap.renumbered_exporting hroot h labels
  have htraced : ∀ statement, (gap.fill statement).extract =
      ⟨(gap.fill declaration).traced.events ++ (gap.fill statement).tree.extract.events,
        (gap.fill statement).tree.extract.result⟩ := fun _ => rfl
  rw [htraced, htraced, hrenumbered.extract_eq]

/-- A program with a gap between a variable and a documented function. -/
def besideFunction : Gap where
  data := { type := some "Program", span := { start := 0, stop := 200 } }
  note := {}
  before := []
  left := [.plain "VariableDeclaration" [("declarations", .many [])] []]
  right := [.plain "FunctionDeclaration" [("id", .one (.named "make")), ("params", .many [])] [60]]
  after := []
  comments := [.onLine 0 1 " ::", .onLine 20 5 " x:: number", .onLine 60 9 " :: () → A"]

/-- A documented class with a documented method. -/
def documentedClass : Node Attached :=
  { Node.classOf "ClassDeclaration" (some "A") [.methodOf "run" [] [20]] with
    note := { leading := [0] } }

theorem extract_exporting_documentedClass :
    besideFunction.data.type = some "Program" ∧
    Node.isExportable documentedClass.data.type = true ∧
    (besideFunction.fill documentedClass).extract.result.toOption.map Declaration.origins =
      some [{ block := 0, line := 0 }, { block := 1, line := 0 }, { block := 2, line := 0 }] ∧
    (besideFunction.fill (documentedClass.exporting ["specifiers"])).extract =
      (besideFunction.fill documentedClass).extract :=
  ⟨rfl, rfl, by decide +kernel, besideFunction.extract_exporting rfl rfl ["specifiers"]⟩

end Gap

end DocComments
