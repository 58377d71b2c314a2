import DocComments.Proofs.Ancestry
import DocComments.Proofs.Blocks
import DocComments.Proofs.Outcome

/-!
# Trees that differ in their numbers

The number of an element says where it stands, and an extraction uses it only to tell elements
apart. So two trees give the same result if the elements of one are those of the other with other
numbers, even if elements without a role are put between some of them and their parents.

* `Around`: the elements around an element, with others of no role among them.
* `linkNoting_renumber`, `linkAll_renumber`: one declaration, and the declarations of a block, are
  linked alike, notes and failures included.
* `Renumbered.exists_matches`: what lies around an element is the same in both trees.
* `Renumbered.extract_eq`: the two extractions are equal.
-/

namespace DocComments

variable {φ : Nat → Nat}

/-! ## Elements and what lies around them -/

/-- The second element is the first one with the new number, apart from its parent, its children
and what it exports. -/
structure Element.Alike (φ : Nat → Nat) (e e' : Element) : Prop where
  index : e'.index = φ e.index
  nodeType : e'.nodeType = e.nodeType
  role : e'.role = e.role
  span : e'.span = e.span

/-- The element has no role, and its number is no new number of any other. -/
def Element.IsExtra (φ : Nat → Nat) (x : Element) : Prop :=
  x.role = .other ∧ ∀ i, x.index ≠ φ i

/-- The second list is the first one with new numbers and with elements without a role put in. -/
inductive Around (φ : Nat → Nat) : List Element → List Element → Prop where
  | nil : Around φ [] []
  | cons {a a' : Element} {as as' : List Element} (h : a.Alike φ a') (hs : Around φ as as') :
      Around φ (a :: as) (a' :: as')
  | extra {x : Element} {as as' : List Element} (h : x.IsExtra φ) (hs : Around φ as as') :
      Around φ as (x :: as')

namespace Element

variable {e e' : Element}

theorem Alike.exists_eq (h : e.Alike φ e') : ∃ parent children exported,
    e' = ⟨φ e.index, e.nodeType, e.role, e.span, parent, children, exported⟩ := by
  obtain ⟨index, nodeType, role, span, parent, children, exported⟩ := e'
  obtain ⟨rfl, rfl, rfl, rfl⟩ := h
  exact ⟨parent, children, exported, rfl⟩

theorem Alike.place (h : e.Alike φ e') : e'.place = e.place := by
  obtain ⟨_, _, _, rfl⟩ := h.exists_eq
  rfl

theorem Alike.resolveName (h : e.Alike φ e') (identifier : Option String) :
    e'.resolveName identifier = e.resolveName identifier := by
  obtain ⟨_, _, _, rfl⟩ := h.exists_eq
  rfl

theorem Alike.resolveType (h : e.Alike φ e') (spec : String) :
    e'.resolveType spec = e.resolveType spec := by
  obtain ⟨_, _, _, rfl⟩ := h.exists_eq
  rfl

theorem Alike.heading (h : e.Alike φ e') : e'.heading = e.heading := by
  obtain ⟨_, _, _, rfl⟩ := h.exists_eq
  rfl

end Element

theorem Around.find?_isClass {as as' : List Element} (h : Around φ as as') :
    (as.find? (·.role.isClass) = none ∧ as'.find? (·.role.isClass) = none) ∨
      ∃ c c', as.find? (·.role.isClass) = some c ∧ as'.find? (·.role.isClass) = some c' ∧
        c.Alike φ c' := by
  induction h with
  | nil => exact Or.inl ⟨rfl, rfl⟩
  | @cons a a' as as' h _ ih =>
    rw [List.find?_cons, List.find?_cons, h.role]
    split
    · exact Or.inr ⟨a, a', rfl, rfl, h⟩
    · exact ih
  | @extra x as as' h _ ih =>
    have hother : x.role.isClass = false := by rw [h.1]; rfl
    simpa [List.find?_cons, hother] using ih

/-! ## Links -/

namespace Links

/-- The links with new numbers in the table. -/
def renumber (φ : Nat → Nat) (links : Links) : Links :=
  { links with table := links.table.map (Prod.map φ id) }

theorem lookup_map_injective (hφ : Function.Injective φ) (table : List (Nat × Origin)) (i : Nat) :
    (table.map (Prod.map φ id)).lookup (φ i) = table.lookup i := by
  induction table with
  | nil => rfl
  | cons entry rest ih =>
    obtain ⟨j, o⟩ := entry
    have hsame : (φ i == φ j) = (i == j) := by
      rw [Bool.eq_iff_iff, beq_iff_eq, beq_iff_eq, hφ.eq_iff]
    rw [List.map_cons, Prod.map_apply, List.lookup_cons, List.lookup_cons, ih, hsame]
    rfl

theorem owner?_renumber (hφ : Function.Injective φ) (links : Links) (i : Nat) :
    (links.renumber φ).owner? (φ i) = links.owner? i := by
  rw [owner?, owner?, renumber, ← List.map_reverse, lookup_map_injective hφ]

theorem owner?_renumber_extra (links : Links) {x : Element} (h : x.IsExtra φ) :
    (links.renumber φ).owner? x.index = none := by
  rw [owner?, renumber, List.lookup_eq_none_iff]
  intro entry hentry
  obtain ⟨own, -, rfl⟩ := List.mem_map.mp (List.mem_reverse.mp hentry)
  simpa using h.2 own.1

theorem findSome?_renumber (hφ : Function.Injective φ) (links : Links) (passOver : Role → Bool)
    {as as' : List Element} (h : Around φ as as') :
    ((as'.filter fun a => !passOver a.role).findSome? fun a => (links.renumber φ).owner? a.index) =
      (as.filter fun a => !passOver a.role).findSome? fun a => links.owner? a.index := by
  induction h with
  | nil => rfl
  | @cons a a' as as' h _ ih =>
    simp only [List.filter_cons, h.role]
    split
    · simp only [List.findSome?_cons, h.index, owner?_renumber hφ, ih]
    · exact ih
  | @extra x as as' h _ ih =>
    simp only [List.filter_cons]
    split
    · simp only [List.findSome?_cons, owner?_renumber_extra links h, ih]
    · exact ih

/-! ### Placing a declaration -/

theorem recordUnlessProgram_renumber {e e' : Element} (he : e.Alike φ e') (links : Links)
    (origin : Origin) : (links.renumber φ).recordUnlessProgram e' origin =
      (links.recordUnlessProgram e origin).renumber φ := by
  unfold recordUnlessProgram
  rw [he.role]
  split
  · rfl
  · simp [record, renumber, he.index]

theorem placeBelow_renumber {e e' : Element} (he : e.Alike φ e') (links : Links)
    (parent : Origin) (d : Declaration) :
    (links.renumber φ).placeBelow parent d e' = (links.placeBelow parent d e).renumber φ := by
  have hparameters : constructorParameters? d e' ((links.renumber φ).declaration? parent) =
      constructorParameters? d e (links.declaration? parent) := by
    rw [constructorParameters?, constructorParameters?, he.role]
    rfl
  unfold placeBelow
  rw [hparameters]
  split
  · exact recordUnlessProgram_renumber he (links.update parent _) parent
  · exact recordUnlessProgram_renumber he (links.update parent _) d.origin

/-- The destinations are the same, apart from the number of a class that has to be made up. -/
inductive SameGoal (φ : Nat → Nat) : Destination → Destination → Prop where
  | top : SameGoal φ .top .top
  | below (parent : Origin) : SameGoal φ (.below parent) (.below parent)
  | belowImplied {c c' : Element} (h : c.Alike φ c') (heading : Heading) :
      SameGoal φ (.belowImplied c heading) (.belowImplied c' heading)

theorem place_renumber {e e' : Element} (he : e.Alike φ e') {goal goal' : Destination}
    (h : SameGoal φ goal goal') (links : Links) (d : Declaration) :
    (links.renumber φ).place d e' goal' = (links.place d e goal).renumber φ := by
  cases h with
  | top => exact recordUnlessProgram_renumber he (links.append d) d.origin
  | below parent => exact placeBelow_renumber he links parent d
  | @belowImplied c c' hc heading =>
    have hrecord : ∀ links : Links, ∀ origin, (links.renumber φ).record c'.index origin =
        (links.record c.index origin).renumber φ := by
      intro links origin
      simp [record, renumber, hc.index]
    unfold place
    rw [← placeBelow_renumber he, ← hrecord]
    rfl

end Links

/-! ## Steps of an extraction -/

namespace Traced

variable {α β γ : Type}

/-- The same notes, with the result changed. -/
def map (f : α → β) (x : Traced α) : Traced β :=
  ⟨x.events, x.result.map f⟩

theorem map_bind (f : β → γ) (x : Traced α) (next : α → Traced β) :
    (x >>= next).map f = x >>= fun a => (next a).map f := by
  obtain ⟨events, result⟩ := x
  cases result <;> rfl

theorem bind_map (f : α → β) (x : Traced α) (next : β → Traced γ) :
    x.map f >>= next = x >>= fun a => next (f a) := by
  obtain ⟨events, result⟩ := x
  cases result <;> rfl

end Traced

namespace SourceTree

variable {tree tree' : SourceTree} {e e' : Element}

/-- The elements are alike, and so is what lies around them in their trees. -/
structure Matches (φ : Nat → Nat) (tree tree' : SourceTree) (e e' : Element) : Prop where
  alike : e.Alike φ e'
  around : Around φ (tree.ancestors e) (tree'.ancestors e')

theorem Matches.parent?_renumber (h : Matches φ tree tree' e e') (hφ : Function.Injective φ)
    (links : Links) : (links.renumber φ).parent? tree' e' = links.parent? tree e := by
  rw [Links.parent?, Links.parent?, h.alike.role]
  exact Links.findSome?_renumber hφ links (fun role => e.role.isAssignment && role.isMethod)
    h.around

theorem Matches.enclosingClass? (h : Matches φ tree tree' e e') :
    (tree.enclosingClass? e = none ∧ tree'.enclosingClass? e' = none) ∨
      ∃ c c', tree.enclosingClass? e = some c ∧ tree'.enclosingClass? e' = some c' ∧ c.Alike φ c' :=
  h.around.find?_isClass

/-- A declaration goes to the same place in both trees, or both fail for the same reason. -/
theorem Matches.destination_renumber (h : Matches φ tree tree' e e') (hφ : Function.Injective φ)
    (links : Links) :
    (∃ failure, links.destination tree e = .error failure ∧
      (links.renumber φ).destination tree' e' = .error failure) ∨
    ∃ goal goal', links.destination tree e = .ok goal ∧
      (links.renumber φ).destination tree' e' = .ok goal' ∧ Links.SameGoal φ goal goal' := by
  unfold Links.destination
  rw [h.parent?_renumber hφ]
  cases links.parent? tree e with
  | some parent => exact Or.inr ⟨_, _, rfl, rfl, .below parent⟩
  | none =>
    rcases h.enclosingClass? with ⟨hnone, hnone'⟩ | ⟨c, c', hsome, hsome', hc⟩
    · rw [hnone, hnone']
      exact Or.inr ⟨_, _, rfl, rfl, .top⟩
    · simp only [hsome, hsome', hc.resolveName, hc.resolveType]
      cases c.resolveName none with
      | error failure => exact Or.inl ⟨failure, rfl, rfl⟩
      | ok name =>
        cases c.resolveType "" with
        | error failure => exact Or.inl ⟨failure, rfl, rfl⟩
        | ok type => exact Or.inr ⟨_, _, rfl, rfl, .belowImplied hc _⟩

theorem linkNoting_renumber (hφ : Function.Injective φ) (h : Matches φ tree tree' e e')
    (links : Links) (d : Declaration) :
    tree'.linkNoting e' (links.renumber φ) d =
      (tree.linkNoting e links d).map (Links.renumber φ) := by
  unfold linkNoting
  rcases h.destination_renumber hφ links with
    ⟨failure, hfail, hfail'⟩ | ⟨goal, goal', hgoal, hgoal', hsame⟩
  · rw [hfail, hfail']
    rfl
  · have hplace := Links.place_renumber h.alike hsame links d
    have hnote : noteDestination goal' = noteDestination goal := by cases hsame <;> rfl
    rw [hgoal, hgoal']
    show noteDestination goal' >>= (fun _ => pure ((links.renumber φ).place d e' goal')) =
      (noteDestination goal >>= fun _ => pure (links.place d e goal)).map _
    rw [hnote, hplace, Traced.map_bind]
    rfl

theorem linkAll_renumber (hφ : Function.Injective φ) (h : Matches φ tree tree' e e')
    (declarations : List Declaration) (links : Links) :
    tree'.linkAll e' (links.renumber φ) declarations =
      (tree.linkAll e links declarations).map (Links.renumber φ) := by
  induction declarations generalizing links with
  | nil => rfl
  | cons d rest ih =>
    rw [linkAll, linkAll, linkNoting_renumber hφ h, Traced.bind_map, Traced.map_bind]
    exact congrArg _ (funext ih)

end SourceTree

/-! ## Whole extractions -/

/-- The comment with the new number of its element. -/
def Comment.renumber (φ : Nat → Nat) (comment : Comment) : Comment :=
  { comment with element := φ comment.element }

/-- The block with the new number of its element. -/
def Block.renumber (φ : Nat → Nat) (block : Block) : Block :=
  { block with element := φ block.element }

theorem blocksOfRun_renumber (φ : Nat → Nat) (run : List Comment) :
    SourceTree.blocksOfRun (run.map (·.renumber φ)) =
      (SourceTree.blocksOfRun run).map (·.renumber φ) := by
  cases run with
  | nil => rfl
  | cons c run =>
    have hlines : (run.map (·.renumber φ)).flatMap Comment.lines = run.flatMap Comment.lines :=
      List.flatMap_map ..
    simp only [SourceTree.blocksOfRun, List.map_cons, List.flatMap_cons, hlines, List.map_map]
    rfl

namespace SourceTree

variable {tree tree' : SourceTree} {e e' : Element}

/-- The second tree is the first one with new numbers, and with elements without a role between
some elements and their parents. -/
structure Renumbered (φ : Nat → Nat) (tree tree' : SourceTree) : Prop where
  injective : Function.Injective φ
  preordered : tree.Preordered
  preordered' : tree'.Preordered
  missing : ∀ i, tree.element? i = none → tree'.element? (φ i) = none
  alike : ∀ e ∈ tree.elements, ∃ e' ∈ tree'.elements, e.Alike φ e' ∧
    (e'.parent = e.parent.map φ ∨ ∃ x ∈ tree'.elements, x.IsExtra φ ∧
      e'.parent = some x.index ∧ x.parent = e.parent.map φ)
  comments : tree'.comments = tree.comments.map (·.renumber φ)

namespace Renumbered

variable (h : Renumbered φ tree tree')
include h

theorem matches_of_around (he : e ∈ tree.elements)
    (hup : ∀ y : Element, y.parent = e.parent.map φ →
      Around φ (tree.ancestors e) (tree'.ancestors y)) :
    ∃ e' ∈ tree'.elements, Matches φ tree tree' e e' := by
  obtain ⟨e', he', halike, hparent | ⟨x, hx, hextra, hparent, hxparent⟩⟩ := h.alike e he
  · exact ⟨e', he', halike, hup e' hparent⟩
  · refine ⟨e', he', halike, ?_⟩
    rw [h.preordered'.ancestors_of_parent hx hparent]
    exact .extra hextra (hup x hxparent)

theorem around_of_parent (he : e ∈ tree.elements) (y : Element)
    (hy : y.parent = e.parent.map φ) : Around φ (tree.ancestors e) (tree'.ancestors y) := by
  induction e, he using h.preordered.induction generalizing y with
  | root e he hparent =>
    rw [hparent] at hy
    rw [tree.ancestors_of_root hparent, tree'.ancestors_of_root hy]
    exact .nil
  | child e he a ha hparent ih =>
    obtain ⟨a', ha', hmatch⟩ := h.matches_of_around ha ih
    rw [hparent, Option.map_some, ← hmatch.alike.index] at hy
    rw [h.preordered.ancestors_of_parent ha hparent, h.preordered'.ancestors_of_parent ha' hy]
    exact .cons hmatch.alike hmatch.around

theorem exists_matches (he : e ∈ tree.elements) :
    ∃ e' ∈ tree'.elements, Matches φ tree tree' e e' :=
  h.matches_of_around he (h.around_of_parent he)

theorem element? (i : Nat) :
    (tree.element? i = none ∧ tree'.element? (φ i) = none) ∨
      ∃ e e', tree.element? i = some e ∧ tree'.element? (φ i) = some e' ∧
        Matches φ tree tree' e e' := by
  cases hfound : tree.element? i with
  | none => exact Or.inl ⟨rfl, h.missing i hfound⟩
  | some e =>
    obtain ⟨e', he', hmatch⟩ := h.exists_matches (List.mem_of_getElem? hfound)
    have hfound' := h.preordered'.numbered.element?_index he'
    rw [hmatch.alike.index, h.preordered.numbered i e hfound] at hfound'
    exact Or.inr ⟨e, e', rfl, hfound', hmatch⟩

theorem extractBlock_renumber (number : Nat) (block : Block) (links : Links) :
    tree'.extractBlock number (block.renumber φ) (links.renumber φ) =
      (tree.extractBlock number block links).map (Links.renumber φ) := by
  unfold extractBlock Block.renumber
  rcases h.element? block.element with ⟨hnone, hnone'⟩ | ⟨e, e', hsome, hsome', hmatch⟩
  · simp only [hnone, hnone']
    rfl
  · simp only [hsome, hsome', hmatch.alike.heading, hmatch.alike.place, Traced.map_bind,
      linkAll_renumber h.injective hmatch, Traced.bind_map]
    refine congrArg _ (funext fun lines => congrArg _ (funext fun after => ?_))
    split
    · rfl
    · split <;> rfl

theorem extractBlocks_renumber (blocks : List (Block × Nat)) (links : Links) :
    tree'.extractBlocks (links.renumber φ) (blocks.map (Prod.map (·.renumber φ) id)) =
      (tree.extractBlocks links blocks).map (Links.renumber φ) := by
  induction blocks generalizing links with
  | nil => rfl
  | cons p rest ih =>
    obtain ⟨block, number⟩ := p
    rw [List.map_cons, Prod.map_apply, extractBlocks, extractBlocks, id, h.extractBlock_renumber,
      Traced.bind_map, Traced.map_bind]
    exact congrArg _ (funext ih)

theorem blocks_renumber : tree'.blocks = tree.blocks.map (·.renumber φ) := by
  have hruns : tree'.runs = tree.runs.map (List.map (·.renumber φ)) := by
    rw [runs, runs, h.comments, splitBy_map]
    simp only [Comment.renumber, h.injective.beq_eq]
  rw [blocks, blocks, hruns, List.flatMap_map, List.map_flatMap]
  simp only [blocksOfRun_renumber]

/-- The two extractions are equal, in the notes they take and in how they end. -/
theorem extract_eq : tree'.extract = tree.extract := by
  have hblocks := h.extractBlocks_renumber tree.blocks.zipIdx {}
  have hempty : ({} : Links).renumber φ = {} := rfl
  rw [hempty] at hblocks
  rw [extract, extract, h.blocks_renumber, List.length_map, List.zipIdx_map, hblocks,
    Traced.bind_map]
  rfl

end Renumbered

end SourceTree

end DocComments
