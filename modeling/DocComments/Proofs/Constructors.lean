import DocComments.Proofs.Merging

/-!
# Which class gets the parameters of a constructor

A constructor gives its parameters to the declaration of the nearest element around it that has
one, as long as that is a class. This need not be the class that the constructor stands in: where
that class has no declaration, or is an expression, a class further out gets them.

* `merge?_spec`: all that a merge takes and does.
* `constructor_host`: a merge changes one class only, and it is the class of the constructor if
  and only if that class comes first.
-/

namespace DocComments

open Declaration

/-- Is the element a class, declared or not? -/
def Element.isAnyClass (e : Element) : Bool :=
  e.nodeType == "ClassDeclaration" || e.nodeType == "ClassExpression"

/-- The class that directly contains an element. -/
def SourceTree.directClass? (tree : SourceTree) (e : Element) : Option Element :=
  (tree.ancestors e).find? (·.isAnyClass)

namespace Links

variable {links : Links} {tree : SourceTree} {passed : List Declaration}

/-- The declaration from an origin was recorded for the class that directly contains the element,
and that class is a declaration. -/
def HostedDirectly (links : Links) (tree : SourceTree) (e : Element) (p : Origin) : Prop :=
  ∃ c, tree.directClass? e = some c ∧ c.nodeType = "ClassDeclaration" ∧
    (c.index, p) ∈ links.table

/-- The class that directly contains the element is a declaration and comes before all others: it
has a declaration, or no element around has one. If one of the elements within the class has a
declaration, then the class must have had the same one. -/
def OwnClassFirst (links : Links) (tree : SourceTree) (e : Element) (p : Origin) : Prop :=
  ∃ inner c outer, tree.ancestors e = inner ++ c :: outer ∧ (∀ a ∈ inner, a.isAnyClass = false) ∧
    c.nodeType = "ClassDeclaration" ∧
    if ∃ a ∈ inner, (links.owner? a.index).isSome then (c.index, p) ∈ links.table
    else (links.owner? c.index).isSome ∨ links.parent? tree e = none

/-! ## What a merge does -/

theorem prepared_of_merge? {d : Declaration} {e : Element} {p : Origin}
    {parameters : List (Parameter TypeExpr)}
    (h : links.merge? tree d e = some (p, parameters)) :
    ∃ ready, Prepared links tree d e ready p ∧
      constructorParameters? d e (ready.declaration? p) = some parameters ∧
      links.link tree d e = .ok (ready.placeBelow p d e) := by
  unfold merge? at h
  split at h
  · rename_i parent hgoal
    obtain ⟨_, hparameters, heq⟩ := Option.map_eq_some_iff.mp h
    cases heq
    rcases destination_cases hgoal with ⟨-, -, hother⟩ | ⟨q, hparent, heq⟩ | ⟨_, _, -, -, -, hother⟩
    · cases hother
    · cases heq
      exact ⟨links, .found hparent, hparameters, by rw [link, hgoal]; rfl⟩
    · cases hother
  · rename_i c heading hgoal
    obtain ⟨_, hparameters, heq⟩ := Option.map_eq_some_iff.mp h
    cases heq
    rcases destination_cases hgoal with ⟨-, -, hother⟩ | ⟨_, -, hother⟩ |
      ⟨_, name, hparent, hclass, hname, heq⟩
    · cases hother
    · cases hother
    · cases heq
      exact ⟨_, .implied hparent hclass hname, hparameters, by rw [link, hgoal]; rfl⟩
  · cases h

theorem merge?_spec {d : Declaration} {e : Element} {p : Origin}
    {parameters : List (Parameter TypeExpr)}
    (h : links.merge? tree d e = some (p, parameters)) :
    (∃ formals, e.role = .method (some "constructor") formals) ∧
    ∃ ready owner, Prepared links tree d e ready p ∧ ready.declaration? p = some owner ∧
      links.link tree d e =
        .ok ((ready.update p (.setConstructor parameters)).record e.index p) := by
  obtain ⟨ready, hready, hparameters, hlink⟩ := prepared_of_merge? h
  obtain ⟨⟨formals, hrole⟩, -, -, owner, howner, -⟩ :=
    constructorParameters?_eq_some.mp hparameters
  refine ⟨⟨formals, hrole⟩, ready, owner, hready, howner, ?_⟩
  rw [hlink, placeBelow, hparameters]
  simp [recordUnlessProgram, hrole]

/-- The class has the parameters of its constructor after the call. -/
theorem declaration?_of_merge? (h : Sound tree passed links) {d : Declaration}
    (hd : Fresh passed d) {e : Element} (he : e ∈ tree.elements) {p : Origin}
    {parameters : List (Parameter TypeExpr)}
    (hmerge : links.merge? tree d e = some (p, parameters)) {after : Links}
    (hafter : links.link tree d e = .ok after) :
    ∃ owner, after.declaration? p = some owner ∧
      owner.heading.type = .classType (some parameters) := by
  obtain ⟨-, ready, owner, hready, howner, hlink⟩ := merge?_spec hmerge
  obtain ⟨hsound, -, -⟩ := h.prepared hd hready
  obtain ⟨hmem, horigin⟩ := hsound.mem_of_declaration? howner
  have hf := extends_setConstructor parameters
  have hnew : Declaration.update p (setConstructor parameters) owner ∈
      preorderAll after.declarations := by
    rw [hlink] at hafter
    cases hafter
    rw [hsound.update_eq]
    exact update_mem_preorderAll hf p hmem
  have hfound := (sound_link h hd he hafter).declaration?_of_mem hnew
  rw [origin_update hf, horigin] at hfound
  refine ⟨_, hfound, ?_⟩
  rw [update_eq, if_pos horigin]
  rfl

/-! ## Where the class stands -/

theorem parent?_of_method {e : Element} {name : Option String} {formals : List Formal}
    (he : e.role = .method name formals) :
    links.parent? tree e = (tree.ancestors e).findSome? fun a => links.owner? a.index := by
  simp [parent?, he, Role.isAssignment]

theorem enclosingClass?_of_direct (hclasses : tree.ClassesFit) {e c : Element}
    {inner outer : List Element} (hancestors : tree.ancestors e = inner ++ c :: outer)
    (hinner : ∀ a ∈ inner, a.isAnyClass = false) (hc : c.nodeType = "ClassDeclaration") :
    tree.enclosingClass? e = some c := by
  have hfits : ∀ a ∈ tree.ancestors e, (a.role.isClass = true ↔ a.nodeType = "ClassDeclaration") :=
    fun a ha => hclasses a (tree.ancestors_subset e ha)
  rw [hancestors] at hfits
  rw [SourceTree.enclosingClass?, hancestors, List.find?_eq_some_iff_append]
  refine ⟨(hfits c (by simp)).mpr hc, inner, outer, rfl, fun a ha => ?_⟩
  have hother : a.nodeType ≠ "ClassDeclaration" := fun htype => by
    simpa [Element.isAnyClass, htype] using hinner a ha
  simpa using mt (hfits a (by simp [ha])).mp hother

/-- The class that directly contains a constructor has the declaration that gets its parameters if
and only if that class comes first. -/
theorem Prepared.recorded_iff (hclasses : tree.ClassesFit) {d : Declaration} {e : Element}
    {name : Option String} {formals : List Formal} (hrole : e.role = .method name formals)
    {ready : Links} {p : Origin} (h : Prepared links tree d e ready p) {c : Element}
    {inner outer : List Element} (hancestors : tree.ancestors e = inner ++ c :: outer)
    (hinner : ∀ a ∈ inner, a.isAnyClass = false) (hc : c.nodeType = "ClassDeclaration") :
    (c.index, p) ∈ ready.table ↔
      if ∃ a ∈ inner, (links.owner? a.index).isSome then (c.index, p) ∈ links.table
      else (links.owner? c.index).isSome ∨ links.parent? tree e = none := by
  cases h with
  | found hparent =>
    split
    · exact Iff.rfl
    · rename_i hnone
      constructor
      · intro hmem
        refine Or.inl (Option.isSome_iff_ne_none.mpr fun howner => ?_)
        exact owner?_eq_none_iff.mp howner _ hmem rfl
      · rintro (hsome | hno)
        · -- Nothing within the class has a declaration, so that of the class is the nearest.
          obtain ⟨o, ho⟩ := Option.isSome_iff_exists.mp hsome
          have hfirst : links.parent? tree e = some o := by
            rw [parent?_of_method hrole, hancestors, List.findSome?_append,
              List.findSome?_eq_none_iff.mpr, List.findSome?_cons, ho]
            · rfl
            · intro a ha
              simpa using fun hsome => hnone ⟨a, ha, hsome⟩
          rw [hparent] at hfirst
          cases hfirst
          exact mem_table_of_owner? ho
        · simp [hparent] at hno
  | @implied found _ hparent hclass hname =>
    have hnone := hparent
    rw [parent?_of_method hrole, List.findSome?_eq_none_iff, hancestors] at hnone
    rw [if_neg]
    · refine iff_of_true ?_ (Or.inr hparent)
      rw [enclosingClass?_of_direct hclasses hancestors hinner hc] at hclass
      cases hclass
      simp [withImplied, record]
    · rintro ⟨a, ha, hsome⟩
      simp [hnone a (by simp [ha])] at hsome

theorem hostedDirectly_iff (hnumbered : tree.Numbered) (hclasses : tree.ClassesFit)
    {d : Declaration} {e : Element} (he : e ∈ tree.elements) {p : Origin}
    {parameters : List (Parameter TypeExpr)}
    (hmerge : links.merge? tree d e = some (p, parameters)) {after : Links}
    (hafter : links.link tree d e = .ok after) :
    after.HostedDirectly tree e p ↔ links.OwnClassFirst tree e p := by
  obtain ⟨⟨formals, hrole⟩, ready, owner, hready, -, hlink⟩ := merge?_spec hmerge
  have htable : after.table = ready.table ++ [(e.index, p)] := by
    rw [hlink] at hafter
    cases hafter
    rfl
  -- The constructor is recorded as well, but it is no class.
  have hrecorded : ∀ c ∈ tree.ancestors e, c.nodeType = "ClassDeclaration" →
      ((c.index, p) ∈ after.table ↔ (c.index, p) ∈ ready.table) := by
    intro c hmem hc
    have hne : c.index ≠ e.index := by
      intro hindex
      have hsame := hnumbered.element?_index (tree.ancestors_subset e hmem)
      rw [hindex, hnumbered.element?_index he] at hsame
      cases hsame
      simpa [hrole, Role.isClass] using (hclasses e he).mpr hc
    simp [htable, hne]
  constructor
  · rintro ⟨c, hdirect, hc, hmem⟩
    obtain ⟨-, inner, outer, hancestors, hinner⟩ := List.find?_eq_some_iff_append.mp hdirect
    have hinner' : ∀ a ∈ inner, a.isAnyClass = false := by simpa using hinner
    refine ⟨inner, c, outer, hancestors, hinner', hc, ?_⟩
    rw [← hready.recorded_iff hclasses hrole hancestors hinner' hc]
    exact (hrecorded c (by simp [hancestors]) hc).mp hmem
  · rintro ⟨inner, c, outer, hancestors, hinner, hc, hfirst⟩
    refine ⟨c, ?_, hc, (hrecorded c (by simp [hancestors]) hc).mpr ?_⟩
    · rw [SourceTree.directClass?, List.find?_eq_some_iff_append]
      exact ⟨by simp [Element.isAnyClass, hc], inner, outer, hancestors, by simpa using hinner⟩
    · exact (hready.recorded_iff hclasses hrole hancestors hinner hc).mpr hfirst

/-! ## Runs -/

open LinkCall

/-- **The class of a constructor.** A call of a run changes the heading of no declaration but the
one that it merges a constructor into, and that one has the parameters afterwards. It was recorded
for the class that directly contains the constructor if and only if that class comes first. -/
theorem constructor_host (program : Program) {past rest : List (LinkCall program.tree)}
    {call : LinkCall program.tree} (hfresh : AllFresh (past ++ call :: rest)) :
    (∀ o old, (run past).declaration? o = some old →
      (∀ parameters, (run past).merge? program.tree call.declaration call.element ≠
        some (o, parameters)) →
      ∃ new, (run (past ++ [call])).declaration? o = some new ∧ new.heading = old.heading) ∧
    ∀ p parameters,
      (run past).merge? program.tree call.declaration call.element = some (p, parameters) →
      (∃ owner, (run (past ++ [call])).declaration? p = some owner ∧
        owner.heading.type = .classType (some parameters)) ∧
      ((run (past ++ [call])).HostedDirectly program.tree call.element p ↔
        (run past).OwnClassFirst program.tree call.element p) := by
  have hfirst : AllFresh (past ++ [call]) := allFresh_past ⟨rest, by simp⟩ hfresh
  obtain ⟨hpast, hcall⟩ := allFresh_append_singleton hfirst
  have hsound := sound_run hpast
  have hsound' := hsound.attempt hcall
  rw [run_append_singleton]
  constructor
  · intro o old hold hother
    obtain ⟨hmem, rfl⟩ := hsound.mem_of_declaration? hold
    cases hafter : (run past).link program.tree call.declaration call.element with
    | error failure =>
      rw [attempt, hafter]
      exact ⟨old, hold, rfl⟩
    | ok after =>
      rw [attempt_of_ok hafter] at hsound' ⊢
      obtain ⟨new, hnew, hgrown, hheading⟩ := link_keeps hsound hcall hafter hmem
      exact ⟨new, hgrown.origin ▸ hsound'.declaration?_of_mem hnew, hheading hother⟩
  · intro p parameters hmerge
    obtain ⟨-, ready, owner, -, -, hafter⟩ := merge?_spec hmerge
    rw [attempt_of_ok hafter]
    exact ⟨declaration?_of_merge? hsound hcall call.element_mem hmerge hafter,
      hostedDirectly_iff program.tree_numbered program.tree_classesFit call.element_mem hmerge
        hafter⟩

/-- A class with a constructor, and with a method that makes another class with a constructor. -/
def nestedClasses : Program where
  root := .plain "Program" [("body", .many [
    .classOf "ClassDeclaration" (some "Outer") [
      .methodOf "constructor" [] [],
      .methodOf "make" [.plain "ReturnStatement" [("argument", .one
        (.classOf "ClassExpression" none [.methodOf "constructor" [] []]))] []] []]])] []
  comments := []

/-- A call for the outer class. -/
def outerCall : LinkCall nestedClasses.tree where
  declaration := ⟨{ block := 0, line := 0 }, { name := "Outer", type := .classType none }, none⟩
  index := ⟨1, by decide +kernel⟩

/-- A call for the constructor at an index, with one parameter. -/
def constructorCall (line : Nat) (parameter : String)
    (index : Fin nestedClasses.tree.elements.length) : LinkCall nestedClasses.tree where
  declaration :=
    { origin := { block := 0, line }
      heading :=
        { name := "constructor"
          type := .function [⟨.anyType, some parameter, false, false⟩] none }
      members := none }
  index

/-- The call for the constructor of the outer class. -/
def outerConstructorCall : LinkCall nestedClasses.tree :=
  constructorCall 1 "a" ⟨4, by decide +kernel⟩

/-- The call for the constructor of the class that the method makes. -/
def innerConstructorCall : LinkCall nestedClasses.tree :=
  constructorCall 2 "b" ⟨15, by decide +kernel⟩

theorem constructor_host_outer :
    AllFresh [outerCall, outerConstructorCall, innerConstructorCall] ∧
    ∃ parameters, (run [outerCall]).merge? nestedClasses.tree outerConstructorCall.declaration
        outerConstructorCall.element = some ({ block := 0, line := 0 }, parameters) ∧
      (run [outerCall, outerConstructorCall]).HostedDirectly nestedClasses.tree
        outerConstructorCall.element { block := 0, line := 0 } := by
  have hfresh : AllFresh ([outerCall] ++ outerConstructorCall :: [innerConstructorCall]) := by
    decide +kernel
  have hmerge : ((run [outerCall]).merge? nestedClasses.tree outerConstructorCall.declaration
      outerConstructorCall.element).map (·.1) = some { block := 0, line := 0 } := by
    decide +kernel
  obtain ⟨⟨p, parameters⟩, hmerge, rfl⟩ := Option.map_eq_some_iff.mp hmerge
  refine ⟨hfresh, parameters, hmerge, ?_⟩
  refine ((constructor_host nestedClasses hfresh).2 _ parameters hmerge).2.mpr ?_
  refine ⟨[nestedClasses.tree.elements.get ⟨3, by decide +kernel⟩],
    nestedClasses.tree.elements.get ⟨1, by decide +kernel⟩,
    [nestedClasses.tree.elements.get ⟨0, by decide +kernel⟩], ?_⟩
  decide +kernel

/-- The names of the parameters that the class from an origin has. -/
def parameterNames (links : Links) (o : Origin) : List (Option String) :=
  match (links.declaration? o).map fun d => d.heading.type with
  | some (TypeExpr.classType (some parameters)) => parameters.map (·.name)
  | _ => []

theorem innerConstructor_overwrites_outer :
    AllFresh [outerCall, outerConstructorCall, innerConstructorCall] ∧
    (∃ parameters, (run [outerCall, outerConstructorCall]).merge? nestedClasses.tree
      innerConstructorCall.declaration innerConstructorCall.element =
        some ({ block := 0, line := 0 }, parameters)) ∧
    ¬ (run [outerCall, outerConstructorCall, innerConstructorCall]).HostedDirectly
      nestedClasses.tree innerConstructorCall.element { block := 0, line := 0 } ∧
    (run [outerCall, outerConstructorCall]).parameterNames { block := 0, line := 0 } =
      [some "a"] ∧
    (run [outerCall, outerConstructorCall, innerConstructorCall]).parameterNames
      { block := 0, line := 0 } = [some "b"] := by
  have hmerge : ((run [outerCall, outerConstructorCall]).merge? nestedClasses.tree
      innerConstructorCall.declaration innerConstructorCall.element).map (·.1) =
        some { block := 0, line := 0 } := by decide +kernel
  have hdirect : (nestedClasses.tree.directClass? innerConstructorCall.element).map (·.nodeType) =
      some "ClassExpression" := by decide +kernel
  refine ⟨by decide +kernel, ?_, ?_, by decide +kernel, by decide +kernel⟩
  · obtain ⟨⟨p, parameters⟩, hmerge, rfl⟩ := Option.map_eq_some_iff.mp hmerge
    exact ⟨parameters, hmerge⟩
  · rintro ⟨c, hc, htype, -⟩
    simp [hc, htype] at hdirect

end Links

end DocComments
