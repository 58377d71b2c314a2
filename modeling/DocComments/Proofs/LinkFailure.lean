import DocComments.Proofs.LinkRun

/-!
# Calls that fail

A call fails for one reason only: it finds no declaration to go below, and the class that it would
have to make up has no name. The name is looked up before anything is changed, so a call that fails
leaves no trace.

To see that, the call is taken apart into steps that change the links one after the other. A step
that fails leaves the links as the steps before it have made them.

* `linkSteps_of_ok`, `linkSteps_of_error`: the steps do what a call does.
* `link_eq_error_iff`: when a call fails, and how.
* `run_eq_outcomes`: the links of a run are what the steps of its calls leave.
* `link_fails_cleanly`: a call that fails changes nothing, now or later.
-/

namespace DocComments

open Declaration LinkCall

/-! ## Classes without a name -/

/-- The class declaration is the nearest one around the element. -/
def SourceTree.IsNearestClass (tree : SourceTree) (e c : Element) : Prop :=
  ∃ inner outer, tree.ancestors e = inner ++ c :: outer ∧ c.role.isClass = true ∧
    ∀ a ∈ inner, a.role.isClass = false

theorem SourceTree.enclosingClass?_eq_some_iff {tree : SourceTree} {e c : Element} :
    tree.enclosingClass? e = some c ↔ tree.IsNearestClass e c := by
  rw [enclosingClass?, List.find?_eq_some_iff_append]
  constructor
  · rintro ⟨hclass, inner, outer, hancestors, hinner⟩
    exact ⟨inner, outer, hancestors, hclass, by simpa using hinner⟩
  · rintro ⟨inner, outer, hancestors, hclass, hinner⟩
    exact ⟨hclass, inner, outer, hancestors, by simpa using hinner⟩

namespace Element

/-- The element bears no name, or an empty one. -/
def Nameless (e : Element) : Prop :=
  e.role.name? = none ∨ e.role.name? = some ""

theorem nameless_iff {e : Element} : e.Nameless ↔ nonempty? e.role.name? = none := by
  rw [Nameless]
  cases e.role.name? <;> simp [nonempty?]

theorem resolveName_of_class {c : Element} (hclass : c.role.isClass = true) :
    c.resolveName none =
      (nonempty? c.role.name?).elim (.error (.noName c.place)) .ok := by
  cases hrole : c.role with
  | classDeclaration own =>
    simp only [resolveName, ownName, hrole, Role.name?, nonempty?, Option.filter_none]
    cases Option.filter (fun text => !text.isEmpty) own <;> rfl
  | _ => simp [hrole, Role.isClass] at hclass

/-- A class gives its name to its declaration, and fails to just if it has none. -/
theorem resolveName_eq_error_iff {c : Element} (hclass : c.role.isClass = true)
    {failure : Failure} :
    c.resolveName none = .error failure ↔ c.Nameless ∧ failure = .noName c.place := by
  rw [resolveName_of_class hclass, nameless_iff]
  cases nonempty? c.role.name? <;> simp [eq_comm]

end Element

namespace Links

variable {links : Links} {tree : SourceTree}

/-! ## A call in steps -/

/-- Steps that change links and can fail; a failure keeps the changes that were made before it. -/
abbrev Steps (α : Type) : Type :=
  ExceptT Failure (StateM Links) α

/-- The outcome of steps, and the links as they leave them. -/
def Steps.from {α : Type} (steps : Steps α) (links : Links) : Except Failure α × Links :=
  (ExceptT.run steps).run links

namespace Steps

variable {α β : Type}

theorem from_pure (a : α) (links : Links) : Steps.from (pure a) links = (.ok a, links) :=
  rfl

theorem from_get (links : Links) : Steps.from get links = (.ok links, links) :=
  rfl

theorem from_liftExcept (x : Except Failure α) (links : Links) :
    Steps.from (liftExcept x) links = (x, links) := by
  cases x <;> rfl

variable {steps : Steps α} {next : α → Steps β} {links after : Links}

/-- Steps go on where those before them have succeeded. -/
theorem from_bind_of_ok {a : α} (h : steps.from links = (.ok a, after)) :
    (steps >>= next).from links = (next a).from after := by
  simp only [Steps.from, ExceptT.run_bind, StateT.run_bind] at h ⊢
  rw [h]
  rfl

/-- A failure is the end of the steps. -/
theorem from_bind_of_error {failure : Failure} (h : steps.from links = (.error failure, after)) :
    (steps >>= next).from links = (.error failure, after) := by
  simp only [Steps.from, ExceptT.run_bind, StateT.run_bind] at h ⊢
  rw [h]
  rfl

end Steps

/-- Makes up a declaration for the class around the element, if there is a class. -/
def implySteps (tree : SourceTree) (d : Declaration) (e : Element) : Steps (Option Origin) := do
  match tree.enclosingClass? e with
  | none => return none
  | some class_ =>
    let name ← liftExcept (class_.resolveName none)
    let type ← liftExcept (class_.resolveType "")
    modify (·.append ⟨d.origin.impliedClass, { name, type }, none⟩)
    modify (·.record class_.index d.origin.impliedClass)
    return some d.origin.impliedClass

/-- Puts a declaration below the one from `parent`, and gives the one that the element has then. -/
def placeSteps (d : Declaration) (e : Element) (parent : Origin) : Steps Origin := do
  match constructorParameters? d e ((← get).declaration? parent) with
  | some parameters =>
    modify (·.update parent (.setConstructor parameters))
    return parent
  | none =>
    modify (·.update parent (.addMember d))
    return d.origin

/-- Links a declaration of the element into the forest, one change after the other. -/
def linkSteps (tree : SourceTree) (d : Declaration) (e : Element) : Steps Unit := do
  let parent ← match (← get).parent? tree e with
    | some parent => pure (some parent)
    | none => implySteps tree d e
  let owner ← match parent with
    | some parent => placeSteps d e parent
    | none => do
      modify (·.append d)
      pure d.origin
  modify (·.recordUnlessProgram e owner)

open Steps

theorem from_placeSteps (d : Declaration) (e : Element) (parent : Origin) (links : Links) :
    (placeSteps d e parent >>= fun owner => modify (·.recordUnlessProgram e owner)).from links =
      (.ok (), links.placeBelow parent d e) := by
  rcases placeBelow_cases links parent d e with ⟨parameters, hparameters, hplace⟩ |
    ⟨hparameters, hplace⟩
  · have hsteps : (placeSteps d e parent).from links =
        (.ok parent, links.update parent (.setConstructor parameters)) := by
      rw [placeSteps, from_bind_of_ok (from_get links), hparameters]
      rfl
    rw [from_bind_of_ok hsteps, hplace]
    rfl
  · have hsteps : (placeSteps d e parent).from links =
        (.ok d.origin, links.update parent (.addMember d)) := by
      rw [placeSteps, from_bind_of_ok (from_get links), hparameters]
      rfl
    rw [from_bind_of_ok hsteps, hplace]
    rfl

/-- The class around has no name, so the steps stop before they change anything. -/
theorem from_implySteps_of_error {d : Declaration} {e c : Element} {failure : Failure}
    (hclass : tree.enclosingClass? e = some c) (hname : c.resolveName none = .error failure)
    (links : Links) : (implySteps tree d e).from links = (.error failure, links) := by
  rw [implySteps, hclass]
  refine from_bind_of_error ?_
  rw [from_liftExcept, hname]

theorem from_implySteps_of_ok {d : Declaration} {e c : Element} {name : String}
    (hclass : tree.enclosingClass? e = some c) (hname : c.resolveName none = .ok name)
    (links : Links) :
    (implySteps tree d e).from links = (.ok (some d.origin.impliedClass),
      links.withImplied d.origin c { name, type := .classType none }) := by
  obtain ⟨-, own, hrole⟩ := enclosingClass?_spec hclass
  have htype : c.resolveType "" = .ok (.classType none) := by
    simp [Element.resolveType, Element.ownType, hrole]
  have hfirst : Steps.from (liftExcept (c.resolveName none)) links = (.ok name, links) := by
    rw [from_liftExcept, hname]
  have hsecond : Steps.from (liftExcept (c.resolveType "")) links =
      (.ok (.classType none), links) := by
    rw [from_liftExcept, htype]
  rw [implySteps, hclass]
  refine (from_bind_of_ok hfirst).trans ((from_bind_of_ok hsecond).trans ?_)
  rfl

theorem linkSteps_of_ok {d : Declaration} {e : Element} {after : Links}
    (h : links.link tree d e = .ok after) :
    (linkSteps tree d e).from links = (.ok (), after) := by
  rcases link_cases h with ⟨hparent, hclass, rfl⟩ | ⟨ready, p, hready, rfl⟩
  · rw [linkSteps, from_bind_of_ok (from_get links), hparent]
    have himply : (implySteps tree d e).from links = (.ok none, links) := by
      rw [implySteps, hclass]
      rfl
    rw [from_bind_of_ok himply]
    rfl
  · cases hready with
    | found hparent =>
      rw [linkSteps, from_bind_of_ok (from_get links), hparent, from_bind_of_ok (from_pure _ _)]
      exact from_placeSteps d e p links
    | implied hparent hclass hname =>
      rw [linkSteps, from_bind_of_ok (from_get links), hparent,
        from_bind_of_ok (from_implySteps_of_ok hclass hname links)]
      exact from_placeSteps d e _ _

/-! ## When a call fails -/

/-- None of the elements around that are considered has a declaration. An assignment passes over the
methods around it. -/
def Unhosted (links : Links) (tree : SourceTree) (e : Element) : Prop :=
  ∀ a ∈ tree.ancestors e, (e.role.isAssignment = true → a.role.isMethod = false) →
    links.owner? a.index = none

theorem parent?_eq_none_iff {e : Element} :
    links.parent? tree e = none ↔ links.Unhosted tree e := by
  rw [parent?, List.findSome?_eq_none_iff]
  refine forall_congr' fun a => ?_
  rw [List.mem_filter, and_imp]
  refine imp_congr_right fun _ => imp_congr_left ?_
  cases e.role.isAssignment <;> simp

theorem destination_eq_error_iff {e : Element} {failure : Failure} :
    links.destination tree e = .error failure ↔
      links.parent? tree e = none ∧
        ∃ c, tree.enclosingClass? e = some c ∧ c.resolveName none = .error failure := by
  unfold destination
  cases hparent : links.parent? tree e with
  | some p => simp
  | none =>
    cases hclass : tree.enclosingClass? e with
    | none => simp
    | some c =>
      obtain ⟨-, own, hrole⟩ := enclosingClass?_spec hclass
      have htype : c.resolveType "" = .ok (.classType none) := by
        simp [Element.resolveType, Element.ownType, hrole]
      simp only [htype, true_and, Option.some.injEq, exists_eq_left']
      rw [except_bind_eq_error]
      simp [bind, Except.bind, pure, Except.pure]

/-- A call fails just if nothing takes its declaration in and the class around has no name. -/
theorem link_eq_error_iff {d : Declaration} {e : Element} {failure : Failure} :
    links.link tree d e = .error failure ↔
      links.Unhosted tree e ∧
        ∃ c, tree.IsNearestClass e c ∧ c.Nameless ∧ failure = .noName c.place := by
  have hgoal : links.link tree d e = .error failure ↔
      links.destination tree e = .error failure := by
    rw [link]
    cases links.destination tree e <;> simp [Except.map]
  rw [hgoal, destination_eq_error_iff, parent?_eq_none_iff]
  refine and_congr_right fun _ => exists_congr fun c => ?_
  rw [SourceTree.enclosingClass?_eq_some_iff]
  refine and_congr_right fun ⟨_, _, _, hclass, _⟩ => ?_
  exact Element.resolveName_eq_error_iff hclass

/-- The steps of a call that fails change nothing. -/
theorem linkSteps_of_error {d : Declaration} {e : Element} {failure : Failure}
    (h : links.link tree d e = .error failure) :
    (linkSteps tree d e).from links = (.error failure, links) := by
  obtain ⟨hunhosted, c, hclass, hnameless, rfl⟩ := link_eq_error_iff.mp h
  have hname : c.resolveName none = .error (.noName c.place) := by
    obtain ⟨_, _, _, hrole, _⟩ := hclass
    exact (Element.resolveName_eq_error_iff hrole).mpr ⟨hnameless, rfl⟩
  rw [linkSteps, from_bind_of_ok (from_get links), parent?_eq_none_iff.mpr hunhosted]
  exact from_bind_of_error
    (from_implySteps_of_error (SourceTree.enclosingClass?_eq_some_iff.mpr hclass) hname links)

/-! ## Calls one after the other -/

/-- The outcomes of calls that are made one after the other, failed ones included, and the links
that they leave. -/
def outcomes (links : Links) : List (LinkCall tree) → List (Except Failure Unit) × Links
  | [] => ([], links)
  | call :: rest =>
    let (outcome, after) := (linkSteps tree call.declaration call.element).from links
    let (later, last) := after.outcomes rest
    (outcome :: later, last)

/-- The links of a run are what the steps of its calls leave. -/
theorem run_eq_outcomes (calls : List (LinkCall tree)) :
    run calls = (({} : Links).outcomes calls).2 := by
  have hfrom : ∀ links : Links, calls.foldl attempt links = (links.outcomes calls).2 := by
    induction calls with
    | nil => intro links; rfl
    | cons call rest ih =>
      intro links
      rw [List.foldl_cons, ih, attempt, outcomes]
      cases h : links.link tree call.declaration call.element with
      | ok after => rw [linkSteps_of_ok h]
      | error failure => rw [linkSteps_of_error h]
  exact hfrom {}

/-- **Calls that fail.** Whatever calls came before, a call fails just if none of the elements around
that are considered has a declaration and the nearest class around has no name. The failure is then
that the class has no name. The steps of a call leave what the call gives; those of a call that
fails leave the forest and the table as they were, and all calls after it have the same outcomes and
leave the same links as without it. -/
theorem link_fails_cleanly (links : Links) (call : LinkCall tree) :
    ((∃ failure, links.link tree call.declaration call.element = .error failure) ↔
      links.Unhosted tree call.element ∧ ∃ c, tree.IsNearestClass call.element c ∧ c.Nameless) ∧
    (∀ after, links.link tree call.declaration call.element = .ok after →
      (linkSteps tree call.declaration call.element).from links = (.ok (), after)) ∧
    ∀ failure, links.link tree call.declaration call.element = .error failure →
      (∃ c, tree.IsNearestClass call.element c ∧ failure = .noName c.place) ∧
      (linkSteps tree call.declaration call.element).from links = (.error failure, links) ∧
      ∀ later : List (LinkCall tree), links.outcomes (call :: later) =
        (.error failure :: (links.outcomes later).1, (links.outcomes later).2) := by
  refine ⟨?_, fun after => linkSteps_of_ok, fun failure hfailure => ?_⟩
  · simp only [link_eq_error_iff]
    constructor
    · rintro ⟨failure, hunhosted, c, hclass, hnameless, -⟩
      exact ⟨hunhosted, c, hclass, hnameless⟩
    · rintro ⟨hunhosted, c, hclass, hnameless⟩
      exact ⟨_, hunhosted, c, hclass, hnameless, rfl⟩
  · obtain ⟨-, c, hclass, -, heq⟩ := link_eq_error_iff.mp hfailure
    have hsteps := linkSteps_of_error hfailure
    refine ⟨⟨c, hclass, heq⟩, hsteps, fun later => ?_⟩
    rw [outcomes, hsteps]

/-- The call for a method of a class without a name. -/
def firstCall : LinkCall twoClasses.tree :=
  mixedCalls.get ⟨0, by decide⟩

theorem link_fails_cleanly_firstCall :
    ∃ failure, ({} : Links).link twoClasses.tree firstCall.declaration firstCall.element =
        .error failure ∧
      (linkSteps twoClasses.tree firstCall.declaration firstCall.element).from {} =
        (.error failure, {}) ∧
      ({} : Links).outcomes mixedCalls =
        (.error failure :: (({} : Links).outcomes (mixedCalls.drop 1)).1,
          (({} : Links).outcomes (mixedCalls.drop 1)).2) := by
  have hfails : (({} : Links).link twoClasses.tree firstCall.declaration
      firstCall.element).toOption.isNone = true := by decide +kernel
  cases hlink : ({} : Links).link twoClasses.tree firstCall.declaration firstCall.element with
  | ok after => simp [hlink, Except.toOption] at hfails
  | error failure =>
    obtain ⟨-, hsteps, hlater⟩ := (link_fails_cleanly {} firstCall).2.2 failure hlink
    exact ⟨failure, rfl, hsteps, hlater (mixedCalls.drop 1)⟩

end Links

end DocComments
