import DocComments.Proofs.LinkRun

/-!
# What a call adds to the forest

A call takes the passed declaration into the forest with all that is below it, unless it is the
constructor of a class: then only its parameters stay, as those of the class. `merge?` tells which
class that is. All that was in the forest before stays in it and only grows (`Grown`).

* `link_declarations`: what a call makes of the forest.
* `link_keeps`, `link_adds`, `link_adds_only`: what a call keeps and adds.
* `run_occurrences`: after a run, what a call passed is in the forest once, or not at all if it was
  merged.
-/

namespace DocComments

open Declaration

/-! ## Growing -/

/-- A heading says the same later on, but a class may get other constructor parameters. -/
structure Heading.Agrees (old new : Heading) : Prop where
  name : new.name = old.name
  spec : new.spec = old.spec
  type : new.type = old.type ∨
    (Links.isClassType old.type = true ∧ Links.isClassType new.type = true)

theorem Heading.Agrees.refl (heading : Heading) : heading.Agrees heading :=
  ⟨rfl, rfl, Or.inl rfl⟩

theorem Heading.Agrees.trans {first second third : Heading} (h₁ : first.Agrees second)
    (h₂ : second.Agrees third) : first.Agrees third where
  name := h₂.name.trans h₁.name
  spec := h₂.spec.trans h₁.spec
  type := by
    rcases h₁.type with h | ⟨hold, hnew⟩
    · rw [← h]
      exact h₂.type
    · rcases h₂.type with h | ⟨-, hlast⟩
      · exact Or.inr ⟨hold, h ▸ hnew⟩
      · exact Or.inr ⟨hold, hlast⟩

namespace Declaration

/-- A declaration later on: it still says the same, and its members are still the first ones. -/
structure Grown (old new : Declaration) : Prop where
  origin : new.origin = old.origin
  heading : old.heading.Agrees new.heading
  members : old.parts.map (·.origin) <+: new.parts.map (·.origin)

theorem Grown.refl (d : Declaration) : Grown d d :=
  ⟨rfl, .refl _, List.prefix_rfl⟩

theorem Grown.trans {first second third : Declaration} (h₁ : Grown first second)
    (h₂ : Grown second third) : Grown first third :=
  ⟨h₂.origin.trans h₁.origin, h₁.heading.trans h₂.heading, h₁.members.trans h₂.members⟩

theorem grown_update {f : Declaration → Declaration} {extra : List Declaration}
    (hf : Extends f extra) {p : Origin} {d : Declaration}
    (hheading : d.origin = p → ∀ members, d.heading.Agrees (f { d with members }).heading) :
    Grown d (update p f d) where
  origin := origin_update hf p d
  heading := by
    rw [update_eq]
    split
    · rename_i horigin
      exact hheading horigin _
    · exact .refl _
  members := by
    rw [parts_update hf, List.map_append, map_origin_updateAll hf]
    exact List.prefix_append _ _

theorem heading_update_of_ne {f : Declaration → Declaration} {p : Origin} {d : Declaration}
    (h : d.origin ≠ p) : (update p f d).heading = d.heading := by
  rw [update_eq, if_neg h]

theorem heading_update_addMember (p : Origin) (member d : Declaration) :
    (update p (addMember member) d).heading = d.heading := by
  rw [update_eq]
  split <;> rfl

end Declaration

namespace Links

variable {links : Links} {tree : SourceTree} {passed : List Declaration}

/-! ## Merging -/

/-- The class whose constructor a call passes, and the parameters that it gets. -/
def merge? (links : Links) (tree : SourceTree) (d : Declaration) (e : Element) :
    Option (Origin × List (Parameter TypeExpr)) :=
  match links.destination tree e with
  | .ok (.below p) => (constructorParameters? d e (links.declaration? p)).map (p, ·)
  | .ok (.belowImplied c heading) =>
    (constructorParameters? d e ((links.withImplied d.origin c heading).declaration?
      d.origin.impliedClass)).map (d.origin.impliedClass, ·)
  | _ => none

theorem merge?_of_top {d : Declaration} {e : Element} (hparent : links.parent? tree e = none)
    (hclass : tree.enclosingClass? e = none) : links.merge? tree d e = none := by
  simp [merge?, destination, hparent, hclass]

theorem merge?_of_prepared {d : Declaration} {e : Element} {ready : Links} {p : Origin}
    (h : Prepared links tree d e ready p) :
    links.merge? tree d e =
      (constructorParameters? d e (ready.declaration? p)).map (p, ·) := by
  cases h with
  | found hparent => simp [merge?, destination, hparent]
  | @implied c name hparent hclass hname =>
    simp [merge?, destination_of_implied hparent hclass hname]

/-- A constructor is merged by what its element, its declaration and its class are. -/
theorem constructorParameters?_eq_some {d : Declaration} {e : Element}
    {parent : Option Declaration} {parameters : List (Parameter TypeExpr)} :
    constructorParameters? d e parent = some parameters ↔
      (∃ formals, e.role = .method (some "constructor") formals) ∧
      d.heading.name = "constructor" ∧
      (∃ result, d.heading.type = .function parameters result) ∧
      ∃ owner, parent = some owner ∧ isClassType owner.heading.type = true := by
  unfold constructorParameters?
  split
  · rename_i formals own result hrole htype
    simp only [hrole, htype, Option.ite_none_right_eq_some, Option.any_eq_true, Option.some.injEq,
      TypeExpr.function.injEq, Role.method.injEq]
    grind
  · rename_i hother
    constructor
    · simp
    · rintro ⟨⟨formals, hrole⟩, -, ⟨result, htype⟩, -⟩
      exact absurd htype (hother _ _ _ hrole)

/-- Before anything is put below it, the forest holds at most a made up class more. -/
theorem Prepared.mem_origins {d : Declaration} {e : Element} {ready : Links} {p o : Origin}
    (h : Prepared links tree d e ready p) (ho : o ∈ origins ready.declarations) :
    o ∈ origins links.declarations ∨ o = d.origin.impliedClass := by
  cases h with
  | found hparent => exact Or.inl ho
  | implied hparent hclass hname =>
    simp only [withImplied, append, record, origins_append, List.mem_append] at ho
    exact ho.imp_right fun ho => by simpa [parts] using ho

theorem Prepared.subset {d : Declaration} {e : Element} {ready : Links} {p : Origin}
    (h : Prepared links tree d e ready p) :
    preorderAll links.declarations ⊆ preorderAll ready.declarations := by
  cases h with
  | found hparent => exact List.Subset.refl _
  | implied hparent hclass hname =>
    simp only [withImplied, append, record, preorderAll_append]
    exact List.subset_append_left _ _

/-- In sound links the declaration from an origin is the one that stands in the forest. -/
theorem Sound.declaration?_of_mem (h : Sound tree passed links) {d : Declaration}
    (hd : d ∈ preorderAll links.declarations) : links.declaration? d.origin = some d := by
  rw [declaration?, h.loose, List.append_nil]
  exact find?_of_mem h.nodup hd

theorem Sound.mem_of_declaration? (h : Sound tree passed links) {o : Origin} {d : Declaration}
    (hd : links.declaration? o = some d) :
    d ∈ preorderAll links.declarations ∧ d.origin = o := by
  rw [declaration?, h.loose, List.append_nil] at hd
  exact find?_spec hd

/-- What a call makes of the forest: the declaration comes to its end, or below a declaration that
was found or made up, or only its parameters come there. -/
theorem link_declarations (h : Sound tree passed links) {d : Declaration} (hd : Fresh passed d)
    {e : Element} {after : Links} (hafter : links.link tree d e = .ok after) :
    (links.merge? tree d e = none ∧ after.declarations = links.declarations ++ [d]) ∨
    ∃ ready p, Prepared links tree d e ready p ∧ Sound tree (passed ++ [d]) ready ∧
      p ∈ origins ready.declarations ∧
      ((links.merge? tree d e = none ∧
          after.declarations = updateAll p (addMember d) ready.declarations) ∨
        ∃ parameters owner, links.merge? tree d e = some (p, parameters) ∧
          ready.declaration? p = some owner ∧ isClassType owner.heading.type = true ∧
          after.declarations = updateAll p (setConstructor parameters) ready.declarations) := by
  rcases link_cases hafter with ⟨hparent, hclass, rfl⟩ | ⟨ready, p, hready, rfl⟩
  · refine Or.inl ⟨merge?_of_top hparent hclass, ?_⟩
    rw [recordUnlessProgram_declarations, append]
  · obtain ⟨hsound, hp, -⟩ := h.prepared hd hready
    refine Or.inr ⟨ready, p, hready, hsound, hp, ?_⟩
    rw [merge?_of_prepared hready]
    rcases placeBelow_cases ready p d e with ⟨parameters, hmerge, heq⟩ | ⟨hmerge, heq⟩
    · obtain ⟨-, -, -, owner, howner, hclass⟩ := constructorParameters?_eq_some.mp hmerge
      refine Or.inr ⟨parameters, owner, by rw [hmerge]; rfl, howner, hclass, ?_⟩
      rw [heq, recordUnlessProgram_declarations, hsound.update_eq]
    · refine Or.inl ⟨by rw [hmerge]; rfl, ?_⟩
      rw [heq, recordUnlessProgram_declarations, hsound.update_eq]

/-- A call keeps every declaration of the forest, and changes the heading of none but the class that
it gives parameters to. -/
theorem link_keeps (h : Sound tree passed links) {d : Declaration} (hd : Fresh passed d)
    {e : Element} {after : Links} (hafter : links.link tree d e = .ok after) {old : Declaration}
    (hold : old ∈ preorderAll links.declarations) :
    ∃ new ∈ preorderAll after.declarations, Grown old new ∧
      ((∀ parameters, links.merge? tree d e ≠ some (old.origin, parameters)) →
        new.heading = old.heading) := by
  rcases link_declarations h hd hafter with ⟨-, heq⟩ |
    ⟨ready, p, hready, hsound, hp, ⟨-, heq⟩ | ⟨parameters, owner, hmerge, howner, hclass, heq⟩⟩
  · refine ⟨old, ?_, .refl old, fun _ => rfl⟩
    rw [heq, preorderAll_append]
    exact List.mem_append_left _ hold
  · have hf := extends_addMember d
    refine ⟨Declaration.update p (addMember d) old, ?_, grown_update hf fun _ _ => .refl _,
      fun _ => heading_update_addMember p d old⟩
    rw [heq]
    exact update_mem_preorderAll hf p (hready.subset hold)
  · have hf := extends_setConstructor parameters
    refine ⟨Declaration.update p (setConstructor parameters) old, ?_,
      grown_update hf fun horigin _ => ?_, fun hother => heading_update_of_ne fun horigin => ?_⟩
    · rw [heq]
      exact update_mem_preorderAll hf p (hready.subset hold)
    · -- The declaration from this origin is the class itself.
      have hfound := hsound.declaration?_of_mem (hready.subset hold)
      rw [horigin, howner] at hfound
      cases hfound
      exact ⟨rfl, rfl, Or.inr ⟨hclass, rfl⟩⟩
    · exact hother parameters (horigin ▸ hmerge)

/-- A call that is not merged brings in its declaration with all that is below it. -/
theorem link_adds (h : Sound tree passed links) {d : Declaration} (hd : Fresh passed d)
    {e : Element} {after : Links} (hafter : links.link tree d e = .ok after)
    (hmerge : links.merge? tree d e = none) :
    preorderAll [d] ⊆ preorderAll after.declarations := by
  rcases link_declarations h hd hafter with ⟨-, heq⟩ |
    ⟨ready, p, -, -, hp, ⟨-, heq⟩ | ⟨parameters, owner, hsome, -⟩⟩
  · rw [heq, preorderAll_append]
    exact List.subset_append_right _ _
  · rw [heq]
    exact extra_mem_preorderAll (extends_addMember d) hp
  · simp [hmerge] at hsome

/-- Besides its own declaration, a call brings in nothing but a class that it makes up. -/
theorem link_adds_only (h : Sound tree passed links) {d : Declaration} (hd : Fresh passed d)
    {e : Element} {after : Links} (hafter : links.link tree d e = .ok after) {o : Origin}
    (ho : o ∈ origins after.declarations) :
    o ∈ origins links.declarations ∨ o = d.origin.impliedClass ∨
      (links.merge? tree d e = none ∧ o ∈ origins [d]) := by
  rcases link_declarations h hd hafter with ⟨hmerge, heq⟩ |
    ⟨ready, p, hready, hsound, hp, ⟨hmerge, heq⟩ | ⟨parameters, owner, -, -, -, heq⟩⟩
  · rw [heq, origins_append] at ho
    exact (List.mem_append.mp ho).imp_right fun ho => Or.inr ⟨hmerge, ho⟩
  · rw [heq, (origins_updateAll_perm (extends_addMember d) hsound.nodup hp).mem_iff] at ho
    rcases List.mem_append.mp ho with ho | ho
    · exact (hready.mem_origins ho).imp_right Or.inl
    · exact Or.inr (Or.inr ⟨hmerge, ho⟩)
  · rw [heq, (origins_updateAll_perm (extends_setConstructor parameters) hsound.nodup
      hp).mem_iff] at ho
    rcases List.mem_append.mp ho with ho | ho
    · exact (hready.mem_origins ho).imp_right Or.inl
    · simp at ho

/-! ## Runs -/

open LinkCall

theorem attempt_keeps (h : Sound tree passed links) {call : LinkCall tree}
    (hd : Fresh passed call.declaration) {old : Declaration}
    (hold : old ∈ preorderAll links.declarations) :
    ∃ new ∈ preorderAll (links.attempt call).declarations, Grown old new := by
  unfold attempt
  split
  · rename_i after hafter
    obtain ⟨new, hnew, hgrown, -⟩ := link_keeps h hd hafter hold
    exact ⟨new, hnew, hgrown⟩
  · exact ⟨old, hold, .refl old⟩

/-- A call brings in no origin of a line that it does not pass. -/
theorem mem_of_mem_attempt (h : Sound tree passed links) {call : LinkCall tree}
    (hd : Fresh passed call.declaration) {o : Origin} (hdeclared : o.implied = false)
    (hother : o ∉ origins [call.declaration])
    (ho : o ∈ origins (links.attempt call).declarations) : o ∈ origins links.declarations := by
  unfold attempt at ho
  split at ho
  · rename_i after hafter
    rcases link_adds_only h hd hafter ho with ho | ho | ⟨-, ho⟩
    · exact ho
    · simp [ho, Origin.impliedClass] at hdeclared
    · exact absurd ho hother
  · exact ho

/-- A call that is merged leaves nothing of its declaration in the forest. -/
theorem not_mem_of_merge? (h : Sound tree passed links) {d : Declaration} (hd : Fresh passed d)
    {e : Element} {after : Links} (hafter : links.link tree d e = .ok after)
    (hmerge : links.merge? tree d e ≠ none) {o : Origin} (ho : o ∈ origins [d]) :
    o ∉ origins after.declarations := by
  intro hmem
  rcases link_adds_only h hd hafter hmem with hmem | hmem | ⟨hnone, -⟩
  · exact (hd.areNew h).absent o ho hmem
  · simpa [hmem, Origin.impliedClass] using hd.declared o ho
  · exact hmerge hnone

/-- None of the calls fails, made one after the other. -/
def AllSucceed (links : Links) : List (LinkCall tree) → Prop
  | [] => True
  | call :: rest =>
    (∃ after, links.link tree call.declaration call.element = .ok after) ∧
      AllSucceed (links.attempt call) rest

theorem allSucceed_append {links : Links} {calls more : List (LinkCall tree)} :
    links.AllSucceed (calls ++ more) ↔
      links.AllSucceed calls ∧ (calls.foldl attempt links).AllSucceed more := by
  induction calls generalizing links with
  | nil => simp [AllSucceed]
  | cons call rest ih => simp [AllSucceed, ih, and_assoc]

theorem attempt_of_ok {links after : Links} {call : LinkCall tree}
    (h : links.link tree call.declaration call.element = .ok after) :
    links.attempt call = after := by
  rw [attempt, h]

/-- The declarations that the calls merge into a class, made one after the other. -/
def mergedFrom (links : Links) : List (LinkCall tree) → List Origin
  | [] => []
  | call :: rest =>
    (if (links.merge? tree call.declaration call.element).isSome then [call.declaration.origin]
      else []) ++ mergedFrom (links.attempt call) rest

theorem mergedFrom_append {links : Links} {calls more : List (LinkCall tree)} :
    links.mergedFrom (calls ++ more) =
      links.mergedFrom calls ++ (calls.foldl attempt links).mergedFrom more := by
  induction calls generalizing links with
  | nil => rfl
  | cons call rest ih => simp [mergedFrom, ih]

/-- The declarations that a run merges into a class as its constructor. -/
def merged (calls : List (LinkCall tree)) : List Origin :=
  mergedFrom {} calls

theorem mem_merged_append_singleton {calls : List (LinkCall tree)} {call : LinkCall tree}
    {o : Origin} :
    o ∈ merged (calls ++ [call]) ↔ o ∈ merged calls ∨
      (o = call.declaration.origin ∧
        (run calls).merge? tree call.declaration call.element ≠ none) := by
  have hlast : merged (calls ++ [call]) = merged calls ++ (run calls).mergedFrom [call] :=
    mergedFrom_append
  rw [hlast, List.mem_append, mergedFrom, mergedFrom, List.append_nil]
  cases (run calls).merge? tree call.declaration call.element <;> simp

theorem merged_subset (calls : List (LinkCall tree)) :
    merged calls ⊆ origins (LinkCall.passed calls) := by
  induction calls using List.reverseRecOn with
  | nil => simp [merged, mergedFrom]
  | append_singleton calls call ih =>
    intro o ho
    rw [passed_append, origins_append, List.mem_append]
    rcases mem_merged_append_singleton.mp ho with ho | ⟨rfl, -⟩
    · exact Or.inl (ih ho)
    · exact Or.inr (by simp [LinkCall.passed])

/-- A declaration stands in a forest exactly once, perhaps grown. -/
structure OccursOnce (d : Declaration) (forest : List Declaration) : Prop where
  count : (origins forest).count d.origin = 1
  grown : ∃ d' ∈ preorderAll forest, Grown d d'

theorem OccursOnce.mem_origins {d : Declaration} {forest : List Declaration}
    (h : OccursOnce d forest) : d.origin ∈ origins forest :=
  List.count_pos_iff.mp (by rw [h.count]; exact Nat.one_pos)

theorem Sound.occursOnce (h : Sound tree passed links) {d d' : Declaration}
    (hd' : d' ∈ preorderAll links.declarations) (hgrown : Grown d d') :
    OccursOnce d links.declarations := by
  refine ⟨List.count_eq_one_of_mem h.nodup ?_, d', hd', hgrown⟩
  rw [← hgrown.origin]
  exact origin_mem_origins hd'

theorem OccursOnce.attempt {d : Declaration} (hd : OccursOnce d links.declarations)
    (h : Sound tree passed links) {call : LinkCall tree} (hcall : Fresh passed call.declaration) :
    OccursOnce d (links.attempt call).declarations := by
  obtain ⟨later, hlater, hgrown⟩ := hd.grown
  obtain ⟨last, hlast, hgrown'⟩ := attempt_keeps h hcall hlater
  exact (h.attempt hcall).occursOnce hlast (hgrown.trans hgrown')

/-- After a run without failure, what a call passed stands in the forest exactly once, or not at
all if that call was merged. -/
theorem run_occurrences {calls : List (LinkCall tree)} (hfresh : AllFresh calls)
    (hsucceed : AllSucceed {} calls) {call : LinkCall tree} (hcall : call ∈ calls)
    {d : Declaration} (hd : d ∈ preorderAll [call.declaration]) :
    (call.declaration.origin ∈ merged calls → d.origin ∉ origins (run calls).declarations) ∧
    (call.declaration.origin ∉ merged calls → OccursOnce d (run calls).declarations) := by
  induction calls using List.reverseRecOn with
  | nil => cases hcall
  | append_singleton calls last ih =>
    obtain ⟨hcalls, hlast⟩ := allFresh_append_singleton hfresh
    obtain ⟨hbefore, ⟨after, (hafter : (run calls).link _ _ _ = _)⟩, -⟩ :=
      allSucceed_append.mp hsucceed
    have hsound := sound_run hcalls
    have horigin : d.origin ∈ origins [call.declaration] := origin_mem_origins hd
    rw [run_append_singleton, mem_merged_append_singleton]
    rcases List.mem_append.mp hcall with hcall | hcall
    · -- The last call leaves alone what the calls before it have passed.
      have hpassed : ∀ o ∈ origins [call.declaration], o ∈ origins (LinkCall.passed calls) := by
        intro o ho
        rw [origins_eq_flatMap, List.mem_flatMap]
        exact ⟨call.declaration, List.mem_map_of_mem hcall, ho⟩
      have hother : ∀ o ∈ origins [call.declaration], o ∉ origins [last.declaration] :=
        fun o ho hnew => hlast.unpassed o hnew (hpassed o ho)
      have hne : call.declaration.origin ≠ last.declaration.origin := fun heq =>
        hother call.declaration.origin (by simp) (heq ▸ by simp)
      obtain ⟨hgone, honce⟩ := ih hcalls hbefore hcall
      refine ⟨fun hmerged hmem => ?_, fun hmerged => ?_⟩
      · refine hgone (hmerged.resolve_right fun hlast => hne hlast.1) ?_
        exact mem_of_mem_attempt hsound hlast (hcalls.declared _ (hpassed _ horigin))
          (hother _ horigin) hmem
      · exact (honce fun hmem => hmerged (Or.inl hmem)).attempt hsound hlast
    · obtain rfl := List.mem_singleton.mp hcall
      have hnot : call.declaration.origin ∉ merged calls := fun hmem =>
        hlast.unpassed _ (by simp) (merged_subset calls hmem)
      have hsound' := hsound.attempt hlast
      rw [attempt_of_ok hafter] at hsound' ⊢
      refine ⟨fun hmerged => ?_, fun hmerged => ?_⟩
      · exact not_mem_of_merge? hsound hlast hafter (hmerged.resolve_left hnot).2 horigin
      · have hmerge : (run calls).merge? tree call.declaration call.element = none := by
          by_contra hne
          exact hmerged (Or.inr ⟨rfl, hne⟩)
        exact hsound'.occursOnce (link_adds hsound hlast hafter hmerge hd) (.refl d)

end Links

end DocComments
