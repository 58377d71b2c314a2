import DocComments.Proofs.ImpliedClasses
import DocComments.Proofs.Subtrees

/-!
# Hosts of fields

An assignment to a field of `this` documents a field of the class, not of the method that makes the
assignment. The way up from it leaves out methods, but a table entry may lead from one element to
the declaration of another: a constructor that was merged leads to its class. So what matters is
where entries come from. An entry that leads to the declaration of a method starts at a method, and
no way up from an assignment comes by there.

* `hasMember_run`: what became a member of what, and in which call.
* `table_run`: where the entries of the table come from.
* `Sound.link_field`: where the declaration of an assignment goes.
* `field_host`: no field becomes the member of a method, and each comes last in one host.
-/

namespace DocComments

open Declaration LinkCall

/-! ## Members by origin -/

namespace Declaration

/-- A declaration from the origin `o` has a member from `m`. -/
def HasMember (forest : List Declaration) (o m : Origin) : Prop :=
  ∃ host ∈ preorderAll forest, host.origin = o ∧ m ∈ host.parts.map (·.origin)

variable {forest more : List Declaration} {o m : Origin}

theorem hasMember_append :
    HasMember (forest ++ more) o m ↔ HasMember forest o m ∨ HasMember more o m := by
  simp only [HasMember, preorderAll_append, List.mem_append, or_and_right, exists_or]

theorem HasMember.mem_origins (h : HasMember forest o m) : m ∈ origins forest := by
  obtain ⟨host, hhost, -, hm⟩ := h
  obtain ⟨member, hmember, rfl⟩ := List.mem_map.mp hm
  exact origin_mem_origins (preorderAll_parts_subset hhost (roots_subset _ hmember))

/-- A member of a tree is below its root. -/
theorem HasMember.mem_origins_parts {root : Declaration} (h : HasMember [root] o m) :
    m ∈ origins root.parts := by
  obtain ⟨host, hhost, ho, hm⟩ := h
  rw [preorderAll_cons, preorderAll_nil, List.append_nil, List.mem_cons] at hhost
  rcases hhost with rfl | hhost
  · exact (roots_sublist _).subset hm
  · exact HasMember.mem_origins ⟨host, hhost, ho, hm⟩

/-- A root is no member. -/
theorem not_hasMember_root (hnodup : (origins forest).Nodup) {root : Declaration}
    (hroot : root ∈ forest) : ¬ HasMember forest o root.origin := by
  induction forest with
  | nil => cases hroot
  | cons first rest ih =>
    rw [origins_cons, List.nodup_cons, List.nodup_append] at hnodup
    obtain ⟨hfirst, -, hrest, hdisjoint⟩ := hnodup
    rw [← List.singleton_append, hasMember_append]
    rintro (hmember | hmember)
    · have hparts := hmember.mem_origins_parts
      rcases List.mem_cons.mp hroot with rfl | hroot
      · exact hfirst (List.mem_append_left _ hparts)
      · exact hdisjoint _ hparts _ (origin_mem_origins (roots_subset _ hroot)) rfl
    · rcases List.mem_cons.mp hroot with rfl | hroot
      · exact hfirst (List.mem_append_right _ hmember.mem_origins)
      · exact ih hrest hroot hmember

/-- A change brings in the members that it adds, and what they have as members. -/
theorem HasMember.of_updateAll {f : Declaration → Declaration} {extra : List Declaration}
    (hf : Extends f extra) {p : Origin} (h : HasMember (updateAll p f forest) o m) :
    HasMember forest o m ∨ HasMember extra o m ∨ (o = p ∧ m ∈ extra.map (·.origin)) := by
  obtain ⟨host, hhost, rfl, hm⟩ := h
  rcases mem_preorderAll_updateAll hf p hhost with ⟨old, hold, rfl⟩ | hextra
  · rw [parts_update hf, List.map_append, map_origin_updateAll hf, List.mem_append] at hm
    rw [origin_update hf]
    rcases hm with hm | hm
    · exact Or.inl ⟨old, hold, rfl, hm⟩
    · split at hm
      · rename_i hp
        exact Or.inr (Or.inr ⟨hp, hm⟩)
      · cases hm
  · exact Or.inr (Or.inl ⟨host, hextra, rfl, hm⟩)

end Declaration

namespace Links

variable {links : Links} {tree : SourceTree} {passed : List Declaration}

/-! ## Members that calls bring about -/

theorem Prepared.hasMember {d : Declaration} {e : Element} {ready : Links} {p o m : Origin}
    (h : Prepared links tree d e ready p) (hm : HasMember ready.declarations o m) :
    HasMember links.declarations o m := by
  cases h with
  | found hparent => exact hm
  | implied hparent hclass hname =>
    -- The class that is made up has no members yet.
    refine (hasMember_append.mp hm).resolve_right fun hown => ?_
    simpa [parts] using hown.mem_origins_parts

/-- A call makes its own declaration the member of the one that it found or made up. -/
theorem hasMember_attempt (h : Sound tree passed links) {call : LinkCall tree}
    (hcall : Fresh passed call.declaration) {o m : Origin}
    (hm : HasMember (links.attempt call).declarations o m) :
    HasMember links.declarations o m ∨ HasMember [call.declaration] o m ∨
      (m = call.declaration.origin ∧
        ∃ ready, Prepared links tree call.declaration call.element ready o) := by
  unfold attempt at hm
  split at hm
  · rename_i after hafter
    rcases link_declarations h hcall hafter with ⟨-, heq⟩ |
      ⟨ready, p, hready, -, -, ⟨-, heq⟩ | ⟨parameters, -, -, -, -, heq⟩⟩
    · rw [heq, hasMember_append] at hm
      exact hm.imp_right Or.inl
    · rw [heq] at hm
      rcases hm.of_updateAll (extends_addMember _) with hm | hm | ⟨rfl, hown⟩
      · exact Or.inl (hready.hasMember hm)
      · exact Or.inr (Or.inl hm)
      · exact Or.inr (Or.inr ⟨by simpa using hown, ready, hready⟩)
    · rw [heq] at hm
      rcases hm.of_updateAll (extends_setConstructor parameters) with hm | hm | ⟨-, hm⟩
      · exact Or.inl (hready.hasMember hm)
      · cases hm.mem_origins
      · cases hm
  · exact Or.inl hm

/-- A member came with what a call passed, or was itself passed by a call that put it there. -/
theorem hasMember_run {calls : List (LinkCall tree)} (hfresh : AllFresh calls) {o m : Origin}
    (hm : HasMember (run calls).declarations o m) :
    HasMember (LinkCall.passed calls) o m ∨
      ∃ past call rest, calls = past ++ call :: rest ∧ m = call.declaration.origin ∧
        ∃ ready, Prepared (run past) tree call.declaration call.element ready o := by
  induction calls using List.reverseRecOn with
  | nil => cases hm.mem_origins
  | append_singleton calls call ih =>
    obtain ⟨hcalls, hcall⟩ := allFresh_append_singleton hfresh
    rw [run_append_singleton] at hm
    rw [passed_append, hasMember_append]
    rcases hasMember_attempt (sound_run hcalls) hcall hm with hm | hm | ⟨hown, hready⟩
    · rcases ih hcalls hm with hm | ⟨past, other, rest, rfl, hrest⟩
      · exact Or.inl (Or.inl hm)
      · exact Or.inr ⟨past, other, rest ++ [call], by simp, hrest⟩
    · exact Or.inl (Or.inr hm)
    · exact Or.inr ⟨calls, call, [], rfl, hown, hready⟩

/-! ## Entries of the table -/

/-- An entry leads to a class that was made up, or was made by a call for its own element. -/
theorem table_run (calls : List (LinkCall tree)) {entry : Nat × Origin}
    (hentry : entry ∈ (run calls).table) :
    entry.2.implied = true ∨ ∃ call ∈ calls, IsOwnEntry call.declaration call.element entry := by
  induction calls using List.reverseRecOn with
  | nil => cases hentry
  | append_singleton calls call ih =>
    obtain ⟨own, htable, hown⟩ := attempt_table (run calls) call
    rw [run_append_singleton, htable, List.mem_append, List.mem_append] at hentry
    rcases hentry with (hentry | hentry) | hentry
    · refine (ih hentry).imp_right fun ⟨other, hother, hrest⟩ => ?_
      exact ⟨other, List.mem_append_left _ hother, hrest⟩
    · obtain ⟨c, -, rfl⟩ := mem_impliedEntry hentry
      exact Or.inl rfl
    · exact Or.inr ⟨call, by simp, hown entry hentry⟩

/-- Only methods have the declaration that a call passed for a method. -/
theorem isMethod_of_recorded (hnumbered : tree.Numbered) {past calls : List (LinkCall tree)}
    (hpast : past <+: calls) (hfresh : AllFresh calls) {method : LinkCall tree}
    (hmethod : method ∈ calls) (hrole : method.element.role.isMethod = true) {a : Element}
    (ha : a ∈ tree.elements) (hentry : (a.index, method.declaration.origin) ∈ (run past).table) :
    a.role.isMethod = true := by
  rcases table_run past hentry with himplied | ⟨call, hcall, hindex, hown⟩
  · cases himplied.symm.trans (not_implied_of_mem hfresh hmethod)
  · rw [hnumbered.eq_of_index ha call.element_mem hindex]
    rcases hown with horigin | hown
    · rwa [← call_eq_of_origin hfresh hmethod (hpast.subset hcall) horigin]
    · exact hown

/-! ## The host of a field -/

theorem owner?_record (links : Links) (i : Nat) (o : Origin) :
    (links.record i o).owner? i = some o := by
  simp [record, owner?]

theorem owner?_recordUnlessProgram_of_ne (links : Links) {e : Element} {i : Nat} (hne : i ≠ e.index)
    (o : Origin) : (links.recordUnlessProgram e o).owner? i = links.owner? i := by
  unfold recordUnlessProgram
  split
  · rfl
  · simp [record, owner?, List.lookup_cons, beq_eq_false_iff_ne.mpr hne]

/-- What a call puts its own declaration below is that of an element around, which is no method if
the call is for an assignment. -/
theorem Prepared.hosted {d : Declaration} {e : Element} {ready : Links} {p : Origin}
    (h : Prepared links tree d e ready p) :
    ∃ a ∈ tree.ancestors e, (e.role.isAssignment = true → a.role.isMethod = false) ∧
      ready.owner? a.index = some p := by
  cases h with
  | found hparent =>
    obtain ⟨a, ha, howner⟩ := List.exists_of_findSome?_eq_some hparent
    obtain ⟨haround, hpass⟩ := List.mem_filter.mp ha
    refine ⟨a, haround, fun hassignment => ?_, howner⟩
    simpa [hassignment] using hpass
  | @implied c name hparent hclass hname =>
    obtain ⟨hmem, own, hrole⟩ := enclosingClass?_spec hclass
    refine ⟨c, hmem, fun _ => ?_, owner?_record _ _ _⟩
    rw [hrole]
    rfl

theorem Prepared.unique {d : Declaration} {e : Element} {ready ready' : Links} {p p' : Origin}
    (h : Prepared links tree d e ready p) (h' : Prepared links tree d e ready' p') : p = p' := by
  cases h with
  | found hparent =>
    cases h' with
    | found hparent' => exact Option.some.inj (hparent.symm.trans hparent')
    | implied hnone => cases hparent.symm.trans hnone
  | implied hnone =>
    cases h' with
    | found hparent' => cases hnone.symm.trans hparent'
    | implied => rfl

/-- Inside a class, the declaration of an assignment becomes a member. -/
theorem link_assignment {d : Declaration} {e : Element} (hrole : e.role.isAssignment = true)
    (hinside : ∃ c ∈ tree.ancestors e, c.role.isClass = true) {after : Links}
    (hafter : links.link tree d e = .ok after) :
    ∃ ready p, Prepared links tree d e ready p ∧
      after = (ready.update p (.addMember d)).recordUnlessProgram e d.origin := by
  rcases link_cases hafter with ⟨-, hclass, -⟩ | ⟨ready, p, hready, rfl⟩
  · obtain ⟨c, hc, hisClass⟩ := hinside
    exact absurd hisClass (List.find?_eq_none.mp hclass c hc)
  · refine ⟨ready, p, hready, ?_⟩
    rcases placeBelow_cases ready p d e with ⟨parameters, hmerge, -⟩ | ⟨-, heq⟩
    · obtain ⟨⟨formals, hmethod⟩, -⟩ := constructorParameters?_eq_some.mp hmerge
      rw [hmethod] at hrole
      cases hrole
    · exact heq

theorem Sound.exists_host (h : Sound tree passed links) {p : Origin}
    (hp : p ∈ origins links.declarations) (d : Declaration) :
    ∃ host ∈ preorderAll (links.update p (.addMember d)).declarations,
      host.origin = p ∧ host.parts.getLast? = some d := by
  obtain ⟨old, hold, rfl⟩ := List.mem_map.mp hp
  have hf := extends_addMember d
  refine ⟨Declaration.update old.origin (addMember d) old, ?_, origin_update hf _ _, ?_⟩
  · rw [h.update_eq]
    exact update_mem_preorderAll hf old.origin hold
  · rw [parts_update hf, if_pos rfl, List.getLast?_concat]

/-- What has the declaration of a call as a member right after it is what the call put it below. -/
theorem origin_eq_of_hasMember (h : Sound tree passed links) {call : LinkCall tree}
    (hcall : Fresh passed call.declaration) {ready : Links} {p o : Origin}
    (hready : Prepared links tree call.declaration call.element ready p)
    (hm : HasMember (links.attempt call).declarations o call.declaration.origin) : o = p := by
  rcases hasMember_attempt h hcall hm with hm | hm | ⟨-, ready', hready'⟩
  · exact absurd hm.mem_origins ((hcall.areNew h).absent _ (by simp))
  · exact absurd hm (not_hasMember_root hcall.nodup (List.mem_singleton_self _))
  · exact hready'.unique hready

/-- Right after its call, the declaration of an assignment inside a class is the last member of one
declaration, which an element around has that is no method, and a member of no other one. -/
theorem Sound.link_field (h : Sound tree passed links) (htree : tree.Subdivided)
    {call : LinkCall tree} (hcall : Fresh passed call.declaration)
    (hrole : call.element.role.isAssignment = true)
    (hinside : ∃ c ∈ tree.ancestors call.element, c.role.isClass = true) {after : Links}
    (hafter : links.link tree call.declaration call.element = .ok after) :
    ∃ host ∈ preorderAll after.declarations,
      host.parts.getLast? = some call.declaration ∧
      (∃ a ∈ tree.ancestors call.element, a.role.isMethod = false ∧
        after.owner? a.index = some host.origin) ∧
      ∀ other ∈ preorderAll after.declarations,
        call.declaration.origin ∈ other.parts.map (·.origin) → other = host := by
  obtain ⟨ready, p, hready, heq⟩ := link_assignment hrole hinside hafter
  obtain ⟨hsound, hp, -⟩ := h.prepared hcall hready
  obtain ⟨host, hhost, rfl, hlast⟩ := hsound.exists_host hp call.declaration
  have hmem : host ∈ preorderAll after.declarations := by
    rwa [heq, recordUnlessProgram_declarations]
  refine ⟨host, hmem, hlast, ?_, fun other hother hmember => ?_⟩
  · obtain ⟨a, ha, hmethod, howner⟩ := hready.hosted
    refine ⟨a, ha, hmethod hrole, ?_⟩
    -- The element comes after those around it, so the entry that it gets is not one of theirs.
    have hlt : a.index < call.element.index :=
      (List.pairwise_cons.mp (htree.ancestors_descending call.element_mem)).1 a ha
    rw [heq, owner?_recordUnlessProgram_of_ne _ (Nat.ne_of_lt hlt)]
    exact howner
  · have horigin : other.origin = host.origin := by
      apply origin_eq_of_hasMember h hcall hready
      rw [attempt_of_ok hafter]
      exact ⟨other, hother, rfl, hmember⟩
    have hnodup := (sound_link h hcall call.element_mem hafter).nodup
    exact List.inj_on_of_nodup_map hnodup hother hmem horigin

/-- What a call for an assignment puts its declaration below was not passed for a method. -/
theorem Prepared.ne_method (hnumbered : tree.Numbered) {past calls : List (LinkCall tree)}
    (hpast : past <+: calls) (hfresh : AllFresh calls) {method : LinkCall tree}
    (hmethod : method ∈ calls) (hrole : method.element.role.isMethod = true) {d : Declaration}
    {e : Element} (hassignment : e.role.isAssignment = true) {ready : Links} {p : Origin}
    (h : Prepared (run past) tree d e ready p) : p ≠ method.declaration.origin := by
  intro hp
  obtain ⟨a, ha, hother, howner⟩ := h.hosted
  cases h with
  | found hparent =>
    have hentry : (a.index, method.declaration.origin) ∈ (run past).table := by
      rw [← hp]
      exact mem_table_of_owner? howner
    have hmethodRole : a.role.isMethod = true := by
      apply isMethod_of_recorded hnumbered hpast hfresh hmethod hrole _ hentry
      exact tree.ancestors_subset e ha
    rw [hother hassignment] at hmethodRole
    cases hmethodRole
  | implied hparent hclass hname =>
    have himplied : d.origin.impliedClass.implied = true := rfl
    rw [hp, not_implied_of_mem hfresh hmethod] at himplied
    cases himplied

/-- **Hosts of fields.** In a run of fresh calls, what is passed for an assignment never becomes a
member of what is passed for a method. Inside a class declaration, the call for an assignment
succeeds, unless a class without a name would have to be made up; and then its declaration is the
last member of one declaration and no member of another one, and that one is recorded for an element
around the assignment that is no method. -/
theorem field_host (program : Program) {calls : List (LinkCall program.tree)}
    (hfresh : AllFresh calls) :
    (∀ past, past <+: calls → ∀ field ∈ calls, ∀ method ∈ calls,
      field.element.role.isAssignment = true → method.element.role.isMethod = true →
      ¬ HasMember (run past).declarations method.declaration.origin field.declaration.origin) ∧
    ∀ past field rest, calls = past ++ field :: rest → field.element.role.isAssignment = true →
      (∃ c ∈ program.tree.ancestors field.element, c.role.isClass = true) →
      ¬ ((run past).Unhosted program.tree field.element ∧
        ∃ c, program.tree.IsNearestClass field.element c ∧ c.Nameless) →
      ∃ after, (run past).link program.tree field.declaration field.element = .ok after ∧
        ∃ host ∈ preorderAll after.declarations,
          host.parts.getLast? = some field.declaration ∧
          (∃ a ∈ program.tree.ancestors field.element, a.role.isMethod = false ∧
            after.owner? a.index = some host.origin) ∧
          ∀ other ∈ preorderAll after.declarations,
            field.declaration.origin ∈ other.parts.map (·.origin) → other = host := by
  constructor
  · intro past hpast field hfield method hmethod hassignment hrole hmember
    rcases hasMember_run (allFresh_past hpast hfresh) hmember with hpassed |
      ⟨before, call, rest, rfl, horigin, ready, hready⟩
    · obtain ⟨more, rfl⟩ := hpast
      have hwhole : HasMember (passed (past ++ more)) method.declaration.origin
          field.declaration.origin := by
        rw [passed_append]
        exact hasMember_append.mpr (Or.inl hpassed)
      exact not_hasMember_root hfresh.nodup (List.mem_map_of_mem hfield) hwhole
    · obtain rfl := call_eq_of_origin hfresh hfield (hpast.subset (by simp)) horigin
      have hbefore : before <+: calls := (List.prefix_append _ _).trans hpast
      exact hready.ne_method program.tree_numbered hbefore hfresh hmethod hrole hassignment rfl
  · rintro past field rest rfl hassignment hinside hhosted
    have hprefix : past ++ [field] <+: past ++ field :: rest := ⟨rest, by simp⟩
    obtain ⟨hpast, hfield⟩ := allFresh_append_singleton (allFresh_past hprefix hfresh)
    cases hafter : (run past).link program.tree field.declaration field.element with
    | error failure =>
      obtain ⟨hunhosted, c, hclass, hnameless, -⟩ := link_eq_error_iff.mp hafter
      exact absurd ⟨hunhosted, c, hclass, hnameless⟩ hhosted
    | ok after =>
      exact ⟨after, rfl, (sound_run hpast).link_field program.tree_subdivided hfield hassignment
        hinside hafter⟩

/-- A statement that assigns to a field of `this`. -/
def fieldOf (name : String) : Node Attached :=
  .plain "ExpressionStatement" [("expression", .one
    (.plain "AssignmentExpression" [("left", .one (.plain "MemberExpression" [
      ("object", .one (.plain "ThisExpression" [] [])),
      ("property", .one (.named name))] []))] []))] []

/-- A class whose constructor sets one field, and whose method sets another. -/
def countingClass : Program where
  root := .plain "Program" [("body", .many [
    .classOf "ClassDeclaration" (some "Counter") [
      .methodOf "constructor" [fieldOf "count"] [],
      .methodOf "label" [fieldOf "text"] []]])] []
  comments := []

/-- A call for the element at an index. -/
def countingCall (line : Nat) (name : String) (type : TypeExpr)
    (index : Fin countingClass.tree.elements.length) : LinkCall countingClass.tree where
  declaration := ⟨{ block := 0, line }, { name, type }, none⟩
  index

/-- The call for the method, which makes up the class. -/
def labelCall : LinkCall countingClass.tree :=
  countingCall 0 "label" (.function [] none) ⟨13, by decide +kernel⟩

/-- Calls for the constructor, which is merged into the class, and for the field that it sets. -/
def countCalls : List (LinkCall countingClass.tree) :=
  [countingCall 1 "constructor" (.function [] none) ⟨4, by decide +kernel⟩,
    countingCall 2 "count" .anyType ⟨8, by decide +kernel⟩]

/-- The call for the field that the method sets. -/
def textCall : LinkCall countingClass.tree :=
  countingCall 3 "text" .anyType ⟨17, by decide +kernel⟩

theorem field_host_textCall :
    AllFresh (labelCall :: countCalls ++ [textCall]) ∧
    labelCall.element ∈ countingClass.tree.ancestors textCall.element ∧
    (run (labelCall :: countCalls ++ [textCall])).owner? labelCall.element.index =
      some labelCall.declaration.origin ∧
    ¬ HasMember (run (labelCall :: countCalls ++ [textCall])).declarations
      labelCall.declaration.origin textCall.declaration.origin ∧
    ∃ after, (run (labelCall :: countCalls)).link countingClass.tree textCall.declaration
        textCall.element = .ok after ∧
      ∃ host ∈ preorderAll after.declarations,
        host.parts.getLast? = some textCall.declaration ∧
        ∃ a ∈ countingClass.tree.ancestors textCall.element, a.role.isMethod = false ∧
          after.owner? a.index = some host.origin := by
  have hfresh : AllFresh (labelCall :: countCalls ++ [textCall]) := by decide +kernel
  have hclass : countingClass.tree.elements.get ⟨1, by decide +kernel⟩ ∈
      countingClass.tree.ancestors textCall.element := by decide +kernel
  have hhosted : ¬ ((run (labelCall :: countCalls)).Unhosted countingClass.tree textCall.element ∧
      ∃ c, countingClass.tree.IsNearestClass textCall.element c ∧ c.Nameless) := by
    rintro ⟨hunhosted, -⟩
    have hnone := hunhosted _ hclass (fun _ => by decide +kernel)
    revert hnone
    decide +kernel
  obtain ⟨hapart, hlast⟩ := field_host countingClass hfresh
  obtain ⟨after, hafter, host, hhost, hparts, hrecorded, -⟩ := hlast (labelCall :: countCalls)
    textCall [] rfl (by decide +kernel) ⟨_, hclass, by decide +kernel⟩ hhosted
  refine ⟨hfresh, by decide +kernel, by decide +kernel, ?_, after, hafter, host, hhost, hparts,
    hrecorded⟩
  exact hapart _ List.prefix_rfl textCall (by simp) labelCall (by simp) (by decide +kernel)
    (by decide +kernel)

end Links

end DocComments
