import DocComments.Proofs.LinkEffect
import DocComments.Proofs.LinkFailure

/-!
# Classes that are made up

A class without a declaration gets one made up when something inside it is linked and nothing around
takes that in. The class is recorded at once, so it is found from then on and never made up again;
and what brought it about becomes its member or gives it parameters, so it is never left bare.

* `implied?`: the class that a call makes up.
* `link_table`, `link_roots_eq`: what a call adds to the table and to the roots.
* `implied_recorded`, `implied_nodup`: the classes that a run makes up.
* `run_impliesOnce`: no class is made up twice, or bare, and its members do not become roots.
-/

namespace DocComments

open Declaration LinkCall

/-! ## Content -/

namespace Declaration

/-- The declaration has a member, or it is that of a class and has the parameters of a
constructor. -/
def HasContent (d : Declaration) : Prop :=
  d.parts ≠ [] ∨ ∃ parameters, d.heading.type = .classType (some parameters)

/-- A change that gives content to a declaration takes it from none. -/
theorem hasContent_update {f : Declaration → Declaration} {extra : List Declaration}
    (hf : Extends f extra) (hgives : ∀ d, (f d).HasContent) {p : Origin} {d : Declaration}
    (h : d.origin = p ∨ d.HasContent) : (update p f d).HasContent := by
  by_cases hp : d.origin = p
  · rw [update_eq, if_pos hp]
    exact hgives _
  · rcases h.resolve_left hp with hparts | ⟨parameters, htype⟩
    · refine Or.inl ?_
      rw [parts_update hf, if_neg hp, List.append_nil, updateAll_eq_map]
      simpa using hparts
    · refine Or.inr ⟨parameters, ?_⟩
      rw [heading_update_of_ne hp]
      exact htype

theorem hasContent_addMember (member d : Declaration) : (addMember member d).HasContent := by
  refine Or.inl ?_
  rw [(extends_addMember member).parts]
  simp

theorem hasContent_setConstructor (parameters : List (Parameter TypeExpr)) (d : Declaration) :
    (setConstructor parameters d).HasContent :=
  Or.inr ⟨parameters, rfl⟩

end Declaration

namespace Links

variable {links : Links} {tree : SourceTree} {passed : List Declaration}

/-! ## The class that a call makes up -/

/-- The class that a call for the element makes up, if it makes up one. -/
def implied? (links : Links) (tree : SourceTree) (e : Element) : Option Element :=
  match links.destination tree e with
  | .ok (.belowImplied c _) => some c
  | _ => none

theorem implied?_of_error {d : Declaration} {e : Element} {failure : Failure}
    (h : links.link tree d e = .error failure) : links.implied? tree e = none := by
  rw [link] at h
  cases hgoal : links.destination tree e with
  | ok goal => simp [hgoal, Except.map] at h
  | error cause => rw [implied?, hgoal]

theorem implied?_of_parent {e : Element} {p : Origin} (h : links.parent? tree e = some p) :
    links.implied? tree e = none := by
  simp [implied?, destination, h]

theorem implied?_of_top {e : Element} (hparent : links.parent? tree e = none)
    (hclass : tree.enclosingClass? e = none) : links.implied? tree e = none := by
  simp [implied?, destination, hparent, hclass]

theorem implied?_of_implied {e c : Element} {name : String} (hparent : links.parent? tree e = none)
    (hclass : tree.enclosingClass? e = some c) (hname : c.resolveName none = .ok name) :
    links.implied? tree e = some c := by
  rw [implied?, destination_of_implied hparent hclass hname]

/-- A class is made up only if it stands around the element and has no declaration. -/
theorem implied?_spec {e c : Element} (h : links.implied? tree e = some c) :
    c ∈ tree.ancestors e ∧ c.role.isClass = true ∧ ∀ entry ∈ links.table, entry.1 ≠ c.index := by
  obtain ⟨hparent, hclass⟩ : links.parent? tree e = none ∧ tree.enclosingClass? e = some c := by
    unfold implied? at h
    split at h
    · rename_i hgoal
      cases h
      rcases destination_cases hgoal with ⟨-, -, hother⟩ | ⟨_, -, hother⟩ | ⟨_, _, hp, hc, -, heq⟩
      · cases hother
      · cases hother
      · cases heq
        exact ⟨hp, hc⟩
    · cases h
  obtain ⟨hmem, own, hrole⟩ := enclosingClass?_spec hclass
  refine ⟨hmem, by rw [hrole]; rfl, ?_⟩
  -- Methods may be passed over on the way up, but the class is none.
  apply owner?_eq_none_iff.mp
  apply parent?_eq_none_iff.mp hparent c hmem
  intro _
  rw [hrole]
  rfl

/-- The entry for the class that a call makes up, if it makes up one. -/
def impliedEntry (links : Links) (tree : SourceTree) (d : Declaration) (e : Element) :
    List (Nat × Origin) :=
  (links.implied? tree e).toList.map fun c => (c.index, d.origin.impliedClass)

theorem mem_impliedEntry {d : Declaration} {e : Element} {entry : Nat × Origin}
    (h : entry ∈ links.impliedEntry tree d e) :
    ∃ c, links.implied? tree e = some c ∧ entry = (c.index, d.origin.impliedClass) := by
  obtain ⟨c, hc, rfl⟩ := List.mem_map.mp h
  exact ⟨c, Option.mem_toList.mp hc, rfl⟩

/-! ## What a call adds -/

/-- An entry for the element itself, which leads to its own declaration unless it is a method. -/
def IsOwnEntry (d : Declaration) (e : Element) (entry : Nat × Origin) : Prop :=
  entry.1 = e.index ∧ (entry.2 = d.origin ∨ e.role.isMethod = true)

theorem recordUnlessProgram_entries (links : Links) {d : Declaration} {e : Element} {o : Origin}
    (ho : o = d.origin ∨ e.role.isMethod = true) :
    ∃ own : List (Nat × Origin), (links.recordUnlessProgram e o).table = links.table ++ own ∧
      ∀ entry ∈ own, IsOwnEntry d e entry := by
  refine ⟨_, recordUnlessProgram_table links e o, fun entry hentry => ?_⟩
  split at hentry
  · cases hentry
  · rw [List.mem_singleton.mp hentry]
    exact ⟨rfl, ho⟩

theorem placeBelow_entries (links : Links) (p : Origin) (d : Declaration) (e : Element) :
    ∃ own : List (Nat × Origin), (links.placeBelow p d e).table = links.table ++ own ∧
      ∀ entry ∈ own, IsOwnEntry d e entry := by
  rcases placeBelow_cases links p d e with ⟨parameters, hparameters, heq⟩ | ⟨-, heq⟩
  · obtain ⟨⟨formals, hrole⟩, -⟩ := constructorParameters?_eq_some.mp hparameters
    have hmethod : e.role.isMethod = true := by rw [hrole]; rfl
    rw [heq]
    exact recordUnlessProgram_entries (links.update p _) (Or.inr hmethod)
  · rw [heq]
    exact recordUnlessProgram_entries (links.update p _) (Or.inl rfl)

/-- A call adds an entry for the class that it makes up, and then one for its own element. -/
theorem link_table {d : Declaration} {e : Element} {after : Links}
    (h : links.link tree d e = .ok after) :
    ∃ own : List (Nat × Origin),
      after.table = links.table ++ links.impliedEntry tree d e ++ own ∧
      ∀ entry ∈ own, IsOwnEntry d e entry := by
  rcases link_cases h with ⟨hparent, hclass, rfl⟩ | ⟨ready, p, hready, rfl⟩
  · rw [impliedEntry, implied?_of_top hparent hclass, Option.toList_none, List.map_nil,
      List.append_nil]
    exact recordUnlessProgram_entries (links.append d) (Or.inl rfl)
  · have hplaced := placeBelow_entries ready p d e
    cases hready with
    | found hparent =>
      rw [impliedEntry, implied?_of_parent hparent, Option.toList_none, List.map_nil,
        List.append_nil]
      exact hplaced
    | implied hparent hclass hname =>
      rw [impliedEntry, implied?_of_implied hparent hclass hname]
      exact hplaced

theorem placeBelow_roots (links : Links) (p : Origin) (d : Declaration) (e : Element) :
    (links.placeBelow p d e).declarations.map (·.origin) =
      links.declarations.map (·.origin) := by
  rcases placeBelow_cases links p d e with ⟨parameters, -, heq⟩ | ⟨-, heq⟩
  · rw [heq, recordUnlessProgram_declarations]
    exact map_origin_updateAll (extends_setConstructor parameters) p links.declarations
  · rw [heq, recordUnlessProgram_declarations]
    exact map_origin_updateAll (extends_addMember d) p links.declarations

/-- A call adds the class that it makes up to the roots, or else its own declaration if there is no
class around. -/
theorem link_roots_eq {d : Declaration} {e : Element} {after : Links}
    (h : links.link tree d e = .ok after) :
    after.declarations.map (·.origin) =
        links.declarations.map (·.origin) ++ (links.impliedEntry tree d e).map (·.2) ∨
      (tree.enclosingClass? e = none ∧ links.impliedEntry tree d e = [] ∧
        after.declarations.map (·.origin) = links.declarations.map (·.origin) ++ [d.origin]) := by
  rcases link_cases h with ⟨hparent, hclass, rfl⟩ | ⟨ready, p, hready, rfl⟩
  · refine Or.inr ⟨hclass, by rw [impliedEntry, implied?_of_top hparent hclass]; rfl, ?_⟩
    rw [recordUnlessProgram_declarations]
    simp [append]
  · refine Or.inl ?_
    rw [placeBelow_roots]
    cases hready with
    | found hparent =>
      rw [impliedEntry, implied?_of_parent hparent]
      simp
    | implied hparent hclass hname =>
      rw [impliedEntry, implied?_of_implied hparent hclass hname]
      simp [withImplied, append, record]

theorem impliedEntry_of_error {d : Declaration} {e : Element} {failure : Failure}
    (h : links.link tree d e = .error failure) : links.impliedEntry tree d e = [] := by
  rw [impliedEntry, implied?_of_error h]
  rfl

theorem attempt_table (links : Links) (call : LinkCall tree) :
    ∃ own : List (Nat × Origin), (links.attempt call).table =
        links.table ++ links.impliedEntry tree call.declaration call.element ++ own ∧
      ∀ entry ∈ own, IsOwnEntry call.declaration call.element entry := by
  unfold attempt
  split
  · rename_i after hafter
    exact link_table hafter
  · rename_i failure hfailure
    exact ⟨[], by simp [impliedEntry_of_error hfailure], by simp⟩

theorem attempt_roots_eq (links : Links) (call : LinkCall tree) :
    (links.attempt call).declarations.map (·.origin) = links.declarations.map (·.origin) ++
        (links.impliedEntry tree call.declaration call.element).map (·.2) ∨
      (tree.enclosingClass? call.element = none ∧
        links.impliedEntry tree call.declaration call.element = [] ∧
        (links.attempt call).declarations.map (·.origin) =
          links.declarations.map (·.origin) ++ [call.declaration.origin]) := by
  unfold attempt
  split
  · rename_i after hafter
    exact link_roots_eq hafter
  · rename_i failure hfailure
    exact Or.inl (by simp [impliedEntry_of_error hfailure])

/-- Before anything is put below it, the forest holds at most the class that is made up besides. -/
theorem Prepared.mem_origins_ready {d : Declaration} {e : Element} {ready : Links} {p o : Origin}
    (h : Prepared links tree d e ready p) (ho : o ∈ origins ready.declarations) :
    o ∈ origins links.declarations ∨ o ∈ (links.impliedEntry tree d e).map (·.2) := by
  cases h with
  | found hparent => exact Or.inl ho
  | implied hparent hclass hname =>
    simp only [withImplied, append, record, origins_append, List.mem_append] at ho
    refine ho.imp_right fun ho => ?_
    obtain rfl : o = d.origin.impliedClass := by simpa [parts] using ho
    simp [impliedEntry, implied?_of_implied hparent hclass hname]

/-- Nothing comes into the forest but what is passed and a class that is made up. -/
theorem mem_origins_attempt (h : Sound tree passed links) {call : LinkCall tree}
    (hd : Fresh passed call.declaration) {o : Origin}
    (ho : o ∈ origins (links.attempt call).declarations) :
    o ∈ origins links.declarations ∨ o ∈ origins [call.declaration] ∨
      o ∈ (links.impliedEntry tree call.declaration call.element).map (·.2) := by
  unfold attempt at ho
  split at ho
  · rename_i after hafter
    rcases link_declarations h hd hafter with ⟨-, heq⟩ |
      ⟨ready, p, hready, hsound, hp, ⟨-, heq⟩ | ⟨parameters, owner, -, -, -, heq⟩⟩
    · rw [heq, origins_append] at ho
      exact (List.mem_append.mp ho).imp_right Or.inl
    · rw [heq, (origins_updateAll_perm (extends_addMember _) hsound.nodup hp).mem_iff] at ho
      rcases List.mem_append.mp ho with ho | ho
      · exact (hready.mem_origins_ready ho).imp_right Or.inr
      · exact Or.inr (Or.inl ho)
    · rw [heq, (origins_updateAll_perm (extends_setConstructor parameters) hsound.nodup
        hp).mem_iff, origins_nil, List.append_nil] at ho
      exact (hready.mem_origins_ready ho).imp_right Or.inr
  · exact Or.inl ho

/-! ## Content of the classes that are made up -/

/-- No class that was made up is bare. -/
def ImpliedFilled (forest : List Declaration) : Prop :=
  ∀ d ∈ preorderAll forest, d.origin.implied = true → d.HasContent

theorem ImpliedFilled.updateAll {f : Declaration → Declaration} {extra : List Declaration}
    (hf : Extends f extra) (hgives : ∀ d, (f d).HasContent) {p : Origin}
    {forest : List Declaration} (h : ∀ d ∈ preorderAll forest, d.origin.implied = true →
      d.origin = p ∨ d.HasContent) (hextra : ∀ o ∈ origins extra, o.implied = false) :
    ImpliedFilled (updateAll p f forest) := by
  intro d hd himplied
  rcases mem_preorderAll_updateAll hf p hd with ⟨old, hold, rfl⟩ | hd
  · rw [origin_update hf] at himplied
    exact hasContent_update hf hgives (h old hold himplied)
  · rw [hextra _ (origin_mem_origins hd)] at himplied
    cases himplied

theorem ImpliedFilled.placeBelow {p : Origin} {d : Declaration} {e : Element}
    (hd : ∀ o ∈ origins [d], o.implied = false) (h : ∀ x ∈ preorderAll links.declarations,
      x.origin.implied = true → x.origin = p ∨ x.HasContent) :
    ImpliedFilled (links.placeBelow p d e).declarations := by
  rcases placeBelow_cases links p d e with ⟨parameters, -, heq⟩ | ⟨-, heq⟩
  · rw [heq, recordUnlessProgram_declarations]
    exact .updateAll (extends_setConstructor parameters) (hasContent_setConstructor parameters) h
      (by simp)
  · rw [heq, recordUnlessProgram_declarations]
    exact .updateAll (extends_addMember d) (hasContent_addMember d) h hd

theorem ImpliedFilled.link (h : ImpliedFilled links.declarations) {d : Declaration} {e : Element}
    (hd : ∀ o ∈ origins [d], o.implied = false) {after : Links}
    (hafter : links.link tree d e = .ok after) : ImpliedFilled after.declarations := by
  rcases link_cases hafter with ⟨-, -, rfl⟩ | ⟨ready, p, hready, rfl⟩
  · rw [recordUnlessProgram_declarations]
    intro x hx himplied
    simp only [append, preorderAll_append, List.mem_append] at hx
    rcases hx with hx | hx
    · exact h x hx himplied
    · rw [hd _ (origin_mem_origins hx)] at himplied
      cases himplied
  · refine ImpliedFilled.placeBelow hd fun x hx himplied => ?_
    cases hready with
    | found hparent => exact Or.inr (h x hx himplied)
    | implied hparent hclass hname =>
      -- The class that has just come in is the one that gets content now.
      simp only [withImplied, append, record, preorderAll_append, List.mem_append] at hx
      rcases hx with hx | hx
      · exact Or.inr (h x hx himplied)
      · have hown := origin_mem_origins hx
        exact Or.inl (by simpa [parts] using hown)

theorem impliedFilled_run {calls : List (LinkCall tree)} (hfresh : AllFresh calls) :
    ImpliedFilled (run calls).declarations := by
  induction calls using List.reverseRecOn with
  | nil => simp [ImpliedFilled, run]
  | append_singleton calls call ih =>
    obtain ⟨hcalls, hcall⟩ := allFresh_append_singleton hfresh
    rw [run_append_singleton]
    unfold attempt
    split
    · rename_i after hafter
      exact (ih hcalls).link hcall.declared hafter
    · exact ih hcalls

/-! ## Runs -/

/-- The classes that calls make up, made one after the other: the number of each class, and the
origin of the declaration that it gets. -/
def impliedFrom (links : Links) : List (LinkCall tree) → List (Nat × Origin)
  | [] => []
  | call :: rest =>
    links.impliedEntry tree call.declaration call.element ++ impliedFrom (links.attempt call) rest

/-- The classes that a run makes up. -/
def implied (calls : List (LinkCall tree)) : List (Nat × Origin) :=
  impliedFrom {} calls

theorem impliedFrom_append (links : Links) (calls more : List (LinkCall tree)) :
    impliedFrom links (calls ++ more) =
      impliedFrom links calls ++ impliedFrom (calls.foldl attempt links) more := by
  induction calls generalizing links with
  | nil => rfl
  | cons call rest ih => simp [impliedFrom, ih]

theorem implied_append_singleton (calls : List (LinkCall tree)) (call : LinkCall tree) :
    implied (calls ++ [call]) =
      implied calls ++ (run calls).impliedEntry tree call.declaration call.element := by
  rw [implied, impliedFrom_append, impliedFrom, impliedFrom, List.append_nil]
  rfl

theorem implied_recorded (calls : List (LinkCall tree)) : implied calls ⊆ (run calls).table := by
  induction calls using List.reverseRecOn with
  | nil => simp [implied, impliedFrom]
  | append_singleton calls call ih =>
    obtain ⟨own, htable, -⟩ := attempt_table (run calls) call
    rw [implied_append_singleton, run_append_singleton, htable]
    intro entry hentry
    rcases List.mem_append.mp hentry with hentry | hentry
    · exact List.mem_append_left _ (List.mem_append_left _ (ih hentry))
    · exact List.mem_append_left _ (List.mem_append_right _ hentry)

/-- A class that was made up has a declaration from then on, so it is not made up again. -/
theorem implied_nodup (calls : List (LinkCall tree)) : ((implied calls).map (·.1)).Nodup := by
  induction calls using List.reverseRecOn with
  | nil => simp [implied, impliedFrom]
  | append_singleton calls call ih =>
    rw [implied_append_singleton, List.map_append, List.nodup_append]
    refine ⟨ih, ?_, ?_⟩
    · rw [impliedEntry]
      cases (run calls).implied? tree call.element <;> simp
    · intro i hi j hj heq
      obtain ⟨entry, hentry, rfl⟩ := List.mem_map.mp hi
      obtain ⟨last, hlast, rfl⟩ := List.mem_map.mp hj
      obtain ⟨c, hc, rfl⟩ := mem_impliedEntry hlast
      exact (implied?_spec hc).2.2 entry (implied_recorded calls hentry) heq

/-- The classes that a run makes up are the roots that come from no line. -/
theorem implied_roots {calls : List (LinkCall tree)} (hfresh : AllFresh calls) :
    (implied calls).map (·.2) =
      ((run calls).declarations.map (·.origin)).filter (·.implied) := by
  induction calls using List.reverseRecOn with
  | nil => rfl
  | append_singleton calls call ih =>
    obtain ⟨hcalls, hcall⟩ := allFresh_append_singleton hfresh
    have hown : call.declaration.origin.implied = false := hcall.declared _ (by simp)
    rw [implied_append_singleton, run_append_singleton, List.map_append, ih hcalls]
    rcases attempt_roots_eq (run calls) call with hroots | ⟨-, hnone, hroots⟩
    · have hall : ((run calls).impliedEntry tree call.declaration call.element).map (·.2) =
          (((run calls).impliedEntry tree call.declaration call.element).map (·.2)).filter
            (·.implied) := by
        rw [impliedEntry]
        cases (run calls).implied? tree call.element <;> simp [Origin.impliedClass]
      rw [hroots, List.filter_append, ← hall]
    · rw [hroots, hnone, List.filter_append]
      simp [hown]

/-- The forest holds what was passed, and the classes that were made up. -/
theorem origins_run {calls : List (LinkCall tree)} (hfresh : AllFresh calls) {o : Origin}
    (ho : o ∈ origins (run calls).declarations) :
    o ∈ origins (LinkCall.passed calls) ∨ o ∈ (implied calls).map (·.2) := by
  induction calls using List.reverseRecOn with
  | nil => simp [run] at ho
  | append_singleton calls call ih =>
    obtain ⟨hcalls, hcall⟩ := allFresh_append_singleton hfresh
    rw [run_append_singleton] at ho
    rw [implied_append_singleton, passed_append, origins_append, List.map_append, List.mem_append,
      List.mem_append]
    rcases mem_origins_attempt (sound_run hcalls) hcall ho with ho | ho | ho
    · exact (ih hcalls ho).imp Or.inl Or.inl
    · exact Or.inl (Or.inr ho)
    · exact Or.inr (Or.inr ho)

/-- A root was made up, or it was passed for an element that is in no class. -/
theorem roots_run (calls : List (LinkCall tree)) {o : Origin}
    (ho : o ∈ (run calls).declarations.map (·.origin)) :
    o ∈ (implied calls).map (·.2) ∨ ∃ call ∈ calls, call.declaration.origin = o ∧
      tree.enclosingClass? call.element = none := by
  induction calls using List.reverseRecOn with
  | nil => simp [run] at ho
  | append_singleton calls call ih =>
    rw [implied_append_singleton, List.map_append, List.mem_append]
    have hroot : o ∈ (run calls).declarations.map (·.origin) ∨
        o ∈ ((run calls).impliedEntry tree call.declaration call.element).map (·.2) ∨
        (call.declaration.origin = o ∧ tree.enclosingClass? call.element = none) := by
      rw [run_append_singleton] at ho
      rcases attempt_roots_eq (run calls) call with hroots | ⟨hclass, -, hroots⟩
      · rw [hroots, List.mem_append] at ho
        exact ho.imp_right Or.inl
      · rw [hroots, List.mem_append, List.mem_singleton] at ho
        exact ho.imp_right fun hown => Or.inr ⟨hown.symm, hclass⟩
    rcases hroot with ho | ho | hown
    · rcases ih ho with ho | ⟨other, hother, hrest⟩
      · exact Or.inl (Or.inl ho)
      · exact Or.inr ⟨other, List.mem_append_left _ hother, hrest⟩
    · exact Or.inl (Or.inr ho)
    · exact Or.inr ⟨call, List.mem_append_right _ (List.mem_singleton_self call), hown⟩

theorem implied_of_mem {calls : List (LinkCall tree)} (hfresh : AllFresh calls) {o : Origin}
    (ho : o ∈ (implied calls).map (·.2)) : o.implied = true := by
  rw [implied_roots hfresh] at ho
  exact (List.mem_filter.mp ho).2

/-- **Classes that are made up.** In a run of fresh calls, the declarations that no call passed are
those that calls made up for classes. Each is a root and is recorded for its class. No class gets a
second one, and a class gets one only while no declaration is recorded for it. After any first part
of the calls, all of them have a member or the parameters of a constructor. What is passed for an
element inside a class declaration never becomes a root. -/
theorem run_impliesOnce {calls : List (LinkCall tree)} (hfresh : AllFresh calls) :
    (∀ o ∈ origins (run calls).declarations, o ∉ origins (LinkCall.passed calls) →
      o ∈ (implied calls).map (·.2)) ∧
    (implied calls).map (·.2) = ((run calls).declarations.map (·.origin)).filter (·.implied) ∧
    implied calls ⊆ (run calls).table ∧
    ((implied calls).map (·.1)).Nodup ∧
    (∀ past call rest, calls = past ++ call :: rest → ∀ c,
      (run past).implied? tree call.element = some c → c ∈ tree.ancestors call.element ∧
        c.role.isClass = true ∧ ∀ entry ∈ (run past).table, entry.1 ≠ c.index) ∧
    ∀ past, past <+: calls →
      (∀ d ∈ preorderAll (run past).declarations, d.origin ∉ origins (LinkCall.passed calls) →
        d.HasContent) ∧
      ∀ call ∈ calls, (∃ c ∈ tree.ancestors call.element, c.role.isClass = true) →
        call.declaration.origin ∉ (run past).declarations.map (·.origin) := by
  refine ⟨fun o ho hnew => (origins_run hfresh ho).resolve_left hnew, implied_roots hfresh,
    implied_recorded calls, implied_nodup calls, fun past call rest _ c hc => implied?_spec hc, ?_⟩
  intro past hpast
  have hpastFresh := allFresh_past hpast hfresh
  refine ⟨fun d hd hnew => ?_, fun call hcall ⟨c, hc, hclass⟩ hroot => ?_⟩
  · rcases origins_run hpastFresh (origin_mem_origins hd) with hpassed | himplied
    · obtain ⟨rest, rfl⟩ := hpast
      rw [passed_append, origins_append] at hnew
      exact absurd (List.mem_append_left _ hpassed) hnew
    · exact impliedFilled_run hpastFresh d hd (implied_of_mem hpastFresh himplied)
  · rcases roots_run past hroot with himplied | ⟨other, hother, horigin, hnone⟩
    · cases (implied_of_mem hpastFresh himplied).symm.trans (not_implied_of_mem hfresh hcall)
    · rw [call_eq_of_origin hfresh (hpast.subset hother) hcall horigin] at hnone
      exact List.find?_eq_none.mp hnone c hc hclass

theorem run_impliesOnce_mixedCalls :
    AllFresh mixedCalls ∧
    implied mixedCalls = [(7, { block := 1, line := 0, implied := true })] ∧
    ((run mixedCalls).declarations.map (·.origin)).filter (·.implied) =
      [{ block := 1, line := 0, implied := true }] ∧
    ∀ d ∈ preorderAll (run mixedCalls).declarations,
      d.origin ∉ origins (LinkCall.passed mixedCalls) → d.HasContent := by
  have hfresh : AllFresh mixedCalls := by decide +kernel
  have himplied : implied mixedCalls = [(7, { block := 1, line := 0, implied := true })] := by
    decide +kernel
  obtain ⟨-, hroots, -, -, -, hpasts⟩ := run_impliesOnce hfresh
  refine ⟨hfresh, himplied, ?_, (hpasts mixedCalls List.prefix_rfl).1⟩
  rw [← hroots, himplied]
  rfl

end Links

end DocComments
