import DocComments.Proofs.Elements
import DocComments.Proofs.Forest
import DocComments.Proofs.Outcome

/-!
# One call that links a declaration

A call looks for the declaration that the nearest element around has, makes up a class where there
is none to be found, and then puts the declaration at the end of the forest, at the end of the
members of another one, or gives its parameters to a class. What every call keeps is `Sound`.

* `destination_cases`: where a declaration can go.
* `placeBelow_cases`: what happens to it there.
* `sound_link`: a call with a declaration that was not passed before keeps `Sound`.
-/

namespace DocComments

/-- The origin of a class that the line brings about but does not declare. -/
def Origin.impliedClass (origin : Origin) : Origin :=
  { origin with implied := true }

/-- The line itself. -/
def Origin.declared (origin : Origin) : Origin :=
  { origin with implied := false }

namespace Links

open Declaration

variable {links : Links} {tree : SourceTree}

/-! ## Where a declaration goes -/

theorem mem_table_of_owner? {i : Nat} {o : Origin} (h : links.owner? i = some o) :
    (i, o) ∈ links.table := by
  obtain ⟨later, earlier, htable, -⟩ := List.lookup_eq_some_iff.mp h
  rw [← List.mem_reverse, htable]
  simp

theorem owner?_eq_none_iff {i : Nat} :
    links.owner? i = none ↔ ∀ entry ∈ links.table, entry.1 ≠ i := by
  rw [owner?, List.lookup_eq_none_iff]
  constructor
  · intro h entry hentry heq
    simpa [heq] using h entry (List.mem_reverse.mpr hentry)
  · intro h entry hentry
    exact bne_iff_ne.mpr (h entry (List.mem_reverse.mp hentry)).symm

/-- A parent is the declaration of an element around. -/
theorem owner?_of_parent? {e : Element} {o : Origin} (h : links.parent? tree e = some o) :
    ∃ a ∈ tree.ancestors e, links.owner? a.index = some o := by
  obtain ⟨a, ha, ho⟩ := List.exists_of_findSome?_eq_some h
  exact ⟨a, (List.mem_filter.mp ha).1, ho⟩

theorem enclosingClass?_spec {e c : Element} (h : tree.enclosingClass? e = some c) :
    c ∈ tree.ancestors e ∧ ∃ name, c.role = .classDeclaration name := by
  refine ⟨List.mem_of_find?_eq_some h, ?_⟩
  have hclass := List.find?_some h
  cases hrole : c.role <;> simp_all [Role.isClass]

/-- A declaration stands on its own only if there is no class around, and a class is made up only
if no element around has a declaration. -/
theorem destination_cases {e : Element} {goal : Destination}
    (h : links.destination tree e = .ok goal) :
    (links.parent? tree e = none ∧ tree.enclosingClass? e = none ∧ goal = .top) ∨
    (∃ p, links.parent? tree e = some p ∧ goal = .below p) ∨
    ∃ c name, links.parent? tree e = none ∧ tree.enclosingClass? e = some c ∧
      c.resolveName none = .ok name ∧
      goal = .belowImplied c { name, type := .classType none } := by
  unfold destination at h
  split at h
  · rename_i p hp
    cases h
    exact Or.inr (Or.inl ⟨p, hp, rfl⟩)
  · rename_i hp
    split at h
    · rename_i hclass
      cases h
      exact Or.inl ⟨hp, hclass, rfl⟩
    · rename_i c hclass
      obtain ⟨name, hname, h⟩ := except_bind_eq_ok.mp h
      obtain ⟨type, htype, h⟩ := except_bind_eq_ok.mp h
      cases h
      obtain ⟨-, own, hrole⟩ := enclosingClass?_spec hclass
      obtain rfl : TypeExpr.classType none = type := by
        simpa [Element.resolveType, Element.ownType, hrole] using htype
      exact Or.inr (Or.inr ⟨c, name, hp, hclass, hname, rfl⟩)

theorem destination_of_implied {e c : Element} {name : String}
    (hparent : links.parent? tree e = none) (hclass : tree.enclosingClass? e = some c)
    (hname : c.resolveName none = .ok name) :
    links.destination tree e = .ok (.belowImplied c { name, type := .classType none }) := by
  obtain ⟨-, own, hrole⟩ := enclosingClass?_spec hclass
  simp [destination, hparent, hclass, hname, Element.resolveType, Element.ownType, hrole,
    bind, Except.bind, pure, Except.pure]

/-- Below another declaration, a constructor gives its parameters to it, and all else becomes its
member. -/
theorem placeBelow_cases (links : Links) (p : Origin) (d : Declaration) (e : Element) :
    (∃ parameters, constructorParameters? d e (links.declaration? p) = some parameters ∧
      links.placeBelow p d e =
        (links.update p (.setConstructor parameters)).recordUnlessProgram e p) ∨
    (constructorParameters? d e (links.declaration? p) = none ∧
      links.placeBelow p d e = (links.update p (.addMember d)).recordUnlessProgram e d.origin) := by
  unfold placeBelow
  cases h : constructorParameters? d e (links.declaration? p) with
  | some parameters => exact Or.inl ⟨parameters, rfl, rfl⟩
  | none => exact Or.inr ⟨rfl, rfl⟩

/-- The links with the class that the call makes up. -/
def withImplied (links : Links) (origin : Origin) (c : Element) (heading : Heading) : Links :=
  (links.append ⟨origin.impliedClass, heading, none⟩).record c.index origin.impliedClass

/-- The links as a call has prepared them, and the declaration that it puts its own below: that of
an element around, or one made up for the class around. -/
inductive Prepared (links : Links) (tree : SourceTree) (d : Declaration) (e : Element) :
    Links → Origin → Prop
  | found {p : Origin} (hparent : links.parent? tree e = some p) : Prepared links tree d e links p
  | implied {c : Element} {name : String} (hparent : links.parent? tree e = none)
      (hclass : tree.enclosingClass? e = some c) (hname : c.resolveName none = .ok name) :
      Prepared links tree d e (links.withImplied d.origin c { name, type := .classType none })
        d.origin.impliedClass

/-- Everything that a call can do. -/
theorem link_cases {d : Declaration} {e : Element} {after : Links}
    (h : links.link tree d e = .ok after) :
    (links.parent? tree e = none ∧ tree.enclosingClass? e = none ∧
      after = (links.append d).recordUnlessProgram e d.origin) ∨
    ∃ ready p, Prepared links tree d e ready p ∧ after = ready.placeBelow p d e := by
  obtain ⟨goal, hgoal, rfl⟩ := except_map_eq_ok.mp h
  rcases destination_cases hgoal with ⟨hp, hc, rfl⟩ | ⟨p, hp, rfl⟩ | ⟨c, name, hp, hc, hname, rfl⟩
  · exact Or.inl ⟨hp, hc, rfl⟩
  · exact Or.inr ⟨links, p, .found hp, rfl⟩
  · exact Or.inr ⟨_, _, .implied hp hc hname, rfl⟩

/-! ## What every call keeps -/

@[simp] theorem recordUnlessProgram_declarations (links : Links) (e : Element) (o : Origin) :
    (links.recordUnlessProgram e o).declarations = links.declarations := by
  unfold recordUnlessProgram
  split <;> rfl

/-- After declarations were passed and linked: no declaration stands in the forest twice, all of it
was passed or made up on the way, and the table only leads to declarations of the forest, from
elements other than the program. -/
structure Sound (tree : SourceTree) (passed : List Declaration) (links : Links) : Prop where
  loose : links.loose = []
  nodup : (origins links.declarations).Nodup
  known : ∀ o ∈ origins links.declarations, o.declared ∈ origins passed
  recorded : ∀ entry ∈ links.table, entry.2 ∈ origins links.declarations
  located : ∀ entry ∈ links.table, ∃ e ∈ tree.elements, e.index = entry.1 ∧ e.role ≠ .program
  filled : Filled links.declarations

variable {passed : List Declaration}

theorem sound_empty (tree : SourceTree) : Sound tree [] {} where
  loose := rfl
  nodup := by simp
  known := by simp
  recorded := by simp
  located := by simp
  filled := by simp [Filled]

theorem Sound.mono (h : Sound tree passed links) {more : List Declaration}
    (hmore : origins passed ⊆ origins more) : Sound tree more links :=
  { h with known := fun o ho => hmore (h.known o ho) }

/-- Declarations that were passed and that the forest does not hold yet. -/
structure AreNew (links : Links) (passed extra : List Declaration) : Prop where
  nodup : (origins extra).Nodup
  absent : ∀ o ∈ origins extra, o ∉ origins links.declarations
  known : ∀ o ∈ origins extra, o.declared ∈ origins passed
  filled : Filled extra

theorem areNew_nil (links : Links) (passed : List Declaration) : AreNew links passed [] where
  nodup := by simp
  absent := by simp
  known := by simp
  filled := by simp [Filled]

/-- The forest may take in new declarations anywhere. -/
theorem Sound.grow (h : Sound tree passed links) {extra forest : List Declaration}
    (hperm : (origins forest).Perm (origins links.declarations ++ origins extra))
    (hfilled : Filled forest) (hnew : AreNew links passed extra) :
    Sound tree passed { links with declarations := forest } where
  loose := h.loose
  nodup := by
    rw [hperm.nodup_iff, List.nodup_append]
    exact ⟨h.nodup, hnew.nodup, fun o ho x hx heq => hnew.absent x hx (heq ▸ ho)⟩
  known := by
    intro o ho
    rcases List.mem_append.mp (hperm.mem_iff.mp ho) with ho | ho
    · exact h.known o ho
    · exact hnew.known o ho
  recorded := fun entry hentry =>
    hperm.mem_iff.mpr (List.mem_append_left _ (h.recorded entry hentry))
  located := h.located
  filled := hfilled

theorem Sound.record (h : Sound tree passed links) {e : Element} (he : e ∈ tree.elements)
    (hrole : e.role ≠ .program) {o : Origin} (ho : o ∈ origins links.declarations) :
    Sound tree passed (links.record e.index o) where
  loose := h.loose
  nodup := h.nodup
  known := h.known
  recorded := by
    intro entry hentry
    rcases List.mem_append.mp hentry with hentry | hentry
    · exact h.recorded entry hentry
    · rw [List.mem_singleton.mp hentry]
      exact ho
  located := by
    intro entry hentry
    rcases List.mem_append.mp hentry with hentry | hentry
    · exact h.located entry hentry
    · rw [List.mem_singleton.mp hentry]
      exact ⟨e, he, rfl, hrole⟩
  filled := h.filled

theorem Sound.recordUnlessProgram (h : Sound tree passed links) {e : Element}
    (he : e ∈ tree.elements) {o : Origin} (ho : o ∈ origins links.declarations) :
    Sound tree passed (links.recordUnlessProgram e o) := by
  unfold Links.recordUnlessProgram
  split
  · exact h
  · rename_i hrole
    exact h.record he hrole ho

theorem Sound.append (h : Sound tree passed links) {d : Declaration}
    (hnew : AreNew links passed [d]) : Sound tree passed (links.append d) :=
  h.grow (by rw [origins_append]) (filled_append.mpr ⟨h.filled, hnew.filled⟩) hnew

theorem Sound.update_eq (h : Sound tree passed links) (p : Origin)
    (f : Declaration → Declaration) :
    links.update p f = { links with declarations := updateAll p f links.declarations } := by
  simp [Links.update, h.loose]

/-- A change of one declaration that adds only what is new below it. -/
theorem Sound.update (h : Sound tree passed links) {p : Origin}
    (hp : p ∈ origins links.declarations) {f : Declaration → Declaration}
    {extra : List Declaration} (hf : Extends f extra)
    (hkeep : ∀ d : Declaration, d.members ≠ some [] → (f d).members ≠ some [])
    (hnew : AreNew links passed extra) : Sound tree passed (links.update p f) := by
  rw [h.update_eq]
  exact h.grow (origins_updateAll_perm hf h.nodup hp)
    (filled_updateAll hf hkeep p h.filled hnew.filled) hnew

theorem Sound.mem_update (h : Sound tree passed links) {p : Origin}
    (hp : p ∈ origins links.declarations) {f : Declaration → Declaration}
    {extra : List Declaration} (hf : Extends f extra) {o : Origin} :
    o ∈ origins (links.update p f).declarations ↔
      o ∈ origins links.declarations ∨ o ∈ origins extra := by
  rw [h.update_eq, (origins_updateAll_perm hf h.nodup hp).mem_iff, List.mem_append]

theorem addMember_members_ne (member d : Declaration) : (addMember member d).members ≠ some [] := by
  simp [addMember]

/-- What is put below a declaration of the forest stays within it, or leaves only its parameters. -/
theorem Sound.placeBelow (h : Sound tree passed links) {p : Origin}
    (hp : p ∈ origins links.declarations) {e : Element} (he : e ∈ tree.elements)
    {d : Declaration} (hnew : AreNew links passed [d]) :
    Sound tree passed (links.placeBelow p d e) := by
  rcases placeBelow_cases links p d e with ⟨parameters, -, heq⟩ | ⟨-, heq⟩
  · rw [heq]
    have hf := extends_setConstructor parameters
    exact (h.update hp hf (fun _ hd => hd) (areNew_nil _ _)).recordUnlessProgram he
      ((h.mem_update hp hf).mpr (Or.inl hp))
  · rw [heq]
    have hf := extends_addMember d
    exact (h.update hp hf (fun d' _ => addMember_members_ne d d') hnew).recordUnlessProgram he
      ((h.mem_update hp hf).mpr (Or.inr (by simp)))

/-- A declaration that comes with origins of lines, none of them passed before. -/
structure Fresh (passed : List Declaration) (d : Declaration) : Prop where
  nodup : (origins [d]).Nodup
  unpassed : ∀ o ∈ origins [d], o ∉ origins passed
  declared : ∀ o ∈ origins [d], o.implied = false
  filled : Filled [d]

theorem Fresh.declared_eq {d : Declaration} (h : Fresh passed d) {o : Origin}
    (ho : o ∈ origins [d]) : o.declared = o := by
  rw [Origin.declared, ← h.declared o ho]

theorem Fresh.declared_impliedClass {d : Declaration} (h : Fresh passed d) :
    d.origin.impliedClass.declared = d.origin :=
  h.declared_eq (o := d.origin) (by simp)

theorem Fresh.areNew {d : Declaration} (hd : Fresh passed d) (h : Sound tree passed links) :
    AreNew links (passed ++ [d]) [d] where
  nodup := hd.nodup
  absent := by
    intro o ho hmem
    exact hd.unpassed o ho (hd.declared_eq ho ▸ h.known o hmem)
  known := by
    intro o ho
    rw [hd.declared_eq ho, origins_append]
    exact List.mem_append_right _ ho
  filled := hd.filled

/-- The class that a call makes up is new as well. -/
theorem Fresh.areNew_implied {d : Declaration} (hd : Fresh passed d) (h : Sound tree passed links)
    (heading : Heading) :
    AreNew links (passed ++ [d]) [⟨d.origin.impliedClass, heading, none⟩] where
  nodup := by simp [parts]
  absent := by
    intro o ho hmem
    obtain rfl : o = d.origin.impliedClass := by simpa [parts] using ho
    exact hd.unpassed d.origin (by simp) (hd.declared_impliedClass ▸ h.known _ hmem)
  known := by
    intro o ho
    obtain rfl : o = d.origin.impliedClass := by simpa [parts] using ho
    simp [hd.declared_impliedClass]
  filled := by simp [Filled, parts]

/-- What a call prepares is sound, holds the declaration it found or made up, and has not taken in
the declaration that is passed. -/
theorem Sound.prepared (h : Sound tree passed links) {d : Declaration} (hd : Fresh passed d)
    {e : Element} {ready : Links} {p : Origin} (hready : Prepared links tree d e ready p) :
    Sound tree (passed ++ [d]) ready ∧ p ∈ origins ready.declarations ∧
      AreNew ready (passed ++ [d]) [d] := by
  have hlinks : Sound tree (passed ++ [d]) links := h.mono (by simp)
  have hnew := hd.areNew h
  cases hready with
  | found hparent =>
    obtain ⟨a, -, ha⟩ := owner?_of_parent? hparent
    exact ⟨hlinks, h.recorded _ (mem_table_of_owner? ha), hnew⟩
  | @implied c name hparent hclass hname =>
    obtain ⟨hmem, own, hrole⟩ := enclosingClass?_spec hclass
    have himplied := hlinks.append
      (hd.areNew_implied h { name, type := .classType none })
    refine ⟨himplied.record (tree.ancestors_subset e hmem) (by simp [hrole])
      (by simp [Links.append]), by simp [Links.withImplied, Links.append, Links.record],
      hnew.nodup, ?_, hnew.known, hnew.filled⟩
    -- The class is the only one that came in, and it has no origin of a line.
    intro o ho hforest
    simp only [Links.withImplied, Links.append, Links.record, origins_append,
      List.mem_append] at hforest
    rcases hforest with hforest | hforest
    · exact hnew.absent o ho hforest
    · obtain rfl : o = d.origin.impliedClass := by simpa [parts] using hforest
      simpa [Origin.impliedClass] using hd.declared _ ho

/-- A call with a fresh declaration keeps what every call keeps. -/
theorem sound_link (h : Sound tree passed links) {d : Declaration} (hd : Fresh passed d)
    {e : Element} (he : e ∈ tree.elements) {after : Links}
    (hafter : links.link tree d e = .ok after) : Sound tree (passed ++ [d]) after := by
  rcases link_cases hafter with ⟨-, -, rfl⟩ | ⟨ready, p, hready, rfl⟩
  · have hlinks : Sound tree (passed ++ [d]) links := h.mono (by simp)
    exact (hlinks.append (hd.areNew h)).recordUnlessProgram he (by simp [Links.append])
  · obtain ⟨hsound, hp, hnew⟩ := h.prepared hd hready
    exact hsound.placeBelow hp he hnew

end Links

end DocComments
