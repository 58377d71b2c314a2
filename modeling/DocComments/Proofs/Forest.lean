import DocComments.Declaration.Basic
import Mathlib.Data.List.Nodup

/-!
# Forests of declarations

A forest is read through its pre-order, and a declaration in it is known by its origin. A change
of the declaration from one origin keeps what is below it and may add members at the end; this is
`Extends`, and adding a member and setting the parameters of a constructor are the two cases.

* `count_origins_updateAll`: how often an origin occurs after such a change.
* `update_mem_preorderAll`, `mem_preorderAll_updateAll`: which declarations there are after it.
* `path_unique`: where no origin occurs twice, every declaration is reached by one path only.
-/

namespace DocComments.Declaration

/-! ## Pre-order -/

/-- The members of a declaration as a list, which is empty where there are none. -/
def parts (declaration : Declaration) : List Declaration :=
  declaration.members.getD []

theorem preorder_eq (declaration : Declaration) :
    declaration.preorder = declaration :: preorderAll declaration.parts := by
  obtain ⟨origin, heading, members⟩ := declaration
  cases members <;> simp [preorder, preorderMembers, parts, preorderAll]

@[simp] theorem preorderAll_nil : preorderAll [] = [] := by
  simp [preorderAll]

@[simp] theorem preorderAll_cons (declaration : Declaration) (rest : List Declaration) :
    preorderAll (declaration :: rest) =
      declaration :: (preorderAll declaration.parts ++ preorderAll rest) := by
  simp [preorderAll, preorder_eq]

@[simp] theorem preorderAll_append (forest more : List Declaration) :
    preorderAll (forest ++ more) = preorderAll forest ++ preorderAll more := by
  induction forest with
  | nil => simp
  | cons declaration rest ih => simp [ih]

theorem mem_preorderAll_cons {d root : Declaration} {rest : List Declaration} :
    d ∈ preorderAll (root :: rest) ↔ d ∈ preorderAll [root] ∨ d ∈ preorderAll rest := by
  rw [← List.singleton_append, preorderAll_append, List.mem_append]

/-- Induction on a forest: a tree comes after its members, and a longer forest after its trees. -/
@[elab_as_elim]
theorem forest_induction {P : List Declaration → Prop} (nil : P [])
    (tree : ∀ d, P d.parts → P [d]) (cons : ∀ d rest, P [d] → P rest → P (d :: rest)) :
    ∀ forest, P forest := by
  have hroot : ∀ d, P [d] := by
    refine @Declaration.rec (fun d => P [d]) (fun members => P (members.getD [])) P ?_ ?_ ?_ ?_ ?_
    · intro origin heading members h
      exact tree _ h
    · exact nil
    · intro members h
      exact h
    · exact nil
    · intro d rest hd hrest
      exact cons d rest hd hrest
  intro forest
  induction forest with
  | nil => exact nil
  | cons d rest ih => exact cons d rest (hroot d) ih

theorem roots_subset (forest : List Declaration) : forest ⊆ preorderAll forest := by
  induction forest with
  | nil => simp
  | cons d rest ih =>
    rw [preorderAll_cons]
    exact List.cons_subset_cons _ (List.Subset.trans ih (List.subset_append_right _ _))

/-- A forest holds what is below each of its declarations. -/
theorem preorderAll_parts_subset {forest : List Declaration} {d : Declaration}
    (h : d ∈ preorderAll forest) : preorderAll d.parts ⊆ preorderAll forest := by
  induction forest using forest_induction with
  | nil => simp at h
  | tree root ih =>
    intro x hx
    simp only [preorderAll_cons, preorderAll_nil, List.append_nil, List.mem_cons] at h ⊢
    rcases h with rfl | h
    · exact Or.inr hx
    · exact Or.inr (ih h hx)
  | cons root rest hroot hrest =>
    intro x hx
    rw [mem_preorderAll_cons] at h ⊢
    exact h.imp (fun h => hroot h hx) (fun h => hrest h hx)

/-! ## Origins -/

/-- The origins of the declarations of a forest, in pre-order. -/
def origins (forest : List Declaration) : List Origin :=
  (preorderAll forest).map (·.origin)

@[simp] theorem origins_nil : origins [] = [] := by
  simp [origins]

@[simp] theorem origins_cons (declaration : Declaration) (rest : List Declaration) :
    origins (declaration :: rest) =
      declaration.origin :: (origins declaration.parts ++ origins rest) := by
  simp [origins]

@[simp] theorem origins_append (forest more : List Declaration) :
    origins (forest ++ more) = origins forest ++ origins more := by
  simp [origins]

theorem origin_mem_origins {forest : List Declaration} {d : Declaration}
    (h : d ∈ preorderAll forest) : d.origin ∈ origins forest :=
  List.mem_map_of_mem h

theorem roots_sublist (forest : List Declaration) :
    (forest.map (·.origin)).Sublist (origins forest) := by
  induction forest with
  | nil => simp
  | cons d rest ih =>
    rw [List.map_cons, origins_cons]
    exact (ih.trans (List.sublist_append_right _ _)).cons_cons _

theorem find?_spec {origin : Origin} {forest : List Declaration} {d : Declaration}
    (h : find? origin forest = some d) : d ∈ preorderAll forest ∧ d.origin = origin := by
  refine ⟨List.mem_of_find?_eq_some h, ?_⟩
  simpa using List.find?_some h

/-- Where no origin occurs twice, a declaration is found by its origin. -/
theorem find?_of_mem {forest : List Declaration} (hnodup : (origins forest).Nodup)
    {d : Declaration} (h : d ∈ preorderAll forest) : find? d.origin forest = some d := by
  obtain ⟨found, hfound⟩ : ∃ found, find? d.origin forest = some found := by
    rw [← Option.isSome_iff_exists, find?, List.find?_isSome]
    exact ⟨d, h, by simp⟩
  obtain ⟨hmem, horigin⟩ := find?_spec hfound
  rw [hfound, List.inj_on_of_nodup_map hnodup hmem h horigin]

/-! ## Changes that keep what is below -/

theorem update_eq (origin : Origin) (f : Declaration → Declaration) (d : Declaration) :
    update origin f d =
      if d.origin = origin then f { d with members := d.members.map (updateAll origin f) }
      else { d with members := d.members.map (updateAll origin f) } := by
  obtain ⟨own, heading, members⟩ := d
  cases members <;> simp [update, updateMembers]

@[simp] theorem updateAll_nil (origin : Origin) (f : Declaration → Declaration) :
    updateAll origin f [] = [] := by
  simp [updateAll]

@[simp] theorem updateAll_cons (origin : Origin) (f : Declaration → Declaration)
    (d : Declaration) (rest : List Declaration) :
    updateAll origin f (d :: rest) = update origin f d :: updateAll origin f rest := by
  simp [updateAll]

@[simp] theorem updateAll_append (origin : Origin) (f : Declaration → Declaration)
    (forest more : List Declaration) :
    updateAll origin f (forest ++ more) = updateAll origin f forest ++ updateAll origin f more := by
  induction forest with
  | nil => simp
  | cons d rest ih => simp [ih]

@[simp] theorem parts_map_updateAll (origin : Origin) (f : Declaration → Declaration)
    (d : Declaration) :
    parts { d with members := d.members.map (updateAll origin f) } =
      updateAll origin f d.parts := by
  obtain ⟨own, heading, members⟩ := d
  cases members <;> simp [parts]

/-- The change keeps the origin and the members of a declaration, and adds `extra` members. -/
structure Extends (f : Declaration → Declaration) (extra : List Declaration) : Prop where
  origin : ∀ d, (f d).origin = d.origin
  parts : ∀ d, (f d).parts = d.parts ++ extra

theorem extends_addMember (member : Declaration) : Extends (addMember member) [member] where
  origin _ := rfl
  parts _ := rfl

theorem extends_setConstructor (parameters : List (Parameter TypeExpr)) :
    Extends (setConstructor parameters) [] where
  origin _ := rfl
  parts d := by simp [setConstructor, parts]

variable {f : Declaration → Declaration} {extra : List Declaration}

theorem origin_update (hf : Extends f extra) (origin : Origin) (d : Declaration) :
    (update origin f d).origin = d.origin := by
  rw [update_eq]
  split
  · rw [hf.origin]
  · rfl

theorem parts_update (hf : Extends f extra) (origin : Origin) (d : Declaration) :
    (update origin f d).parts =
      updateAll origin f d.parts ++ if d.origin = origin then extra else [] := by
  rw [update_eq]
  split
  · rw [hf.parts, parts_map_updateAll]
  · rw [parts_map_updateAll, List.append_nil]

/-- Each occurrence of the changed origin brings the origins of the added members once. -/
theorem count_origins_updateAll (hf : Extends f extra) (origin x : Origin)
    (forest : List Declaration) :
    (origins (updateAll origin f forest)).count x =
      (origins forest).count x + (origins forest).count origin * (origins extra).count x := by
  induction forest using forest_induction with
  | nil => simp
  | tree d ih =>
    simp only [updateAll_cons, updateAll_nil, origins_cons, origins_nil, List.append_nil,
      origin_update hf, parts_update hf, origins_append, List.count_cons, List.count_append, ih]
    by_cases hd : d.origin = origin
    · simp only [hd, if_true, beq_self_eq_true, Nat.add_mul]
      omega
    · simp [hd, Nat.add_right_comm]
  | cons d rest hd hrest =>
    rw [← List.singleton_append, updateAll_append, origins_append, origins_append,
      List.count_append, List.count_append, List.count_append, hd, hrest, Nat.add_mul]
    omega

/-- If the changed origin occurs once, the added members come in once. -/
theorem origins_updateAll_perm (hf : Extends f extra) {origin : Origin}
    {forest : List Declaration} (hnodup : (origins forest).Nodup)
    (horigin : origin ∈ origins forest) :
    (origins (updateAll origin f forest)).Perm (origins forest ++ origins extra) := by
  rw [List.perm_iff_count]
  intro x
  rw [count_origins_updateAll hf, List.count_eq_one_of_mem hnodup horigin, Nat.one_mul,
    List.count_append]

/-- A declaration that was there is there after the change, changed as the change says. -/
theorem update_mem_preorderAll (hf : Extends f extra) (origin : Origin)
    {forest : List Declaration} {d : Declaration} (h : d ∈ preorderAll forest) :
    update origin f d ∈ preorderAll (updateAll origin f forest) := by
  induction forest using forest_induction with
  | nil => simp at h
  | tree root ih =>
    simp only [updateAll_cons, updateAll_nil, preorderAll_cons, preorderAll_nil, List.append_nil,
      List.mem_cons, parts_update hf, preorderAll_append, List.mem_append] at h ⊢
    rcases h with rfl | h
    · exact Or.inl rfl
    · exact Or.inr (Or.inl (ih h))
  | cons root rest hroot hrest =>
    rw [mem_preorderAll_cons] at h
    rw [updateAll_cons, mem_preorderAll_cons]
    exact h.imp hroot hrest

/-- What is there after the change was there before it, or came with the added members. -/
theorem mem_preorderAll_updateAll (hf : Extends f extra) (origin : Origin)
    {forest : List Declaration} {d : Declaration}
    (h : d ∈ preorderAll (updateAll origin f forest)) :
    (∃ old ∈ preorderAll forest, d = update origin f old) ∨ d ∈ preorderAll extra := by
  induction forest using forest_induction with
  | nil => simp at h
  | tree root ih =>
    simp only [updateAll_cons, updateAll_nil, preorderAll_cons, preorderAll_nil, List.append_nil,
      List.mem_cons, parts_update hf, preorderAll_append, List.mem_append] at h ⊢
    rcases h with rfl | h | h
    · exact Or.inl ⟨root, Or.inl rfl, rfl⟩
    · exact (ih h).imp_left fun ⟨old, hold, heq⟩ => ⟨old, Or.inr hold, heq⟩
    · split at h
      · exact Or.inr h
      · simp at h
  | cons root rest hroot hrest =>
    rw [updateAll_cons, mem_preorderAll_cons] at h
    rcases h with h | h
    · exact (hroot h).imp_left fun ⟨old, hold, heq⟩ =>
        ⟨old, mem_preorderAll_cons.mpr (Or.inl hold), heq⟩
    · exact (hrest h).imp_left fun ⟨old, hold, heq⟩ =>
        ⟨old, mem_preorderAll_cons.mpr (Or.inr hold), heq⟩

/-- The added members are there if the changed origin is. -/
theorem extra_mem_preorderAll (hf : Extends f extra) {origin : Origin}
    {forest : List Declaration} (horigin : origin ∈ origins forest) :
    preorderAll extra ⊆ preorderAll (updateAll origin f forest) := by
  obtain ⟨changed, hchanged, rfl⟩ := List.mem_map.mp horigin
  intro d hd
  refine preorderAll_parts_subset (update_mem_preorderAll hf changed.origin hchanged) ?_
  rw [parts_update hf, if_pos rfl, preorderAll_append]
  exact List.mem_append_right _ hd

theorem map_origin_updateAll (hf : Extends f extra) (origin : Origin)
    (forest : List Declaration) :
    (updateAll origin f forest).map (·.origin) = forest.map (·.origin) := by
  induction forest with
  | nil => simp
  | cons d rest ih => simp [origin_update hf, ih]

/-! ## Empty lists of members -/

/-- No declaration of the forest has a list of members that is empty. -/
def Filled (forest : List Declaration) : Prop :=
  ∀ d ∈ preorderAll forest, d.members ≠ some []

instance (forest : List Declaration) : Decidable (Filled forest) :=
  decidable_of_iff (∀ d ∈ preorderAll forest, d.members.any List.isEmpty = false) <|
    forall₂_congr fun d _ => by cases d.members <;> simp

theorem filled_append {forest more : List Declaration} :
    Filled (forest ++ more) ↔ Filled forest ∧ Filled more := by
  simp only [Filled, preorderAll_append, List.mem_append, or_imp, forall_and]

theorem filled_iff_forall {forest : List Declaration} :
    Filled forest ↔ ∀ root ∈ forest, Filled [root] := by
  induction forest with
  | nil => simp [Filled]
  | cons root rest ih =>
    rw [← List.singleton_append, filled_append, ih]
    simp

theorem filled_updateAll (hf : Extends f extra)
    (hkeep : ∀ d : Declaration, d.members ≠ some [] → (f d).members ≠ some []) (origin : Origin)
    {forest : List Declaration} (h : Filled forest) (hextra : Filled extra) :
    Filled (updateAll origin f forest) := by
  intro d hd
  rcases mem_preorderAll_updateAll hf origin hd with ⟨old, hold, rfl⟩ | hd
  · have hmap : old.members.map (updateAll origin f) ≠ some [] := by
      intro hempty
      obtain ⟨members, hmembers, hnil⟩ := Option.map_eq_some_iff.mp hempty
      cases members with
      | nil => exact h old hold hmembers
      | cons member rest => simp at hnil
    rw [update_eq]
    split
    · exact hkeep _ hmap
    · exact hmap
  · exact hextra d hd

/-! ## Paths -/

/-- The declaration that a path leads to: a position in the forest, then one among the members of
each declaration on the way. -/
def reach (forest : List Declaration) : List Nat → Option Declaration
  | [] => none
  | i :: path =>
    forest[i]?.bind fun d => if path.isEmpty then some d else reach d.parts path

theorem mem_of_reach {forest : List Declaration} {path : List Nat} {d : Declaration}
    (h : reach forest path = some d) : d ∈ preorderAll forest := by
  induction path generalizing forest with
  | nil => simp [reach] at h
  | cons i path ih =>
    obtain ⟨root, hroot, hend⟩ := Option.bind_eq_some_iff.mp h
    obtain ⟨before, after, hforest⟩ := List.append_of_mem (List.mem_of_getElem? hroot)
    simp only [hforest, preorderAll_append, preorderAll_cons, List.mem_append, List.mem_cons]
    split at hend
    · cases hend
      exact Or.inr (Or.inl rfl)
    · exact Or.inr (Or.inr (Or.inl (ih hend)))

theorem reach_append_left {forest : List Declaration} {path : List Nat} {d : Declaration}
    (h : reach forest path = some d) (before : List Declaration) :
    ∃ path, reach (before ++ forest) path = some d := by
  cases path with
  | nil => simp [reach] at h
  | cons i path =>
    refine ⟨(before.length + i) :: path, ?_⟩
    rw [reach, List.getElem?_append_right (Nat.le_add_right _ _), Nat.add_sub_cancel_left]
    exact h

theorem reach_append_right {forest : List Declaration} {path : List Nat} {d : Declaration}
    (h : reach forest path = some d) (after : List Declaration) :
    reach (forest ++ after) path = some d := by
  cases path with
  | nil => simp [reach] at h
  | cons i path =>
    obtain ⟨root, hroot, hend⟩ := Option.bind_eq_some_iff.mp h
    obtain ⟨hlt, -⟩ := List.getElem?_eq_some_iff.mp hroot
    rw [reach, List.getElem?_append_left hlt]
    exact h

/-- Paths lead to all declarations of the forest. -/
theorem exists_reach {forest : List Declaration} {d : Declaration} (h : d ∈ preorderAll forest) :
    ∃ path, reach forest path = some d := by
  induction forest using forest_induction with
  | nil => simp at h
  | tree root ih =>
    simp only [preorderAll_cons, preorderAll_nil, List.append_nil, List.mem_cons] at h
    rcases h with rfl | h
    · exact ⟨[0], by simp [reach]⟩
    · obtain ⟨path, hpath⟩ := ih h
      cases path with
      | nil => simp [reach] at hpath
      | cons i path => exact ⟨0 :: i :: path, by simpa [reach] using hpath⟩
  | cons root rest hroot hrest =>
    rcases mem_preorderAll_cons.mp h with h | h
    · obtain ⟨path, hpath⟩ := hroot h
      exact ⟨path, reach_append_right hpath rest⟩
    · obtain ⟨path, hpath⟩ := hrest h
      exact reach_append_left hpath [root]

theorem origins_eq_flatMap (forest : List Declaration) :
    origins forest = forest.flatMap fun d => origins [d] := by
  induction forest with
  | nil => rfl
  | cons d rest ih => rw [← List.singleton_append, origins_append, List.flatMap_append, ih]; simp

/-- Where no origin occurs twice, it occurs below one root only. -/
theorem root_unique {forest : List Declaration} (hnodup : (origins forest).Nodup) {i j : Nat}
    {a b : Declaration} (ha : forest[i]? = some a) (hb : forest[j]? = some b) {x : Origin}
    (hxa : x ∈ origins [a]) (hxb : x ∈ origins [b]) : i = j := by
  rw [origins_eq_flatMap, List.nodup_flatMap] at hnodup
  obtain ⟨hi, rfl⟩ := List.getElem?_eq_some_iff.mp ha
  obtain ⟨hj, rfl⟩ := List.getElem?_eq_some_iff.mp hb
  have hdisjoint := List.pairwise_iff_getElem.mp hnodup.2
  rcases Nat.lt_trichotomy i j with hlt | heq | hgt
  · exact absurd hxb (hdisjoint i j hi hj hlt hxa)
  · exact heq
  · exact absurd hxa (hdisjoint j i hj hi hgt hxb)

theorem origins_root_nodup {forest : List Declaration} (hnodup : (origins forest).Nodup)
    {root : Declaration} (h : root ∈ forest) :
    root.origin ∉ origins root.parts ∧ (origins root.parts).Nodup := by
  rw [origins_eq_flatMap, List.nodup_flatMap] at hnodup
  simpa using hnodup.1 root h

/-- Where no origin occurs twice, no two paths lead to declarations from one origin. -/
theorem path_unique {forest : List Declaration} (hnodup : (origins forest).Nodup)
    {p q : List Nat} {d e : Declaration} (hp : reach forest p = some d)
    (hq : reach forest q = some e) (horigin : d.origin = e.origin) : p = q := by
  induction p generalizing forest q with
  | nil => simp [reach] at hp
  | cons i p ih =>
    cases q with
    | nil => simp [reach] at hq
    | cons j q =>
      obtain ⟨a, ha, hp⟩ := Option.bind_eq_some_iff.mp hp
      obtain ⟨b, hb, hq⟩ := Option.bind_eq_some_iff.mp hq
      have hpa : d.origin ∈ origins [a] := by
        split at hp
        · cases hp
          simp
        · simp [origin_mem_origins (mem_of_reach hp)]
      have hqb : d.origin ∈ origins [b] := by
        split at hq
        · cases hq
          simp [horigin]
        · simp [horigin, origin_mem_origins (mem_of_reach hq)]
      obtain rfl := root_unique hnodup ha hb hpa hqb
      obtain rfl : a = b := by simpa [ha] using hb
      obtain ⟨hroot, hparts⟩ := origins_root_nodup hnodup (List.mem_of_getElem? ha)
      -- A path that stops at the root and one that goes on would meet in an origin of both.
      split at hp <;> split at hq
      · simp_all
      · cases hp
        exact absurd (horigin ▸ origin_mem_origins (mem_of_reach hq)) hroot
      · cases hq
        exact absurd (horigin ▸ origin_mem_origins (mem_of_reach hp)) hroot
      · rw [ih hparts hp hq]

end DocComments.Declaration
