import DocComments.Proofs.NestedNames
import Mathlib.Data.List.Forall2

/-!
# How far names are filled in

The parameters of a function type are gone through side by side with those of a method. A parameter
without a name takes that of its lender, and the first one whose lender has no name either ends the
filling. What was filled in until then stays.

* `NamelessAt`, `IsFirstNameless`: a place where neither has a name, and the first such place.
* `LentUpTo`: names are lent before some place, and the parameters from there on are as they were.
* `fillParameters_of_fault`, `fillParameters_of_none`: what the filling leaves if it ends at a fault,
  and if it does not.
* `fillParameters_fill`: filling in once more changes nothing.
* `fillNames_exact`: all of this for the type of a declaration.
-/

namespace DocComments.Element

variable {lender : Formal} {lenders : List Formal} {parameter : Parameter TypeExpr}
  {parameters filled : List (Parameter TypeExpr)}

/-- There is a parameter and a lender at this place, and neither has a name. -/
def NamelessAt (lenders : List Formal) (parameters : List (Parameter TypeExpr)) (i : Nat) : Prop :=
  ∃ lender parameter, lenders[i]? = some lender ∧ parameters[i]? = some parameter ∧
    lender.name = none ∧ nonempty? parameter.name = none

structure IsFirstNameless (lenders : List Formal) (parameters : List (Parameter TypeExpr))
    (i : Nat) : Prop where
  nameless : NamelessAt lenders parameters i
  before : ∀ j < i, ¬NamelessAt lenders parameters j

/-- The parameters before the bound have the names they leave out, as far as there is a lender in
their place. The others are unchanged. -/
def LentUpTo (bound : Nat) (lenders : List Formal) (parameters filled : List (Parameter TypeExpr)) :
    Prop :=
  ∀ i : Nat, filled[i]? = parameters[i]?.map fun parameter =>
    if i < bound then lend lenders[i]? parameter else parameter

/-- The two parameters differ in their names at most. -/
structure SameButName (parameter other : Parameter TypeExpr) : Prop where
  type : other.type = parameter.type
  optional : other.optional = parameter.optional
  rest : other.rest = parameter.rest

/-! ## Places without a name -/

theorem namelessAt_zero_iff :
    NamelessAt (lender :: lenders) (parameter :: parameters) 0 ↔
      lender.name = none ∧ nonempty? parameter.name = none := by
  simp [NamelessAt]

theorem namelessAt_succ_iff {i : Nat} :
    NamelessAt (lender :: lenders) (parameter :: parameters) (i + 1) ↔
      NamelessAt lenders parameters i := by
  simp [NamelessAt]

theorem not_namelessAt_nil_left (parameters : List (Parameter TypeExpr)) (i : Nat) :
    ¬NamelessAt [] parameters i := by
  simp [NamelessAt]

theorem not_namelessAt_nil_right (lenders : List Formal) (i : Nat) : ¬NamelessAt lenders [] i := by
  simp [NamelessAt]

theorem IsFirstNameless.unique {i j : Nat} (hi : IsFirstNameless lenders parameters i)
    (hj : IsFirstNameless lenders parameters j) : i = j := by
  apply Nat.le_antisymm
  · exact Nat.le_of_not_lt fun hlt => hi.before j hlt hj.nameless
  · exact Nat.le_of_not_lt fun hlt => hj.before i hlt hi.nameless

/-- After a place where one of the two has a name, the first place without is the same. -/
theorem IsFirstNameless.succ {i : Nat}
    (hnamed : ¬(lender.name = none ∧ nonempty? parameter.name = none))
    (h : IsFirstNameless lenders parameters i) :
    IsFirstNameless (lender :: lenders) (parameter :: parameters) (i + 1) where
  nameless := namelessAt_succ_iff.mpr h.nameless
  before := by
    intro j hj
    cases j with
    | zero => rwa [namelessAt_zero_iff]
    | succ j =>
      rw [namelessAt_succ_iff]
      exact h.before j (by omega)

/-! ## Lending up to a place -/

theorem lentUpTo_zero (lenders : List Formal) (parameters : List (Parameter TypeExpr)) :
    LentUpTo 0 lenders parameters parameters := by
  intro i
  simp

theorem LentUpTo.succ {bound : Nat} (h : LentUpTo bound lenders parameters filled)
    (lender : Formal) (parameter : Parameter TypeExpr) :
    LentUpTo (bound + 1) (lender :: lenders) (parameter :: parameters)
      (lend (some lender) parameter :: filled) := by
  intro i
  cases i with
  | zero => simp
  | succ i => simpa using h i

/-! ## What the filling leaves -/

/-- Only names are filled in. -/
theorem fillParameters_sameButName (lenders : List Formal)
    (parameters : List (Parameter TypeExpr)) :
    List.Forall₂ SameButName parameters (fillParameters lenders parameters).1 := by
  have hsame : ∀ parameters : List (Parameter TypeExpr),
      List.Forall₂ SameButName parameters parameters :=
    fun parameters => List.forall₂_same.mpr fun _ _ => ⟨rfl, rfl, rfl⟩
  fun_induction fillParameters lenders parameters with
  | case1 lenders => exact .nil
  | case2 parameters => exact hsame parameters
  | case3 lender lenders parameter parameters hlent hown => exact hsame (parameter :: parameters)
  | case4 lender lenders parameter parameters name hlent hown rest fault hrest ih =>
    rw [hrest] at ih
    exact .cons ⟨rfl, rfl, rfl⟩ ih
  | case5 lender lenders parameter parameters own hown rest fault hrest ih =>
    rw [hrest] at ih
    exact .cons ⟨rfl, rfl, rfl⟩ ih

/-- A fault is the first place where neither has a name, and names are lent up to it. -/
theorem fillParameters_of_fault {fault : Formal}
    (h : fillParameters lenders parameters = (filled, some fault)) :
    ∃ i, IsFirstNameless lenders parameters i ∧ lenders[i]? = some fault ∧
      LentUpTo i lenders parameters filled := by
  fun_induction fillParameters lenders parameters generalizing filled with
  | case1 lenders => cases h
  | case2 parameters => cases h
  | case3 lender lenders parameter parameters hlent hown =>
    cases h
    refine ⟨0, ⟨namelessAt_zero_iff.mpr ⟨hlent, hown⟩, ?_⟩, rfl, lentUpTo_zero _ _⟩
    intro j hj
    omega
  | case4 lender lenders parameter parameters name hlent hown rest fault hrest ih =>
    cases h
    obtain ⟨i, hfirst, hfault, hlentUpTo⟩ := ih hrest
    refine ⟨i + 1, hfirst.succ (by simp [hlent]), hfault, ?_⟩
    have hlent' := hlentUpTo.succ lender parameter
    rwa [lend_of_nameless hown hlent] at hlent'
  | case5 lender lenders parameter parameters own hown rest fault hrest ih =>
    cases h
    obtain ⟨i, hfirst, hfault, hlentUpTo⟩ := ih hrest
    refine ⟨i + 1, hfirst.succ (by simp [hown]), hfault, ?_⟩
    have hlent' := hlentUpTo.succ lender parameter
    rwa [lend_of_named hown] at hlent'

/-- Without a fault, there is a name in every place that has a lender. -/
theorem fillParameters_of_none (h : fillParameters lenders parameters = (filled, none)) (i : Nat) :
    ¬NamelessAt lenders parameters i := by
  fun_induction fillParameters lenders parameters generalizing filled i with
  | case1 lenders => exact not_namelessAt_nil_right lenders i
  | case2 parameters => exact not_namelessAt_nil_left parameters i
  | case3 lender lenders parameter parameters hlent hown => cases h
  | case4 lender lenders parameter parameters name hlent hown rest fault hrest ih =>
    cases h
    cases i with
    | zero => simp [namelessAt_zero_iff, hlent]
    | succ i =>
      rw [namelessAt_succ_iff]
      exact ih hrest i
  | case5 lender lenders parameter parameters own hown rest fault hrest ih =>
    cases h
    cases i with
    | zero => simp [namelessAt_zero_iff, hown]
    | succ i =>
      rw [namelessAt_succ_iff]
      exact ih hrest i

/-- What is filled in has nothing more to fill in, up to the same fault. -/
theorem fillParameters_fill (lenders : List Formal) (parameters : List (Parameter TypeExpr)) :
    fillParameters lenders (fillParameters lenders parameters).1 =
      fillParameters lenders parameters := by
  fun_induction fillParameters lenders parameters with
  | case1 lenders => rw [fillParameters]
  | case2 parameters => rw [fillParameters_nil]
  | case3 lender lenders parameter parameters hlent hown => simp [fillParameters, hlent, hown]
  | case4 lender lenders parameter parameters name hlent hown rest fault hrest ih =>
    rw [hrest] at ih
    -- The lent name is kept, and an empty one is lent once more.
    cases hname : nonempty? (some name) <;> simp [fillParameters, hname, hlent, ih]
  | case5 lender lenders parameter parameters own hown rest fault hrest ih =>
    rw [hrest] at ih
    simp [fillParameters, hown, ih]

/-! ## Types -/

/-- What the filling makes of the parameters of a function type. Only names change. It fails just if
there is a place where neither has a name; names are lent up to the first such place then, and
everywhere otherwise. -/
structure FillsIn (element : Element) (lenders : List Formal)
    (parameters filled : List (Parameter TypeExpr)) (failure : Option Failure) : Prop where
  same : List.Forall₂ SameButName parameters filled
  fails : (∃ nodeType, failure = some
      (.namelessParameter nodeType element.role.name? element.span.startLine)) ↔
    ∃ i, NamelessAt lenders parameters i
  atFault : ∀ i, IsFirstNameless lenders parameters i →
    LentUpTo i lenders parameters filled ∧ ∃ fault, lenders[i]? = some fault ∧
      failure = some (.namelessParameter fault.nodeType element.role.name? element.span.startLine)
  lent : (∀ i, ¬NamelessAt lenders parameters i) →
    failure = none ∧ Lent lenders parameters filled

theorem fillsIn_fillParameters (element : Element) {fault : Option Formal}
    (h : fillParameters lenders parameters = (filled, fault)) :
    element.FillsIn lenders parameters filled (fault.map fun formal =>
      .namelessParameter formal.nodeType element.role.name? element.span.startLine) := by
  have hsame := fillParameters_sameButName lenders parameters
  rw [h] at hsame
  cases fault with
  | none =>
    have hnone := fillParameters_of_none h
    refine ⟨hsame, by simpa using hnone, ?_, fun _ => ⟨rfl, lent_of_fillParameters h⟩⟩
    intro i hfirst
    exact absurd hfirst.nameless (hnone i)
  | some fault =>
    obtain ⟨i, hfirst, hfault, hlent⟩ := fillParameters_of_fault h
    refine ⟨hsame, iff_of_true ⟨fault.nodeType, rfl⟩ ⟨i, hfirst.nameless⟩, ?_, ?_⟩
    · intro j hj
      obtain rfl := hfirst.unique hj
      exact ⟨hlent, fault, hfault, rfl⟩
    · intro hnone
      exact absurd hfirst.nameless (hnone i)

/-- **How names are filled in.** A function type on a method keeps its result, and its parameters
are filled in as far as there are names; filling in the outcome once more yields it again. Any other
type, and any type on another element, is left as it is. -/
theorem fillNames_exact (element : Element) :
    (∀ method lenders, element.role = .method method lenders → ∀ parameters result,
      ∃ filled failure,
        element.fillNames (.function parameters result) = (.function filled result, failure) ∧
        element.fillNames (.function filled result) = (.function filled result, failure) ∧
        element.FillsIn lenders parameters filled failure) ∧
    ∀ type, (∀ method lenders, element.role ≠ .method method lenders) ∨
        (∀ parameters result, type ≠ .function parameters result) →
      element.fillNames type = (type, none) := by
  constructor
  · intro method lenders hrole parameters result
    obtain ⟨filled, fault, hfill, hnames⟩ := element.fillNames_function parameters result
    obtain ⟨again, fault', hfill', hnames'⟩ := element.fillNames_function filled result
    have hlenders : element.lenders = lenders := by simp [Element.lenders, hrole]
    rw [hlenders] at hfill hfill'
    have hagain := fillParameters_fill lenders parameters
    rw [hfill, hfill'] at hagain
    cases hagain
    exact ⟨filled, _, hnames, hnames', fillsIn_fillParameters element hfill⟩
  · rintro type (hrole | htype)
    · unfold fillNames
      split
      · rename_i method lenders _ _ hmethod
        exact absurd hmethod (hrole method lenders)
      · rfl
    · exact element.fillNames_of_not_function htype

/-- Parameters of a method, the second of which is a pattern. -/
def patternFormals : List Formal :=
  [⟨"Identifier", "first"⟩, ⟨"ObjectPattern", none⟩, ⟨"Identifier", "third"⟩]

def patternMethod : Element :=
  { Outline.methodWith ⟨"Identifier", "first"⟩ with role := .method "run" patternFormals }

/-- Three parameters without a name, of which one is a function. -/
def namelessParameters : List (Parameter TypeExpr) :=
  [⟨.named "A", none, false, false⟩, ⟨.function [] none, none, true, false⟩,
    ⟨.named "C", none, false, true⟩]

theorem fillNames_exact_patternMethod :
    patternMethod.role = .method "run" patternFormals ∧
    IsFirstNameless patternFormals namelessParameters 1 ∧
    ∃ filled,
      patternMethod.fillNames (.function namelessParameters none) =
        (.function filled none, some (.namelessParameter "ObjectPattern" "run" 1)) ∧
      LentUpTo 1 patternFormals namelessParameters filled ∧
      patternMethod.fillNames .anyType = (.anyType, none) := by
  have hfirst : IsFirstNameless patternFormals namelessParameters 1 := by
    refine ⟨⟨_, _, rfl, rfl, rfl, rfl⟩, ?_⟩
    intro j hj
    obtain rfl : j = 0 := by omega
    rintro ⟨lender, parameter, hlender, -, hname, -⟩
    cases hlender
    cases hname
  obtain ⟨filled, failure, hfill, -, hfills⟩ :=
    (fillNames_exact patternMethod).1 "run" patternFormals rfl namelessParameters none
  obtain ⟨hlent, fault, hfault, rfl⟩ := hfills.atFault 1 hfirst
  cases hfault
  exact ⟨rfl, hfirst, filled, hfill, hlent,
    (fillNames_exact patternMethod).2 .anyType (.inr (by simp))⟩

end DocComments.Element
