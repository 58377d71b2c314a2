import DocComments.Declaration.Heading
import DocComments.Proofs.NormalTypes
import DocComments.Proofs.OutlineFailure

/-!
# Names that a method lends

A function type may leave out the names of its parameters. On a comment of a method such a
parameter takes the name of the method's parameter in the same place, and the reading fails if that
one has none. An empty name counts as none, but no text is read as a type with one. The comment
describes the method in its head; still the names are lent to every declaration of the comment, also
to the members that a head describes.

* `Element.HasGap`: a line leaves a name for the method to lend.
* `heading_type_eq_iff`, `heading_error_iff`: just such a line takes a type it does not specify,
  or fails for want of a name.
* `block_fillsHeadsOnly_iff`: names are lent to heads only if no member leaves a gap.
-/

namespace DocComments

/-! ## Lending names -/

namespace Element

/-- The parameters that can lend their names: those of a method. -/
def lenders (element : Element) : List Formal :=
  match element.role with
  | .method _ formals => formals
  | _ => []

/-- Some parameter has no name of its own and a lender in its place. -/
def LeavesGap (lenders : List Formal) (parameters : List (Parameter TypeExpr)) : Prop :=
  ∃ pair ∈ lenders.zip parameters, nonempty? pair.2.name = none

/-- The line has a name, and its type is a function type that leaves a name to lend. -/
def HasGap (element : Element) (line : DeclarationLine) : Prop :=
  (∃ name, element.resolveName line.identifier = .ok name) ∧
    ∃ parameters result, element.resolveType line.spec = .ok (.function parameters result) ∧
      LeavesGap element.lenders parameters

/-- The parameter with the name of the lender in its place, if it has none of its own. -/
def lend (lender : Option Formal) (parameter : Parameter TypeExpr) : Parameter TypeExpr :=
  { parameter with
    name := nonempty? parameter.name <|> lender.bind Formal.name <|> parameter.name }

/-- The parameters with the names they leave out, as far as there is a lender in their place. -/
def Lent (lenders : List Formal) (parameters filled : List (Parameter TypeExpr)) : Prop :=
  ∀ i : Nat, filled[i]? = parameters[i]?.map (lend lenders[i]?)

/-- A parameter leaves its name out or has one that is not empty. -/
def NoEmptyNames (parameters : List (Parameter TypeExpr)) : Prop :=
  ∀ parameter ∈ parameters, nonempty? parameter.name = parameter.name

theorem eq_some_of_nonempty? {text : Option String} {value : String}
    (h : nonempty? text = some value) : text = some value :=
  (Option.filter_eq_some_iff.mp h).1

theorem lend_of_named {parameter : Parameter TypeExpr} {name : String}
    (h : nonempty? parameter.name = some name) (lender : Option Formal) :
    lend lender parameter = parameter := by
  have hlend : lend lender parameter = { parameter with name := some name } := by
    rw [lend, h]
    rfl
  rw [hlend, ← eq_some_of_nonempty? h]

theorem lend_of_nameless {parameter : Parameter TypeExpr} {lender : Formal} {name : String}
    (h : nonempty? parameter.name = none) (hlender : lender.name = some name) :
    lend (some lender) parameter = { parameter with name := some name } := by
  simp [lend, h, hlender]

@[simp] theorem lend_none (parameter : Parameter TypeExpr) : lend none parameter = parameter := by
  cases hname : nonempty? parameter.name with
  | none => simp [lend, hname]
  | some name => exact lend_of_named hname none

theorem leavesGap_cons {lender : Formal} {lenders : List Formal} {parameter : Parameter TypeExpr}
    {parameters : List (Parameter TypeExpr)} :
    LeavesGap (lender :: lenders) (parameter :: parameters) ↔
      nonempty? parameter.name = none ∨ LeavesGap lenders parameters := by
  simp [LeavesGap]

theorem fillParameters_nil (parameters : List (Parameter TypeExpr)) :
    fillParameters [] parameters = (parameters, none) := by
  cases parameters <;> rfl

theorem fillParameters_eq_self_iff (lenders : List Formal) {parameters : List (Parameter TypeExpr)}
    (hnames : NoEmptyNames parameters) :
    fillParameters lenders parameters = (parameters, none) ↔ ¬LeavesGap lenders parameters := by
  fun_induction fillParameters lenders parameters with
  | case1 lenders => simp [LeavesGap]
  | case2 parameters => simp [LeavesGap]
  | case3 lender lenders parameter parameters hlent hown => simp [leavesGap_cons, hown]
  | case4 lender lenders parameter parameters name hlent hown rest fault hrest ih =>
    -- An empty name beside a lender with an empty name would be a gap that leaves no trace.
    have hnone : parameter.name = none := (List.forall_mem_cons.mp hnames).1.symm.trans hown
    have hne : ({ parameter with name := some name } : Parameter TypeExpr) ≠ parameter := by
      intro heq
      rw [← heq] at hnone
      cases hnone
    simp [leavesGap_cons, hown, hne]
  | case5 lender lenders parameter parameters own hown rest fault hrest ih =>
    have hiff := ih (List.forall_mem_cons.mp hnames).2
    rw [hrest] at hiff
    simpa [leavesGap_cons, hown] using hiff

theorem lent_of_fillParameters {lenders : List Formal} {parameters filled : List (Parameter TypeExpr)}
    (h : fillParameters lenders parameters = (filled, none)) : Lent lenders parameters filled := by
  intro i
  fun_induction fillParameters lenders parameters generalizing filled i with
  | case1 lenders =>
    cases h
    simp
  | case2 parameters =>
    cases h
    cases parameters[i]? <;> simp
  | case3 lender lenders parameter parameters hlent hown => cases h
  | case4 lender lenders parameter parameters name hlent hown rest fault hrest ih =>
    cases h
    cases i with
    | zero => simp [lend_of_nameless hown hlent]
    | succ i => simpa using ih hrest i
  | case5 lender lenders parameter parameters own hown rest fault hrest ih =>
    cases h
    cases i with
    | zero => simp [lend_of_named hown]
    | succ i => simpa using ih hrest i

/-- Where no name is empty, a lent name stands where there was none at all. -/
theorem Lent.getElem?_eq {lenders : List Formal} {parameters filled : List (Parameter TypeExpr)}
    (h : Lent lenders parameters filled) (hnames : NoEmptyNames parameters) (i : Nat) :
    filled[i]? = parameters[i]?.map fun parameter =>
      { parameter with name := parameter.name <|> lenders[i]?.bind Formal.name } := by
  rw [h i]
  refine Option.map_congr fun parameter hparameter => ?_
  rw [lend, hnames parameter (List.mem_of_getElem? hparameter)]
  cases parameter.name <;> simp

/-! ## Specified types -/

theorem ownType_cases {element : Element} {type : TypeExpr} (h : element.ownType = .ok type) :
    type = .classType none ∨ type = .anyType ∨ type = .function [] none := by
  unfold ownType at h
  split at h <;> cases h <;> simp

/-- The three ways in which a line comes to its type. -/
theorem resolveType_eq_ok {element : Element} {spec : String} {type : TypeExpr}
    (h : element.resolveType spec = .ok type) :
    (spec = "" ∧ element.ownType = .ok type) ∨
      (spec = "interface" ∧ type = .interfaceType) ∨
      (spec ≠ "" ∧ spec ≠ "interface" ∧ TypeExpr.parse spec = .ok type) := by
  by_cases hempty : spec = ""
  · exact .inl ⟨hempty, by simpa [resolveType, hempty] using h⟩
  rw [resolveType, if_neg (by simpa using hempty)] at h
  by_cases hinterface : spec = "interface"
  · rw [if_pos hinterface] at h
    exact .inr (.inl ⟨hinterface, (Except.ok.inj h).symm⟩)
  rw [if_neg hinterface] at h
  refine .inr (.inr ⟨hempty, hinterface, ?_⟩)
  cases hparse : TypeExpr.parse spec with
  | error error => simp [hparse, Except.mapError] at h
  | ok found => simpa [hparse, Except.mapError] using h

theorem noEmptyNames_of_isNormal {parameters : List (Parameter TypeExpr)}
    {result : Option TypeExpr} (h : (TypeExpr.function parameters result).IsNormal) :
    NoEmptyNames parameters := by
  cases h with
  | function hname hoptional htypes hresult =>
    intro parameter hparameter
    cases hown : parameter.name with
    | none => rfl
    | some name =>
      obtain ⟨c, rest, htext, -⟩ := (hname parameter hparameter name hown).begins
      have hne : name ≠ "" := by
        rintro rfl
        cases htext
      simp [nonempty?, hne]

/-- No line specifies a function type with an empty name. -/
theorem noEmptyNames_of_resolveType {element : Element} {spec : String}
    {parameters : List (Parameter TypeExpr)} {result : Option TypeExpr}
    (h : element.resolveType spec = .ok (.function parameters result)) :
    NoEmptyNames parameters := by
  rcases resolveType_eq_ok h with ⟨-, hown⟩ | ⟨-, hinterface⟩ | ⟨-, -, hparse⟩
  · rcases ownType_cases hown with htype | htype | htype <;> cases htype
    exact List.forall_mem_nil _
  · cases hinterface
  · exact noEmptyNames_of_isNormal (TypeExpr.isNormal_of_parse hparse)

/-! ## Types and lines -/

/-- What the element makes of a type: a function type has its names lent, any other stays. -/
def LendsTo (element : Element) (type filled : TypeExpr) : Prop :=
  (∃ parameters result filledParameters, type = .function parameters result ∧
    filled = .function filledParameters result ∧
    Lent element.lenders parameters filledParameters) ∨
  ((∀ parameters result, type ≠ .function parameters result) ∧ filled = type)

/-- Filling in names fills in the parameters of a function type, which fails if they do. -/
theorem fillNames_function (element : Element) (parameters : List (Parameter TypeExpr))
    (result : Option TypeExpr) :
    ∃ filled fault, fillParameters element.lenders parameters = (filled, fault) ∧
      element.fillNames (.function parameters result) = (.function filled result,
        fault.map fun formal =>
          .namelessParameter formal.nodeType element.role.name? element.span.startLine) := by
  refine ⟨_, _, rfl, ?_⟩
  by_cases hmethod : ∃ name formals, element.role = .method name formals
  · obtain ⟨name, formals, hmethod⟩ := hmethod
    simp [fillNames, lenders, hmethod, Role.name?]
  · have hnone : element.lenders = [] := by
      unfold lenders
      split
      · exact absurd ⟨_, _, ‹_›⟩ hmethod
      · rfl
    rw [hnone, fillParameters_nil]
    unfold fillNames
    split
    · exact absurd ⟨_, _, ‹_›⟩ hmethod
    · rfl

theorem fillNames_of_not_function (element : Element) {type : TypeExpr}
    (h : ∀ parameters result, type ≠ .function parameters result) :
    element.fillNames type = (type, none) := by
  unfold fillNames
  split
  · exact absurd rfl (h _ _)
  · rfl

theorem lendsTo_of_fillNames {element : Element} {type filled : TypeExpr}
    (h : element.fillNames type = (filled, none)) : element.LendsTo type filled := by
  by_cases hfunction : ∃ parameters result, type = .function parameters result
  · obtain ⟨parameters, result, rfl⟩ := hfunction
    obtain ⟨own, fault, hown, hfill⟩ := element.fillNames_function parameters result
    rw [h] at hfill
    obtain ⟨rfl, hfault⟩ := Prod.mk.inj hfill
    rw [Option.map_eq_none_iff.mp hfault.symm] at hown
    exact .inl ⟨parameters, result, own, rfl, rfl, lent_of_fillParameters hown⟩
  · push Not at hfunction
    rw [element.fillNames_of_not_function hfunction] at h
    cases h
    exact .inr ⟨hfunction, rfl⟩

theorem heading_eq_ok {element : Element} {line : DeclarationLine} {heading : Heading}
    (h : element.heading line = .ok heading) :
    element.resolveName line.identifier = .ok heading.name ∧
      heading.spec = nonempty? (some line.spec) ∧
      ∃ type, element.resolveType line.spec = .ok type ∧
        element.fillNames type = (heading.type, none) := by
  obtain ⟨name, hname, h⟩ := except_bind_eq_ok.mp h
  obtain ⟨type, htype, h⟩ := except_bind_eq_ok.mp h
  split at h
  · rename_i filled hfill
    cases h
    exact ⟨hname, rfl, type, htype, hfill⟩
  · cases h

theorem heading_eq_error {element : Element} {line : DeclarationLine} {failure : Failure}
    (h : element.heading line = .error failure) :
    element.resolveName line.identifier = .error failure ∨
      element.resolveType line.spec = .error failure ∨
      ∃ name type, element.resolveName line.identifier = .ok name ∧
        element.resolveType line.spec = .ok type ∧
        (element.fillNames type).2 = some failure := by
  rcases except_bind_eq_error.mp h with h | ⟨name, hname, h⟩
  · exact .inl h
  rcases except_bind_eq_error.mp h with h | ⟨type, htype, h⟩
  · exact .inr (.inl h)
  split at h
  · cases h
  · rename_i hfill
    cases h
    exact .inr (.inr ⟨name, type, hname, htype, by rw [hfill]⟩)

/-- Filling in names keeps a specified type just if it leaves no gap. -/
theorem fillNames_eq_self_iff {element : Element} {spec : String} {type : TypeExpr}
    (htype : element.resolveType spec = .ok type) :
    element.fillNames type = (type, none) ↔
      ¬∃ parameters result, type = .function parameters result ∧
        LeavesGap element.lenders parameters := by
  by_cases hfunction : ∃ parameters result, type = .function parameters result
  · obtain ⟨parameters, result, rfl⟩ := hfunction
    obtain ⟨own, fault, hown, hfill⟩ := element.fillNames_function parameters result
    have hiff := fillParameters_eq_self_iff element.lenders (noEmptyNames_of_resolveType htype)
    rw [hown] at hiff
    rw [hfill]
    simpa using hiff
  · push Not at hfunction
    rw [element.fillNames_of_not_function hfunction]
    simp [hfunction]

theorem hasGap_iff {element : Element} {line : DeclarationLine} {name : String} {type : TypeExpr}
    (hname : element.resolveName line.identifier = .ok name)
    (htype : element.resolveType line.spec = .ok type) :
    element.HasGap line ↔ element.fillNames type ≠ (type, none) := by
  rw [Ne, fillNames_eq_self_iff htype, not_not]
  constructor
  · rintro ⟨-, parameters, result, htype', hgap⟩
    rw [htype] at htype'
    exact ⟨parameters, result, Except.ok.inj htype', hgap⟩
  · rintro ⟨parameters, result, rfl, hgap⟩
    exact ⟨⟨name, hname⟩, parameters, result, htype, hgap⟩

theorem resolveName_ne_namelessParameter (element : Element) (identifier : Option String)
    (nodeType : String) (method : Option String) (startLine : Nat) :
    element.resolveName identifier ≠ .error (.namelessParameter nodeType method startLine) := by
  unfold resolveName ownName
  simp only
  repeat' split
  all_goals simp

theorem resolveType_ne_namelessParameter (element : Element) (spec nodeType : String)
    (method : Option String) (startLine : Nat) :
    element.resolveType spec ≠ .error (.namelessParameter nodeType method startLine) := by
  unfold resolveType ownType
  split
  · split <;> simp
  · split
    · simp
    · cases TypeExpr.parse spec <;> simp [Except.mapError]

/-- A line takes the type it specifies just if it leaves no gap. -/
theorem heading_type_eq_iff {element : Element} {line : DeclarationLine} {heading : Heading}
    (h : element.heading line = .ok heading) :
    element.resolveType (heading.spec.getD "") = .ok heading.type ↔ ¬element.HasGap line := by
  obtain ⟨hname, hspec, type, htype, hfill⟩ := heading_eq_ok h
  have hown : heading.spec.getD "" = line.spec := by
    by_cases hempty : line.spec = ""
    · simp [hspec, nonempty?, Option.filter, hempty]
    · simp [hspec, nonempty?, Option.filter, hempty]
  rw [hown, htype, hasGap_iff hname htype, hfill]
  simp [eq_comm]

/-- A line fails for want of a name just if it leaves a gap. -/
theorem heading_error_iff {element : Element} {line : DeclarationLine} {failure : Failure}
    (h : element.heading line = .error failure) :
    (∃ nodeType method startLine, failure = .namelessParameter nodeType method startLine) ↔
      element.HasGap line := by
  rcases heading_eq_error h with hname | htype | ⟨name, type, hname, htype, hfault⟩
  · refine iff_of_false ?_ ?_
    · rintro ⟨nodeType, method, startLine, rfl⟩
      exact element.resolveName_ne_namelessParameter _ _ _ _ hname
    · rintro ⟨⟨name, hok⟩, -⟩
      rw [hname] at hok
      cases hok
  · refine iff_of_false ?_ ?_
    · rintro ⟨nodeType, method, startLine, rfl⟩
      exact element.resolveType_ne_namelessParameter _ _ _ _ htype
    · rintro ⟨-, parameters, result, hok, -⟩
      rw [htype] at hok
      cases hok
  · refine iff_of_true ?_ ?_
    · by_cases hfunction : ∃ parameters result, type = .function parameters result
      · obtain ⟨parameters, result, rfl⟩ := hfunction
        obtain ⟨own, fault, -, hfill⟩ := element.fillNames_function parameters result
        rw [hfill] at hfault
        obtain ⟨formal, -, rfl⟩ := Option.map_eq_some_iff.mp hfault
        exact ⟨_, _, _, rfl⟩
      · push Not at hfunction
        rw [element.fillNames_of_not_function hfunction] at hfault
        cases hfault
    · rw [hasGap_iff hname htype]
      intro heq
      rw [heq] at hfault
      cases hfault

end Element

/-! ## Heads and members -/

namespace Outline

open Declaration

/-- The declarations below the heads of a block. -/
def nested (outline : Outline) : List Declaration :=
  outline.forest.flatMap fun head => preorderAll head.parts

/-- The line of the head that was read last: the one after the last declaration, or the first that
is not empty. -/
def lastStart (lines : List Line) (outline : Outline) : Nat :=
  (outline.declarations.getLast?.map (·.2)).getD (Cursor.ofLines lines).skipEmpty.position

/-- Names are lent to heads only. Every declaration below a head has the type it specifies, and
no line below a head makes the reading fail for want of a name. -/
structure FillsHeadsOnly (element : Element) (lines : List Line) (outline : Outline) : Prop where
  types : ∀ d ∈ outline.nested,
    element.resolveType (d.heading.spec.getD "") = .ok d.heading.type
  failures : ∀ nodeType method startLine,
    outline.failure = some (.namelessParameter nodeType method startLine) →
      outline.cursor.position = outline.lastStart lines

/-- The line was resolved below a head: it yielded a declaration, or its failure ended the
reading. -/
def ResolvedBelow (element : Element) (lines : List Line) (outline : Outline)
    (line : DeclarationLine) : Prop :=
  (∃ d ∈ outline.nested, lines[d.origin.line]? = some (.declaration line)) ∨
    ∃ failure, outline.failure = some failure ∧ element.heading line = .error failure ∧
      lines[outline.cursor.position]? = some (.declaration line) ∧
      outline.cursor.position ≠ outline.lastStart lines

theorem nested_subset (outline : Outline) : outline.nested ⊆ preorderAll outline.forest := by
  intro d hd
  obtain ⟨head, hhead, hd⟩ := List.mem_flatMap.mp hd
  exact preorderAll_parts_subset (roots_subset _ hhead) hd

/-- **Whom a method lends names to.** Every declaration of a block, head or member, has the type its
own line specifies with the names that the documented method lends. So the heads alone are lent
names just if no line that was resolved below a head leaves a gap. -/
theorem block_fillsHeadsOnly_iff (element : Element) (number : Nat) (lines : List Line) :
    (∀ d ∈ preorderAll (block element.heading number (.ofLines lines)).forest, ∃ line type,
      lines[d.origin.line]? = some (.declaration line) ∧
        element.resolveType line.spec = .ok type ∧ element.LendsTo type d.heading.type) ∧
    ((block element.heading number (.ofLines lines)).FillsHeadsOnly element lines ↔
      ∀ line, (block element.heading number (.ofLines lines)).ResolvedBelow element lines line →
        ¬element.HasGap line) := by
  obtain ⟨hresolved, hstops⟩ := block_stops element.heading number lines
  refine ⟨?_, ?_, ?_⟩
  · intro d hd
    obtain ⟨line, hline, hheading⟩ := hresolved d hd
    obtain ⟨-, -, type, htype, hfill⟩ := Element.heading_eq_ok hheading
    exact ⟨line, type, hline, htype, Element.lendsTo_of_fillNames hfill⟩
  · rintro ⟨htypes, hfailures⟩ line (⟨d, hd, hline⟩ | ⟨failure, hfailure, hheading, hline, hbelow⟩)
    · obtain ⟨own, hown, hheading⟩ := hresolved d (nested_subset _ hd)
      cases hline.symm.trans hown
      exact (Element.heading_type_eq_iff hheading).mp (htypes d hd)
    · intro hgap
      obtain ⟨nodeType, method, startLine, rfl⟩ := (Element.heading_error_iff hheading).mpr hgap
      exact hbelow (hfailures _ _ _ hfailure)
  · intro hgaps
    refine ⟨?_, ?_⟩
    · intro d hd
      obtain ⟨line, hline, hheading⟩ := hresolved d (nested_subset _ hd)
      exact (Element.heading_type_eq_iff hheading).mpr (hgaps line (.inl ⟨d, hd, hline⟩))
    · intro nodeType method startLine hfailure
      by_contra hbelow
      rcases hstops _ hfailure with ⟨_, _, _, hmisaligned⟩ | ⟨line, hline, hheading⟩
      · cases hmisaligned
      · exact hgaps line (.inr ⟨_, hfailure, hheading, hline, hbelow⟩)
          ((Element.heading_error_iff hheading).mp ⟨_, _, _, rfl⟩)

/-- A method `run` with one parameter. -/
def methodWith (formal : Formal) : Element where
  index := 0
  nodeType := "MethodDefinition"
  role := .method "run" [formal]
  span := {}
  parent := none
  children := []
  exported := none

/-- A function with a named parameter, and as its member a function that names none. -/
def callbackLines : List Line :=
  [.declaration ⟨1, none, "(options: Object)"⟩, .empty 0, .declaration ⟨3, "done", "(string)"⟩]

/-- The names of the parameters of a function type. -/
def parameterNames : TypeExpr → List (Option String)
  | .function parameters _ => parameters.map (·.name)
  | _ => []

/-- The member `done` takes a text that it gives no name, yet it gets the name of the parameter of
`run`; and where that one is a pattern, the member makes the reading fail. -/
theorem member_takes_name_of_method :
    (¬(block (methodWith ⟨"Identifier", "options"⟩).heading 0 (.ofLines callbackLines)).FillsHeadsOnly
      (methodWith ⟨"Identifier", "options"⟩) callbackLines) ∧
    (block (methodWith ⟨"Identifier", "options"⟩).heading 0 (.ofLines callbackLines)).nested.map
      (fun d => (d.heading.spec, parameterNames d.heading.type)) =
        [(some "(string)", [some "options"])] ∧
    (block (methodWith ⟨"ObjectPattern", none⟩).heading 0 (.ofLines callbackLines)).failure =
      some (.namelessParameter "ObjectPattern" "run" 1) ∧
    ¬(block (methodWith ⟨"ObjectPattern", none⟩).heading 0 (.ofLines callbackLines)).FillsHeadsOnly
      (methodWith ⟨"ObjectPattern", none⟩) callbackLines := by
  have hnested : (block (methodWith ⟨"Identifier", "options"⟩).heading 0
      (.ofLines callbackLines)).nested.map
        (fun d => (d.heading.spec, parameterNames d.heading.type)) =
          [(some "(string)", [some "options"])] := by decide +kernel
  have hown : ((methodWith ⟨"Identifier", "options"⟩).resolveType "(string)").toOption.map
      parameterNames = some [none] := by decide +kernel
  have hfailure : (block (methodWith ⟨"ObjectPattern", none⟩).heading 0
      (.ofLines callbackLines)).failure =
        some (.namelessParameter "ObjectPattern" "run" 1) := by decide +kernel
  refine ⟨?_, hnested, hfailure, ?_⟩
  · intro h
    obtain ⟨done, hdone, hsaid⟩ := List.mem_map.mp (hnested ▸ List.mem_singleton_self _)
    obtain ⟨hspec, hnames⟩ := Prod.mk.inj hsaid
    have htype := h.types done hdone
    rw [hspec, Option.getD_some] at htype
    rw [htype, Except.toOption, Option.map_some, hnames] at hown
    cases hown
  · intro h
    have hplace := h.failures _ _ _ hfailure
    revert hplace
    decide +kernel

end Outline

end DocComments
