import DocComments.Proofs.NestedNames
import DocComments.Proofs.SourceOrder
import DocComments.Proofs.TypeReading
import Mathlib.Logic.Relation

/-!
# The type of a declaration and what is written of it

A declaration keeps the text of its type beside the type. The type is changed twice after the text
was read: a method lends names to the parameters of a function, and a class gets the parameters of
its constructor from another declaration. Neither change parts the type from the text, and neither
carries a class, an interface or an unconstrained type into another type.

* `parse_written`: no such type stands anywhere in what a text is read as.
* `heading_consistent`: the heading of a line is consistent.
* `link_headings`, `run_headings`: a property of headings that the made up classes have, and that
  a class keeps when it gets parameters, holds of a whole run if it holds of all that is passed.
* `extract_types`: every declaration of an extraction has a consistent heading.
-/

namespace DocComments

/-! ## Types inside types -/

namespace TypeExpr

/-- The types that a type is directly made of. -/
def operands : TypeExpr → List TypeExpr
  | named _ | literal _ | interfaceType | anyType => []
  | generic _ arguments => arguments
  | nullable type | array type => [type]
  | object fields => fields.map (·.type)
  | function parameters result => parameters.map (·.type) ++ result.toList
  | union types => types
  | classType parameters => (parameters.getD []).map (·.type)

/-- The first type stands strictly inside the second, at any depth. -/
def Inside : TypeExpr → TypeExpr → Prop :=
  Relation.TransGen fun part whole => part ∈ whole.operands

/-- Is it a class, an interface or an unconstrained type? -/
def isOfSource : TypeExpr → Bool
  | classType _ | interfaceType | anyType => true
  | _ => false

/-- Neither the type nor any type inside it is a class, an interface or unconstrained. -/
def Written (type : TypeExpr) : Prop :=
  type.isOfSource = false ∧ ∀ part, Inside part type → part.isOfSource = false

theorem inside_written_iff {type : TypeExpr} :
    (∀ part, Inside part type → part.isOfSource = false) ↔
      ∀ part ∈ type.operands, part.Written := by
  constructor
  · intro h part hpart
    exact ⟨h part (.single hpart), fun deep hdeep => h deep (.tail hdeep hpart)⟩
  · intro h part hpart
    cases hpart with
    | single hpart => exact (h part hpart).1
    | tail hdeep hpart => exact (h _ hpart).2 part hdeep

theorem written_iff {type : TypeExpr} :
    type.Written ↔ type.isOfSource = false ∧ ∀ part ∈ type.operands, part.Written := by
  rw [Written, inside_written_iff]

theorem Written.ofAlternatives {first : TypeExpr} {more : List TypeExpr} (hfirst : first.Written)
    (hmore : ∀ type ∈ more, type.Written) : (ofAlternatives first more).Written := by
  cases more with
  | nil => exact hfirst
  | cons second rest =>
    have hunion : TypeExpr.ofAlternatives first (second :: rest) =
        .union (first :: second :: rest) := rfl
    rw [hunion, written_iff]
    exact ⟨rfl, List.forall_mem_cons.mpr ⟨hfirst, hmore⟩⟩

mutual

theorem TypePhrase.type_written : ∀ type : TypePhrase, type.type.Written
  | .alternatives first more => by
    rw [type_alternatives]
    refine first.type_written.ofAlternatives ?_
    rw [List.forall_mem_map]
    exact fun single _ => single.type_written

theorem SinglePhrase.type_written : ∀ single : SinglePhrase, single.type.Written
  | .nullable inner => by
    rw [SinglePhrase.type, written_iff]
    exact ⟨rfl, List.forall_mem_singleton.mpr inner.type_written⟩
  | .array element => by
    rw [SinglePhrase.type, written_iff]
    exact ⟨rfl, List.forall_mem_singleton.mpr element.type_written⟩
  | .object _ fields => by
    rw [SinglePhrase.type, written_iff, operands, List.map_map, List.forall_mem_map]
    exact ⟨rfl, fun field _ => field.type_written⟩
  | .function _ parameters => by
    rw [SinglePhrase.type, written_iff, operands, Option.toList_none, List.append_nil,
      List.map_map, List.forall_mem_map]
    exact ⟨rfl, fun parameter _ => parameter.type_written⟩
  | .arrow _ parameters _ result => by
    rw [SinglePhrase.type, written_iff, operands, Option.toList_some, List.forall_mem_append,
      List.map_map, List.forall_mem_map, List.forall_mem_singleton]
    exact ⟨rfl, fun parameter _ => parameter.type_written, result.type_written⟩
  | .quoted text => by
    rw [SinglePhrase.type, written_iff]
    exact ⟨rfl, List.forall_mem_nil _⟩
  | .number text => by
    rw [SinglePhrase.type, written_iff]
    exact ⟨rfl, List.forall_mem_nil _⟩
  | .named name => by
    rw [SinglePhrase.type, written_iff]
    exact ⟨rfl, List.forall_mem_nil _⟩
  | .generic _ first more => by
    rw [SinglePhrase.type, written_iff, operands, List.forall_mem_cons, List.forall_mem_map]
    exact ⟨rfl, first.type_written, fun type _ => type.type_written⟩

theorem FieldPhrase.type_written : ∀ field : FieldPhrase, field.field.type.Written
  | .mk _ _ type => by
    rw [FieldPhrase.field]
    exact type.type_written

theorem ParameterPhrase.type_written :
    ∀ parameter : ParameterPhrase, parameter.parameter.type.Written
  | .mk _ _ type => by
    rw [ParameterPhrase.parameter]
    exact type.type_written

end

theorem parse_written {text : String} {type : TypeExpr} (h : parse text = .ok type) :
    type.Written := by
  obtain ⟨ts, -, hts⟩ := parse_eq_ok_iff.mp h
  obtain ⟨phrase, -, -, rfl⟩ := ofTokens_eq_ok_iff.mp hts
  exact phrase.type_written

/-! ## Names that are filled in -/

/-- The second parameter is the first one, or that with a name where it had none. -/
def Completes (parameter named : Parameter TypeExpr) : Prop :=
  named = parameter ∨ (parameter.name = none ∧ ∃ name, named = { parameter with name := some name })

/-- The second type is the first one, or the same function with names for some of the parameters
that had none. -/
def NamesFilled (type filled : TypeExpr) : Prop :=
  filled = type ∨ ∃ parameters named result, type = .function parameters result ∧
    filled = .function named result ∧ List.Forall₂ Completes parameters named

theorem types_of_completes {parameters named : List (Parameter TypeExpr)}
    (h : List.Forall₂ Completes parameters named) :
    named.map (·.type) = parameters.map (·.type) := by
  induction h with
  | nil => rfl
  | cons hfirst _ ih =>
    rw [List.map_cons, List.map_cons, ih]
    rcases hfirst with rfl | ⟨-, name, rfl⟩ <;> rfl

theorem NamesFilled.written {type filled : TypeExpr} (h : NamesFilled type filled)
    (htype : type.Written) : filled.Written := by
  rcases h with rfl | ⟨parameters, named, result, rfl, rfl, hnamed⟩
  · exact htype
  · rw [written_iff, operands] at htype ⊢
    rw [types_of_completes hnamed]
    exact ⟨rfl, htype.2⟩

end TypeExpr

open TypeExpr

namespace Element

theorem Lent.completes {lenders : List Formal} {parameters filled : List (Parameter TypeExpr)}
    (h : Lent lenders parameters filled) (hnames : NoEmptyNames parameters) :
    List.Forall₂ Completes parameters filled := by
  induction parameters generalizing lenders filled with
  | nil =>
    have hfirst : filled[0]? = none := h 0
    rw [List.getElem?_eq_none_iff, Nat.le_zero, List.length_eq_zero_iff] at hfirst
    rw [hfirst]
    exact .nil
  | cons parameter parameters ih =>
    have hfirst := h.getElem?_eq hnames 0
    cases filled with
    | nil => simp at hfirst
    | cons first rest =>
      have hrest : Lent lenders.tail parameters rest := by
        intro i
        have hnext := h (i + 1)
        simpa [List.getElem?_tail] using hnext
      refine .cons ?_ (ih hrest (List.forall_mem_cons.mp hnames).2)
      obtain ⟨type, name, optional, variadic⟩ := parameter
      simp only [List.getElem?_cons_zero, Option.map_some, Option.some.injEq] at hfirst
      subst hfirst
      -- A parameter that has a name keeps it, so only a missing one can be lent.
      cases name with
      | some name => exact .inl rfl
      | none =>
        cases hlent : lenders[0]?.bind Formal.name with
        | none => exact .inl (by simp)
        | some name => exact .inr ⟨rfl, name, by simp⟩

theorem namesFilled_of_fillNames {element : Element} {spec : String} {type filled : TypeExpr}
    (htype : element.resolveType spec = .ok type) (h : element.fillNames type = (filled, none)) :
    NamesFilled type filled := by
  rcases lendsTo_of_fillNames h with ⟨parameters, result, named, rfl, rfl, hlent⟩ | ⟨-, rfl⟩
  · have hnamed := hlent.completes (noEmptyNames_of_resolveType htype)
    exact .inr ⟨parameters, named, result, rfl, rfl, hnamed⟩
  · exact .inl rfl

end Element

/-! ## Headings -/

/-- The type of a heading agrees with the text that the heading keeps. -/
structure Heading.Consistent (heading : Heading) : Prop where
  /-- A text is not empty; it says `interface`, or is read as the type up to missing names. -/
  written : ∀ text, heading.spec = some text → text ≠ "" ∧
    if text = "interface" then heading.type = .interfaceType
    else ∃ type, TypeExpr.parse text = .ok type ∧ NamesFilled type heading.type
  /-- Without a text the type is one that elements have. -/
  unwritten : heading.spec = none →
    (∃ parameters, heading.type = .classType parameters) ∨ heading.type = .anyType ∨
      heading.type = .function [] none
  /-- Constructor parameters stand in a class without a text. -/
  constructed : ∀ parameters, heading.type = .classType (some parameters) → heading.spec = none
  /-- What elements have as their types never stands inside another type. -/
  inside : ∀ part, Inside part heading.type → part.isOfSource = false

theorem Heading.Consistent.spec_of_class {heading : Heading} (h : heading.Consistent)
    (hclass : Links.isClassType heading.type = true) : heading.spec = none := by
  cases hspec : heading.spec with
  | none => rfl
  | some text =>
    exfalso
    have htype := (h.written text hspec).2
    split at htype
    · simp [htype, Links.isClassType] at hclass
    · obtain ⟨type, hparse, hfilled⟩ := htype
      have hwritten := (hfilled.written (parse_written hparse)).1
      cases hheading : heading.type <;> simp_all [Links.isClassType, isOfSource]

/-- A heading without a text and with a type that is made of no other. -/
theorem Heading.consistent_of_operands {heading : Heading} (hspec : heading.spec = none)
    (htype : heading.type = .classType none ∨ heading.type = .anyType ∨
      heading.type = .function [] none) : heading.Consistent where
  written := by simp [hspec]
  unwritten _ := htype.imp_left fun hclass => ⟨none, hclass⟩
  constructed _ _ := hspec
  inside := by
    rw [inside_written_iff]
    intro part hpart
    rcases htype with htype | htype | htype <;> rw [htype] at hpart <;> cases hpart

theorem Element.heading_consistent {element : Element} {line : DeclarationLine} {heading : Heading}
    (h : element.heading line = .ok heading) : heading.Consistent := by
  obtain ⟨-, hspec, type, htype, hfill⟩ := heading_eq_ok h
  have hfilled := namesFilled_of_fillNames htype hfill
  have hsome : line.spec ≠ "" → heading.spec = some line.spec := by
    intro hne
    simp [hspec, nonempty?, Option.filter, hne]
  rcases resolveType_eq_ok htype with
    ⟨hempty, hown⟩ | ⟨hinterface, hown⟩ | ⟨hempty, hinterface, hparse⟩
  · have hnone : heading.spec = none := by
      rw [hspec, hempty]
      rfl
    -- The element gives no function with parameters, so there is no name to lend.
    have hsame : heading.type = type := by
      rcases hfilled with hsame | ⟨parameters, named, result, rfl, hnamed, hcompletes⟩
      · exact hsame
      · rcases ownType_cases hown with htype | htype | htype <;> cases htype
        cases hcompletes
        exact hnamed
    exact Heading.consistent_of_operands hnone (hsame ▸ ownType_cases hown)
  · have hempty : line.spec ≠ "" := by simp [hinterface]
    have hsame : heading.type = .interfaceType := by
      rcases hfilled with hsame | ⟨parameters, named, result, rfl, -, -⟩
      · exact hsame.trans hown
      · cases hown
    refine ⟨?_, by simp [hsome hempty], by simp [hsame], ?_⟩
    · intro text htext
      obtain rfl : line.spec = text := by simpa [hsome hempty] using htext
      exact ⟨hempty, by rw [if_pos hinterface, hsame]⟩
    · rw [inside_written_iff, hsame]
      exact List.forall_mem_nil _
  · have hwritten := hfilled.written (parse_written hparse)
    refine ⟨?_, by simp [hsome hempty], ?_, hwritten.2⟩
    · intro text htext
      obtain rfl : line.spec = text := by simpa [hsome hempty] using htext
      exact ⟨hempty, by rw [if_neg hinterface]; exact ⟨type, hparse, hfilled⟩⟩
    · intro parameters hclass
      rw [hclass] at hwritten
      exact absurd hwritten.1 (by simp [isOfSource])

/-- A class stays consistent with the parameters of a function that is. -/
theorem Heading.Consistent.setConstructor {owner d : Declaration}
    (howner : owner.heading.Consistent) (hclass : Links.isClassType owner.heading.type = true)
    (hd : d.heading.Consistent) {parameters : List (Parameter TypeExpr)} {result : Option TypeExpr}
    (htype : d.heading.type = .function parameters result) :
    (Declaration.setConstructor parameters owner).heading.Consistent where
  written text htext := by
    have hnone : owner.heading.spec = some text := htext
    rw [howner.spec_of_class hclass] at hnone
    cases hnone
  unwritten _ := .inl ⟨some parameters, rfl⟩
  constructed _ _ := howner.spec_of_class hclass
  inside := by
    have hinside := hd.inside
    rw [inside_written_iff, htype] at hinside
    rw [inside_written_iff]
    exact fun part hpart => hinside part (List.mem_append_left _ hpart)

/-! ## Runs -/

namespace Links

open Declaration LinkCall

variable {links : Links} {tree : SourceTree} {passed : List Declaration}

/-- The property holds of made up classes, and classes keep it when they get the parameters of a
function that has it. -/
structure KeptByLinks (P : Heading → Prop) : Prop where
  implied : ∀ name, P { name, type := .classType none }
  merged : ∀ (owner d : Declaration) parameters result, P owner.heading →
    isClassType owner.heading.type = true → P d.heading →
    d.heading.type = .function parameters result →
    P (Declaration.setConstructor parameters owner).heading

/-- The property holds of all headings of the forest. -/
def AllHeadings (P : Heading → Prop) (forest : List Declaration) : Prop :=
  ∀ d ∈ preorderAll forest, P d.heading

theorem AllHeadings.append {P : Heading → Prop} {forest more : List Declaration}
    (hforest : AllHeadings P forest) (hmore : AllHeadings P more) :
    AllHeadings P (forest ++ more) := by
  intro d hd
  rw [preorderAll_append, List.mem_append] at hd
  exact hd.elim (hforest d) (hmore d)

theorem AllHeadings.prepared {P : Heading → Prop} (hP : KeptByLinks P)
    (h : AllHeadings P links.declarations) {d : Declaration} {e : Element} {ready : Links}
    {p : Origin} (hready : Prepared links tree d e ready p) :
    AllHeadings P ready.declarations := by
  cases hready with
  | found hparent => exact h
  | @implied c name hparent hclass hname =>
    refine h.append fun made hmade => ?_
    obtain rfl : made = ⟨d.origin.impliedClass, { name, type := .classType none }, none⟩ := by
      simpa [parts] using hmade
    exact hP.implied name

theorem link_headings {P : Heading → Prop} (hP : KeptByLinks P) (hsound : Sound tree passed links)
    {d : Declaration} (hfresh : Fresh passed d) {e : Element} {after : Links}
    (hafter : links.link tree d e = .ok after) (h : AllHeadings P links.declarations)
    (hd : AllHeadings P [d]) : AllHeadings P after.declarations := by
  rcases link_declarations hsound hfresh hafter with ⟨-, heq⟩ |
    ⟨ready, p, hready, hready', hp, ⟨-, heq⟩ | ⟨parameters, owner, hmerge, howner, hclass, heq⟩⟩
  · rw [heq]
    exact h.append hd
  · intro new hnew
    rw [heq] at hnew
    rcases mem_preorderAll_updateAll (extends_addMember d) p hnew with ⟨old, hold, rfl⟩ | hnew
    · rw [heading_update_addMember]
      exact h.prepared hP hready old hold
    · exact hd new hnew
  · intro new hnew
    rw [heq] at hnew
    rcases mem_preorderAll_updateAll (extends_setConstructor parameters) p hnew with
      ⟨old, hold, rfl⟩ | hnew
    · have hheading := h.prepared hP hready old hold
      by_cases horigin : old.origin = p
      · -- The declaration from this origin is the class itself.
        have hfound := hready'.declaration?_of_mem hold
        rw [horigin, howner] at hfound
        cases hfound
        rw [merge?_of_prepared hready, Option.map_eq_some_iff] at hmerge
        obtain ⟨_, hparameters, heq⟩ := hmerge
        cases heq
        obtain ⟨-, -, ⟨result, htype⟩, -⟩ := constructorParameters?_eq_some.mp hparameters
        rw [update_eq, if_pos horigin]
        exact hP.merged owner d parameters result hheading hclass (hd d (by simp)) htype
      · rw [heading_update_of_ne horigin]
        exact hheading
    · simp at hnew

theorem run_headings {P : Heading → Prop} (hP : KeptByLinks P) {calls : List (LinkCall tree)}
    (hfresh : AllFresh calls) (h : ∀ call ∈ calls, AllHeadings P [call.declaration]) :
    AllHeadings P (run calls).declarations := by
  induction calls using List.reverseRecOn with
  | nil =>
    intro d hd
    simp [run] at hd
  | append_singleton calls call ih =>
    obtain ⟨hcalls, hcall⟩ := allFresh_append_singleton hfresh
    have hbefore := ih hcalls fun other hother => h other (List.mem_append_left _ hother)
    rw [run_append_singleton, attempt]
    split
    · rename_i after hafter
      exact link_headings hP (sound_run hcalls) hcall hafter hbefore (h call (by simp))
    · exact hbefore

theorem consistent_keptByLinks : KeptByLinks Heading.Consistent where
  implied _ := Heading.consistent_of_operands rfl (.inl rfl)
  merged _ _ _ _ howner hclass hd htype := howner.setConstructor hclass hd htype

end Links

namespace SourceTree

open Declaration Links

/-- **Types and their texts.** Where an extraction succeeds, the type of every declaration agrees
with the text it keeps. A text is not empty: `interface` stands for an interface, and any other is
read as the type, up to names for parameters of the outermost function that had none. Without a
text the type is a class, unconstrained, or a function with no parameters and no result. Only a
class without a text has the parameters of a constructor; and no class, interface or unconstrained
type stands inside another type. -/
theorem extract_types {tree : SourceTree} {forest : List Declaration}
    (h : tree.extract.result = .ok forest) {d : Declaration} (hd : d ∈ preorderAll forest) :
    (∀ text, d.heading.spec = some text → text ≠ "" ∧
      (text = "interface" → d.heading.type = .interfaceType) ∧
      (text ≠ "interface" →
        ∃ type, TypeExpr.parse text = .ok type ∧ NamesFilled type d.heading.type)) ∧
    (d.heading.spec = none →
      (∃ parameters, d.heading.type = .classType parameters) ∨ d.heading.type = .anyType ∨
        d.heading.type = .function [] none) ∧
    (∀ parameters, d.heading.type = .classType (some parameters) → d.heading.spec = none) ∧
    ∀ part, Inside part d.heading.type → part.isOfSource = false := by
  obtain ⟨rfl, -, hreads⟩ := extract_run h
  have hpassed : ∀ call ∈ tree.calls, AllHeadings Heading.Consistent [call.declaration] := by
    intro call hcall first hfirst
    obtain ⟨element, head, -, hheading⟩ := headAt_of_calls hreads hcall hfirst
    exact Element.heading_consistent hheading
  obtain ⟨hwritten, hunwritten, hconstructed, hinside⟩ :=
    run_headings consistent_keptByLinks (calls_allFresh hreads) hpassed d hd
  refine ⟨fun text htext => ?_, hunwritten, hconstructed, hinside⟩
  obtain ⟨hne, htype⟩ := hwritten text htext
  exact ⟨hne, fun heq => by rwa [if_pos heq] at htype, fun hother => by rwa [if_neg hother] at htype⟩

/-- A class that no comment declares. Its constructor is documented, and so is a method, with a
member, whose comment leaves out the name of its parameter. -/
def lendingMethod : SourceTree :=
  Program.tree {
    root := .plain "Program" [("body", .many [
      .classOf "ClassDeclaration" (some "A") [
        .methodOf "constructor" [] [0],
        .plain "MethodDefinition" [("key", .one (.named "run")), ("value", .one
          (.plain "FunctionExpression" [("params", .many [.named "options"])] []))]
          [20, 40, 50]]])] []
    comments := [.onLine 0 1 " :: (x: number)", .onLine 20 5 " :: (string) → A", .onLine 40 6 "",
      .onLine 50 7 "   inner:: interface"] }

theorem extract_types_lendingMethod :
    ∃ forest, lendingMethod.extract.result = .ok forest ∧
      (preorderAll forest).map (fun d =>
        (d.heading.name, d.heading.spec, Outline.parameterNames d.heading.type)) =
          [("A", none, []), ("run", some "(string) → A", [some "options"]),
            ("inner", some "interface", [])] ∧
      ∀ d ∈ preorderAll forest,
        (d.heading.spec = some "interface" → d.heading.type = .interfaceType) ∧
        (d.heading.spec = some "(string) → A" → ∃ type,
          TypeExpr.parse "(string) → A" = .ok type ∧ NamesFilled type d.heading.type) ∧
        ∀ part, Inside part d.heading.type → part.isOfSource = false := by
  have hsaid : lendingMethod.extract.result.toOption.map (fun forest =>
      (preorderAll forest).map fun d =>
        (d.heading.name, d.heading.spec, Outline.parameterNames d.heading.type)) =
          some [("A", none, []), ("run", some "(string) → A", [some "options"]),
            ("inner", some "interface", [])] := by decide +kernel
  cases h : lendingMethod.extract.result with
  | error failure => simp [h, Except.toOption] at hsaid
  | ok forest =>
    refine ⟨forest, rfl, by simpa [h, Except.toOption] using hsaid, fun d hd => ?_⟩
    obtain ⟨hwritten, -, -, hinside⟩ := extract_types h hd
    exact ⟨fun hspec => (hwritten _ hspec).2.1 rfl,
      fun hspec => (hwritten _ hspec).2.2 (by decide), hinside⟩

end SourceTree

end DocComments
