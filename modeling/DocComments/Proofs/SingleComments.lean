import DocComments.Declaration.Member
import DocComments.Proofs.Extraction
import DocComments.Proofs.NestedNames
import Mathlib.Data.List.TakeWhile

/-!
# Single comments

A member of a class can be read from its comment alone. If the comment is the only one of a program
and declares something on one line, then the whole extraction says the same: it gives the class,
with the member below it or, for a constructor, with its parameters.

* `memberSpec?_of_classify?`: the comment and its line give the same specification.
* `extract_of_single`: an extraction of one line links one declaration.
* `Comment.Specifies.exists_class`: the member is found from the element that is documented.
* `link_first`: what the first call makes of a declaration in a class.
* `Program.extract_onlyComment`: the extraction gives the class, and the class the member.
-/

namespace DocComments

/-! ## One line -/

namespace Text

theorem splitLines_of_notMem {text : List Char} (h : '\n' ∉ text) : splitLines text = [text] := by
  induction text with
  | nil => rfl
  | cons c rest ih =>
    rw [List.mem_cons, not_or] at h
    rw [splitLines, if_neg (Ne.symm h.1), ih h.2]

theorem dropReturns_of_notMem {text : List Char} (h : '\r' ∉ text) : dropReturns text = text := by
  have hkeep : text.reverse.dropWhile (· == '\r') = text.reverse := by
    rw [List.dropWhile_eq_self_iff]
    intro hpos heq
    refine h (List.mem_reverse.mp ?_)
    rw [← beq_iff_eq.mp heq]
    exact List.getElem_mem hpos
  rw [dropReturns, hkeep, List.reverse_reverse]

theorem lines_of_notMem {text : String} (hfeed : '\n' ∉ text.toList)
    (hreturn : '\r' ∉ text.toList) : lines text = [text] := by
  rw [lines, splitLines_of_notMem hfeed, List.map_singleton, dropReturns_of_notMem hreturn,
    String.ofList_toList]

end Text

namespace Line

theorem single?_of_notMem {text : List Char} (h : '\n' ∉ text) : single? text = some text := by
  have hall : ∀ c ∈ text, decide (c ≠ '\n') = true := by
    intro c hc
    rw [decide_eq_true_eq]
    rintro rfl
    exact h hc
  rw [single?, List.dropWhile_eq_nil_iff.mpr hall, List.takeWhile_eq_self_iff.mpr hall]

theorem afterSeparator_subset (text : List Char) : afterSeparator text ⊆ text := by
  have hdrop : ∀ (c : Char) (text : List Char), dropOne c text ⊆ text := by
    intro c text
    cases text with
    | nil => exact List.Subset.refl _
    | cons d rest =>
      rw [dropOne]
      split
      · exact List.subset_cons_self _ _
      · exact List.Subset.refl _
  have hspaces : afterSeparator text ⊆ dropOne '-' (dropOne ':' text) :=
    (List.dropWhile_sublist _).subset
  exact List.Subset.trans hspaces (List.Subset.trans (hdrop _ _) (hdrop _ _))

/-- A line that declares something without a name opens with a separator. -/
theorem classify?_unnamed {text : String} {line : DeclarationLine}
    (h : classify? text = some (.declaration line)) (hname : line.identifier = none)
    (hfeed : '\n' ∉ text.toList) :
    ∃ rest, text.toList.dropWhile Text.isBlank = ':' :: rest ∧
      line.indent = (text.toList.takeWhile Text.isBlank).length ∧
      line.spec = String.ofList (afterSeparator rest) := by
  unfold classify? ofBody? at h
  dsimp only at h
  split at h
  · rename_i found hfound
    cases h
    unfold declaration? at hfound
    split at hfound
    · rename_i rest hrest
      obtain ⟨spec, hspec, rfl⟩ := Option.map_eq_some_iff.mp hfound
      have hempty : (text.toList.dropWhile Text.isBlank).takeWhile isIdentifierChar = [] := by
        by_contra hne
        simp [hne] at hname
      have hbody : text.toList.dropWhile Text.isBlank = ':' :: rest := by
        rw [← List.takeWhile_append_dropWhile (p := isIdentifierChar)
          (l := text.toList.dropWhile Text.isBlank), hempty, List.nil_append, hrest]
      have hrestFeed : '\n' ∉ afterSeparator rest := by
        intro hmem
        refine hfeed ((List.dropWhile_sublist Text.isBlank).subset ?_)
        rw [hbody]
        exact List.mem_cons_of_mem _ (afterSeparator_subset rest hmem)
      rw [single?_of_notMem hrestFeed] at hspec
      cases hspec
      exact ⟨rest, hbody, rfl, rfl⟩
    · cases hfound
  · split at h
    · cases h
    · split at h
      · cases h
      · obtain ⟨_, -, h⟩ := Option.map_eq_some_iff.mp h
        cases h

end Line

/-- Behind spaces only, a comment specifies a member as its line does. -/
theorem memberSpec?_of_classify? {text : String} {line : DeclarationLine}
    (h : Line.classify? text = some (.declaration line)) (hname : line.identifier = none)
    (hfeed : '\n' ∉ text.toList) (hspaces : ∀ c ∈ text.toList.take line.indent, c = ' ') :
    memberSpec? text = some line.spec := by
  obtain ⟨rest, hbody, hindent, hspec⟩ := Line.classify?_unnamed h hname hfeed
  have hcut := List.takeWhile_append_dropWhile (p := Text.isBlank) (l := text.toList)
  have htake : text.toList.take line.indent = text.toList.takeWhile Text.isBlank := by
    rw [hindent]
    nth_rewrite 2 [← hcut]
    rw [List.take_left']
    rfl
  have hdrop : text.toList.dropWhile (· == ' ') = ':' :: rest := by
    rw [← hcut, hbody, List.dropWhile_append_of_pos, List.dropWhile_cons_of_neg (by decide)]
    intro c hc
    rw [hspaces c (htake ▸ hc)]
    rfl
  rw [memberSpec?, if_neg hfeed, hdrop, hspec]
  rfl

/-! ## One declaration -/

/-- An outline of one line holds its declaration, or the failure to read it. -/
theorem Outline.block_singleton (resolve : DeclarationLine → Except Failure Heading) (number : Nat)
    (line : DeclarationLine) :
    (∃ heading, resolve line = .ok heading ∧
      (block resolve number (.ofLines [.declaration line])).declarations.map (·.1) =
        [⟨{ block := number, line := 0 }, heading, none⟩] ∧
      (block resolve number (.ofLines [.declaration line])).failure = none) ∨
    ∃ failure, (block resolve number (.ofLines [.declaration line])).failure = some failure := by
  cases h : resolve line with
  | error failure =>
    refine Or.inr ⟨failure, ?_⟩
    simp [block, Cursor.ofLines, Cursor.skipEmpty, Cursor.advance, Line.isEmpty, Cursor.line?,
      blockWithin, declaration, declarationWith, h]
  | ok heading =>
    refine Or.inl ⟨heading, rfl, ?_, ?_⟩
    all_goals
      simp [block, Cursor.ofLines, Cursor.skipEmpty, Cursor.advance, Line.isEmpty, Cursor.line?,
        blockWithin, declaration, declarationWith, h, Cursor.next, Cursor.seekHead]

namespace SourceTree

variable {tree : SourceTree}

theorem blocks_of_single {comment : Comment} (h : tree.comments = [comment])
    (hfeed : '\n' ∉ comment.raw.value.toList) (hreturn : '\r' ∉ comment.raw.value.toList) :
    tree.blocks = [⟨comment.element, comment.raw.span.startLine, [comment.raw.value]⟩] := by
  have hlines : comment.lines = [⟨comment.raw.span.startLine, comment.raw.value⟩] := by
    rw [Comment.lines, Text.lines_of_notMem hfeed hreturn]
    rfl
  have hruns : tree.runs = [[comment]] := by
    rw [runs, h]
    rfl
  rw [blocks, hruns, List.flatMap_singleton, blocksOfRun, List.flatMap_singleton, hlines]
  rfl

/-- An extraction of one line links one declaration. -/
theorem extract_of_single {block : Block} {e : Element} {line : DeclarationLine}
    {forest : List Declaration} (hblocks : tree.blocks = [block])
    (he : tree.element? block.element = some e)
    (hlines : block.lines.mapM Line.classify = .ok [.declaration line])
    (h : tree.extract.result = .ok forest) :
    ∃ heading after, e.heading line = .ok heading ∧
      ({} : Links).link tree ⟨{ block := 0, line := 0 }, heading, none⟩ e = .ok after ∧
      after.declarations = forest := by
  obtain ⟨_, -, h⟩ := Traced.result_bind_eq_ok.mp h
  obtain ⟨after, hafter, h⟩ := Traced.result_bind_eq_ok.mp h
  cases h
  rw [hblocks] at hafter
  obtain ⟨middle, hmiddle, hafter⟩ := Traced.result_bind_eq_ok.mp hafter
  cases hafter
  rw [extractBlock, he] at hmiddle
  obtain ⟨lines, hread, hmiddle⟩ := Traced.result_bind_eq_ok.mp hmiddle
  cases hlines.symm.trans hread
  obtain ⟨linked, hlinked, hmiddle⟩ := Traced.result_bind_eq_ok.mp hmiddle
  rcases Outline.block_singleton e.heading 0 line with
    ⟨heading, hheading, hdeclarations, hfailure⟩ | ⟨failure, hfailure⟩
  · rw [hdeclarations] at hlinked
    obtain ⟨own, hown, hlinked⟩ := Traced.result_bind_eq_ok.mp hlinked
    cases hlinked
    rw [linkNoting_result] at hown
    refine ⟨heading, _, hheading, ?_, rfl⟩
    simp only [hfailure] at hmiddle
    split at hmiddle
    all_goals
      cases hmiddle
      exact hown
  · simp only [hfailure] at hmiddle
    cases hmiddle

end SourceTree

/-! ## The member -/

/-- Methods and assignments are the nodes of these types. -/
def Node.MemberFits (nodeType : String) (role : Role) : Prop :=
  (role.isMethod = true → nodeType = "MethodDefinition") ∧
    (role.isAssignment = true → nodeType = "ExpressionStatement")

theorem Node.role_memberFits : FitsNodes MemberFits := by
  intro node
  unfold MemberFits role
  split
  case h_6 htype =>
    cases (node.child? "expression").bind thisField? <;>
      simp [htype, Role.isMethod, Role.isAssignment]
  all_goals simp_all [Role.isMethod, Role.isAssignment]

namespace SourceTree

theorem closest?_self {tree : SourceTree} {e : Element} {nodeType : String}
    (h : e.nodeType = nodeType) : tree.closest? e nodeType = some e :=
  List.find?_cons_of_pos (beq_iff_eq.mpr h)

end SourceTree

namespace Comment

/-- The comment at the element specifies the member: a method by itself, or a field that is
assigned to. -/
inductive Specifies (tree : SourceTree) (comment : Comment) (e : Element) (member : Member) : Prop
  | method (role : e.role.isMethod = true) (found : comment.method? tree = .ok (some member))
  | field (role : e.role.isAssignment = true) (found : comment.field? tree = .ok (some member))

/-- What a comment says of the member `e` of the class `c`. -/
structure Describes (comment : Comment) (e c : Element) (member : Member) : Prop where
  name : member.name = e.role.name?
  parent : member.parent = c.role.name?
  spec : memberSpec? comment.raw.value = some member.spec
  parameters : e.role.isMethod = true → member.parameters = some (e.role.formals.map (·.name))

theorem memberSpec?_of_spec {comment : Comment} {spec : String} (h : comment.spec = .ok spec) :
    memberSpec? comment.raw.value = some spec := by
  unfold Comment.spec at h
  split at h
  · cases h
    assumption
  · cases h

/-- The member is read off the element of the comment and the class around it. -/
theorem Specifies.exists_class {program : Program} {comment : Comment} {e : Element}
    {member : Member} (h : Specifies program.tree comment e member)
    (he : program.tree.element? comment.element = some e) :
    ∃ c, program.tree.enclosingClass? e = some c ∧ comment.Describes e c member := by
  have hfits := program.tree_rolesFit Node.role_memberFits e (List.mem_of_getElem? he)
  cases h with
  | method hrole hfound =>
    rw [method?, he, Option.bind_some, SourceTree.closest?_self (hfits.1 hrole)] at hfound
    cases hclass : program.tree.enclosingClass? e with
    | none => simp [hclass] at hfound
    | some c =>
      simp only [hclass] at hfound
      obtain ⟨spec, hspec, hfound⟩ := except_bind_eq_ok.mp hfound
      cases hfound
      exact ⟨c, rfl, rfl, rfl, memberSpec?_of_spec hspec, fun _ => rfl⟩
  | field hrole hfound =>
    rw [field?, he, Option.bind_some, SourceTree.closest?_self (hfits.2 hrole)] at hfound
    simp only at hfound
    split at hfound
    · cases hfound
    · rename_i c hclass
      obtain ⟨spec, hspec, hfound⟩ := except_bind_eq_ok.mp hfound
      cases hfound
      refine ⟨c, ?_, rfl, rfl, memberSpec?_of_spec hspec, fun hmethod => ?_⟩
      · unfold assignmentClass? at hclass
        split at hclass
        · exact hclass
        · cases hclass
      · cases hown : e.role <;> simp_all [Role.isMethod, Role.isAssignment]

end Comment

/-! ## The class -/

namespace Links

open Declaration

theorem parent?_empty (tree : SourceTree) (e : Element) : ({} : Links).parent? tree e = none := by
  cases h : ({} : Links).parent? tree e with
  | none => rfl
  | some p =>
    obtain ⟨a, -, howner⟩ := owner?_of_parent? h
    exact absurd (mem_table_of_owner? howner) List.not_mem_nil

theorem declarations_placeBelow_implied {d : Declaration} {e c : Element} {heading : Heading} :
    let host : Declaration := ⟨d.origin.impliedClass, heading, none⟩
    ((({} : Links).withImplied d.origin c heading).placeBelow d.origin.impliedClass d
        e).declarations =
      [match constructorParameters? d e (some host) with
        | some parameters => host.setConstructor parameters
        | none => addMember d host] := by
  intro host
  have hhost : (({} : Links).withImplied d.origin c heading).declaration? d.origin.impliedClass =
      some host := by
    simp [withImplied, declaration?, Declaration.find?, append, record, host]
  have hupdate : ∀ f, ((({} : Links).withImplied d.origin c heading).update d.origin.impliedClass
      f).declarations = [f host] := by
    intro f
    simp [withImplied, Links.update, append, record, host, updateAll, Declaration.update,
      updateMembers]
  rcases placeBelow_cases (({} : Links).withImplied d.origin c heading) d.origin.impliedClass d e
    with ⟨parameters, hparameters, hplace⟩ | ⟨hparameters, hplace⟩
  all_goals
    rw [hhost] at hparameters
    rw [hplace, recordUnlessProgram_declarations, hupdate, hparameters]

/-- The first declaration in a class makes up the class. -/
theorem link_first {tree : SourceTree} {d : Declaration} {e c : Element} {after : Links}
    (hclass : tree.enclosingClass? e = some c) (h : ({} : Links).link tree d e = .ok after) :
    ∃ name, c.resolveName none = .ok name ∧
      let host : Declaration := ⟨d.origin.impliedClass, { name, type := .classType none }, none⟩
      after.declarations = [match constructorParameters? d e (some host) with
        | some parameters => host.setConstructor parameters
        | none => addMember d host] := by
  rcases link_cases h with ⟨-, hnone, -⟩ | ⟨ready, p, hready, rfl⟩
  · rw [hclass] at hnone
    cases hnone
  · cases hready with
    | found hparent =>
      rw [parent?_empty] at hparent
      cases hparent
    | implied hparent hown hname =>
      cases hclass.symm.trans hown
      exact ⟨_, hname, declarations_placeBelow_implied⟩

end Links

namespace Element

theorem role_name?_of_resolveName {e : Element} {name : String}
    (h : e.resolveName none = .ok name) (hrole : ∀ names, e.role ≠ .variables names) :
    e.role.name? = some name := by
  have hown : e.ownName = .ok name := h
  unfold ownName at hown
  split at hown
  · rename_i own hvariables
    exact absurd hvariables (hrole _)
  · rename_i hvariables
    exact absurd hvariables (hrole _)
  · dsimp only at hown
    split at hown
    · rename_i found hfound
      cases hown
      exact (Option.filter_eq_some_iff.mp hfound).1
    · cases hown

/-- A method or assignment has no type of its own. -/
theorem spec_ne_empty {e : Element} {spec : String} {type : TypeExpr}
    (h : e.resolveType spec = .ok type)
    (hrole : e.role.isMethod = true ∨ e.role.isAssignment = true) : spec.isEmpty = false := by
  rw [resolveType] at h
  split at h
  · cases hown : e.role <;>
      simp_all [ownType, Role.isMethod, Role.isAssignment]
  · rename_i hne
    exact eq_false_of_ne_true hne

/-- Is it a function type? -/
def isFunctionType : TypeExpr → Bool
  | .function _ _ => true
  | _ => false

theorem parse_interface (parameters : List (Parameter TypeExpr)) (result : Option TypeExpr) :
    TypeExpr.parse "interface" ≠ .ok (.function parameters result) := by
  intro h
  have heval : (TypeExpr.parse "interface").toOption.any isFunctionType = false := by
    decide +kernel
  rw [h] at heval
  cases heval

/-- A function type is always read from the specification. -/
theorem resolveType_eq_function_iff {e : Element} {spec : String} (hspec : spec.isEmpty = false)
    (parameters : List (Parameter TypeExpr)) (result : Option TypeExpr) :
    e.resolveType spec = .ok (.function parameters result) ↔
      TypeExpr.parse spec = .ok (.function parameters result) := by
  rw [resolveType, if_neg (by simp [hspec])]
  by_cases hinterface : spec = "interface"
  · subst hinterface
    rw [if_pos rfl]
    exact ⟨fun h => (by cases h), fun h => absurd h (parse_interface parameters result)⟩
  · rw [if_neg hinterface]
    cases TypeExpr.parse spec <;> simp [Except.mapError]

end Element

namespace Links

theorem constructorParameters?_eq_some_iff {d host : Declaration} {e : Element}
    (hhost : isClassType host.heading.type = true) (parameters : List (Parameter TypeExpr)) :
    constructorParameters? d e (some host) = some parameters ↔
      (e.role.isMethod = true ∧ e.role.name? = some "constructor") ∧
        d.heading.name = "constructor" ∧
          ∃ result, d.heading.type = .function parameters result := by
  unfold constructorParameters?
  split
  · rename_i formals own result hrole htype
    simp [hrole, htype, hhost, Role.isMethod, Role.name?]
  · rename_i hother
    refine ⟨fun h => (by cases h), ?_⟩
    rintro ⟨⟨hmethod, hname⟩, -, result, htype⟩
    cases hrole : e.role with
    | method name formals =>
      rw [hrole] at hname
      cases hname
      exact absurd htype (hother _ _ _ hrole)
    | _ => simp [hrole, Role.isMethod] at hmethod

end Links

/-! ## Agreement -/

namespace Member

/-- The member is a constructor, a method with a function type that has these parameters. -/
def Constructs (member : Member) (e : Element) (parameters : List (Parameter TypeExpr)) : Prop :=
  e.role.isMethod = true ∧ member.name = some "constructor" ∧
    ∃ result, TypeExpr.parse member.spec = .ok (.function parameters result)

/-- The parameters with the names they leave out, as far as the method has one in their place. -/
def named (member : Member) (parameters : List (Parameter TypeExpr)) : List (Parameter TypeExpr) :=
  parameters.mapIdx fun i parameter =>
    { parameter with name := parameter.name <|> ((member.parameters.getD [])[i]?).join }

theorem eq_named_of_lent {member : Member} {formals : List Formal}
    {parameters filled : List (Parameter TypeExpr)}
    (hparameters : member.parameters = some (formals.map (·.name)))
    (hnames : Element.NoEmptyNames parameters) (h : Element.Lent formals parameters filled) :
    filled = member.named parameters := by
  refine List.ext_getElem? fun i => ?_
  rw [h.getElem?_eq hnames i, named, List.getElem?_mapIdx, hparameters, Option.getD_some,
    List.getElem?_map]
  cases formals[i]? <;> rfl

/-- The class documents the member: as its only member, or by the parameters of its constructor. -/
def DocumentedBy (member : Member) (e : Element) (host : Declaration) : Prop :=
  member.parent = some host.heading.name ∧
    ((∃ parameters, member.Constructs e parameters ∧ host.members = none ∧
        host.heading.type = .classType (some (member.named parameters))) ∨
      ((∀ parameters, ¬member.Constructs e parameters) ∧ host.heading.type = .classType none ∧
        ∃ d, host.members = some [d] ∧ member.name = some d.heading.name ∧
          d.heading.spec = some member.spec))

end Member

namespace Comment.Describes

variable {comment : Comment} {e c : Element} {member : Member} {line : DeclarationLine}
  {heading : Heading}

/-- The heading has the name and the specification of the member. -/
theorem heading_name_spec (h : comment.Describes e c member)
    (hrole : e.role.isMethod = true ∨ e.role.isAssignment = true)
    (hunnamed : line.identifier = none) (hspec : member.spec = line.spec)
    (hheading : e.heading line = .ok heading) :
    member.name = some heading.name ∧ heading.spec = some member.spec := by
  obtain ⟨hname, hwritten, type, htype, -⟩ := Element.heading_eq_ok hheading
  have hne := Element.spec_ne_empty htype hrole
  constructor
  · rw [h.name]
    refine Element.role_name?_of_resolveName (hunnamed ▸ hname) fun names heq => ?_
    simp [heq, Role.isMethod, Role.isAssignment] at hrole
  · rw [hwritten, hspec, nonempty?, Option.filter_some, if_pos (by simp [hne])]

/-- The heading of a method has a function type just if the member has, and then its parameters
have the names of the method. -/
theorem heading_function_iff (h : comment.Describes e c member) (hmethod : e.role.isMethod = true)
    (hspec : member.spec = line.spec) (hheading : e.heading line = .ok heading)
    (parameters : List (Parameter TypeExpr)) :
    (∃ result, heading.type = .function parameters result) ↔
      ∃ own result, TypeExpr.parse member.spec = .ok (.function own result) ∧
        parameters = member.named own := by
  obtain ⟨-, -, type, htype, hfill⟩ := Element.heading_eq_ok hheading
  have hne := Element.spec_ne_empty htype (Or.inl hmethod)
  have hlenders : e.lenders = e.role.formals := by
    cases hrole : e.role <;> simp_all [Element.lenders, Role.formals, Role.isMethod]
  have hlends := Element.lendsTo_of_fillNames hfill
  rw [Element.LendsTo, hlenders] at hlends
  constructor
  · rintro ⟨result, hfunction⟩
    rcases hlends with ⟨own, ownResult, filled, rfl, hfilled, hlent⟩ | ⟨hother, heq⟩
    · cases hfunction.symm.trans hfilled
      have hnames := Element.noEmptyNames_of_resolveType htype
      rw [Element.resolveType_eq_function_iff hne, ← hspec] at htype
      exact ⟨own, result, htype, Member.eq_named_of_lent (h.parameters hmethod) hnames hlent⟩
    · exact absurd (heq.symm.trans hfunction) (hother _ _)
  · rintro ⟨own, result, hparse, rfl⟩
    rw [hspec, ← Element.resolveType_eq_function_iff (e := e) hne, htype] at hparse
    cases hparse
    rcases hlends with ⟨_, _, filled, heq, hfilled, hlent⟩ | ⟨hother, -⟩
    · cases heq
      have hnames := Element.noEmptyNames_of_resolveType htype
      exact ⟨result, Member.eq_named_of_lent (h.parameters hmethod) hnames hlent ▸ hfilled⟩
    · exact absurd rfl (hother _ _)

/-- A class that takes in the declaration of the member documents the member. -/
theorem documentedBy (h : comment.Describes e c member)
    (hrole : e.role.isMethod = true ∨ e.role.isAssignment = true) (hclass : c.role.isClass = true)
    (hunnamed : line.identifier = none) (hspec : member.spec = line.spec) {d : Declaration}
    (hheading : e.heading line = .ok d.heading) {name : String}
    (hname : c.resolveName none = .ok name) {origin : Origin} :
    let host : Declaration := ⟨origin, { name, type := .classType none }, none⟩
    member.DocumentedBy e (match Links.constructorParameters? d e (some host) with
      | some parameters => host.setConstructor parameters
      | none => .addMember d host) := by
  intro host
  obtain ⟨hown, hwritten⟩ := h.heading_name_spec hrole hunnamed hspec hheading
  have hparent : member.parent = some name := by
    rw [h.parent]
    refine Element.role_name?_of_resolveName hname fun names heq => ?_
    simp [heq, Role.isClass] at hclass
  have hhost : Links.isClassType host.heading.type = true := rfl
  have hiff := Links.constructorParameters?_eq_some_iff (d := d) (e := e) hhost
  cases hconstructor : Links.constructorParameters? d e (some host) with
  | some parameters =>
    obtain ⟨⟨hmethod, hconstructs⟩, -, hfunction⟩ := (hiff parameters).mp hconstructor
    obtain ⟨own, result, hparse, rfl⟩ :=
      (h.heading_function_iff hmethod hspec hheading parameters).mp hfunction
    exact ⟨hparent,
      Or.inl ⟨own, ⟨hmethod, h.name.trans hconstructs, result, hparse⟩, rfl, rfl⟩⟩
  | none =>
    refine ⟨hparent, Or.inr ⟨?_, rfl, d, rfl, hown, hwritten⟩⟩
    rintro own ⟨hmethod, hconstructs, result, hparse⟩
    have hfunction := (h.heading_function_iff hmethod hspec hheading _).mpr
      ⟨own, result, hparse, rfl⟩
    have hsome := (hiff _).mpr ⟨⟨hmethod, h.name.symm.trans hconstructs⟩,
      Option.some.inj (hown.symm.trans hconstructs), hfunction⟩
    rw [hconstructor] at hsome
    cases hsome

end Comment.Describes

/-- The only comment of the program belongs to the element. It has one line, which declares
something without a name behind spaces. -/
structure Program.OnlyComment (program : Program) (comment : Comment) (e : Element)
    (line : DeclarationLine) : Prop where
  only : program.tree.comments = [comment]
  element : program.tree.element? comment.element = some e
  noFeed : '\n' ∉ comment.raw.value.toList
  noReturn : '\r' ∉ comment.raw.value.toList
  declares : Line.classify? comment.raw.value = some (.declaration line)
  unnamed : line.identifier = none
  spaces : ∀ c ∈ comment.raw.value.toList.take line.indent, c = ' '

/-- **A single comment.** Let a program have one comment, which belongs to a method or to an
assignment to a field. If the extraction succeeds and the comment specifies a member, then the
extraction gives the class of the member alone, and the class documents the member. -/
theorem Program.extract_onlyComment {program : Program} {comment : Comment} {e : Element}
    {line : DeclarationLine} {member : Member} {forest : List Declaration}
    (h : program.OnlyComment comment e line) (hmember : comment.Specifies program.tree e member)
    (hextract : program.extract.result = .ok forest) :
    ∃ host, forest = [host] ∧ member.DocumentedBy e host := by
  obtain ⟨c, hclass, hdescribes⟩ := hmember.exists_class h.element
  have hisClass : c.role.isClass = true := by
    obtain ⟨-, own, hown⟩ := Links.enclosingClass?_spec hclass
    rw [hown, Role.isClass]
  have hrole : e.role.isMethod = true ∨ e.role.isAssignment = true := by
    cases hmember with
    | method hrole _ => exact Or.inl hrole
    | field hrole _ => exact Or.inr hrole
  have hspec : member.spec = line.spec := by
    have hown := memberSpec?_of_classify? h.declares h.unnamed h.noFeed h.spaces
    rw [hdescribes.spec] at hown
    exact Option.some.inj hown
  have hlines : [comment.raw.value].mapM Line.classify = .ok [.declaration line] := by
    simp [Line.classify, h.declares]
  obtain ⟨_, htree, hextract⟩ := Traced.result_bind_eq_ok.mp hextract
  cases htree
  obtain ⟨heading, after, hheading, hlink, rfl⟩ := SourceTree.extract_of_single
    (SourceTree.blocks_of_single h.only h.noFeed h.noReturn) h.element hlines hextract
  obtain ⟨name, hname, hafter⟩ := Links.link_first hclass hlink
  exact ⟨_, hafter, hdescribes.documentedBy hrole hisClass h.unnamed hspec hheading hname⟩

theorem forall_space_of_all {text : List Char} (h : text.all (· == ' ') = true) :
    ∀ c ∈ text, c = ' ' :=
  fun c hc => beq_iff_eq.mp (List.all_eq_true.mp h c hc)

/-- A class with a constructor, whose comment names one parameter of three. -/
def Program.constructorAlone : Program where
  root := .plain "Program" [("body", .many [
    .classOf "ClassDeclaration" (some "A") [
      .plain "MethodDefinition" [("key", .one (.named "constructor")), ("value", .one
        (.plain "FunctionExpression" [("params", .many [.named "size", .named "label"])] []))]
        [40]]])] []
  comments := [
    { block := true, value := "* All of it.", span := { start := 0, stop := 16 } },
    .onLine 40 3 "  ::- (number, name: string, boolean)"]

/-- A class with a field that its constructor sets. -/
def Program.fieldAlone : Program where
  root := .plain "Program" [("body", .many [
    .classOf "ClassDeclaration" (some "A") [
      .methodOf "constructor" [.plain "ExpressionStatement" [("expression", .one
        (.plain "AssignmentExpression" [("left", .one (.plain "MemberExpression" [
          ("object", .one (.plain "ThisExpression" [] [])),
          ("property", .one (.named "size"))] []))] []))] [0]] []]])] []
  comments := [.onLine 0 3 " :: ?number"]

theorem Program.extract_onlyComment_members :
    (∃ e host, constructorAlone.tree.element? 4 = some e ∧
      constructorAlone.extract.result = .ok [host] ∧
      Member.DocumentedBy ⟨some "constructor", "(number, name: string, boolean)", some "A",
        some [some "size", some "label"]⟩ e host) ∧
    ∃ e host, fieldAlone.tree.element? 8 = some e ∧ fieldAlone.extract.result = .ok [host] ∧
      Member.DocumentedBy ⟨some "size", "?number", some "A", none⟩ e host := by
  have hmethodOk : constructorAlone.extract.result.isOk = true := by decide +kernel
  have hfieldOk : fieldAlone.extract.result.isOk = true := by decide +kernel
  constructor
  · have honly : constructorAlone.OnlyComment
        ⟨.onLine 40 3 "  ::- (number, name: string, boolean)", 4, .leading⟩
        ⟨4, "MethodDefinition",
          .method (some "constructor")
            [⟨"Identifier", some "size"⟩, ⟨"Identifier", some "label"⟩],
          {}, some 3, [5, 6], none⟩
        ⟨2, none, "(number, name: string, boolean)"⟩ :=
      { only := by decide +kernel
        element := by decide +kernel
        noFeed := by decide +kernel
        noReturn := by decide +kernel
        declares := by decide +kernel
        unnamed := rfl
        spaces := forall_space_of_all (by decide +kernel) }
    have hmember : Comment.method? constructorAlone.tree
        ⟨.onLine 40 3 "  ::- (number, name: string, boolean)", 4, .leading⟩ =
        .ok (some ⟨some "constructor", "(number, name: string, boolean)", some "A",
          some [some "size", some "label"]⟩) := by decide +kernel
    cases h : constructorAlone.extract.result with
    | error failure => simp [h, Except.isOk, Except.toBool] at hmethodOk
    | ok forest =>
      obtain ⟨host, rfl, hdocumented⟩ := extract_onlyComment honly (.method rfl hmember) h
      exact ⟨_, host, honly.element, rfl, hdocumented⟩
  · have honly : fieldAlone.OnlyComment ⟨.onLine 0 3 " :: ?number", 8, .leading⟩
        ⟨8, "ExpressionStatement", .assignment (some "size"), {}, some 7, [9], none⟩
        ⟨1, none, "?number"⟩ :=
      { only := by decide +kernel
        element := by decide +kernel
        noFeed := by decide +kernel
        noReturn := by decide +kernel
        declares := by decide +kernel
        unnamed := rfl
        spaces := forall_space_of_all (by decide +kernel) }
    have hmember : Comment.field? fieldAlone.tree ⟨.onLine 0 3 " :: ?number", 8, .leading⟩ =
        .ok (some ⟨some "size", "?number", some "A", none⟩) := by decide +kernel
    cases h : fieldAlone.extract.result with
    | error failure => simp [h, Except.isOk, Except.toBool] at hfieldOk
    | ok forest =>
      obtain ⟨host, rfl, hdocumented⟩ := extract_onlyComment honly (.field rfl hmember) h
      exact ⟨_, host, honly.element, rfl, hdocumented⟩

end DocComments
