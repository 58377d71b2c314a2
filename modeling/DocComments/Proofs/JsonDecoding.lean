import DocComments.Declaration.Json
import DocComments.Proofs.DeclaredTypes
import DocComments.Proofs.JsonReading

/-!
# Declarations out of JSON

The JSON text of declarations loses nothing but their origins, which are no part of what it says.
Fields that are absent or false are left out of it, so the kind of a type and the fields that are
there have to tell which ones were left out. A decoder does this: it follows the order in which
fields are written, and refuses what is not written so.

* `decodes_field`, `decodes_parameter`: what is left out of a field or a parameter is told from
  what is there.
* `Exact.decodes`: a type without floating-point literals is decoded from its JSON.
* `decodes_of_exact`: so are declarations, if none has a list of members that is empty.
* `jsonText_decodes`: the text is a JSON text, and the declarations are decoded from it.
-/

namespace DocComments

theorem mapM_map_eq_some {α β : Type} {encode : α → β} {decode : β → Option α} {xs : List α}
    (h : ∀ x ∈ xs, decode (encode x) = some x) : (xs.map encode).mapM decode = some xs := by
  induction xs with
  | nil => rfl
  | cons x xs ih =>
    rw [List.forall_mem_cons] at h
    simp [h.1, ih h.2]

/-- The text at the start of the fields, if its field has the name, and the fields after it. -/
def takeText (name : String) : List (String × Json) → Option String × List (String × Json)
  | (key, .text value) :: rest =>
    if key = name then (some value, rest) else (none, (key, .text value) :: rest)
  | fields => (none, fields)

/-- Is a flag with the name set at the start of the fields? With the fields after it. -/
def takeFlag (name : String) : List (String × Json) → Bool × List (String × Json)
  | (key, .bool true) :: rest =>
    if key = name then (true, rest) else (false, (key, .bool true) :: rest)
  | fields => (false, fields)

theorem exact_kindObject {kind : String} {fields : List (String × Json)}
    (h : ∀ field ∈ fields, field.2.Exact) : (kindObject kind fields).Exact :=
  .object (List.forall_mem_cons.mpr ⟨.text kind, h⟩)

theorem exact_textField (name : String) (text : Option String) :
    ∀ field ∈ textField name text, field.2.Exact := by
  cases text with
  | none => simp [textField]
  | some text => simpa [textField] using .text text

theorem exact_flagField (name : String) (flag : Bool) :
    ∀ field ∈ flagField name flag, field.2.Exact := by
  cases flag with
  | false => simp [flagField]
  | true => simpa [flagField] using .bool true

/-! ## Types -/

namespace TypeExpr

mutual

/-- The type that a JSON value is written for. -/
def ofJson? : Json → Option TypeExpr
  | .object (("kind", .text kind) :: fields) => ofKind? kind fields
  | _ => none

/-- The type of a kind with these fields after it. -/
def ofKind? : String → List (String × Json) → Option TypeExpr
  | "Name", [("name", .text name)] => some (.named name)
  | "Name", [("name", .text name), ("typeArguments", .array arguments)] =>
    (ofJsonList? arguments).map (.generic name)
  | "Nullable", [("type", type)] => (ofJson? type).map .nullable
  | "Array", [("type", type)] => (ofJson? type).map .array
  | "Object", [("fields", .array fields)] => (ofJsonFields? fields).map .object
  | "Function", [("parameters", .array parameters)] =>
    (ofJsonParameters? parameters).map (.function · none)
  | "Function", [("parameters", .array parameters), ("returnType", result)] => do
    some (.function (← ofJsonParameters? parameters) (some (← ofJson? result)))
  | "Union", [("types", .array types)] => (ofJsonList? types).map .union
  | "Literal", [("value", .text value)] => some (.literal (.text value))
  | "Literal", [("value", .int value)] => some (.literal (.int value))
  | "Class", [] => some (.classType none)
  | "Class", [("constructorParameters", .array parameters)] =>
    (ofJsonParameters? parameters).map fun parameters => .classType (some parameters)
  | "Interface", [] => some .interfaceType
  | "Any", [] => some .anyType
  | _, _ => none

def ofJsonList? : List Json → Option (List TypeExpr)
  | [] => some []
  | type :: types => do some ((← ofJson? type) :: (← ofJsonList? types))

def ofJsonField? : Json → Option (Field TypeExpr)
  | .object (("kind", .text "ObjectField") :: ("name", .text name) :: ("type", type) :: rest) => do
    let type ← ofJson? type
    let (optional, rest) := takeFlag "optional" rest
    if rest.isEmpty then some ⟨name, type, optional⟩ else none
  | _ => none

def ofJsonFields? : List Json → Option (List (Field TypeExpr))
  | [] => some []
  | field :: fields => do some ((← ofJsonField? field) :: (← ofJsonFields? fields))

def ofJsonParameter? : Json → Option (Parameter TypeExpr)
  | .object (("kind", .text "FunctionParameter") :: ("type", type) :: rest) => do
    let type ← ofJson? type
    let (name, rest) := takeText "name" rest
    let (optional, rest) := takeFlag "optional" rest
    let (variadic, rest) := takeFlag "rest" rest
    if rest.isEmpty then some ⟨type, name, optional, variadic⟩ else none
  | _ => none

def ofJsonParameters? : List Json → Option (List (Parameter TypeExpr))
  | [] => some []
  | parameter :: parameters => do
    some ((← ofJsonParameter? parameter) :: (← ofJsonParameters? parameters))

end

theorem jsonList_eq_map (types : List TypeExpr) : jsonList types = types.map json := by
  induction types with
  | nil => simp [jsonList]
  | cons type types ih => simp [jsonList, ih]

theorem jsonFields_eq_map (fields : List (Field TypeExpr)) :
    jsonFields fields = fields.map jsonField := by
  induction fields with
  | nil => simp [jsonFields]
  | cons field fields ih => simp [jsonFields, ih]

theorem jsonParameters_eq_map (parameters : List (Parameter TypeExpr)) :
    jsonParameters parameters = parameters.map jsonParameter := by
  induction parameters with
  | nil => simp [jsonParameters]
  | cons parameter parameters ih => simp [jsonParameters, ih]

theorem ofJsonList?_eq_mapM (types : List Json) : ofJsonList? types = types.mapM ofJson? := by
  induction types with
  | nil => simp [ofJsonList?]
  | cons type types ih => simp [ofJsonList?, ih]

theorem ofJsonFields?_eq_mapM (fields : List Json) :
    ofJsonFields? fields = fields.mapM ofJsonField? := by
  induction fields with
  | nil => simp [ofJsonFields?]
  | cons field fields ih => simp [ofJsonFields?, ih]

theorem ofJsonParameters?_eq_mapM (parameters : List Json) :
    ofJsonParameters? parameters = parameters.mapM ofJsonParameter? := by
  induction parameters with
  | nil => simp [ofJsonParameters?]
  | cons parameter parameters ih => simp [ofJsonParameters?, ih]

/-- No literal of the type, at any depth, is a floating-point number. -/
inductive Exact : TypeExpr → Prop where
  | mk {type : TypeExpr} (hvalue : ∀ value, type ≠ .literal (.double value))
      (hparts : ∀ part ∈ type.operands, Exact part) : Exact type

/-- The JSON of the type is exact, and the type is decoded from it. -/
def Decodes (type : TypeExpr) : Prop :=
  type.json.Exact ∧ ofJson? type.json = some type

theorem decodes_list (types : List TypeExpr) (h : ∀ type ∈ types, type.Decodes) :
    (Json.array (jsonList types)).Exact ∧ ofJsonList? (jsonList types) = some types := by
  rw [jsonList_eq_map, ofJsonList?_eq_mapM]
  exact ⟨.array (List.forall_mem_map.mpr fun type htype => (h type htype).1),
    mapM_map_eq_some fun type htype => (h type htype).2⟩

theorem decodes_field {field : Field TypeExpr} (h : field.type.Decodes) :
    (jsonField field).Exact ∧ ofJsonField? (jsonField field) = some field := by
  obtain ⟨name, type, optional⟩ := field
  constructor
  · refine exact_kindObject ?_
    rw [List.forall_mem_append]
    exact ⟨by simpa using ⟨.text name, h.1⟩, exact_flagField _ _⟩
  · have htype : ofJson? type.json = some type := h.2
    cases optional <;> simp [jsonField, kindObject, flagField, ofJsonField?, takeFlag, htype]

theorem decodes_fields (fields : List (Field TypeExpr))
    (h : ∀ field ∈ fields, field.type.Decodes) :
    (Json.array (jsonFields fields)).Exact ∧ ofJsonFields? (jsonFields fields) = some fields := by
  rw [jsonFields_eq_map, ofJsonFields?_eq_mapM]
  exact ⟨.array (List.forall_mem_map.mpr fun field hfield => (decodes_field (h field hfield)).1),
    mapM_map_eq_some fun field hfield => (decodes_field (h field hfield)).2⟩

theorem decodes_parameter {parameter : Parameter TypeExpr} (h : parameter.type.Decodes) :
    (jsonParameter parameter).Exact ∧
      ofJsonParameter? (jsonParameter parameter) = some parameter := by
  obtain ⟨type, name, optional, variadic⟩ := parameter
  constructor
  · refine exact_kindObject ?_
    simp only [List.forall_mem_append]
    exact ⟨⟨⟨by simpa using h.1, exact_textField _ _⟩, exact_flagField _ _⟩, exact_flagField _ _⟩
  · have htype : ofJson? type.json = some type := h.2
    cases name <;> cases optional <;> cases variadic <;>
      simp [jsonParameter, kindObject, textField, flagField, ofJsonParameter?, takeText, takeFlag,
        htype]

theorem decodes_parameters (parameters : List (Parameter TypeExpr))
    (h : ∀ parameter ∈ parameters, parameter.type.Decodes) :
    (Json.array (jsonParameters parameters)).Exact ∧
      ofJsonParameters? (jsonParameters parameters) = some parameters := by
  rw [jsonParameters_eq_map, ofJsonParameters?_eq_mapM]
  exact ⟨.array (List.forall_mem_map.mpr fun parameter hparameter =>
      (decodes_parameter (h parameter hparameter)).1),
    mapM_map_eq_some fun parameter hparameter => (decodes_parameter (h parameter hparameter)).2⟩

theorem decodes_of_kind {type : TypeExpr} {kind : String} {fields : List (String × Json)}
    (hjson : type.json = kindObject kind fields) (hexact : ∀ field ∈ fields, field.2.Exact)
    (hkind : ofKind? kind fields = some type) : type.Decodes := by
  rw [Decodes, hjson]
  exact ⟨exact_kindObject hexact, by rw [kindObject, ofJson?, hkind]⟩

theorem Exact.decodes {type : TypeExpr} (h : type.Exact) : type.Decodes := by
  induction h with
  | @mk type hvalue _ ih =>
    cases type with
    | named name => exact decodes_of_kind (by rw [json]) (by simpa using .text name) rfl
    | generic name arguments =>
      obtain ⟨hexact, hdecode⟩ := decodes_list arguments ih
      exact decodes_of_kind (by rw [json]) (by simpa using ⟨.text name, hexact⟩)
        (by simp [ofKind?, hdecode])
    | nullable inner =>
      obtain ⟨hexact, hdecode⟩ := ih inner (by simp [operands])
      exact decodes_of_kind (by rw [json]) (by simpa using hexact) (by simp [ofKind?, hdecode])
    | array element =>
      obtain ⟨hexact, hdecode⟩ := ih element (by simp [operands])
      exact decodes_of_kind (by rw [json]) (by simpa using hexact) (by simp [ofKind?, hdecode])
    | object fields =>
      obtain ⟨hexact, hdecode⟩ := decodes_fields fields (List.forall_mem_map.mp ih)
      exact decodes_of_kind (by rw [json]) (by simpa using hexact) (by simp [ofKind?, hdecode])
    | function parameters result =>
      rw [operands, List.forall_mem_append, List.forall_mem_map] at ih
      obtain ⟨hexact, hdecode⟩ := decodes_parameters parameters ih.1
      -- An open result has no field, so the two cases differ in what follows the parameters.
      cases result with
      | none =>
        exact decodes_of_kind (by rw [json, jsonResult]) (by simpa using hexact)
          (by simp [ofKind?, hdecode])
      | some result =>
        have hresult := ih.2 result (by simp)
        exact decodes_of_kind (by rw [json, jsonResult]) (by simpa using ⟨hexact, hresult.1⟩)
          (by simp [ofKind?, hdecode, hresult.2])
    | union types =>
      obtain ⟨hexact, hdecode⟩ := decodes_list types ih
      exact decodes_of_kind (by rw [json]) (by simpa using hexact) (by simp [ofKind?, hdecode])
    | literal value =>
      cases value with
      | text value =>
        exact decodes_of_kind (by rw [json, Literal.json]) (by simpa using .text value) rfl
      | int value =>
        exact decodes_of_kind (by rw [json, Literal.json]) (by simpa using .int value) rfl
      | double value => exact absurd rfl (hvalue value)
    | classType parameters =>
      cases parameters with
      | none => exact decodes_of_kind (by rw [json, jsonConstructor]) (by simp) rfl
      | some parameters =>
        obtain ⟨hexact, hdecode⟩ := decodes_parameters parameters (List.forall_mem_map.mp ih)
        exact decodes_of_kind (by rw [json, jsonConstructor]) (by simpa using hexact)
          (by simp [ofKind?, hdecode])
    | interfaceType => exact decodes_of_kind (by rw [json]) (by simp) rfl
    | anyType => exact decodes_of_kind (by rw [json]) (by simp) rfl

end TypeExpr

/-! ## Declarations -/

namespace Declaration

mutual

/-- The declaration without the origins of it and of what is below it. -/
def forgetOrigin : Declaration → Declaration
  | ⟨_, heading, members⟩ => ⟨⟨0, 0, false⟩, heading, forgetMembers members⟩

def forgetMembers : Option (List Declaration) → Option (List Declaration)
  | none => none
  | some members => some (forgetOrigins members)

def forgetOrigins : List Declaration → List Declaration
  | [] => []
  | declaration :: rest => forgetOrigin declaration :: forgetOrigins rest

end

mutual

/-- The declaration that a JSON value is written for. -/
def ofJson? : Json → Option Declaration
  | .object (("name", .text name) :: ("typeSpec", .text spec) :: ("type", type) :: rest) => do
    some ⟨⟨0, 0, false⟩, ⟨name, some spec, ← TypeExpr.ofJson? type⟩, ← ofJsonMembers? rest⟩
  | .object (("name", .text name) :: ("type", type) :: rest) => do
    some ⟨⟨0, 0, false⟩, ⟨name, none, ← TypeExpr.ofJson? type⟩, ← ofJsonMembers? rest⟩
  | _ => none

def ofJsonMembers? : List (String × Json) → Option (Option (List Declaration))
  | [] => some none
  | [("properties", .array members)] => (ofJsonList? members).map some
  | _ => none

def ofJsonList? : List Json → Option (List Declaration)
  | [] => some []
  | declaration :: declarations => do
    some ((← ofJson? declaration) :: (← ofJsonList? declarations))

end

/-- The declarations that a JSON text is written for. -/
def ofJsonText? (text : String) : Option (List Declaration) :=
  match Json.read text with
  | some (.array declarations) => ofJsonList? declarations
  | _ => none

/-- The JSON of the declaration is exact, and the declaration is decoded from it but for its
origin. -/
def Decodes (d : Declaration) : Prop :=
  d.json.Exact ∧ ofJson? d.json = some d.forgetOrigin

theorem decodes_list {declarations : List Declaration} (h : ∀ d ∈ declarations, d.Decodes) :
    (Json.array (jsonList declarations)).Exact ∧
      ofJsonList? (jsonList declarations) = some (forgetOrigins declarations) := by
  induction declarations with
  | nil => exact ⟨.array (by simp [jsonList]), by simp [jsonList, ofJsonList?, forgetOrigins]⟩
  | cons d rest ih =>
    rw [List.forall_mem_cons] at h
    obtain ⟨hexact, hdecode⟩ := ih h.2
    cases hexact with
    | array hexact =>
      rw [jsonList]
      exact ⟨.array (List.forall_mem_cons.mpr ⟨h.1.1, hexact⟩),
        by simp [ofJsonList?, h.1.2, hdecode, forgetOrigins]⟩

theorem decodes_members {members : Option (List Declaration)} (hfilled : members ≠ some [])
    (h : ∀ d ∈ members.getD [], d.Decodes) : (∀ field ∈ jsonMembers members, field.2.Exact) ∧
      ofJsonMembers? (jsonMembers members) = some (forgetMembers members) := by
  match members, hfilled with
  | none, _ => simp [jsonMembers, ofJsonMembers?, forgetMembers]
  | some (member :: members), _ =>
    obtain ⟨hexact, hdecode⟩ := decodes_list h
    have hjson : jsonMembers (some (member :: members)) =
        [("properties", .array (jsonList (member :: members)))] := by
      rw [jsonMembers, jsonList]
    rw [Option.getD_some] at hexact hdecode
    rw [hjson]
    exact ⟨by simpa using hexact, by simp [ofJsonMembers?, hdecode, forgetMembers]⟩

theorem decodes_of_parts {d : Declaration} (hfilled : d.members ≠ some [])
    (htype : d.heading.type.Decodes) (hparts : ∀ part ∈ d.parts, part.Decodes) : d.Decodes := by
  obtain ⟨origin, ⟨name, spec, type⟩, members⟩ := d
  obtain ⟨hexact, hdecode⟩ := decodes_members hfilled hparts
  obtain ⟨htypeExact, htypeDecode⟩ := htype
  constructor
  · rw [json]
    refine .object ?_
    simp only [List.forall_mem_append, List.forall_mem_singleton]
    exact ⟨⟨⟨.text name, exact_textField _ _⟩, htypeExact⟩, hexact⟩
  · dsimp only at htypeDecode hdecode
    cases spec <;> simp [json, textField, ofJson?, forgetOrigin, htypeDecode, hdecode]

theorem decodes_of_exact {declarations : List Declaration} (hfilled : Filled declarations)
    (hexact : ∀ d ∈ preorderAll declarations, d.heading.type.Exact) :
    ∀ d ∈ declarations, d.Decodes := by
  induction declarations using forest_induction with
  | nil => simp
  | tree root ih =>
    have hroot : root ∈ preorderAll [root] := by simp
    have hbelow := preorderAll_parts_subset hroot
    have hparts := ih (fun d hd => hfilled d (hbelow hd)) fun d hd => hexact d (hbelow hd)
    exact List.forall_mem_singleton.mpr
      (decodes_of_parts (hfilled root hroot) (hexact root hroot).decodes hparts)
  | cons root rest hroot hrest =>
    rw [← List.singleton_append, filled_append] at hfilled
    rw [← List.singleton_append, preorderAll_append, List.forall_mem_append] at hexact
    rw [← List.singleton_append, List.forall_mem_append]
    exact ⟨hroot hfilled.1 hexact.1, hrest hfilled.2 hexact.2⟩

/-- The text of declarations is a JSON text from which they are decoded but for their origins. The
members of a declaration are absent or some, and no literal is a floating-point number. -/
theorem jsonText_decodes {declarations : List Declaration} (hfilled : Filled declarations)
    (hexact : ∀ d ∈ preorderAll declarations, d.heading.type.Exact) :
    Json.IsText (jsonText declarations).toList ∧
      ofJsonText? (jsonText declarations) = some (forgetOrigins declarations) := by
  obtain ⟨hdocument, hdecode⟩ := decodes_list (decodes_of_exact hfilled hexact)
  refine ⟨hdocument.isText_render, ?_⟩
  rw [ofJsonText?, jsonText, hdocument.read_render]
  exact hdecode

/-- A class that has a constructor without parameters and a member with all that can be left out,
and a literal that has to be escaped. -/
def escapedLiteral : List Declaration :=
  [⟨⟨0, 0, false⟩, ⟨"A", none, .classType (some [])⟩, some
      [⟨⟨0, 1, false⟩, ⟨"f", some "(a?: X, ...b)",
        .function [⟨.generic "X" [], some "a", true, false⟩, ⟨.named "b", none, false, true⟩] none⟩,
        none⟩]⟩,
    ⟨⟨1, 0, false⟩, ⟨"\"é\"", some "", .union [.literal (.text "\\\n\x01"), .literal (.int (-7))]⟩,
      none⟩]

theorem jsonText_decodes_escapedLiteral :
    Filled escapedLiteral ∧ (∀ d ∈ preorderAll escapedLiteral, d.heading.type.Exact) ∧
      Json.IsText (jsonText escapedLiteral).toList ∧
      ofJsonText? (jsonText escapedLiteral) = some (forgetOrigins escapedLiteral) := by
  have hfilled : Filled escapedLiteral := by decide
  have hexact : ∀ d ∈ preorderAll escapedLiteral, d.heading.type.Exact := by
    have hleaf : ∀ {type : TypeExpr}, (∀ value, type ≠ .literal (.double value)) →
        type.operands = [] → type.Exact :=
      fun hvalue hnone => .mk hvalue (by simp [hnone])
    have hparameters : ∀ type ∈ [TypeExpr.generic "X" [], .named "b"], type.Exact := by
      simpa using ⟨hleaf (by simp) rfl, hleaf (by simp) rfl⟩
    have hliterals :
        ∀ type ∈ [TypeExpr.literal (.text "\\\n\x01"), .literal (.int (-7))], type.Exact := by
      simpa using ⟨hleaf (by simp) rfl, hleaf (by simp) rfl⟩
    simpa [escapedLiteral, parts] using
      ⟨hleaf (by simp) rfl, .mk (by simp) hparameters, .mk (by simp) hliterals⟩
  exact ⟨hfilled, hexact, jsonText_decodes hfilled hexact⟩

end Declaration

end DocComments
