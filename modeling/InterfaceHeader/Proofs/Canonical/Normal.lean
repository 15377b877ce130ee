import InterfaceHeader.Declaration.Signatures
import InterfaceHeader.Proofs.Token.Shapes

/-!
# Normal headers

Canonical spelling drops some of a header: comments, functions of a name that was declared before,
and the names of the arguments of function types inside arguments. The normal form of a header is
what is left, and it is spelt like the header. `WellFormed` says of a header that it can be
written: its names are names, and its methods have arguments.
-/

namespace InterfaceHeader

/-! ## Well-formed headers -/

/-- The text is a name. -/
def Named (name : String) : Prop :=
  IsName name.toList

instance (name : String) : Decidable (Named name) :=
  inferInstanceAs (Decidable (IsName name.toList))

def Primitive.WellFormed (t : Primitive) : Prop :=
  Named t.name

mutual

/-- All names in a type are names. -/
def CType.WellFormed : CType → Prop
  | .primitive t => t.WellFormed
  | .function t => t.WellFormed

def FunctionType.WellFormed : FunctionType → Prop
  | ⟨returnType, name, arguments⟩ =>
    returnType.WellFormed ∧ Named name ∧ ArgumentsWellFormed arguments

def ArgumentsWellFormed : List Argument → Prop
  | [] => True
  | ⟨type, name⟩ :: rest =>
    type.WellFormed ∧ (∀ n ∈ name, Named n) ∧ ArgumentsWellFormed rest

end

def Initializer.WellFormed : Initializer → Prop
  | .int _ => True
  | .reference name => Named name

def EnumValue.WellFormed (v : EnumValue) : Prop :=
  Named v.name ∧ ∀ init ∈ v.value, init.WellFormed

/-- All names in a member are names, and a method has an argument. -/
def StructField.WellFormed : StructField → Prop
  | .data field => field.type.WellFormed ∧ Named field.name
  | .method field => field.function.WellFormed ∧ field.function.arguments ≠ []

def Declaration.WellFormed : Declaration → Prop
  | .comment _ => True
  | .enum decl => (∀ n ∈ decl.name, Named n) ∧ ∀ v ∈ decl.values, v.WellFormed
  | .typeAlias decl => decl.type.WellFormed ∧ Named decl.name
  | .function decl => decl.WellFormed
  | .struct decl => Named decl.name ∧ ∀ field ∈ decl.fields, field.WellFormed

/-- The header can be written. -/
def Header.WellFormed (h : Header) : Prop :=
  ∀ d ∈ h.declarations, d.WellFormed

/-! ## Normal forms -/

mutual

/-- A type without the names of arguments. -/
def CType.bare : CType → CType
  | .primitive t => .primitive t
  | .function t => .function t.bare

/-- A function type without the names of arguments, its own and those further inside. -/
def FunctionType.bare : FunctionType → FunctionType
  | ⟨returnType, name, arguments⟩ => ⟨returnType, name, bareArguments arguments⟩

def bareArguments : List Argument → List Argument
  | [] => []
  | ⟨type, _⟩ :: rest => ⟨type.bare, none⟩ :: bareArguments rest

end

/-- An argument with its own name and without those inside its type. -/
def Argument.normal (a : Argument) : Argument :=
  ⟨a.type.bare, a.name⟩

def FunctionType.normal (f : FunctionType) : FunctionType :=
  ⟨f.returnType, f.name, f.arguments.map Argument.normal⟩

def EnumDecl.normal (e : EnumDecl) : EnumDecl :=
  { e with values := e.values.map fun v => { v with comment := none } }

def StructField.normal : StructField → StructField
  | .data field => .data field
  | .method field => .method ⟨field.function.normal, none⟩

def StructDecl.normal (s : StructDecl) : StructDecl :=
  { s with fields := s.fields.map StructField.normal }

/-- The normal form of a declaration; a comment has none. -/
def Declaration.normal? : Declaration → Option Declaration
  | .comment _ => none
  | .enum decl => some (.enum decl.normal)
  | .typeAlias decl => some (.typeAlias decl)
  | .function decl => some (.function decl.normal)
  | .struct decl => some (.struct decl.normal)

/-- The header without its comments, without functions of a name that an earlier one has, and
    without the names of arguments inside function types that are arguments. -/
def Header.normal (h : Header) : Header :=
  ⟨(dropRepeated [] h.declarations).filterMap Declaration.normal?⟩

/-! ## The spelling of normal forms -/

mutual

theorem CType.spelling_bare : (t : CType) → t.bare.spelling = t.spelling
  | .primitive _ => rfl
  | .function t => t.spelling_bare

theorem FunctionType.spelling_bare : (t : FunctionType) → t.bare.spelling = t.spelling
  | ⟨returnType, name, arguments⟩ => by
      rw [FunctionType.bare, FunctionType.spelling, FunctionType.spelling,
        typeSpellings_bareArguments arguments]

theorem typeSpellings_bareArguments :
    (arguments : List Argument) → typeSpellings (bareArguments arguments) = typeSpellings arguments
  | [] => rfl
  | ⟨type, name⟩ :: rest => by
      rw [bareArguments, typeSpellings, typeSpellings, type.spelling_bare,
        typeSpellings_bareArguments rest]

end

theorem Argument.declaration_normal (a : Argument) : a.normal.declaration = a.declaration := by
  obtain ⟨type, name⟩ := a
  cases name with
  | none => exact type.spelling_bare
  | some name =>
      cases type with
      | primitive t => rfl
      | function t => exact congrArg (· ++ " " ++ name) t.spelling_bare

theorem FunctionType.declaration_normal (f : FunctionType) :
    f.normal.declaration = f.declaration := by
  simp only [FunctionType.declaration, FunctionType.normal, List.map_map, Function.comp_def,
    Argument.declaration_normal]

theorem StructField.text_normal (field : StructField) : field.normal.text = field.text := by
  cases field with
  | data field => rfl
  | method field =>
      simp only [StructField.normal, StructField.text, FunctionType.declaration_normal]

theorem EnumDecl.text_normal (e : EnumDecl) : e.normal.text = e.text := by
  have values : e.normal.values.map EnumValue.text = e.values.map EnumValue.text := by
    rw [EnumDecl.normal, List.map_map]
    rfl
  have name : e.normal.name = e.name := rfl
  unfold EnumDecl.text
  rw [values, name]

theorem StructDecl.text_normal (s : StructDecl) : s.normal.text = s.text := by
  have fields : s.normal.fields.map StructField.text = s.fields.map StructField.text := by
    rw [StructDecl.normal, List.map_map]
    exact List.map_congr_left fun field _ => field.text_normal
  have name : s.normal.name = s.name := rfl
  unfold StructDecl.text
  rw [fields, name]

/-- A normal declaration has the lines of the declaration. -/
theorem Declaration.text_normal {d d' : Declaration} (normal : d.normal? = some d') :
    d'.text = d.text := by
  cases d with
  | comment text => cases normal
  | enum decl =>
      cases normal
      exact decl.text_normal
  | typeAlias decl =>
      cases normal
      rfl
  | function decl =>
      cases normal
      exact congrArg (fun text => "typedef " ++ text ++ ";\n") decl.declaration_normal
  | struct decl =>
      cases normal
      exact decl.text_normal

/-- What has no normal form has no lines. -/
theorem Declaration.text_of_normal?_none {d : Declaration} (none : d.normal? = none) :
    d.text = "" := by
  cases d with
  | comment text => rfl
  | enum decl => cases none
  | typeAlias decl => cases none
  | function decl => cases none
  | struct decl => cases none

/-- Normal forms of what is left when repeated functions are dropped repeat no function. -/
theorem dropRepeated_normal (seen : List String) (ds : List Declaration) :
    dropRepeated seen ((dropRepeated seen ds).filterMap Declaration.normal?) =
      (dropRepeated seen ds).filterMap Declaration.normal? := by
  induction ds generalizing seen with
  | nil => rfl
  | cons d ds ih =>
      cases d with
      | comment text => exact ih seen
      | enum decl => exact congrArg _ (ih seen)
      | typeAlias decl => exact congrArg _ (ih seen)
      | struct decl => exact congrArg _ (ih seen)
      | function f =>
          rw [dropRepeated]
          split
          · exact ih seen
          · rename_i new
            have new' : f.normal.name ∉ seen := new
            rw [List.filterMap_cons]
            simp only [Declaration.normal?]
            rw [dropRepeated, if_neg new']
            exact congrArg _ (ih (f.name :: seen))

/-- Comments have no lines. -/
theorem join_text_normal (ds : List Declaration) :
    String.join ((ds.filterMap Declaration.normal?).map Declaration.text) =
      String.join (ds.map Declaration.text) := by
  induction ds with
  | nil => rfl
  | cons d ds ih =>
      rw [List.filterMap_cons]
      cases normal : d.normal? with
      | none =>
          rw [List.map_cons, String.join_cons, Declaration.text_of_normal?_none normal,
            String.empty_append]
          exact ih
      | some d' =>
          simp only [List.map_cons, String.join_cons, ih, Declaration.text_normal normal]

/-- A header and its normal form have the same canonical text. -/
theorem Header.signatures_normal (h : Header) : h.normal.signatures = h.signatures := by
  rw [Header.signatures, Header.normal, dropRepeated_normal, join_text_normal]
  rfl

end InterfaceHeader
