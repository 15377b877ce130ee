import InterfaceHeader.Declaration.Basic
import InterfaceHeader.Text.Decimal
import InterfaceHeader.Token.Basic

/-!
# The grammar of headers

The grammar speaks of terminals: the tokens that are neither blank space nor comments, without
their places. Each form relates a tree to the terminals that spell it, one constructor for each
production. No form says how a reader is to find the production that fits.

The trees are those without comments; `withoutComments` takes the comments out of any tree.
-/

namespace InterfaceHeader

/-- What the grammar sees of a token. -/
structure Terminal where
  kind : TokenKind
  lexeme : String
deriving DecidableEq

/-- A token without its place. -/
def Token.terminal (t : Token) : Terminal := ⟨t.kind, t.lexeme⟩

/-- The terminals among tokens, in order. -/
def terminals (tokens : List Token) : List Terminal :=
  (tokens.filter Token.isSignificant).map Token.terminal

/-- The kind of the first terminal. -/
def nextKind? (u : List Terminal) : Option TokenKind :=
  u.head?.map Terminal.kind

/-! ## Parts that productions share -/

/-- A token that may be left out. -/
inductive OptionalToken (kind : TokenKind) : Bool → List Terminal → Prop
  | absent : OptionalToken kind false []
  | present (lexeme : String) : OptionalToken kind true [⟨kind, lexeme⟩]

/-- A name that may be left out. -/
inductive OptionalName : Option String → List Terminal → Prop
  | absent : OptionalName none []
  | present (name : String) : OptionalName (some name) [⟨.identifier, name⟩]

/-- Items one behind the other. -/
inductive SequenceForm {α : Type} (item : α → List Terminal → Prop) :
    List α → List Terminal → Prop
  | nil : SequenceForm item [] []
  | cons {a : α} {as : List α} {u v : List Terminal} :
      item a u → SequenceForm item as v → SequenceForm item (a :: as) (u ++ v)

/-- One or more items with commas between them. -/
inductive CommaForm {α : Type} (item : α → List Terminal → Prop) :
    List α → List Terminal → Prop
  | one {a : α} {u : List Terminal} : item a u → CommaForm item [a] u
  | cons {a : α} {as : List α} {u v : List Terminal} (comma : String) :
      item a u → CommaForm item as v →
        CommaForm item (a :: as) (u ++ ⟨.punct .comma, comma⟩ :: v)

/-- Nothing, or what a form of lists spells. -/
inductive PossiblyForm {α : Type} (list : List α → List Terminal → Prop) :
    List α → List Terminal → Prop
  | empty : PossiblyForm list [] []
  | some {as : List α} {u : List Terminal} : list as u → PossiblyForm list as u

/-! ## Types -/

/-- `const? Ident '*'?` -/
inductive PrimitiveForm : Primitive → List Terminal → Prop
  | intro {isConst isPointer : Bool} {u v : List Terminal} (name : String) :
      OptionalToken (.keyword .const) isConst u → OptionalToken (.punct .star) isPointer v →
        PrimitiveForm ⟨isConst, name, isPointer⟩ (u ++ ⟨.identifier, name⟩ :: v)

/-- `'(' '*' Ident ')'` -/
inductive PointerForm : String → List Terminal → Prop
  | intro (left star name right : String) :
      PointerForm name [⟨.punct .leftParen, left⟩, ⟨.punct .star, star⟩, ⟨.identifier, name⟩,
        ⟨.punct .rightParen, right⟩]

/-- `Primitive Pointer '(' arguments ')'` -/
inductive SignatureForm (arguments : List Argument → List Terminal → Prop) :
    FunctionType → List Terminal → Prop
  | intro {type : Primitive} {name : String} {as : List Argument} {u v w : List Terminal}
      (left right : String) :
      PrimitiveForm type u → PointerForm name v → arguments as w →
        SignatureForm arguments ⟨type, name, as⟩
          (u ++ (v ++ ⟨.punct .leftParen, left⟩ :: (w ++ [⟨.punct .rightParen, right⟩])))

mutual

/-- `Function | Primitive` -/
inductive TypeForm : CType → List Terminal → Prop
  | function {f : FunctionType} {u : List Terminal} :
      SignatureForm (PossiblyForm (CommaForm ArgumentForm)) f u → TypeForm (.function f) u
  | primitive {p : Primitive} {u : List Terminal} :
      PrimitiveForm p u → TypeForm (.primitive p) u

/-- `Type Ident?` -/
inductive ArgumentForm : Argument → List Terminal → Prop
  | intro {type : CType} {name : Option String} {u v : List Terminal} :
      TypeForm type u → OptionalName name v → ArgumentForm ⟨type, name⟩ (u ++ v)

end

/-- A function type with any number of arguments. -/
abbrev FunctionForm : FunctionType → List Terminal → Prop :=
  SignatureForm (PossiblyForm (CommaForm ArgumentForm))

/-- A function type with at least one argument. -/
abbrev MethodForm : FunctionType → List Terminal → Prop :=
  SignatureForm (CommaForm ArgumentForm)

/-! ## Declarations -/

/-- An integer in the 64-bit range, or a name. -/
inductive InitializerForm : Initializer → List Terminal → Prop
  | int {value : Int64} (text : String) :
      Decimal.readWord? text.toList = some value → InitializerForm (.int value) [⟨.integer, text⟩]
  | reference (name : String) : InitializerForm (.reference name) [⟨.identifier, name⟩]

/-- `Ident ('=' Initializer)?` -/
inductive EnumValueForm : EnumValue → List Terminal → Prop
  | plain (name : String) : EnumValueForm ⟨name, none, none⟩ [⟨.identifier, name⟩]
  | initialized {init : Initializer} {u : List Terminal} (name equals : String) :
      InitializerForm init u →
        EnumValueForm ⟨name, some init, none⟩
          (⟨.identifier, name⟩ :: ⟨.punct .equals, equals⟩ :: u)

/-- Values with commas between them and perhaps one behind the last. -/
inductive EnumBodyForm : List EnumValue → List Terminal → Prop
  | empty : EnumBodyForm [] []
  | values {vs : List EnumValue} {u v : List Terminal} {trailing : Bool} :
      CommaForm EnumValueForm vs u → OptionalToken (.punct .comma) trailing v →
        EnumBodyForm vs (u ++ v)

/-- `typedef enum '{' values '}' Ident?` -/
inductive EnumForm : EnumDecl → List Terminal → Prop
  | intro {name : Option String} {vs : List EnumValue} {u v : List Terminal}
      (typedef enum left right : String) :
      EnumBodyForm vs u → OptionalName name v →
        EnumForm ⟨name, vs⟩
          (⟨.keyword .typedef, typedef⟩ :: ⟨.keyword .enum, enum⟩ :: ⟨.punct .leftBrace, left⟩
            :: (u ++ ⟨.punct .rightBrace, right⟩ :: v))

/-- `typedef Primitive Ident` -/
inductive AliasForm : AliasDecl → List Terminal → Prop
  | intro {type : Primitive} {u : List Terminal} (typedef name : String) :
      PrimitiveForm type u →
        AliasForm ⟨type, name⟩ (⟨.keyword .typedef, typedef⟩ :: (u ++ [⟨.identifier, name⟩]))

/-- `typedef Function` -/
inductive FunctionDeclForm : FunctionType → List Terminal → Prop
  | intro {f : FunctionType} {u : List Terminal} (typedef : String) :
      FunctionForm f u → FunctionDeclForm f (⟨.keyword .typedef, typedef⟩ :: u)

/-- `(Primitive Ident | Method) ';'` -/
inductive StructFieldForm : StructField → List Terminal → Prop
  | data {type : Primitive} {u : List Terminal} (name semicolon : String) :
      PrimitiveForm type u →
        StructFieldForm (.data ⟨type, name⟩)
          (u ++ [⟨.identifier, name⟩, ⟨.punct .semicolon, semicolon⟩])
  | method {f : FunctionType} {u : List Terminal} (semicolon : String) :
      MethodForm f u →
        StructFieldForm (.method ⟨f, none⟩) (u ++ [⟨.punct .semicolon, semicolon⟩])

/-- `typedef struct '{' fields '}' Ident` -/
inductive StructForm : StructDecl → List Terminal → Prop
  | intro {fields : List StructField} {u : List Terminal}
      (typedef struct left right name : String) :
      SequenceForm StructFieldForm fields u →
        StructForm ⟨name, fields⟩
          (⟨.keyword .typedef, typedef⟩ :: ⟨.keyword .struct, struct⟩ :: ⟨.punct .leftBrace, left⟩
            :: (u ++ [⟨.punct .rightBrace, right⟩, ⟨.identifier, name⟩]))

/-- `(Enum | Alias | Function | Struct) ';'` -/
inductive DeclarationForm : Declaration → List Terminal → Prop
  | enum {decl : EnumDecl} {u : List Terminal} (semicolon : String) :
      EnumForm decl u → DeclarationForm (.enum decl) (u ++ [⟨.punct .semicolon, semicolon⟩])
  | typeAlias {decl : AliasDecl} {u : List Terminal} (semicolon : String) :
      AliasForm decl u → DeclarationForm (.typeAlias decl) (u ++ [⟨.punct .semicolon, semicolon⟩])
  | function {decl : FunctionType} {u : List Terminal} (semicolon : String) :
      FunctionDeclForm decl u →
        DeclarationForm (.function decl) (u ++ [⟨.punct .semicolon, semicolon⟩])
  | struct {decl : StructDecl} {u : List Terminal} (semicolon : String) :
      StructForm decl u → DeclarationForm (.struct decl) (u ++ [⟨.punct .semicolon, semicolon⟩])

/-- A header: declarations one behind the other. -/
def HeaderForm (h : Header) (u : List Terminal) : Prop :=
  SequenceForm DeclarationForm h.declarations u

/-! ## Trees without comments -/

/-- A value without its comment. -/
def EnumValue.withoutComment (v : EnumValue) : EnumValue :=
  { v with comment := none }

/-- An enumeration without comments. -/
def EnumDecl.withoutComments (e : EnumDecl) : EnumDecl :=
  { e with values := e.values.map EnumValue.withoutComment }

/-- A member without its comment. -/
def StructField.withoutComment : StructField → StructField
  | .data field => .data field
  | .method field => .method { field with comment := none }

/-- A structure without comments. -/
def StructDecl.withoutComments (s : StructDecl) : StructDecl :=
  { s with fields := s.fields.map StructField.withoutComment }

/-- A declaration without comments; of a comment nothing is left. -/
def Declaration.withoutComments? : Declaration → Option Declaration
  | .comment _ => none
  | .enum decl => some (.enum decl.withoutComments)
  | .typeAlias decl => some (.typeAlias decl)
  | .function decl => some (.function decl)
  | .struct decl => some (.struct decl.withoutComments)

/-- A header without comments. -/
def Header.withoutComments (h : Header) : Header :=
  ⟨h.declarations.filterMap Declaration.withoutComments?⟩

end InterfaceHeader
