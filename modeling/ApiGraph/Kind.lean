/-!
# ApiGraph.Kind

What a reflection declares, and which role in the graph may carry which kind.

* `Kind` — the kinds, with the bits that stand for them in documents.
* `Role` — the roles: a declaration, a signature, a parameter, a type parameter.
-/

namespace ApiGraph

/-- What a reflection declares. -/
inductive Kind
  | project
  | module
  | namespace
  | enum
  | enumMember
  | variable
  | function
  | classType
  | interface
  | constructor
  | property
  | method
  | callSignature
  | indexSignature
  | constructorSignature
  | parameter
  | typeLiteral
  | typeParameter
  | accessor
  | getSignature
  | setSignature
  | objectLiteral
  | typeAlias
  | event
  | reference
deriving DecidableEq, Inhabited, Repr

namespace Kind

/-- Every kind, in the order of their bits. -/
def all : List Kind :=
  [.project, .module, .namespace, .enum, .enumMember, .variable, .function, .classType, .interface,
    .constructor, .property, .method, .callSignature, .indexSignature, .constructorSignature,
    .parameter, .typeLiteral, .typeParameter, .accessor, .getSignature, .setSignature,
    .objectLiteral, .typeAlias, .event, .reference]

/-- The number that stands for a kind in documents. -/
def bits : Kind → Nat
  | .project => 0x0
  | .module => 0x1
  | .namespace => 0x2
  | .enum => 0x4
  | .enumMember => 0x10
  | .variable => 0x20
  | .function => 0x40
  | .classType => 0x80
  | .interface => 0x100
  | .constructor => 0x200
  | .property => 0x400
  | .method => 0x800
  | .callSignature => 0x1000
  | .indexSignature => 0x2000
  | .constructorSignature => 0x4000
  | .parameter => 0x8000
  | .typeLiteral => 0x10000
  | .typeParameter => 0x20000
  | .accessor => 0x40000
  | .getSignature => 0x80000
  | .setSignature => 0x100000
  | .objectLiteral => 0x200000
  | .typeAlias => 0x400000
  | .event => 0x800000
  | .reference => 0x1000000

/-- The kind with the given bits. -/
def ofBits? (bits : Nat) : Option Kind :=
  all.find? (·.bits == bits)

/-- The name of a kind, its words run together. -/
def name : Kind → String
  | .project => "Project"
  | .module => "Module"
  | .namespace => "Namespace"
  | .enum => "Enum"
  | .enumMember => "EnumMember"
  | .variable => "Variable"
  | .function => "Function"
  | .classType => "Class"
  | .interface => "Interface"
  | .constructor => "Constructor"
  | .property => "Property"
  | .method => "Method"
  | .callSignature => "CallSignature"
  | .indexSignature => "IndexSignature"
  | .constructorSignature => "ConstructorSignature"
  | .parameter => "Parameter"
  | .typeLiteral => "TypeLiteral"
  | .typeParameter => "TypeParameter"
  | .accessor => "Accessor"
  | .getSignature => "GetSignature"
  | .setSignature => "SetSignature"
  | .objectLiteral => "ObjectLiteral"
  | .typeAlias => "TypeAlias"
  | .event => "Event"
  | .reference => "Reference"

/-- Separates words run together: each capital becomes a blank and a small letter. -/
def spaced : List Char → List Char
  | [] => []
  | c :: rest => if c.isUpper then ' ' :: c.toLower :: spaced rest else c :: spaced rest

/-- The name for readers, its words separated: `Call signature`. -/
def title (kind : Kind) : String :=
  match kind.name.toList with
  | [] => ""
  | first :: rest => String.ofList (first :: spaced rest)

/-- The kinds of signatures. -/
def isSignature : Kind → Bool
  | .callSignature | .indexSignature | .constructorSignature | .getSignature | .setSignature => true
  | _ => false

/-- The kinds of declarations. -/
def isDeclaration : Kind → Bool
  | .project | .parameter | .typeParameter => false
  | kind => !kind.isSignature

end Kind

/-- The part that a reflection plays in the graph. -/
inductive Role
  | declaration
  | signature
  | parameter
  | typeParameter
deriving DecidableEq, Inhabited, Repr

namespace Role

/-- The name of a role in messages. -/
def name : Role → String
  | .declaration => "declaration"
  | .signature => "signature"
  | .parameter => "parameter"
  | .typeParameter => "type parameter"

/-- Every role. -/
def all : List Role :=
  [.declaration, .signature, .parameter, .typeParameter]

/-- Whether a reflection in this role may carry `kind`. -/
def accepts : Role → Kind → Bool
  | .declaration, kind => kind.isDeclaration
  | .signature, kind => kind.isSignature
  | .parameter, kind => kind == .parameter
  | .typeParameter, kind => kind == .typeParameter

end Role

end ApiGraph
