import TreeQuery.Name

/-!
# Namespaces

A declaration gives a qualifier a namespace, or gives one to the names without a qualifier. It holds
for its element and what is in it, unless it is overridden. A name means its namespace and its local
name, and it is reported with the first qualifier in scope that has this namespace, whatever it was
written with.
-/

namespace TreeQuery.Markup

/-- A namespace that is declared. -/
structure Namespace where
  /-- The qualifier that stands for it; without one it is the default. -/
  qualifier : Option String
  /-- What identifies it. -/
  uri : String
  deriving DecidableEq

namespace Namespace

/-- The namespace of the qualifier `xml`, which needs no declaration. -/
def xmlUri : String := "http://www.w3.org/XML/1998/namespace"

/-- The namespace of the qualifier `xmlns`, which cannot be declared. -/
def xmlnsUri : String := "http://www.w3.org/2000/xmlns/"

/-- Whether an attribute declares a namespace. -/
def isDeclaration (name : QName) : Bool :=
  name.qualifier == some "xmlns" || name.localName == "xmlns"

/-- Whether one of the namespaces has a qualifier. -/
def declares (scope : List Namespace) (qualifier : Option String) : Bool :=
  scope.any fun n => n.qualifier == qualifier

/-- The namespaces that an element declares, with one more declaration. A qualifier is declared once,
and `xml` keeps its namespace, which it shares with no other. -/
def declare? (own : List Namespace) (name : QName) (uri : String) : Option (List Namespace) :=
  if uri == xmlnsUri then none
  else if name.qualifier == some "xmlns" then
    if name.localName == "xml" then if uri == xmlUri then some own else none
    else if uri == xmlUri || declares own (some name.localName) then none
    else some (own ++ [⟨some name.localName, uri⟩])
  else if uri == xmlUri then none
  else some (own ++ [⟨none, uri⟩])

/-- The namespaces that the attributes of an element declare, in order. -/
def declared? (attributes : List (QName × String)) : Option (List Namespace) :=
  (attributes.filter fun a => isDeclaration a.1).foldlM (fun own a => declare? own a.1 a.2) []

/-- The namespaces in scope in an element: its own, and then those around it whose qualifiers it
leaves alone. -/
def extend (own inherited : List Namespace) : List Namespace :=
  if own.isEmpty then inherited
  else inherited.foldl
    (fun scope n => if declares scope n.qualifier then scope else scope ++ [n]) own

/-- The namespace that a qualifier stands for. Names without a qualifier may have none. -/
def resolve? (scope : List Namespace) (qualifier : Option String) : Option (Option String) :=
  match scope.find? fun n => n.qualifier == qualifier, qualifier with
  | some n, _ => some (some n.uri)
  | none, none => some none
  | none, some _ => none

/-- The qualifier of the first namespace in scope that has a URI. -/
def qualifierOf (scope : List Namespace) (uri : String) : Option String :=
  if uri == xmlUri then some "xml"
  else (scope.find? fun n => n.uri == uri).bind qualifier

end Namespace

/-- What a name means. -/
structure ExpandedName where
  /-- The URI of the namespace. -/
  uri : Option String
  /-- The name in it. -/
  localName : String
  deriving DecidableEq

namespace ExpandedName

/-- What the name of an element means. -/
def ofElement? (scope : List Namespace) (name : QName) : Option ExpandedName :=
  (Namespace.resolve? scope name.qualifier).map fun uri => ⟨uri, name.localName⟩

/-- What the name of an attribute means. Without a qualifier it is in no namespace. -/
def ofAttribute? (scope : List Namespace) (name : QName) : Option ExpandedName :=
  match name.qualifier with
  | none => some ⟨none, name.localName⟩
  | some "xml" => some ⟨some Namespace.xmlUri, name.localName⟩
  | some _ => ofElement? scope name

/-- The name that is reported. -/
def reported (scope : List Namespace) (name : ExpandedName) : QName :=
  ⟨name.uri.bind (Namespace.qualifierOf scope), name.localName⟩

end ExpandedName

end TreeQuery.Markup
