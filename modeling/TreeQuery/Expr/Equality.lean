import TreeQuery.Expr

/-!
# Equality of expressions

Two expressions are the same when they are built the same way from the same parts. Decimals are the
same when they denote the same number, and doubles when they compare equal, so that the literal that
is no number differs even from itself.
-/

namespace TreeQuery

/-- Whether two literals are the same. -/
def Literal.same : Literal → Literal → Bool
  | .integer a, .integer b => a == b
  | .decimal a, .decimal b => a == b
  | .double a, .double b => a == b
  | .string a, .string b => a == b
  | _, _ => false

mutual

/-- Whether two expressions are the same. -/
def Expr.same : Expr → Expr → Bool
  | .literal a, .literal b => a.same b
  | .var a, .var b => a == b
  | .contextItem, .contextItem => true
  | .sequence a, .sequence b => Expr.sameAll a b
  | .binary o a₁ a₂, .binary p b₁ b₂ => o == p && a₁.same b₁ && a₂.same b₂
  | .signed s a, .signed t b => s == t && a.same b
  | .root, .root => true
  | .rootPath a, .rootPath b => a.same b
  | .path a₁ a₂, .path b₁ b₂ => a₁.same b₁ && a₂.same b₂
  | .step x s a, .step y t b => x == y && s == t && Expr.sameAll a b
  | .chain a as, .chain b bs => a.same b && Link.sameAll as bs
  | .call n as, .call m bs => n == m && Argument.sameAll as bs
  | .functionRef n a, .functionRef m b => n == m && a == b
  | .inlineFunction ps r a, .inlineFunction qs s b => ps == qs && r == s && a.same b
  | .forEach as a, .forEach bs b => Binding.sameAll as bs && a.same b
  | .letIn as a, .letIn bs b => Binding.sameAll as bs && a.same b
  | .quantified q as a, .quantified p bs b => q == p && Binding.sameAll as bs && a.same b
  | .ifThenElse a₁ a₂ a₃, .ifThenElse b₁ b₂ b₃ => a₁.same b₁ && a₂.same b₂ && a₃.same b₃
  | .mapOf as, .mapOf bs => Entry.sameAll as bs
  | .squareArray as, .squareArray bs => Expr.sameAll as bs
  | .curlyArray a, .curlyArray b => a.same b
  | .arrowNamed a n as, .arrowNamed b m bs => a.same b && n == m && Argument.sameAll as bs
  | .arrowDynamic a₁ a₂ as, .arrowDynamic b₁ b₂ bs =>
    a₁.same b₁ && a₂.same b₂ && Argument.sameAll as bs
  | .lookup a, .lookup b => a.same b
  | .instanceOf a s, .instanceOf b t => a.same b && s == t
  | .treatAs a s, .treatAs b t => a.same b && s == t
  | .castableAs a s, .castableAs b t => a.same b && s == t
  | .castAs a s, .castAs b t => a.same b && s == t
  | _, _ => false

/-- Whether two lists of expressions are the same. -/
def Expr.sameAll : List Expr → List Expr → Bool
  | [], [] => true
  | a :: as, b :: bs => a.same b && Expr.sameAll as bs
  | _, _ => false

/-- Whether two lists of bindings are the same. -/
def Binding.sameAll : List Binding → List Binding → Bool
  | [], [] => true
  | ⟨n, a⟩ :: as, ⟨m, b⟩ :: bs => n == m && a.same b && Binding.sameAll as bs
  | _, _ => false

/-- Whether two lists of map entries are the same. -/
def Entry.sameAll : List Entry → List Entry → Bool
  | [], [] => true
  | ⟨k, a⟩ :: as, ⟨l, b⟩ :: bs => k.same l && a.same b && Entry.sameAll as bs
  | _, _ => false

/-- Whether two lists of arguments are the same. -/
def Argument.sameAll : List Argument → List Argument → Bool
  | [], [] => true
  | .value a :: as, .value b :: bs => a.same b && Argument.sameAll as bs
  | .placeholder :: as, .placeholder :: bs => Argument.sameAll as bs
  | _, _ => false

/-- Whether two lookup keys are the same. -/
def LookupKey.same : LookupKey → LookupKey → Bool
  | .name a, .name b => a == b
  | .index a, .index b => a == b
  | .computed a, .computed b => a.same b
  | .all, .all => true
  | _, _ => false

/-- Whether two lists of links are the same. -/
def Link.sameAll : List Link → List Link → Bool
  | [], [] => true
  | .predicate a :: as, .predicate b :: bs => a.same b && Link.sameAll as bs
  | .call a :: as, .call b :: bs => Argument.sameAll a b && Link.sameAll as bs
  | .lookup a :: as, .lookup b :: bs => a.same b && Link.sameAll as bs
  | _, _ => false

end

end TreeQuery
