import TreeQuery.Expr.Parser

/-!
# Relations between readers

All readers are made of a few that look at tokens, take tokens and note errors, by reading one thing
after another, by repeating and by climbing. So a relation that holds of these, and is kept by the ways
to put readers together, holds of every reader and itself: of names, types and operands first, and in
the end of whole expressions, by induction on the levels of nesting that are left. The relation may be
between readers that see tokens at different places.
-/

namespace TreeQuery.Parser

/-- A relation between readers that putting them together keeps, where tokens that are seen are related
in their own way: at least they agree in kind and text. The relation may depend on how many levels of
nesting are left. -/
structure Congruence (R : Nat → {α : Type} → Parser α → Parser α → Prop)
    (T : Token → Token → Prop) : Prop where
  kind {t t' : Token} : T t t' → t.kind = t'.kind
  text {t t' : Token} : T t t' → t.text = t'.text
  pure {l : Nat} {α : Type} (a : α) : R l (pure a) (pure a)
  bind {l : Nat} {α β : Type} {p q : Parser α} {f g : α → Parser β} :
    R l p q → (∀ a, R l (f a) (g a)) → R l (p >>= f) (q >>= g)
  current {l : Nat} {α : Type} {f g : Token → Parser α} :
    (∀ t t', T t t' → R l (f t) (g t')) → R l (current >>= f) (current >>= g)
  advance {l : Nat} {α : Type} {f g : Token → Parser α} :
    (∀ t t', T t t' → R l (f t) (g t')) → R l (advance >>= f) (advance >>= g)
  following {l : Nat} : R l following following
  nested {l : Nat} {α : Type} {p q : Parser α} : R l p q → R (l + 1) (nested p) (nested q)
  error {l : Nat} (expected : String) : R l (failed (error expected)) (failed (error expected))
  errorAt {l : Nat} {t t' : Token} (ht : T t t') (expected : String) :
    R l (failed (errorAt t expected)) (failed (errorAt t' expected))
  takeName {l : Nat} : R l takeName takeName
  skipParameters {l : Nat} : R l skipParameters skipParameters
  isAtList {l : Nat} : R l isAtList isAtList
  many {l : Nat} {α : Type} {p q : Parser α} (kind : TokenKind) :
    R l p q → R l (many kind p) (many kind q)
  climb {l : Nat} {operand : OperandParser} {levels : Nat} :
    (∀ t t' left precedence, T t t' → R l (operatorRest operand levels t left precedence)
      (operatorRest operand levels t' left precedence)) →
    ∀ least left, R l (climb operand levels least left) (climb operand levels least left)

namespace Congruence

variable {R : Nat → {α : Type} → Parser α → Parser α → Prop} {T : Token → Token → Prop} {l : Nat}
  {α β : Type} {t t' : Token}

/-! ### Readers put together -/

private theorem map (hR : Congruence R T) {p q : Parser α} (f : α → β) (hp : R l p q) :
    R l (f <$> p) (f <$> q) :=
  hR.bind hp fun _ => hR.pure _

private theorem ite {c : Prop} [Decidable c] {p p' q q' : Parser α} (hp : R l p p') (hq : R l q q') :
    R l (if c then p else q) (if c then p' else q') := by
  split
  · exact hp
  · exact hq

section

variable (hR : Congruence R T)

include hR

/-- Whether a token comes next is found alike. -/
theorem isAt (kind : TokenKind) : R l (isAt kind) (isAt kind) :=
  hR.current fun _ _ ht => hR.kind ht ▸ hR.pure _

private theorem isAtWord (word : String) : R l (isAtWord word) (isAtWord word) := by
  refine hR.current fun t t' ht => ?_
  rw [Token.isWord, hR.kind ht, hR.text ht]
  exact hR.pure _

private theorem eat (kind : TokenKind) : R l (eat kind) (eat kind) :=
  hR.bind (hR.isAt kind) fun _ => ite (hR.advance fun _ _ _ => hR.pure _) (hR.pure _)

/-- A token that must be there is read alike. -/
theorem expect (kind : TokenKind) (expected : String) :
    R l (expect kind expected) (expect kind expected) :=
  hR.bind (hR.eat kind) fun _ => ite (hR.pure _) (hR.bind (hR.error _) fun _ => hR.pure _)

/-- A word that must be there is read alike. -/
theorem expectWord (word : String) : R l (expectWord word) (expectWord word) :=
  hR.bind (hR.isAtWord word) fun _ => ite (hR.advance fun _ _ _ => hR.pure _) (hR.error _)

private theorem commaList {p : Parser α} (hp : R l p p) : R l (commaList p) (commaList p) :=
  hR.bind hp fun _ => hR.bind (hR.many _ hp) fun _ => hR.pure _

/-- An error is noted at a token, and a value is given for it. -/
theorem errorAt_pure (ht : T t t') (expected : String) (a : α) :
    R l (do failed (Parser.errorAt t expected); return a)
      (do failed (Parser.errorAt t' expected); return a) :=
  hR.bind (hR.errorAt ht _) fun _ => hR.pure _

/-! ### Names and types -/

private theorem nameOf (ht : T t t') (text : String) : R l (nameOf t text) (nameOf t' text) := by
  unfold Parser.nameOf
  split
  · exact hR.pure _
  · exact hR.errorAt_pure ht _ _

private theorem qualifiedName (expected : String) :
    R l (qualifiedName expected) (qualifiedName expected) :=
  hR.bind (hR.isAt _) fun _ => ite
    (hR.current fun _ _ ht => hR.bind hR.takeName fun _ => hR.nameOf ht _)
    (hR.bind (hR.error _) fun _ => hR.pure _)

private theorem nameTestOf (ht : T t t') (text : String) :
    R l (nameTestOf t text) (nameTestOf t' text) := by
  unfold Parser.nameTestOf
  exact ite (hR.pure _) (ite (hR.pure _) (ite (hR.pure _)
    (hR.bind (hR.nameOf ht _) fun _ => hR.pure _)))

private theorem isAtKindTest : R l isAtKindTest isAtKindTest := by
  refine hR.current fun t t' ht => hR.bind hR.following fun _ => ?_
  rw [hR.kind ht, hR.text ht]
  exact hR.pure _

private theorem kindTestName : R l kindTestName kindTestName := by
  have hrest (name : Option QName) :
      let rest : Parser (Option QName) := do
        if ← Parser.eat .comma then
          let _ ← Parser.qualifiedName "type name"
          let _ ← Parser.eat .question
        return name
      R l rest rest :=
    hR.bind (hR.eat _) fun _ => ite (hR.bind (hR.qualifiedName _) fun _ =>
      hR.bind (hR.eat _) fun _ => hR.pure _) (hR.pure _)
  exact hR.bind (hR.eat _) fun _ => hR.bind (hR.isAt _) fun _ =>
    ite (hR.bind (hR.pure _) hrest)
      (ite (hR.bind (hR.map _ (hR.qualifiedName _)) hrest) (hR.bind (hR.pure _) hrest))

private theorem kindTestTarget : R l kindTestTarget kindTestTarget :=
  hR.bind (hR.isAt _) fun _ => ite (hR.advance fun _ _ ht => hR.text ht ▸ hR.pure _)
    (hR.bind (hR.isAt _) fun _ => ite (hR.advance fun _ _ ht => hR.text ht ▸ hR.pure _) (hR.pure _))

private theorem kindTest (levels : Nat) : R levels (kindTest levels) (kindTest levels) := by
  have hrest {l : Nat} (test : KindTest) :
      let rest : Parser KindTest := do
        let _ ← Parser.expect .rightParen "')'"
        return test
      R l rest rest := hR.bind (hR.expect _ _) fun _ => hR.pure _
  have hdocument {l : Nat} := hR.bind (hR.pure (l := l) KindTest.document) hrest
  induction levels using Nat.strongRecOn with
  | ind levels ih =>
    unfold Parser.kindTest
    refine hR.advance fun t t' ht => hR.advance fun _ _ _ => ?_
    rw [hR.text ht]
    refine ite (hR.bind (hR.map _ hR.kindTestName) hrest) ?_
    refine ite (hR.bind (hR.map _ hR.kindTestName) hrest) ?_
    refine ite (hR.bind (hR.map _ hR.kindTestTarget) hrest) ?_
    refine ite (hR.bind (hR.isAt _) fun _ => hR.bind hR.following fun _ => ?_)
      (hR.bind (hR.pure _) hrest)
    refine ite ?_ hdocument
    split
    · exact hR.bind (hR.error _) fun _ => hdocument
    · next outer => exact hR.bind (hR.nested (ih outer (Nat.lt_succ_self _))) fun _ => hdocument

private theorem nodeTest (levels : Nat) : R levels (nodeTest levels) (nodeTest levels) :=
  hR.bind hR.isAtKindTest fun _ =>
    ite (hR.bind (hR.kindTest levels) fun _ => hR.pure _)
      (hR.bind (hR.isAt _) fun _ => hR.bind (hR.isAt _) fun _ =>
        ite (hR.current fun _ _ ht => hR.bind hR.takeName fun _ => hR.nameTestOf ht _)
          (hR.bind (hR.error _) fun _ => hR.pure _))

private theorem sequenceTypeOf {p : Parser ItemType} (hp : R l p p) :
    R l (sequenceTypeOf p) (sequenceTypeOf p) :=
  hR.bind (hR.isAtWord _) fun _ => hR.bind hR.following fun _ =>
    ite (hR.advance fun _ _ _ => hR.advance fun _ _ _ =>
        hR.bind (hR.expect _ _) fun _ => hR.pure _)
      (hR.bind hp fun _ => hR.bind (hR.eat _) fun _ => ite (hR.pure _)
        (hR.bind (hR.eat _) fun _ => ite (hR.pure _)
          (hR.bind (hR.eat _) fun _ => ite (hR.pure _) (hR.pure _))))

private theorem atomicType : R l atomicType atomicType := by
  refine hR.current fun t t' ht => hR.bind (hR.qualifiedName _) fun name => ?_
  split
  · exact hR.pure _
  · exact hR.errorAt_pure ht _ _

private theorem itemType (levels : Nat) : R levels (itemType levels) (itemType levels) := by
  have hclose {l : Nat} (type : ItemType) :
      let rest : Parser ItemType := do
        let _ ← Parser.expect .rightParen "')'"
        return type
      R l rest rest := hR.bind (hR.expect _ _) fun _ => hR.pure _
  induction levels using Nat.strongRecOn with
  | ind levels ih =>
    unfold Parser.itemType
    refine hR.bind (hR.eat _) fun _ => ite ?_ (hR.current fun t t' ht => ?_)
    · split
      · exact hR.bind (hR.error _) fun _ => hR.bind (hR.pure _) hclose
      · next outer => exact hR.bind (hR.nested (ih outer (Nat.lt_succ_self _))) hclose
    rw [hR.kind ht, hR.text ht]
    refine ite (hR.bind (hR.error _) fun _ => hR.pure _) ?_
    refine hR.bind hR.isAtKindTest fun _ => ite
      (hR.bind (hR.kindTest _) fun _ => hR.pure _) (hR.bind hR.following fun _ => ?_)
    split
    · refine hR.advance fun _ _ _ => hR.bind hR.skipParameters fun _ => ite ?_ (hR.pure _)
      refine hR.bind (hR.isAtWord _) fun _ => ite (hR.advance fun _ _ _ => ?_) (hR.pure _)
      split
      · exact hR.bind (hR.error _) fun _ => hR.pure _
      · next outer =>
        have htype := hR.sequenceTypeOf (ih outer (Nat.lt_succ_self _))
        exact hR.bind (hR.nested htype) fun _ => hR.pure _
    · exact hR.bind hR.atomicType fun _ => hR.pure _

private theorem sequenceType (levels : Nat) : R levels (sequenceType levels) (sequenceType levels) :=
  hR.sequenceTypeOf (hR.itemType levels)

private theorem singleType : R l singleType singleType :=
  hR.bind hR.atomicType fun _ => hR.bind (hR.eat _) fun _ => hR.pure _

end

/-! ### Expressions -/

section

variable (hR : Congruence R T) {operand : OperandParser} (h : ∀ p, R l (operand p) (operand p))

include hR

private theorem integerLiteral (ht : T t t') : R l (integerLiteral t) (integerLiteral t') := by
  unfold Parser.integerLiteral
  rw [hR.text ht]
  split
  · exact hR.pure _
  · exact hR.pure _
  · exact hR.errorAt_pure ht _ _

private theorem decimalLiteral (ht : T t t') : R l (decimalLiteral t) (decimalLiteral t') := by
  unfold Parser.decimalLiteral
  rw [hR.text ht]
  split
  · exact hR.pure _
  · exact hR.errorAt_pure ht _ _

private theorem doubleLiteral (ht : T t t') : R l (doubleLiteral t) (doubleLiteral t') := by
  unfold Parser.doubleLiteral
  rw [hR.text ht]
  split
  · exact hR.pure _
  · exact hR.errorAt_pure ht _ _

private theorem typeBehindAs : R l (typeBehindAs l) (typeBehindAs l) :=
  hR.bind (hR.isAtWord _) fun _ => ite (hR.advance fun _ _ _ =>
    hR.bind (hR.sequenceType l) fun _ => hR.pure _) (hR.pure _)

/-- Parameters are read alike. -/
theorem parameter : R l (parameter l) (parameter l) :=
  hR.bind (hR.expect _ _) fun _ => hR.bind (hR.qualifiedName _) fun _ =>
    hR.bind (hR.typeBehindAs) fun _ => hR.pure _

private theorem arity : R l arity arity := by
  refine hR.advance fun t t' ht => ?_
  rw [hR.kind ht, hR.text ht]
  split
  · exact ite (hR.pure _) (hR.errorAt_pure ht _ _)
  · exact hR.errorAt_pure ht _ _

private theorem typeOperator (word : String) (left : Expr) :
    R l (typeOperator l word left) (typeOperator l word left) := by
  unfold Parser.typeOperator
  split
  · exact hR.bind (hR.expectWord _) fun _ => hR.bind (hR.sequenceType l) fun _ => hR.pure _
  · exact hR.bind (hR.expectWord _) fun _ => hR.bind (hR.sequenceType l) fun _ => hR.pure _
  · exact hR.bind (hR.expectWord _) fun _ => hR.bind hR.singleType fun _ => hR.pure _
  · exact hR.bind (hR.expectWord _) fun _ => hR.bind hR.singleType fun _ => hR.pure _
  · exact hR.pure _

include h

/-- Expressions with commas between them are read alike, if operands are. -/
theorem commaExpr : R l (commaExpr operand) (commaExpr operand) :=
  hR.bind (h _) fun _ => hR.bind (hR.isAt _) fun _ =>
    ite (hR.bind (hR.many _ (h _)) fun _ => hR.pure _) (hR.pure _)

private theorem predicates : R l (predicates operand) (predicates operand) :=
  hR.many _ (hR.bind (hR.commaExpr h) fun _ => hR.bind (hR.expect _ _) fun _ => hR.pure _)

private theorem group : R l (group operand) (group operand) := by
  have hclose (e : Expr) :
      let rest : Parser Expr := do
        let _ ← Parser.expect .rightParen "')'"
        return e
      R l rest rest := hR.bind (hR.expect _ _) fun _ => hR.pure _
  exact hR.bind hR.isAtList fun _ => hR.advance fun _ _ _ => hR.bind (hR.eat _) fun _ =>
    ite (hR.pure _) (ite (hR.bind (hR.map _ (hR.commaList (h _))) hclose) (hR.bind (h _) hclose))

/-- So are arguments. -/
theorem argument : R l (argument operand) (argument operand) :=
  hR.bind hR.following fun _ => hR.bind (hR.isAt _) fun _ =>
    ite (hR.advance fun _ _ _ => hR.pure _) (hR.bind (h _) fun _ => hR.pure _)

/-- So are lists of arguments. -/
theorem arguments : R l (arguments operand) (arguments operand) :=
  hR.bind (hR.eat _) fun _ => ite (hR.pure _)
    (hR.bind (hR.commaList (hR.argument h)) fun _ => hR.bind (hR.expect _ _) fun _ => hR.pure _)

private theorem lookupKey : R l (lookupKey operand) (lookupKey operand) := by
  refine hR.current fun t t' ht => ?_
  rw [hR.kind ht, hR.text ht]
  split
  · exact hR.advance fun _ _ _ => hR.pure _
  · refine hR.advance fun _ _ _ => ?_
    split
    · exact hR.pure _
    · exact hR.errorAt_pure ht _ _
  · exact hR.bind (hR.group h) fun _ => hR.pure _
  · exact hR.advance fun _ _ _ => hR.pure _
  · exact hR.bind (hR.error _) fun _ => hR.pure _

private theorem step (axis : Axis) : R l (step operand l axis) (step operand l axis) :=
  hR.bind (hR.nodeTest l) fun _ => hR.bind (hR.predicates h) fun _ => hR.pure _

/-- So are bindings, if the word between the variable and its value is. -/
theorem binding {word : Parser Unit} (hword : R l word word) :
    R l (binding operand word) (binding operand word) :=
  hR.bind (hR.expect _ _) fun _ => hR.bind (hR.qualifiedName _) fun _ => hR.bind hword fun _ =>
    hR.bind (h _) fun _ => hR.pure _

private theorem bindings {word : Parser Unit} (hword : R l word word) (last : String) :
    R l (bindings operand word last) (bindings operand word last) :=
  hR.advance fun _ _ _ => hR.bind (hR.commaList (hR.binding h hword)) fun _ =>
    hR.bind (hR.expectWord _) fun _ => hR.bind (h _) fun _ => hR.pure _

private theorem choice : R l (choice operand) (choice operand) :=
  hR.advance fun _ _ _ => hR.bind (hR.expect _ _) fun _ =>
    hR.bind (hR.commaExpr h) fun _ => hR.bind (hR.expect _ _) fun _ =>
      hR.bind (hR.expectWord _) fun _ => hR.bind (h _) fun _ => hR.bind (hR.expectWord _) fun _ =>
        hR.bind (h _) fun _ => hR.pure _

private theorem block : R l (block operand) (block operand) := by
  have hclose (e : Expr) :
      let rest : Parser Expr := do
        let _ ← Parser.expect .rightBrace "'\x7d'"
        return e
      R l rest rest := hR.bind (hR.expect _ _) fun _ => hR.pure _
  exact hR.bind (hR.isAt _) fun _ =>
    ite (hR.bind (hR.pure _) hclose) (hR.bind (hR.commaExpr h) hclose)

private theorem inlineFunction : R l (inlineFunction operand l) (inlineFunction operand l) := by
  have hrest (params : List Param) :
      let rest : Parser Expr := do
        let result ← Parser.typeBehindAs l
        let _ ← Parser.expect .leftBrace "'\x7b'"
        return Expr.inlineFunction params result (← Parser.block operand)
      R l rest rest :=
    hR.bind (hR.typeBehindAs) fun _ => hR.bind (hR.expect _ _) fun _ =>
      hR.bind (hR.block h) fun _ => hR.pure _
  exact hR.advance fun _ _ _ => hR.advance fun _ _ _ => hR.bind (hR.eat _) fun _ =>
    ite (hR.bind (hR.pure _) hrest)
      (hR.bind (hR.commaList (hR.parameter)) fun _ => hR.bind (hR.expect _ _) fun _ =>
        hR.bind (hR.pure _) hrest)

/-- So are the entries of maps. -/
theorem entry : R l (entry operand) (entry operand) :=
  hR.bind (h _) fun _ => hR.bind (hR.expect _ _) fun _ => hR.bind (h _) fun _ => hR.pure _

private theorem mapConstructor : R l (mapConstructor operand) (mapConstructor operand) :=
  hR.advance fun _ _ _ => hR.advance fun _ _ _ => hR.bind (hR.eat _) fun _ =>
    ite (hR.pure _) (hR.bind (hR.commaList (hR.entry h)) fun _ =>
      hR.bind (hR.expect _ _) fun _ => hR.pure _)

private theorem squareArray : R l (squareArray operand) (squareArray operand) :=
  hR.advance fun _ _ _ => hR.bind (hR.eat _) fun _ => ite (hR.pure _)
    (hR.bind (hR.commaList (h _)) fun _ => hR.bind (hR.expect _ _) fun _ => hR.pure _)

private theorem curlyArray : R l (curlyArray operand) (curlyArray operand) :=
  hR.advance fun _ _ _ => hR.advance fun _ _ _ => hR.bind (hR.block h) fun _ => hR.pure _

private theorem axisStep : R l (axisStep operand l) (axisStep operand l) := by
  refine hR.advance fun t t' ht => hR.advance fun _ _ _ => ?_
  rw [hR.text ht]
  split
  · exact hR.step h _
  · exact hR.bind (hR.errorAt ht _) fun _ => hR.step h _

private theorem namedOperand : R l (namedOperand operand) (namedOperand operand) :=
  hR.current fun _ _ ht => hR.bind hR.takeName fun _ => hR.bind (hR.eat _) fun _ =>
    ite (hR.bind (hR.nameOf ht _) fun _ => hR.bind (hR.arguments h) fun _ => hR.pure _)
      (hR.bind (hR.eat _) fun _ =>
        ite (hR.bind (hR.nameOf ht _) fun _ => hR.bind hR.arity fun _ => hR.pure _)
          (hR.bind (hR.nameTestOf ht _) fun _ => hR.bind (hR.predicates h) fun _ => hR.pure _))

private theorem wordOperand : R l (wordOperand operand l) (wordOperand operand l) := by
  have hassign :
      let word : Parser Unit := do let _ ← Parser.expect .assign "':='"
      R l word word := hR.bind (hR.expect _ _) fun _ => hR.pure _
  refine hR.current fun t t' ht => hR.bind hR.following fun kind => ?_
  dsimp only
  rw [hR.text ht]
  split
  · exact hR.bind (hR.bindings h (hR.expectWord _) _) fun _ => hR.pure _
  · exact hR.bind (hR.bindings h hassign _) fun _ => hR.pure _
  · exact hR.bind (hR.bindings h (hR.expectWord _) _) fun _ => hR.pure _
  · exact hR.bind (hR.bindings h (hR.expectWord _) _) fun _ => hR.pure _
  · exact hR.choice h
  · exact hR.inlineFunction h
  · exact hR.mapConstructor h
  · exact hR.curlyArray h
  · exact hR.axisStep h
  · exact hR.bind hR.isAtKindTest fun _ => ite (hR.step h _) (hR.namedOperand h)

private theorem primary : R l (primary operand l) (primary operand l) := by
  refine hR.current fun t t' ht => ?_
  rw [hR.kind ht]
  split
  · exact hR.advance fun _ _ ht => hR.integerLiteral ht
  · exact hR.advance fun _ _ ht => hR.decimalLiteral ht
  · exact hR.advance fun _ _ ht => hR.doubleLiteral ht
  · exact hR.advance fun _ _ ht => hR.text ht ▸ hR.pure _
  · exact hR.advance fun _ _ _ => hR.bind (hR.qualifiedName _) fun _ => hR.pure _
  · exact hR.group h
  · exact hR.squareArray h
  · exact hR.advance fun _ _ _ => hR.pure _
  · exact hR.advance fun _ _ _ => hR.bind (hR.predicates h) fun _ => hR.pure _
  · exact hR.advance fun _ _ _ => hR.step h _
  · refine hR.advance fun _ _ _ => hR.current fun t t' ht => ?_
    rw [hR.kind ht]
    exact ite (hR.bind (h _) fun _ => hR.pure _) (hR.pure _)
  · exact hR.advance fun _ _ _ => hR.bind (h _) fun _ => hR.pure _
  · exact hR.advance fun _ _ _ => hR.bind (h _) fun _ => hR.pure _
  · exact hR.advance fun _ _ _ => hR.bind (h _) fun _ => hR.pure _
  · exact hR.advance fun _ _ _ => hR.bind (hR.lookupKey h) fun _ => hR.pure _
  · exact hR.step h _
  · exact hR.wordOperand h
  · exact hR.bind (hR.error _) fun _ => ite (hR.advance fun _ _ _ => hR.pure _) (hR.pure _)

private theorem arrowCall (base : Expr) : R l (arrowCall operand base) (arrowCall operand base) := by
  have hargs :
      let args : Parser (List Argument) := do
        if ← Parser.expect .leftParen "'('" then Parser.arguments operand else return []
      R l args args :=
    hR.bind (hR.expect _ _) fun _ => ite (hR.arguments h) (hR.pure _)
  refine hR.current fun t t' ht => ?_
  dsimp only
  rw [hR.kind ht]
  split
  · exact hR.bind (hR.qualifiedName _) fun _ => hR.bind hargs fun _ => hR.pure _
  · exact hR.advance fun _ _ _ => hR.bind (hR.qualifiedName _) fun _ =>
      hR.bind hargs fun _ => hR.pure _
  · exact hR.bind (hR.group h) fun _ => hR.bind hargs fun _ => hR.pure _
  · exact hR.bind (hR.error _) fun _ => hR.pure _

private theorem operatorRest (ht : T t t') (left : Expr) (precedence : Precedence) :
    R l (operatorRest operand l t left precedence) (operatorRest operand l t' left precedence) := by
  unfold Parser.operatorRest binaryOperator?
  rw [hR.kind ht, hR.text ht]
  split
  · exact hR.bind (h _) fun _ => hR.pure _
  · split
    · exact hR.bind (h _) fun _ => hR.pure _
    · exact hR.bind (h _) fun _ => hR.pure _
    · exact hR.arrowCall h left
    · exact hR.bind (hR.commaExpr h) fun _ => hR.bind (hR.expect _ _) fun _ => hR.pure _
    · exact hR.bind (hR.arguments h) fun _ => hR.pure _
    · exact hR.bind (hR.lookupKey h) fun _ => hR.pure _
    · refine hR.bind (hR.typeOperator _ _) fun found => ?_
      split
      · exact hR.pure _
      · exact hR.errorAt_pure ht _ _

/-- So are the operators behind an operand, with their right sides. -/
theorem climbing (least : Precedence) (left : Expr) :
    R l (Parser.climb operand l least left) (Parser.climb operand l least left) :=
  hR.climb (fun _ _ left precedence ht => hR.operatorRest h ht left precedence) least left

end

/-- At every level of nesting, by induction on the levels that are left. -/
theorem operandAt (hR : Congruence R T) (levels : Nat) (least : Precedence) :
    R levels (operandAt levels least) (operandAt levels least) := by
  induction levels generalizing least with
  | zero => exact hR.bind (hR.error _) fun _ => hR.pure _
  | succ levels ih =>
    exact hR.nested (hR.bind (hR.primary fun p => ih p) fun left =>
      hR.climbing (fun p => ih p) least left)

/-- Whole expressions are read alike. -/
theorem program (hR : Congruence R T) : R maxNesting program program :=
  hR.bind (hR.isAt _) fun _ => ite (hR.bind (hR.error _) fun _ => hR.pure _)
    (hR.bind (hR.commaExpr (hR.operandAt maxNesting)) fun _ => hR.bind (hR.isAt _) fun _ =>
      ite (hR.bind (hR.error _) fun _ => hR.pure _) (hR.pure _))

end Congruence

end TreeQuery.Parser
