import TreeQuery.Expr.Parser
import TreeQuery.Proofs.Expr.Children
import TreeQuery.Proofs.Token.QName

/-!
# Well-formed expressions

An expression is well formed if its names are names, its numbers are not negative, and nothing in it
could have been written more directly: no sequence of one or inside a sequence, no empty or nested
chain of links, no binding without variables. It is plain if moreover it has no paths and no other
literals than integers and strings, and a processing instruction is tested for a name or for none.
-/

namespace TreeQuery

/-! ### Types -/

/-- The name in the test is a name. -/
def KindTest.WellFormed : KindTest → Prop
  | .element (some name) | .attribute (some name) => name.WellFormed
  | _ => True

/-- The target of the test is a name, or there is none. -/
def KindTest.Plain : KindTest → Prop
  | .processingInstruction (some target) => isSimpleName target.toList = true
  | _ => True

/-- The test in the type is well formed. -/
def ItemType.WellFormed : ItemType → Prop
  | .node test => test.WellFormed
  | _ => True

/-- The test in the type is plain. -/
def ItemType.Plain : ItemType → Prop
  | .node test => test.Plain
  | _ => True

/-- The type of the items is well formed. -/
def SequenceType.WellFormed : SequenceType → Prop
  | .empty => True
  | .items type _ => type.WellFormed

/-- The type of the items is plain. -/
def SequenceType.Plain : SequenceType → Prop
  | .empty => True
  | .items type _ => type.Plain

/-- The target of the test is a name, or it is not written. -/
def KindTest.Readable : KindTest → Prop
  | .processingInstruction (some target) => target = "" ∨ isSimpleName target.toList = true
  | _ => True

/-- The test in the type can be read back. -/
def ItemType.Readable : ItemType → Prop
  | .node test => test.Readable
  | _ => True

/-- The type of the items can be read back. -/
def SequenceType.Readable : SequenceType → Prop
  | .empty => True
  | .items type _ => type.Readable

/-- The name in the test is a name. -/
def NodeTest.WellFormed : NodeTest → Prop
  | .named name => name.WellFormed
  | .anyName => True
  | .anyQualifier text | .anyLocal text => isSimpleName text.toList = true
  | .kind test => test.WellFormed

/-- The test can be read back. -/
def NodeTest.Readable : NodeTest → Prop
  | .kind test => test.Readable
  | _ => True

/-- The name is a name, and the type is well formed. -/
structure Param.WellFormed (p : Param) : Prop where
  name : p.name.WellFormed
  type : ∀ t, p.type = some t → t.WellFormed

/-! ### Expressions -/

/-- The number is not negative. -/
def Literal.WellFormed : Literal → Prop
  | .integer value => 0 ≤ value.toInt
  | .decimal value => value.negative = false
  | .double value => 0 ≤ value
  | .string _ => True

/-- The key is a name or not negative, if it is not computed. -/
def LookupKey.WellFormed : LookupKey → Prop
  | .name text => isSimpleName text.toList = true
  | .index i => 0 ≤ i.toInt
  | .computed _ | .all => True

/-- A key that is looked up is well formed. -/
def Link.WellFormed : Link → Prop
  | .lookup key => key.WellFormed
  | _ => True

/-- A name in front of a parenthesis that does not call a function. -/
def QName.IsReserved (n : QName) : Prop :=
  n.qualifier = none ∧ (n.localName = "if" ∨ n.localName = "function" ∨
    (KindTest.ofKeyword? n.localName).isSome = true)

/-- Whether the symbol of an operator behind a mere `/` is taken for a path. -/
def BinaryOp.StartsPath : BinaryOp → Prop
  | .arithmetic .add | .arithmetic .sub | .comparison (.general _) | .comparison (.node .precedes)
  | .comparison (.node .follows) | .concat | .nodes .union | .simpleMap => False
  | _ => True

namespace Expr

/-- Expressions with commas between them. -/
def IsSequence : Expr → Prop
  | .sequence _ => True
  | _ => False

/-- An expression with links behind it. -/
def IsChain : Expr → Prop
  | .chain .. => True
  | _ => False

/-- An expression whose text is a path: predicates behind it would belong to its last step. -/
def IsPath : Expr → Prop
  | .path .. | .root | .rootPath _ | .step .. => True
  | _ => False

/-- Whether the parts of an expression are well formed, the expressions inside it apart. -/
def Formed : Expr → Prop
  | .literal value => value.WellFormed
  | .var name => name.WellFormed
  | .sequence members => members.length ≠ 1 ∧ ∀ e ∈ members, ¬ e.IsSequence
  | .chain base links => ¬ base.IsChain ∧ links ≠ [] ∧ ∀ l ∈ links, l.WellFormed
  | .call name _ => name.WellFormed ∧ ¬ name.IsReserved
  | .functionRef name arity => name.WellFormed ∧ arity ≤ Parser.maxArity
  | .inlineFunction params result _ =>
    (∀ p ∈ params, p.WellFormed) ∧ ∀ t, result = some t → t.WellFormed
  | .forEach bindings _ | .letIn bindings _ | .quantified _ bindings _ =>
    bindings ≠ [] ∧ ∀ b ∈ bindings, b.name.WellFormed
  | .step axis test _ =>
    test.WellFormed ∧ (axis = .child → ∀ name, test ≠ .kind (.attribute name))
  | .arrowNamed _ name _ => name.WellFormed
  | .lookup key => key.WellFormed
  | .instanceOf _ type | .treatAs _ type => type.WellFormed
  | _ => True

/-- An expression is well formed if it is so in itself and everything inside it is. -/
def WellFormed (e : Expr) : Prop := e.All Formed

/-- Whether the text of an expression starts with `/`. -/
def StartsWithSlash : Expr → Prop
  | .root | .rootPath _ => True
  | .path left _ => left.StartsWithSlash
  | _ => False

/-- Whether the text of an expression starts with a name or a dot, so that it is taken for a path
behind `/`. -/
def StartsWithWord : Expr → Prop
  | .contextItem | .step .. | .call .. | .functionRef .. | .inlineFunction .. | .mapOf _
  | .curlyArray _ => True
  | .path left _ => left.StartsWithWord
  | .chain base _ => ¬ base.IsPath ∧ base.StartsWithWord
  | _ => False

/-- Whether the parts of an expression can be read back where they stand, the expressions inside them
apart: slashes do not run into each other, no word runs into a mere `/`, and targets are names. -/
def Readable : Expr → Prop
  | .binary op left _ => left = .root → ¬ op.StartsPath
  | .path left right => left ≠ .root ∧ ¬ right.StartsWithSlash
  | .rootPath relative => relative.StartsWithWord
  | .step _ test _ => test.Readable
  | .inlineFunction params result _ =>
    (∀ p ∈ params, ∀ t, p.type = some t → t.Readable) ∧ ∀ t, result = some t → t.Readable
  | .forEach bindings _ | .letIn bindings _ | .quantified _ bindings _ =>
    ∀ b, bindings.getLast? = some b → b.value ≠ .root
  | .ifThenElse _ whenTrue _ => whenTrue ≠ .root
  | .instanceOf operand type | .treatAs operand type => operand ≠ .root ∧ type.Readable
  | .castableAs operand _ | .castAs operand _ => operand ≠ .root
  | _ => True

/-- Whether an expression is plain, the expressions inside it apart. -/
def IsPlain : Expr → Prop
  | .root | .rootPath _ | .path .. | .step .. => False
  | .literal (.decimal _) | .literal (.double _) => False
  | .inlineFunction params result _ =>
    (∀ p ∈ params, ∀ t, p.type = some t → t.Plain) ∧ ∀ t, result = some t → t.Plain
  | .instanceOf _ type | .treatAs _ type => type.Plain
  | _ => True

/-- An expression without paths, whose literals are integers and strings. -/
def Plain (e : Expr) : Prop := e.All IsPlain

end Expr

private theorem KindTest.Plain.readable {test : KindTest} (h : test.Plain) : test.Readable := by
  unfold KindTest.Plain at h
  unfold KindTest.Readable
  split at h
  · exact Or.inr h
  · trivial

private theorem SequenceType.Plain.readable {type : SequenceType} (h : type.Plain) : type.Readable := by
  cases type with
  | empty => trivial
  | items type _ =>
    cases type with
    | node test => exact KindTest.Plain.readable h
    | item | atomic _ | map | array | function => trivial

private theorem Expr.IsPlain.ne_root {e : Expr} (h : e.IsPlain) : e ≠ .root := by
  rintro rfl
  exact h

/-- All expressions in a plain one can be read from their texts. -/
theorem Expr.Plain.readable {e : Expr} (h : e.Plain) : e.All Expr.Readable := by
  induction h with
  | @intro e here inside ih =>
  have hroot : ∀ c ∈ e.children, c ≠ .root := fun c hc => (inside c hc).here.ne_root
  refine .intro ?_ ih
  cases e with
  | inlineFunction params result _ =>
    exact ⟨fun p hp t ht => (here.1 p hp t ht).readable, fun t ht => (here.2 t ht).readable⟩
  | instanceOf e type | treatAs e type =>
    exact ⟨hroot e (by simp [children]), SequenceType.Plain.readable here⟩
  | castableAs e _ | castAs e _ => exact hroot e (by simp [children])
  | binary op l r => exact fun heq => absurd heq (hroot l (by simp [children]))
  | forEach bs _ | letIn bs _ | quantified _ bs _ =>
    exact fun b hb => hroot _ (List.mem_append_left _ (List.mem_map_of_mem (List.mem_of_getLast? hb)))
  | ifThenElse c t f => exact hroot t (by simp [children])
  | root | rootPath _ | path _ _ | step _ _ _ => contradiction
  | _ => trivial

end TreeQuery
