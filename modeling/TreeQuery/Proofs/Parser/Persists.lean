import TreeQuery.Proofs.Parser.Reads

/-!
# No reader takes an error back

Every reader of names, types and expressions only adds errors to those that were noted before, because
noting an error and going on with other tokens do so.
-/

namespace TreeQuery.Parser

/-- Operands are read without taking errors back. -/
def OperandParser.Persists (operand : OperandParser) : Prop := ∀ p, (operand p).Persists

section

variable {operand : OperandParser} (h : operand.Persists) (levels : Nat)

theorem persists_parameter : (parameter levels).Persists := congruence_persists.parameter (l := levels)

include h

theorem persists_commaExpr : (commaExpr operand).Persists := congruence_persists.commaExpr (l := 0) h

theorem persists_argument : (argument operand).Persists := congruence_persists.argument (l := 0) h

theorem persists_arguments : (arguments operand).Persists := congruence_persists.arguments (l := 0) h

theorem persists_binding {word : Parser Unit} (hword : word.Persists) :
    (binding operand word).Persists := congruence_persists.binding (l := 0) h hword

theorem persists_entry : (entry operand).Persists := congruence_persists.entry (l := 0) h

theorem persists_climb (least : Precedence) (left : Expr) :
    Persists (climb operand levels least left) := congruence_persists.climbing (l := levels) h least left

end

theorem persists_operandAt (levels : Nat) : OperandParser.Persists (operandAt levels) :=
  congruence_persists.operandAt levels

end TreeQuery.Parser
