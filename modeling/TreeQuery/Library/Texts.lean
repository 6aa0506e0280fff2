import TreeQuery.Library.Signature
import TreeQuery.Text.Case

/-!
# Functions on texts
-/

namespace TreeQuery.Library

/-- A question about two texts. -/
def textTest (name : String) (test : List Char → List Char → Bool) : LibraryFunction :=
  .binary name fun forest text pattern => do
    let text ← text.textArgument forest
    let pattern ← pattern.textArgument forest
    return .boolean (test text.toList pattern.toList)

/-- One side of a text that is cut at the first occurrence of another; the empty text if there is
none. -/
def textSide (name : String) (side : List Char × List Char → List Char) : LibraryFunction :=
  .binary name fun forest text pattern => do
    let text ← text.textArgument forest
    let pattern ← pattern.textArgument forest
    return .string (String.ofList ((Text.cut pattern.toList text.toList).elim [] side))

/-- The texts of several arguments, one behind another. -/
def concatenated (forest : Forest) (args : List Item) : Except EvalError Item := do
  return .string (String.join (← args.mapM fun x => x.textArgument forest))

/-- Functions on texts. -/
def texts : List LibraryFunction := [
  .onContext "string" fun forest x => return .string (← x.text forest),
  { name := "concat", least := 2, most := LibraryFunction.unlimited,
    run := fun _ args => .reading fun c => concatenated c.forest args },
  .onContext "string-length" fun forest x => return .ofNat (← x.text forest).length,
  .onContext "normalize-space" fun forest x => return .string (Text.normalizeSpace (← x.text forest)),
  textTest "contains" fun text pattern => Text.occurs pattern text,
  textTest "starts-with" fun text pattern => pattern.isPrefixOf text,
  textTest "ends-with" fun text pattern => pattern.isSuffixOf text,
  textSide "substring-before" Prod.fst,
  textSide "substring-after" Prod.snd,
  .unary "upper-case" fun forest x => return .string (Text.upper (← x.textArgument forest)),
  .unary "lower-case" fun forest x => return .string (Text.lower (← x.textArgument forest)),
  .unaryOptional "string-join" fun forest x separator => do
    let separator ← separator.elim (.ok "") fun s => s.textArgument forest
    return .string (separator.intercalate ((← x.atomize forest).map Atomic.text)),
  .binaryOptional "substring" fun forest x start length => do
    let text ← x.textArgument forest
    let (first, stop) ← partBounds forest "substring" start length
    return .string (String.ofList (between first stop text.toList))]

end TreeQuery.Library
