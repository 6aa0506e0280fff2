import TreeQuery.Evaluation
import TreeQuery.Item.Render
import TreeQuery.Text.Lines

/-!
# Sessions

A session takes lines. Most are expressions, and their values are answered; a line may also bind a
variable for the lines that follow, or end the session. An error is an answer like any other, and the
session goes on after it. A crash is none: it ends the session, and the lines behind it are not taken.
-/

namespace TreeQuery

/-- What expressions are evaluated with, from one line to the next. -/
structure Session where
  /-- The functions that expressions can call. -/
  registry : Registry
  /-- The variables and the document. -/
  context : Context

/-- What a session does with a line. -/
inductive Reply where
  /-- The line has nothing in it. -/
  | silence
  /-- A text is shown. -/
  | text (answer : String)
  /-- The session ends. -/
  | done
  /-- The program stops. -/
  | crash
  deriving DecidableEq

/-- What is shown when a line is waited for. -/
def Session.prompt : String := "quarry> "

/-- What a reply shows. -/
def Reply.shown : Reply → String
  | .text answer => answer ++ "\n"
  | .silence | .done | .crash => ""

/-- Whether no line is taken behind a reply. -/
def Reply.isLast : Reply → Bool
  | .done | .crash => true
  | .silence | .text _ => false

namespace Session

/-- The value of an expression, and the session behind it. -/
def evaluate (s : Session) (text : String) : Except QueryError Item × Session :=
  let (result, context) := run s.registry text s.context
  (result, { s with context })

/-- The text that shows a value in this session. -/
def describe (s : Session) (value : Item) : String := value.render s.context.forest

/-- Binds a variable to the value of an expression, and shows the value. The name and the expression
are parted by the first `:=`. -/
def assign (s : Session) (binding : String) : Except QueryError String × Session :=
  match Text.cut [':', '='] binding.toList with
  | none => (.error (.eval (.typeError "expected ':set $name := expr'")), s)
  | some (name, expression) =>
    match s.evaluate (String.ofList (Text.trim expression)) with
    | (.error e, s) => (.error e, s)
    | (.ok value, s) =>
      match s.context.setVariable (String.ofList (Text.trim name)) value with
      | .error e => (.error (.eval e), s)
      | .ok context => (.ok (s.describe value), { s with context })

/-- Carries out a line that has something in it. -/
def carryOut (s : Session) (line : List Char) : Except QueryError String × Session :=
  match Text.behind? ":set " line with
  | some binding => s.assign (String.ofList binding)
  | none =>
    let (result, s) := s.evaluate (String.ofList line)
    (result.map s.describe, s)

/-- Takes a line. Blanks around it do not count. -/
def take (s : Session) (line : String) : Reply × Session :=
  let line := Text.trim line.toList
  if line.isEmpty then (.silence, s)
  else if line = ":quit".toList || line = ":q".toList then (.done, s)
  else
    match s.carryOut line with
    | (.ok text, s) => (.text text, s)
    | (.error .crash, s) => (.crash, s)
    | (.error e, s) => (.text ("error: " ++ e.message), s)

/-- The replies to lines, up to the one that ends the session. -/
def replies (s : Session) : List String → List Reply
  | [] => []
  | line :: lines =>
    let (reply, s) := s.take line
    reply :: if reply.isLast then [] else s.replies lines

/-- What is shown from the start of a session to its end: a prompt in front of each reply, and one
more if the lines end before the session. -/
def transcript (s : Session) (input : String) : String :=
  let replies := s.replies (Text.lines input)
  String.join (replies.map fun r => prompt ++ r.shown) ++
    if replies.getLast?.any Reply.isLast then "" else prompt

/-- Whether the program stops in the middle of a session. -/
def crashes (s : Session) (input : String) : Bool :=
  (s.replies (Text.lines input)).getLast? == some .crash

end Session

end TreeQuery
